import MarketMaker.Offline.SimulatedExchange
import MarketMaker.Oms.Responses

/-!
# Two copies of the open orders

The order management system and the simulated exchange each keep the open orders, and only the
events in the queue keep the copies together.  `Linked` says that they agree once the queue is
processed, link id by link id.  Each operation of the exchange concerns one link id; the lemmas
below follow one operation through the queue.
-/

namespace MarketMaker

variable {F : Type}

/-- The stored order is the exchange's order, with the price read as a number. -/
structure Order.Mirrors [F64 F] (stored : Order F) (order : OrderBuilder F) : Prop where
  symbol : stored.symbol = order.symbol
  side : stored.side = order.side
  qty : stored.qty = order.qty
  price : orderPrice order = some stored.price

/-- An order that rests at the exchange is stored as acknowledged with the same terms; a stored
order that does not rest is closed. -/
def AgreeOn [F64 F] : Option (Order F) → Option (OrderBuilder F) → Prop
  | some stored, some order => stored.orderStatus = .new ∧ stored.Mirrors order
  | some stored, none => stored.orderStatus.isClosed
  | none, order => order = none

abbrev OpenOrders (F : Type) := Finmap fun _ : UInt64 ↦ OrderBuilder F

def OpenOrders.OnePerSide (openOrders : OpenOrders F) : Prop :=
  ∀ id id' order order', openOrders.lookup id = some order →
    openOrders.lookup id' = some order' → order.side = order'.side → id = id'

/-- What rests after a removal is another order that rested before. -/
theorem OpenOrders.lookup_of_erase {openOrders : OpenOrders F} {id other : UInt64}
    {order : OrderBuilder F} (hlookup : (openOrders.erase id).lookup other = some order) :
    other ≠ id ∧ openOrders.lookup other = some order := by
  by_cases hother : other = id
  · rw [hother, Finmap.lookup_erase] at hlookup
    cases hlookup
  · rw [Finmap.lookup_erase_ne hother] at hlookup
    exact ⟨hother, hlookup⟩

theorem OpenOrders.OnePerSide.erase {openOrders : OpenOrders F} (hone : openOrders.OnePerSide)
    (id : UInt64) : OpenOrders.OnePerSide (openOrders.erase id) := by
  intro first second order order' hfirst hsecond
  apply hone first second order order'
  · exact (OpenOrders.lookup_of_erase hfirst).2
  · exact (OpenOrders.lookup_of_erase hsecond).2

/-- An order may rest if no other one rests on its side. -/
theorem OpenOrders.OnePerSide.insert {openOrders : OpenOrders F} (hone : openOrders.OnePerSide)
    {id : UInt64} {order : OrderBuilder F} (hside : ∀ other order',
      openOrders.lookup other = some order' → order'.side = order.side → other = id) :
    OpenOrders.OnePerSide (openOrders.insert id order) := by
  intro first second order₁ order₂ hfirst hsecond hsame
  by_cases h₁ : first = id <;> by_cases h₂ : second = id
  · rw [h₁, h₂]
  · rw [h₁, Finmap.lookup_insert, Option.some.injEq] at hfirst
    rw [Finmap.lookup_insert_of_ne _ h₂] at hsecond
    exact absurd (hside second order₂ hsecond (hfirst ▸ hsame.symm)) h₂
  · rw [h₂, Finmap.lookup_insert, Option.some.injEq] at hsecond
    rw [Finmap.lookup_insert_of_ne _ h₁] at hfirst
    exact absurd (hside first order₁ hfirst (hsecond ▸ hsame)) h₁
  · rw [Finmap.lookup_insert_of_ne _ h₁] at hfirst
    rw [Finmap.lookup_insert_of_ne _ h₂] at hsecond
    exact hone first second order₁ order₂ hfirst hsecond hsame

/-- The time of the current book, zero before the first one. -/
def SimulatedExchange.currentCts (exchange : SimulatedExchange F) : UInt64 :=
  (exchange.currentBook.map CurrentBook.cts).getD 0

theorem SimulatedExchange.currentCts_eq {exchange : SimulatedExchange F}
    {currentBook : CurrentBook F} (hbook : exchange.currentBook = some currentBook) :
    exchange.currentCts = currentBook.cts := by
  rw [currentCts, hbook]
  rfl

theorem SimulatedExchange.currentCts_congr {exchange next : SimulatedExchange F}
    (hbook : next.currentBook = exchange.currentBook) : next.currentCts = exchange.currentCts := by
  unfold currentCts
  rw [hbook]

/-- The agreement on one link id.  An execution was counted only for an order that rests no
more. -/
structure LinkedAt [F64 F] (id : UInt64) (oms : OrderManagementSystem F)
    (exchange : SimulatedExchange F) : Prop where
  agree : AgreeOn (oms.order id) (exchange.openOrders.lookup id)
  recent : ∀ stored, oms.order id = some stored → stored.updatedTime ≤ exchange.currentCts
  counted : ∀ execId, (id, execId) ∈ oms.processedExecutions →
    (oms.order id).isSome ∧ exchange.openOrders.lookup id = none

/-- The agreement on all orders.  The execution ids in use and the resting orders do not outnumber
the stored orders. -/
structure Linked [F64 F] (initial : UInt64) (oms : OrderManagementSystem F)
    (exchange : SimulatedExchange F) : Prop where
  indexed : oms.Indexed initial
  linkedAt : ∀ id, LinkedAt id oms exchange
  onePerSide : OpenOrders.OnePerSide exchange.openOrders
  executionIds : exchange.nextExecutionId.toNat + exchange.openOrders.keys.card ≤
    oms.orders.length + 1

section Links

variable [F64 F] {initial id : UInt64} {oms oms' : OrderManagementSystem F}
  {exchange next : SimulatedExchange F} {order : OrderBuilder F}

/-- A link id that an operation does not concern stays linked. -/
theorem LinkedAt.congr (hlinked : LinkedAt id oms exchange) (horder : oms'.order id = oms.order id)
    (hopen : next.openOrders.lookup id = exchange.openOrders.lookup id)
    (hcts : exchange.currentCts ≤ next.currentCts)
    (hcounted : ∀ execId, (id, execId) ∈ oms'.processedExecutions →
      (id, execId) ∈ oms.processedExecutions) : LinkedAt id oms' next where
  agree := by
    rw [horder, hopen]
    exact hlinked.agree
  recent := by
    intro stored hstored
    rw [horder] at hstored
    exact UInt64.le_trans (hlinked.recent stored hstored) hcts
  counted := by
    intro execId hmem
    rw [horder, hopen]
    exact hlinked.counted execId (hcounted execId hmem)

/-- After an operation on one link id, the agreement on that link id is the agreement on all. -/
theorem LinkedAt.forall {after : Option (Order F)} (hself : LinkedAt id oms' next)
    (hothers : ∀ other, other ≠ id → LinkedAt other oms exchange)
    (horder : ∀ other, oms'.order other = if other = id then after else oms.order other)
    (hopen : ∀ other, other ≠ id →
      next.openOrders.lookup other = exchange.openOrders.lookup other)
    (hcts : next.currentCts = exchange.currentCts)
    (hcounted : ∀ other execId, other ≠ id → (other, execId) ∈ oms'.processedExecutions →
      (other, execId) ∈ oms.processedExecutions) (other : UInt64) : LinkedAt other oms' next := by
  by_cases hother : other = id
  · rw [hother]
    exact hself
  · apply (hothers other hother).congr ((horder other).trans (if_neg hother)) (hopen other hother)
    · rw [hcts]
      exact UInt64.le_refl _
    · intro execId hmem
      exact hcounted other execId hother hmem

/-- The link says nothing about logs and the queue. -/
theorem Linked.congr (hlinked : Linked initial oms exchange)
    (hopen : next.openOrders = exchange.openOrders)
    (hcts : exchange.currentCts ≤ next.currentCts)
    (hids : next.nextExecutionId = exchange.nextExecutionId) : Linked initial oms next where
  indexed := hlinked.indexed
  linkedAt id := (hlinked.linkedAt id).congr rfl (by rw [hopen]) hcts fun _ hmem ↦ hmem
  onePerSide := hopen ▸ hlinked.onePerSide
  executionIds := by
    rw [hids, hopen]
    exact hlinked.executionIds

/-- A resting order is stored with its terms. -/
theorem Linked.exists_order (hlinked : Linked initial oms exchange)
    (horder : exchange.openOrders.lookup id = some order) :
    ∃ stored, oms.order id = some stored ∧ stored.orderStatus = .new ∧ stored.Mirrors order := by
  have hagree := (hlinked.linkedAt id).agree
  rw [horder] at hagree
  cases hstored : oms.order id with
  | none => simp [AgreeOn, hstored] at hagree
  | some stored =>
    rw [hstored] at hagree
    exact ⟨stored, rfl, hagree⟩

/-- A stored order agrees with what rests under its link id. -/
theorem Linked.agreeOn (hlinked : Linked initial oms exchange)
    (hlength : oms.orders.length ≤ 2 ^ 64) {stored : Order F} (hmem : stored ∈ oms.orders) :
    AgreeOn (some stored) (exchange.openOrders.lookup stored.orderLinkId) := by
  have horder := (OrderManagementSystem.mem_orders_iff hlinked.indexed hlength).mp hmem
  rw [← horder]
  exact (hlinked.linkedAt stored.orderLinkId).agree

/-- An order stored as open rests. -/
theorem Linked.exists_resting (hlinked : Linked initial oms exchange)
    (hlength : oms.orders.length ≤ 2 ^ 64) {stored : Order F} (hmem : stored ∈ oms.orders)
    (hopen : stored.orderStatus.isOpen) :
    ∃ order, exchange.openOrders.lookup stored.orderLinkId = some order ∧
      stored.Mirrors order := by
  have hstored := hlinked.agreeOn hlength hmem
  cases horder : exchange.openOrders.lookup stored.orderLinkId with
  | none => simp [AgreeOn, horder, OrderStatus.isClosed, hopen] at hstored
  | some order =>
    rw [horder] at hstored
    exact ⟨order, rfl, hstored.2⟩

/-- Every submission was answered. -/
theorem Linked.ne_submitted (hlinked : Linked initial oms exchange)
    (hlength : oms.orders.length ≤ 2 ^ 64) {stored : Order F} (hmem : stored ∈ oms.orders) :
    stored.orderStatus ≠ .submitted := by
  have hstored := hlinked.agreeOn hlength hmem
  cases horder : exchange.openOrders.lookup stored.orderLinkId with
  | none =>
    rw [horder] at hstored
    exact OrderStatus.ne_submitted_of_isClosed hstored
  | some order =>
    rw [horder] at hstored
    rw [hstored.1]
    decide

theorem Linked.priced (hlinked : Linked initial oms exchange) : exchange.Priced := by
  intro id order horder
  obtain ⟨stored, -, -, hmirrors⟩ := hlinked.exists_order horder
  exact Option.isSome_iff_exists.mpr ⟨stored.price, hmirrors.price⟩

/-- Nothing rests under a link id that is not in use. -/
theorem Linked.lookup_eq_none (hlinked : Linked initial oms exchange) (hunused : id ∉ oms.idMap) :
    oms.order id = none ∧ exchange.openOrders.lookup id = none := by
  have horder : oms.order id = none := by
    rw [OrderManagementSystem.order, Finmap.lookup_eq_none.mpr hunused, Option.bind_none]
  have hagree := (hlinked.linkedAt id).agree
  rw [horder] at hagree
  exact ⟨horder, hagree⟩

end Links

/-! ## One operation through the queue -/

section Operations

open SimulatedExchange (fillEvents fillExecution fillUpdate)

variable [F64 F] [Add F] [Sub F] [Mul F] [Div F] [LT F] [DecidableLT F] [BEq F] [OfScientific F]
variable {initial id cts : UInt64} {oms : OrderManagementSystem F}
  {exchange next : SimulatedExchange F} {order : OrderBuilder F} {stored : Order F} {price : F}

/-- An order rests and its acknowledgement brings the stored order up to date. -/
theorem Linked.acknowledge (hindexed : oms.Indexed initial)
    (hothers : ∀ other, other ≠ id → LinkedAt other oms exchange)
    (hstored : oms.order id = some stored) (hsymbol : stored.symbol = order.symbol)
    (hside : stored.side = order.side) (hprice : orderPrice order = some price)
    (hrecent : stored.updatedTime ≤ exchange.currentCts)
    (huncounted : ∀ execId, (id, execId) ∉ oms.processedExecutions)
    (hopen : next.openOrders = exchange.openOrders.insert id order)
    (hcts : next.currentCts = exchange.currentCts) (hone : OpenOrders.OnePerSide next.openOrders)
    (hids : next.nextExecutionId.toNat + next.openOrders.keys.card ≤ oms.orders.length + 1) :
    Linked initial
      (oms.respond [newOrderAcknowledgement id order price exchange.currentCts]) next := by
  let message := restingUpdate id order price exchange.currentCts
  have horder := OrderManagementSystem.order_handleOrderUpdate hindexed
    (show oms.order message.orderLinkId = some stored from hstored) (UInt64.not_lt.mpr hrecent)
  obtain ⟨-, hcounted⟩ := oms.metrics_handleOrderUpdate message
  have hlength := (oms.respond_keeps_table [.orderUpdate message]).2.2
  have hafter : (oms.handleOrderUpdate message).order id = some (stored.copyUpdate message) :=
    (horder id).trans (if_pos rfl)
  have hself : LinkedAt id (oms.handleOrderUpdate message) next := by
    constructor
    · rw [hafter, hopen, Finmap.lookup_insert]
      exact ⟨rfl, hsymbol, hside, rfl, hprice⟩
    · intro changed hchanged
      obtain rfl := Option.some.inj (hafter.symm.trans hchanged)
      rw [hcts]
      exact UInt64.le_refl _
    · intro execId hmem
      exact absurd (hcounted ▸ hmem) (huncounted execId)
  refine ⟨hindexed.respond _, hself.forall hothers horder ?_ hcts ?_, hone, hlength.symm ▸ hids⟩
  · intro other hother
    rw [hopen, Finmap.lookup_insert_of_ne _ hother]
  · intro other execId _ hmem
    exact hcounted ▸ hmem

/-- A refused submission leaves the stored order rejected. -/
theorem Linked.reject (hindexed : oms.Indexed initial)
    (hothers : ∀ other, other ≠ id → LinkedAt other oms exchange)
    (hstored : oms.order id = some stored) (hstatus : stored.orderStatus = .submitted)
    (hrecent : stored.updatedTime ≤ exchange.currentCts)
    (huncounted : ∀ execId, (id, execId) ∉ oms.processedExecutions)
    (hnone : exchange.openOrders.lookup id = none)
    (hopen : next.openOrders = exchange.openOrders) (hcts : next.currentCts = exchange.currentCts)
    (hone : OpenOrders.OnePerSide next.openOrders)
    (hids : next.nextExecutionId.toNat + next.openOrders.keys.card ≤ oms.orders.length + 1) :
    Linked initial (oms.respond [.submissionFailed id]) next := by
  have horder := OrderManagementSystem.order_handleSubmissionFailure hindexed hstored hstatus
  obtain ⟨-, hcounted⟩ := oms.metrics_handleSubmissionFailure id
  have hlength := (oms.respond_keeps_table [.submissionFailed id]).2.2
  have hafter : (oms.handleSubmissionFailure id).order id =
      some { stored with orderStatus := .rejected } := (horder id).trans (if_pos rfl)
  have hself : LinkedAt id (oms.handleSubmissionFailure id) next := by
    constructor
    · rw [hafter, hopen, hnone]
      rfl
    · intro changed hchanged
      obtain rfl := Option.some.inj (hafter.symm.trans hchanged)
      rw [hcts]
      exact hrecent
    · intro execId hmem
      exact absurd (hcounted ▸ hmem) (huncounted execId)
  refine ⟨hindexed.respond _, hself.forall hothers horder ?_ hcts ?_, hone, hlength.symm ▸ hids⟩
  · intro other _
    rw [hopen]
  · intro other execId _ hmem
    exact hcounted ▸ hmem

/-- The events of a fill count its execution and write its final state. -/
theorem respond_fillEvents (hindexed : oms.Indexed initial) (hstored : oms.order id = some stored)
    (hrecent : stored.updatedTime ≤ cts)
    (huncounted : ∀ execId, (id, execId) ∉ oms.processedExecutions) (order : OrderBuilder F)
    (price : F) (executionId : UInt64) :
    (∀ other, (oms.respond (fillEvents id order price executionId cts)).order other =
        if other = id then some (stored.copyUpdate (fillUpdate id order price cts))
        else oms.order other) ∧
      (oms.respond (fillEvents id order price executionId cts)).metrics =
        oms.metrics.execute (fillExecution id order price executionId cts) ∧
      (oms.respond (fillEvents id order price executionId cts)).processedExecutions =
        insert (id, (fillExecution id order price executionId cts).execId)
          oms.processedExecutions := by
  let execution := fillExecution id order price executionId cts
  let message := fillUpdate id order price cts
  have hnonempty : execution.execId ≠ "" := by simp [execution, fillExecution]
  have haccount : (oms.handleExecutionUpdate execution).1 = oms.account execution :=
    OrderManagementSystem.handleExecutionUpdate_of_order hindexed hstored hnonempty
      (huncounted execution.execId)
  have hrespond : oms.respond (fillEvents id order price executionId cts) =
      (oms.account execution).handleOrderUpdate message := by
    rw [← haccount]
    rfl
  have haccountIndexed : (oms.account execution).Indexed initial :=
    ⟨hindexed.generator, hindexed.orderLinkId, hindexed.lookup_some, hindexed.lookup_isSome⟩
  obtain ⟨hmetrics, hprocessed⟩ := (oms.account execution).metrics_handleOrderUpdate message
  rw [hrespond, hmetrics, hprocessed]
  refine ⟨fun other ↦ ?_, rfl, rfl⟩
  exact OrderManagementSystem.order_handleOrderUpdate haccountIndexed
    (show (oms.account execution).order message.orderLinkId = some stored from hstored)
    (UInt64.not_lt.mpr hrecent) other

/-- A filled order rests no more, its execution is counted and the stored order is closed. -/
theorem Linked.fill (hlinked : Linked initial oms exchange)
    (horder : exchange.openOrders.lookup id = some order) (hlength : oms.orders.length + 1 < 2 ^ 64)
    (price : F) (executionId : UInt64) (hopen : next.openOrders = exchange.openOrders.erase id)
    (hcts : next.currentCts = exchange.currentCts)
    (hids : next.nextExecutionId = exchange.nextExecutionId + 1) :
    Linked initial (oms.respond (fillEvents id order price executionId exchange.currentCts)) next ∧
      (oms.respond (fillEvents id order price executionId exchange.currentCts)).metrics =
        oms.metrics.execute (fillExecution id order price executionId exchange.currentCts) := by
  obtain ⟨stored, hstored, -, hmirrors⟩ := hlinked.exists_order horder
  have huncounted : ∀ execId, (id, execId) ∉ oms.processedExecutions := by
    intro execId hmem
    have hnone := ((hlinked.linkedAt id).counted execId hmem).2
    simp [horder] at hnone
  obtain ⟨hafter, hmetrics, hprocessed⟩ := respond_fillEvents hlinked.indexed hstored
    ((hlinked.linkedAt id).recent stored hstored) huncounted order price executionId
  have hcard : next.openOrders.keys.card + 1 = exchange.openOrders.keys.card := by
    rw [hopen, Finmap.keys_erase]
    exact Finset.card_erase_add_one (SortedMap.mem_keys_of_lookup horder)
  have hbound := hlinked.executionIds
  have hnextId : next.nextExecutionId.toNat = exchange.nextExecutionId.toNat + 1 := by
    rw [hids, UInt64.toNat_add]
    exact Nat.mod_eq_of_lt (by simp; omega)
  have hfilled := (hafter id).trans (if_pos rfl)
  have hself : LinkedAt id
      (oms.respond (fillEvents id order price executionId exchange.currentCts)) next := by
    constructor
    · rw [hfilled, hopen, Finmap.lookup_erase]
      rfl
    · intro changed hchanged
      obtain rfl := Option.some.inj (hfilled.symm.trans hchanged)
      rw [hcts]
      exact UInt64.le_refl _
    · intro execId _
      rw [hfilled, hopen, Finmap.lookup_erase]
      exact ⟨rfl, rfl⟩
  refine ⟨⟨hlinked.indexed.respond _, ?_, ?_, ?_⟩, hmetrics⟩
  · apply hself.forall (fun other _ ↦ hlinked.linkedAt other) hafter _ hcts
    · intro other execId hother hmem
      rw [hprocessed, Finset.mem_insert] at hmem
      exact hmem.resolve_left fun heq ↦ hother (congrArg Prod.fst heq)
    · intro other hother
      rw [hopen, Finmap.lookup_erase_ne hother]
  · rw [hopen]
    exact hlinked.onePerSide.erase id
  · rw [(oms.respond_keeps_table _).2.2, hnextId]
    omega

end Operations

end MarketMaker
