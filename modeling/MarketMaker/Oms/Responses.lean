import MarketMaker.Oms.OrderTable

/-!
# The orders as a map, and sequences of responses

Through its index the order management system is a map from link ids to orders.  The lemmas below
say what each operation does to that map.  `respond` processes a sequence of events; it never adds
an order, and it commutes with storing an order that none of the events is about.
-/

namespace MarketMaker

variable {F : Type}

namespace OrderManagementSystem

variable {initial : UInt64} {oms : OrderManagementSystem F} {id : UInt64} {stored : Order F}

theorem order_eq_some : oms.order id = some stored ↔
    ∃ slabId, oms.idMap.lookup id = some slabId ∧ oms.orders[slabId]? = some stored :=
  Option.bind_eq_some_iff

theorem orderLinkId_of_order (hindexed : oms.Indexed initial)
    (horder : oms.order id = some stored) : stored.orderLinkId = id := by
  obtain ⟨slabId, hlookup, hslab⟩ := order_eq_some.mp horder
  rw [hindexed.orderLinkId slabId stored hslab, (hindexed.lookup_some id slabId hlookup).2]

theorem mem_idMap_of_order (horder : oms.order id = some stored) : id ∈ oms.idMap := by
  obtain ⟨slabId, hlookup, -⟩ := order_eq_some.mp horder
  exact Finmap.mem_iff.mpr ⟨slabId, hlookup⟩

/-- Before the counter wraps the stored orders are those of the map. -/
theorem mem_orders_iff (hindexed : oms.Indexed initial) (hlength : oms.orders.length ≤ 2 ^ 64) :
    stored ∈ oms.orders ↔ oms.order stored.orderLinkId = some stored := by
  constructor
  · intro hmem
    obtain ⟨slabId, hslab⟩ := List.mem_iff_getElem?.mp hmem
    have hlt : slabId < oms.orders.length := (List.getElem?_eq_some_iff.mp hslab).1
    apply order_eq_some.mpr
    rw [hindexed.orderLinkId slabId stored hslab]
    exact ⟨slabId, hindexed.lookup_linkId hlength hlt, hslab⟩
  · intro horder
    obtain ⟨slabId, -, hslab⟩ := order_eq_some.mp horder
    exact List.mem_of_getElem? hslab

/-- Before the counter wraps no two stored orders share a link id. -/
theorem nodup_orderLinkId (hindexed : oms.Indexed initial)
    (hlength : oms.orders.length ≤ 2 ^ 64) : (oms.orders.map Order.orderLinkId).Nodup := by
  have hids : oms.orders.map Order.orderLinkId =
      (List.range oms.orders.length).map (linkId initial) := by
    apply List.ext_getElem (by simp)
    intro slabId hleft hright
    have hlt : slabId < oms.orders.length := by simpa using hleft
    simpa using hindexed.orderLinkId slabId _ (List.getElem?_eq_getElem hlt)
  rw [hids]
  exact nodup_linkIds initial hlength

/-- Before the counter wraps the next link id is unused. -/
theorem idGenerator_notMem (hindexed : oms.Indexed initial)
    (hlength : oms.orders.length < 2 ^ 64) : oms.idGenerator ∉ oms.idMap := by
  intro hmem
  obtain ⟨k, hk, heq⟩ := hindexed.mem_idMap_iff.mp hmem
  rw [hindexed.generator] at heq
  have hsame := linkId_inj hlength (by omega) heq
  omega

theorem ne_idGenerator_of_mem (hindexed : oms.Indexed initial)
    (hlength : oms.orders.length < 2 ^ 64) (hmem : id ∈ oms.idMap) : id ≠ oms.idGenerator := by
  intro heq
  exact idGenerator_notMem hindexed hlength (heq ▸ hmem)

theorem order_setOrder (hindexed : oms.Indexed initial) {slabId : ℕ}
    (hlookup : oms.idMap.lookup id = some slabId) (hslab : oms.orders[slabId]? = some stored)
    (changed : Order F) (other : UInt64) :
    (oms.setOrder slabId changed).order other =
      if other = id then some changed else oms.order other := by
  have hlt : slabId < oms.orders.length := (List.getElem?_eq_some_iff.mp hslab).1
  rw [order, idMap_setOrder, orders_setOrder]
  split_ifs with hother
  · rw [hother, hlookup, Option.bind_some, List.getElem?_set_self hlt]
  · rw [order]
    apply Option.bind_congr
    intro otherSlab hotherSlab
    have hne : slabId ≠ otherSlab := by
      rintro rfl
      exact hother ((hindexed.lookup_some other slabId hotherSlab).2.trans
        (hindexed.lookup_some id slabId hlookup).2.symm)
    exact List.getElem?_set_ne hne

theorem order_store (hindexed : oms.Indexed initial) (stored : Order F) (other : UInt64) :
    (oms.store stored).order other =
      if other = oms.idGenerator then some stored else oms.order other := by
  rw [order, orders_store]
  split_ifs with hother
  · rw [hother, lookup_store_self, Option.bind_some, List.getElem?_concat_length]
  · rw [lookup_store_of_ne oms stored hother, order]
    apply Option.bind_congr
    intro slabId hlookup
    exact List.getElem?_append_left (hindexed.lookup_some other slabId hlookup).1

/-! ## One event -/

/-- An update that is not stale writes its own order only. -/
theorem order_handleOrderUpdate (hindexed : oms.Indexed initial) {message : OrderUpdate F}
    (horder : oms.order message.orderLinkId = some stored)
    (hrecent : ¬message.updatedTime < stored.updatedTime) (other : UInt64) :
    (oms.handleOrderUpdate message).order other =
      if other = message.orderLinkId then some (stored.copyUpdate message)
      else oms.order other := by
  obtain ⟨slabId, hlookup, hslab⟩ := order_eq_some.mp horder
  rw [handleOrderUpdate, hlookup]
  simp only [hslab, if_neg hrecent]
  exact order_setOrder hindexed hlookup hslab _ other

/-- A failure rejects the order it is about as long as nothing else was heard of it. -/
theorem order_handleSubmissionFailure (hindexed : oms.Indexed initial)
    (horder : oms.order id = some stored) (hstatus : stored.orderStatus = .submitted)
    (other : UInt64) : (oms.handleSubmissionFailure id).order other =
      if other = id then some { stored with orderStatus := .rejected } else oms.order other := by
  obtain ⟨slabId, hlookup, hslab⟩ := order_eq_some.mp horder
  rw [handleSubmissionFailure, hlookup]
  simp only [hslab, hstatus, ne_eq, not_true_eq_false, if_false]
  exact order_setOrder hindexed hlookup hslab _ other

theorem setOrder_store (oms : OrderManagementSystem F) (stored changed : Order F) {slabId : ℕ}
    (hlt : slabId < oms.orders.length) :
    (oms.store stored).setOrder slabId changed = (oms.setOrder slabId changed).store stored := by
  simp [setOrder, store, List.set_append_left _ _ hlt]

theorem metrics_handleOrderUpdate (oms : OrderManagementSystem F) (message : OrderUpdate F) :
    (oms.handleOrderUpdate message).metrics = oms.metrics ∧
      (oms.handleOrderUpdate message).processedExecutions = oms.processedExecutions := by
  obtain ⟨slabId, oldOrder, -, heq⟩ | ⟨-, heq⟩ := oms.handleOrderUpdate_cases message <;> simp [heq]

theorem metrics_handleSubmissionFailure (oms : OrderManagementSystem F) (id : UInt64) :
    (oms.handleSubmissionFailure id).metrics = oms.metrics ∧
      (oms.handleSubmissionFailure id).processedExecutions = oms.processedExecutions := by
  obtain ⟨slabId, oldOrder, -, heq⟩ | ⟨-, heq⟩ := oms.handleSubmissionFailure_cases id <;>
    simp [heq]

/-- A stored order does not change whether an execution of another one counts. -/
theorem acceptsExecution_store (hindexed : oms.Indexed initial) (stored : Order F)
    (order : OrderExecution F) (hother : order.orderLinkId ≠ oms.idGenerator) :
    (oms.store stored).AcceptsExecution order ↔ oms.AcceptsExecution order := by
  have hkey : (∃ slabId, oms.idMap.lookup order.orderLinkId = some slabId ∧
        slabId < (oms.store stored).orders.length) ↔
      ∃ slabId, oms.idMap.lookup order.orderLinkId = some slabId ∧
        slabId < oms.orders.length := by
    apply exists_congr
    intro slabId
    apply and_congr_right
    intro hsome
    have hlt := (hindexed.lookup_some _ slabId hsome).1
    exact iff_of_true (by simp [Nat.lt_succ_of_lt hlt]) hlt
  rw [AcceptsExecution, AcceptsExecution, lookup_store_of_ne oms stored hother, hkey,
    processedExecutions_store]

variable [F64 F] [Add F] [Sub F] [Mul F] [Div F] [LT F] [DecidableLT F] [BEq F] [OfScientific F]

/-- A new execution of a stored order is counted. -/
theorem handleExecutionUpdate_of_order (hindexed : oms.Indexed initial)
    {execution : OrderExecution F} (horder : oms.order execution.orderLinkId = some stored)
    (hid : execution.execId ≠ "")
    (hnew : (execution.orderLinkId, execution.execId) ∉ oms.processedExecutions) :
    (oms.handleExecutionUpdate execution).1 = oms.account execution := by
  obtain ⟨slabId, hlookup, -⟩ := order_eq_some.mp horder
  have haccept : oms.AcceptsExecution execution :=
    ⟨hid, ⟨slabId, hlookup, (hindexed.lookup_some _ slabId hlookup).1⟩, hnew⟩
  obtain ⟨-, heq⟩ | ⟨hreject, -⟩ := oms.handleExecutionUpdate_cases execution
  · rw [heq]
  · exact absurd haccept hreject

theorem transition_orderResponse (oms : OrderManagementSystem F) (event : OrderEvent F) :
    oms.Transition (.event event) (oms.orderResponse event).1 (oms.orderResponse event).2 :=
  transition_of_step rfl

theorem Transition.keeps_table {next : OrderManagementSystem F} {event : OrderEvent F}
    {effects : List (Effect F)} (htransition : oms.Transition (.event event) next effects) :
    next.idGenerator = oms.idGenerator ∧ next.idMap = oms.idMap ∧
      next.orders.length = oms.orders.length := by
  cases htransition with
  | update | failure => simp
  | execution | discard => exact ⟨rfl, rfl, rfl⟩

/-- Storing an order commutes with an event about another one. -/
theorem orderResponse_store (hindexed : oms.Indexed initial) (stored : Order F)
    {event : OrderEvent F} (hother : event.orderLinkId ≠ oms.idGenerator) :
    ((oms.store stored).orderResponse event).1 = (oms.orderResponse event).1.store stored := by
  have hlookup := lookup_store_of_ne oms stored hother
  have hslab : ∀ slabId, oms.idMap.lookup event.orderLinkId = some slabId →
      slabId < oms.orders.length ∧ (oms.orders ++ [stored])[slabId]? = oms.orders[slabId]? := by
    intro slabId hsome
    have hlt := (hindexed.lookup_some _ slabId hsome).1
    exact ⟨hlt, List.getElem?_append_left hlt⟩
  cases event with
  | orderUpdate order =>
    simp only [orderResponse, handleOrderUpdate, OrderEvent.orderLinkId, orders_store] at *
    rw [hlookup]
    cases hsome : oms.idMap.lookup order.orderLinkId with
    | none => rfl
    | some slabId =>
      obtain ⟨hlt, hget⟩ := hslab slabId hsome
      simp only [hget, List.getElem?_eq_getElem hlt]
      split_ifs
      · rfl
      · exact setOrder_store oms stored _ hlt
  | executionUpdate order =>
    have hsame := acceptsExecution_store hindexed stored order hother
    simp only [orderResponse]
    obtain ⟨haccept, heq⟩ | ⟨hreject, heq⟩ := oms.handleExecutionUpdate_cases order <;>
      obtain ⟨haccept', heq'⟩ | ⟨hreject', heq'⟩ :=
        (oms.store stored).handleExecutionUpdate_cases order <;> rw [heq, heq']
    · rfl
    · exact absurd (hsame.mpr haccept) hreject'
    · exact absurd (hsame.mp haccept') hreject
  | submissionFailed orderLinkId =>
    simp only [orderResponse, handleSubmissionFailure, OrderEvent.orderLinkId, orders_store] at *
    rw [hlookup]
    cases hsome : oms.idMap.lookup orderLinkId with
    | none => rfl
    | some slabId =>
      obtain ⟨hlt, hget⟩ := hslab slabId hsome
      simp only [hget, List.getElem?_eq_getElem hlt]
      split_ifs
      · rfl
      · exact setOrder_store oms stored _ hlt

/-! ## Sequences of events -/

def respond (oms : OrderManagementSystem F) (events : List (OrderEvent F)) :
    OrderManagementSystem F :=
  events.foldl (fun oms event ↦ (oms.orderResponse event).1) oms

@[simp]
theorem respond_nil (oms : OrderManagementSystem F) : oms.respond [] = oms := rfl

@[simp]
theorem respond_cons (oms : OrderManagementSystem F) (event : OrderEvent F)
    (events : List (OrderEvent F)) :
    oms.respond (event :: events) = (oms.orderResponse event).1.respond events := rfl

theorem respond_append (oms : OrderManagementSystem F) (first second : List (OrderEvent F)) :
    oms.respond (first ++ second) = (oms.respond first).respond second :=
  List.foldl_append

theorem respond_keeps_table (oms : OrderManagementSystem F) (events : List (OrderEvent F)) :
    (oms.respond events).idGenerator = oms.idGenerator ∧ (oms.respond events).idMap = oms.idMap ∧
      (oms.respond events).orders.length = oms.orders.length := by
  induction events generalizing oms with
  | nil => exact ⟨rfl, rfl, rfl⟩
  | cons event events ih =>
    obtain ⟨hgenerator, hidMap, hlength⟩ := (oms.transition_orderResponse event).keeps_table
    rw [respond_cons, ← hgenerator, ← hidMap, ← hlength]
    exact ih _

theorem Indexed.respond (hindexed : oms.Indexed initial) (events : List (OrderEvent F)) :
    (oms.respond events).Indexed initial := by
  induction events generalizing oms with
  | nil => exact hindexed
  | cons event events ih => exact ih (hindexed.transition (oms.transition_orderResponse event))

/-- Storing an order commutes with events about other orders. -/
theorem respond_store (hindexed : oms.Indexed initial) (stored : Order F)
    {events : List (OrderEvent F)}
    (hother : ∀ event ∈ events, event.orderLinkId ≠ oms.idGenerator) :
    (oms.store stored).respond events = (oms.respond events).store stored := by
  induction events generalizing oms with
  | nil => rfl
  | cons event events ih =>
    have htransition := oms.transition_orderResponse event
    obtain ⟨hgenerator, -, -⟩ := htransition.keeps_table
    rw [respond_cons, respond_cons, orderResponse_store hindexed stored (hother event (by simp))]
    apply ih (hindexed.transition htransition)
    intro later hmem
    rw [hgenerator]
    exact hother later (by simp [hmem])

end OrderManagementSystem

end MarketMaker
