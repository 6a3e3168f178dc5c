import MarketMaker.Offline.Agreement

/-!
# The closed loop

Between two drains the order management system lags behind the exchange by the events in the queue.
`Balanced` says that processing the queue closes the gap; matching keeps it.  While the orders of
the strategy are forwarded, `Coupled` says in addition what the order management system can rely on
before the drain: an order that rests is stored as open, so the risk manager sees every occupied
side, and the queue holds no executions, so it sees the inventory.

A property of the metrics and the resting orders is carried along: it may use that a new order met
the limits of the risk manager.
-/

namespace MarketMaker

variable {F : Type}

/-- With one more order that is stored as open, every order that rests still is. -/
theorem opened_insert {oms : OrderManagementSystem F} {openOrders : OpenOrders F} {id : UInt64}
    {order : OrderBuilder F}
    (hself : ∃ stored, oms.order id = some stored ∧ stored.orderStatus.isOpen ∧
      stored.side = order.side)
    (hothers : ∀ other resting, openOrders.lookup other = some resting → ∃ stored,
      oms.order other = some stored ∧ stored.orderStatus.isOpen ∧ stored.side = resting.side)
    (other : UInt64) (resting : OrderBuilder F)
    (hresting : (openOrders.insert id order).lookup other = some resting) : ∃ stored,
      oms.order other = some stored ∧ stored.orderStatus.isOpen ∧
        stored.side = resting.side := by
  by_cases hid : other = id
  · rw [hid, Finmap.lookup_insert, Option.some.injEq] at hresting
    rw [hid, ← hresting]
    exact hself
  · rw [Finmap.lookup_insert_of_ne _ hid] at hresting
    exact hothers other resting hresting

section Queue

variable [F64 F] [Add F] [Sub F] [Mul F] [Div F] [LT F] [DecidableLT F] [BEq F] [OfScientific F]

/-- Processing the queue closes the gap between the copies and counts the queued executions. -/
structure Balanced (initial : UInt64) (safe : Metrics F → OpenOrders F → Prop)
    (oms : OrderManagementSystem F) (exchange : SimulatedExchange F) : Prop where
  linked : Linked initial (oms.respond exchange.pendingEvents) exchange
  counted : (oms.respond exchange.pendingEvents).metrics =
    (executions exchange.pendingEvents).foldl Metrics.execute oms.metrics
  safe : safe (oms.respond exchange.pendingEvents).metrics exchange.openOrders

variable {initial id : UInt64} {allowed : OrderBuilder F → Prop}
  {safe : Metrics F → OpenOrders F → Prop} {oms : OrderManagementSystem F}
  {exchange : SimulatedExchange F} {currentBook : CurrentBook F} {order : OrderBuilder F}
  {stored : Order F}

/-- Before the drain: the queue holds no executions and only answers to stored orders, and an order
that rests is stored as open. -/
structure Coupled (initial : UInt64) (safe : Metrics F → OpenOrders F → Prop)
    (oms : OrderManagementSystem F) (exchange : SimulatedExchange F) : Prop where
  indexed : oms.Indexed initial
  balanced : Balanced initial safe oms exchange
  quiet : executions exchange.pendingEvents = []
  issued : ∀ event ∈ exchange.pendingEvents, event.orderLinkId ∈ oms.idMap
  opened : ∀ id order, exchange.openOrders.lookup id = some order → ∃ stored,
    oms.order id = some stored ∧ stored.orderStatus.isOpen ∧ stored.side = order.side

theorem Coupled.metrics_eq (hcoupled : Coupled initial safe oms exchange) :
    (oms.respond exchange.pendingEvents).metrics = oms.metrics := by
  rw [hcoupled.balanced.counted, hcoupled.quiet, List.foldl_nil]

/-- A side without an open stored order has no resting order. -/
theorem Coupled.no_resting_order (hcoupled : Coupled initial safe oms exchange) {side : OrderSide}
    (hnone : RiskManager.getExistingOrder oms.orders side = none)
    (horder : exchange.openOrders.lookup id = some order) : order.side ≠ side := by
  intro hside
  obtain ⟨stored, hstored, hopen, hsame⟩ := hcoupled.opened id order horder
  obtain ⟨slabId, -, hslab⟩ := OrderManagementSystem.order_eq_some.mp hstored
  have hclosed := RiskManager.getExistingOrder_eq_none.mp hnone stored
    (List.mem_of_getElem? hslab) (hsame.trans hside)
  simp [hclosed] at hopen

/-- A request after which the queue ends with an answer that is no execution. -/
theorem Coupled.answer {oms' : OrderManagementSystem F} {next : SimulatedExchange F}
    (event : OrderEvent F) (hcoupled : Coupled initial safe oms exchange)
    (hindexed : oms'.Indexed initial) (hidMap : ∀ id ∈ oms.idMap, id ∈ oms'.idMap)
    (hevent : executions [event] = []) (hid : event.orderLinkId ∈ oms'.idMap)
    (hpending : next.pendingEvents = exchange.pendingEvents ++ [event])
    (hlinked : Linked initial (oms'.respond next.pendingEvents) next)
    (hmetrics : (oms'.respond next.pendingEvents).metrics = oms'.metrics)
    (hsafe : safe oms'.metrics next.openOrders)
    (hopened : ∀ id order, next.openOrders.lookup id = some order → ∃ stored,
      oms'.order id = some stored ∧ stored.orderStatus.isOpen ∧ stored.side = order.side) :
    Coupled initial safe oms' next where
  indexed := hindexed
  balanced := by
    refine ⟨hlinked, ?_, hmetrics ▸ hsafe⟩
    rw [hmetrics, hpending, executions_append, hcoupled.quiet, hevent]
    rfl
  quiet := by rw [hpending, executions_append, hcoupled.quiet, hevent, List.append_nil]
  issued := by
    intro answer hmem
    rw [hpending] at hmem
    rcases List.mem_append.mp hmem with hmem | hmem
    · exact hidMap _ (hcoupled.issued answer hmem)
    · rwa [List.mem_singleton.mp hmem]
  opened := hopened

/-- The logs do not matter. -/
theorem Coupled.congr {next : SimulatedExchange F} (hcoupled : Coupled initial safe oms exchange)
    (hopen : next.openOrders = exchange.openOrders)
    (hpending : next.pendingEvents = exchange.pendingEvents)
    (hcts : next.currentCts = exchange.currentCts)
    (hids : next.nextExecutionId = exchange.nextExecutionId) : Coupled initial safe oms next where
  indexed := hcoupled.indexed
  balanced := by
    refine ⟨?_, ?_, ?_⟩ <;> rw [hpending]
    · exact hcoupled.balanced.linked.congr hopen (hcts ▸ UInt64.le_refl _) hids
    · exact hcoupled.balanced.counted
    · exact hopen ▸ hcoupled.balanced.safe
  quiet := hpending ▸ hcoupled.quiet
  issued := hpending ▸ hcoupled.issued
  opened := hopen ▸ hcoupled.opened

/-! ## Answers to submissions -/

/-- The new order behind the queue: every other link id is as before, and nothing was heard of the
new one. -/
theorem Coupled.drained_store (hcoupled : Coupled initial safe oms exchange)
    (hlength : oms.orders.length < 2 ^ 64) (hid : stored.orderLinkId = oms.idGenerator) :
    let drained := (oms.respond exchange.pendingEvents).store stored
    (oms.store stored).respond exchange.pendingEvents = drained ∧ drained.Indexed initial ∧
      (∀ other, other ≠ oms.idGenerator → LinkedAt other drained exchange) ∧
      drained.order oms.idGenerator = some stored ∧
      (∀ execId, (oms.idGenerator, execId) ∉ drained.processedExecutions) ∧
      exchange.openOrders.lookup oms.idGenerator = none := by
  intro drained
  have hlinked := hcoupled.balanced.linked
  obtain ⟨hgenerator, hidMap, -⟩ := oms.respond_keeps_table exchange.pendingEvents
  have hunused : oms.idGenerator ∉ (oms.respond exchange.pendingEvents).idMap := by
    rw [hidMap]
    exact OrderManagementSystem.idGenerator_notMem hcoupled.indexed hlength
  obtain ⟨hunstored, hunopened⟩ := hlinked.lookup_eq_none hunused
  have horder := OrderManagementSystem.order_store hlinked.indexed stored
  rw [hgenerator] at horder
  refine ⟨?_, ?_, ?_, (horder _).trans (if_pos rfl), ?_, hunopened⟩
  · apply OrderManagementSystem.respond_store hcoupled.indexed
    intro event hmem
    exact OrderManagementSystem.ne_idGenerator_of_mem hcoupled.indexed hlength
      (hcoupled.issued event hmem)
  · exact hlinked.indexed.store (hid.trans hgenerator.symm)
  · intro other hother
    exact (hlinked.linkedAt other).congr ((horder other).trans (if_neg hother)) rfl
      (UInt64.le_refl _) fun _ hmem ↦ hmem
  · intro execId hmem
    have hsome := ((hlinked.linkedAt oms.idGenerator).counted execId hmem).1
    simp [hunstored] at hsome

/-- Storing a new order hides no open one. -/
theorem Coupled.opened_store (hcoupled : Coupled initial safe oms exchange)
    (hlength : oms.orders.length < 2 ^ 64) (stored : Order F)
    (horder : exchange.openOrders.lookup id = some order) :
    ∃ stored', (oms.store stored).order id = some stored' ∧ stored'.orderStatus.isOpen ∧
      stored'.side = order.side := by
  obtain ⟨stored', hstored', hopen⟩ := hcoupled.opened id order horder
  have hother : id ≠ oms.idGenerator :=
    OrderManagementSystem.ne_idGenerator_of_mem hcoupled.indexed hlength
      (OrderManagementSystem.mem_idMap_of_order hstored')
  refine ⟨stored', ?_, hopen⟩
  rw [OrderManagementSystem.order_store hcoupled.indexed, if_neg hother]
  exact hstored'

/-- The refusal of a submission rejects the order that was just stored. -/
theorem Coupled.refuse {next : SimulatedExchange F} (hcoupled : Coupled initial safe oms exchange)
    (hlength : oms.orders.length < 2 ^ 64) (hbuild : order.build oms.idGenerator = some stored)
    (hbook : next.currentBook = exchange.currentBook)
    (hids : next.nextExecutionId = exchange.nextExecutionId)
    (hopen : next.openOrders = exchange.openOrders)
    (hpending : next.pendingEvents =
      exchange.pendingEvents ++ [.submissionFailed oms.idGenerator]) :
    Coupled initial safe (oms.store stored) next := by
  obtain ⟨hid, hstatus, -, -, -, -, -, htime⟩ := OrderBuilder.build_eq_some hbuild
  obtain ⟨hrespond, hindexed, hothers, hself, huncounted, hunopened⟩ :=
    hcoupled.drained_store hlength hid
  have hlinked := hcoupled.balanced.linked
  have hbound := hlinked.executionIds
  have hrecent : stored.updatedTime ≤ exchange.currentCts := htime ▸ UInt64.zero_le
  apply hcoupled.answer (.submissionFailed oms.idGenerator) (hcoupled.indexed.store hid)
    (fun id hmem ↦ Finmap.mem_insert.mpr (.inr hmem)) rfl (Finmap.mem_insert.mpr (.inl rfl))
    hpending
  · rw [hpending, OrderManagementSystem.respond_append, hrespond]
    apply Linked.reject hindexed hothers hself hstatus hrecent huncounted hunopened hopen
      (SimulatedExchange.currentCts_congr hbook) (hopen ▸ hlinked.onePerSide)
    rw [hids, hopen, OrderManagementSystem.orders_store, List.length_append]
    omega
  · rw [hpending, OrderManagementSystem.respond_append, hrespond]
    exact (OrderManagementSystem.metrics_handleSubmissionFailure _ _).1.trans hcoupled.metrics_eq
  · rw [hopen]
    exact hcoupled.metrics_eq ▸ hcoupled.balanced.safe
  · intro id order horder
    rw [hopen] at horder
    exact hcoupled.opened_store hlength stored horder

variable [LE F] [Neg F]

/-- A property of the metrics and the resting orders is kept by fills, by new orders that met the
limits, and by amendments. -/
structure Kept (allowed : OrderBuilder F → Prop) (safe : Metrics F → OpenOrders F → Prop) :
    Prop where
  fill : ∀ metrics openOrders id order price executionId cts, safe metrics openOrders →
    OpenOrders.OnePerSide openOrders → openOrders.lookup id = some order →
    safe (metrics.execute (SimulatedExchange.fillExecution id order price executionId cts))
      (openOrders.erase id)
  submit : ∀ metrics openOrders id order, safe metrics openOrders → allowed order →
    ¬(metrics.inventory ≥ maxInventory ∧ order.side = .buy) →
    ¬(metrics.inventory ≤ minInventory ∧ order.side = .sell) →
    safe metrics (openOrders.insert id order)
  amend : ∀ metrics openOrders id existingOrder order amendment, safe metrics openOrders →
    openOrders.lookup id = some existingOrder → allowed order → amendment.qty = order.qty →
    safe metrics (openOrders.insert id (SimulatedExchange.amended existingOrder amendment))

/-- The acceptance of a submission acknowledges the order that was just stored. -/
theorem Coupled.accept {next : SimulatedExchange F} (hkept : Kept allowed safe)
    (hcoupled : Coupled initial safe oms exchange) (hlength : oms.orders.length < 2 ^ 64)
    (hallowed : allowed order) (hbuild : order.build oms.idGenerator = some stored)
    (hnone : RiskManager.getExistingOrder oms.orders order.side = none)
    (hmax : ¬(oms.metrics.inventory ≥ maxInventory ∧ order.side = .buy))
    (hmin : ¬(oms.metrics.inventory ≤ minInventory ∧ order.side = .sell))
    (hbook : next.currentBook = exchange.currentBook)
    (hids : next.nextExecutionId = exchange.nextExecutionId)
    (hopen : next.openOrders = exchange.openOrders.insert oms.idGenerator order)
    (hpending : next.pendingEvents = exchange.pendingEvents ++
      [newOrderAcknowledgement oms.idGenerator order stored.price exchange.currentCts]) :
    Coupled initial safe (oms.store stored) next := by
  obtain ⟨hid, hstatus, hsymbol, hside, -, -, hprice, htime⟩ := OrderBuilder.build_eq_some hbuild
  obtain ⟨hrespond, hindexed, hothers, hself, huncounted, -⟩ :=
    hcoupled.drained_store hlength hid
  have hlinked := hcoupled.balanced.linked
  have hbound := hlinked.executionIds
  have hrecent : stored.updatedTime ≤ exchange.currentCts := htime ▸ UInt64.zero_le
  apply hcoupled.answer (newOrderAcknowledgement oms.idGenerator order stored.price
    exchange.currentCts) (hcoupled.indexed.store hid)
    (fun id hmem ↦ Finmap.mem_insert.mpr (.inr hmem)) rfl (Finmap.mem_insert.mpr (.inl rfl))
    hpending
  · rw [hpending, OrderManagementSystem.respond_append, hrespond]
    apply Linked.acknowledge hindexed hothers hself hsymbol hside hprice hrecent huncounted hopen
      (SimulatedExchange.currentCts_congr hbook)
    · rw [hopen]
      apply hlinked.onePerSide.insert
      intro other resting hresting hsame
      exact absurd hsame (hcoupled.no_resting_order hnone hresting)
    · rw [hids, hopen, SortedMap.keys_insert, OrderManagementSystem.orders_store,
        List.length_append]
      have hcard := Finset.card_insert_le oms.idGenerator exchange.openOrders.keys
      simp only [List.length_singleton]
      omega
  · rw [hpending, OrderManagementSystem.respond_append, hrespond]
    exact (OrderManagementSystem.metrics_handleOrderUpdate _ _).1.trans hcoupled.metrics_eq
  · rw [hopen]
    exact hkept.submit _ _ _ _ (hcoupled.metrics_eq ▸ hcoupled.balanced.safe) hallowed hmax hmin
  · rw [hopen]
    apply opened_insert
    · rw [OrderManagementSystem.order_store hcoupled.indexed, if_pos rfl]
      exact ⟨stored, rfl, by simp [hstatus, OrderStatus.isOpen], hside⟩
    · intro other resting hresting
      exact hcoupled.opened_store hlength stored hresting

/-! ## Matching -/

/-- One fill. -/
theorem Balanced.fill (hkept : Kept allowed safe) (hbalanced : Balanced initial safe oms exchange)
    (hlength : oms.orders.length + 1 < 2 ^ 64)
    (horder : exchange.openOrders.lookup id = some order) :
    ∃ next, exchange.fillOrder exchange.currentCts id = some next ∧
      Balanced initial safe oms next ∧ next.openOrders = exchange.openOrders.erase id ∧
      next.currentBook = exchange.currentBook := by
  obtain ⟨price, hprice⟩ := Option.isSome_iff_exists.mp (hbalanced.linked.priced id order horder)
  have hdrained := (oms.respond_keeps_table exchange.pendingEvents).2.2
  have hids : exchange.nextExecutionId.toNat + 1 < 2 ^ 64 := by
    have hcard := Finset.card_pos.mpr ⟨id, SortedMap.mem_keys_of_lookup horder⟩
    have hbound := hbalanced.linked.executionIds
    omega
  obtain ⟨next, hfill, hbook, hnextId, hopen, hpending⟩ :=
    SimulatedExchange.fillOrder_eq_some horder hprice hids
  have hcts := SimulatedExchange.currentCts_congr hbook
  obtain ⟨hlinked, hmetrics⟩ := hbalanced.linked.fill horder (hdrained.symm ▸ hlength) price
    exchange.nextExecutionId hopen hcts hnextId
  refine ⟨next, hfill, ⟨?_, ?_, ?_⟩, hopen, hbook⟩ <;>
    rw [hpending, OrderManagementSystem.respond_append]
  · exact hlinked
  · rw [hmetrics, hbalanced.counted, executions_append, List.foldl_append]
    rfl
  · rw [hmetrics, hopen]
    exact hkept.fill _ _ _ _ _ _ _ hbalanced.safe hbalanced.linked.onePerSide horder

/-- Filling several resting orders. -/
theorem Balanced.fillOrders (hkept : Kept allowed safe)
    (hbalanced : Balanced initial safe oms exchange) (hlength : oms.orders.length + 1 < 2 ^ 64)
    {ids : List UInt64} (hnodup : ids.Nodup)
    (hopen : ∀ id ∈ ids, ∃ order, exchange.openOrders.lookup id = some order) :
    ∃ next, ids.foldlM (SimulatedExchange.fillOrder exchange.currentCts) exchange = some next ∧
      Balanced initial safe oms next ∧ next.currentBook = exchange.currentBook := by
  have hinit : Balanced initial safe oms exchange ∧ exchange.currentBook = exchange.currentBook ∧
      ids.Nodup ∧ ∀ id ∈ ids, ∃ order, exchange.openOrders.lookup id = some order :=
    ⟨hbalanced, rfl, hnodup, hopen⟩
  obtain ⟨next, hnext, hfinal, hbook, -⟩ := Machine.foldlM_total
    (f := SimulatedExchange.fillOrder exchange.currentCts)
    (motive := fun current rest ↦ Balanced initial safe oms current ∧
      current.currentBook = exchange.currentBook ∧ rest.Nodup ∧
      ∀ id ∈ rest, ∃ order, current.openOrders.lookup id = some order) (by
    intro current id rest hcurrent
    obtain ⟨hbalanced, hbook, hnodup, hopen⟩ := hcurrent
    obtain ⟨order, horder⟩ := hopen id (List.mem_cons_self ..)
    obtain ⟨next, hnext, hnextBalanced, hnextOpen, hnextBook⟩ :=
      hbalanced.fill hkept hlength horder
    rw [SimulatedExchange.currentCts_congr hbook] at hnext
    obtain ⟨hnotMem, hrest⟩ := List.nodup_cons.mp hnodup
    refine ⟨next, hnext, hnextBalanced, hnextBook.trans hbook, hrest, fun other hother ↦ ?_⟩
    have hne : other ≠ id := by
      rintro rfl
      exact hnotMem hother
    rw [hnextOpen, Finmap.lookup_erase_ne hne]
    exact hopen other (List.mem_cons_of_mem _ hother)) hinit
  exact ⟨next, hnext, hfinal, hbook⟩

variable [DecidableLE F]

/-- Matching against a book that is not older than the last one. -/
theorem Balanced.matchOrders (hkept : Kept allowed safe)
    (hbalanced : Balanced initial safe oms exchange) (hlength : oms.orders.length + 1 < 2 ^ 64)
    {orderBook : OrderBook F} (hbids : orderBook.bids ≠ []) (hasks : orderBook.asks ≠ [])
    (hcts : exchange.currentCts ≤ orderBook.cts) :
    ∃ next currentBook, exchange.matchOrders orderBook = some next ∧
      Balanced initial safe oms next ∧ next.currentBook = some currentBook ∧
      currentBook.cts = orderBook.cts := by
  obtain ⟨bid, bids, hbid⟩ := List.exists_cons_of_ne_nil hbids
  obtain ⟨ask, asks, hask⟩ := List.exists_cons_of_ne_nil hasks
  let currentBook : CurrentBook F :=
    { bestBid := bid.price, bestAsk := ask.price, cts := orderBook.cts }
  let started := { exchange with currentBook := some currentBook }
  have hofOrderBook : CurrentBook.ofOrderBook orderBook = some currentBook := by
    simp [CurrentBook.ofOrderBook, hbid, hask, currentBook]
  have hstarted : Balanced initial safe oms started :=
    ⟨hbalanced.linked.congr rfl hcts rfl, hbalanced.counted, hbalanced.safe⟩
  obtain ⟨ids, hids, hnodup, hmem⟩ :=
    SimulatedExchange.matchingOrderIds_eq_some hstarted.linked.priced currentBook
  have hopen : ∀ id ∈ ids, ∃ order, started.openOrders.lookup id = some order := by
    intro id hid
    obtain ⟨order, -, horder, -⟩ := (hmem id).mp hid
    exact ⟨order, horder⟩
  obtain ⟨next, hnext, hfinal, hbook⟩ := hstarted.fillOrders hkept hlength hnodup hopen
  refine ⟨next, currentBook, ?_, hfinal, hbook, rfl⟩
  rw [SimulatedExchange.matchOrders, hofOrderBook, Option.bind_some]
  change (started.matchingOrderIds currentBook).bind _ = _
  rw [hids]
  exact hnext

/-! ## Forwarding -/

/-- A submission that the risk manager let pass. -/
theorem Coupled.submit (hkept : Kept allowed safe) (hcoupled : Coupled initial safe oms exchange)
    (hlength : oms.orders.length < 2 ^ 64) (hbook : exchange.currentBook = some currentBook)
    (hallowed : allowed order) (hbuild : order.build oms.idGenerator = some stored)
    (hnone : RiskManager.getExistingOrder oms.orders order.side = none)
    (hmax : ¬(oms.metrics.inventory ≥ maxInventory ∧ order.side = .buy))
    (hmin : ¬(oms.metrics.inventory ≤ minInventory ∧ order.side = .sell)) :
    ∃ next, exchange.submitOrder order oms.idGenerator = some next ∧
      Coupled initial safe (oms.store stored) next ∧ next.currentBook = exchange.currentBook := by
  have hprice : orderPrice order = some stored.price := by
    obtain ⟨-, -, -, -, -, -, hprice, -⟩ := OrderBuilder.build_eq_some hbuild
    exact hprice
  obtain ⟨next, hnext, hnextBook, hids, hcase⟩ :=
    SimulatedExchange.submitOrder_cases hbook hprice oms.idGenerator
  refine ⟨next, hnext, ?_, hnextBook⟩
  obtain ⟨hopen, hpending⟩ | ⟨hopen, hpending⟩ := hcase
  · exact hcoupled.refuse hlength hbuild hnextBook hids hopen hpending
  · rw [← SimulatedExchange.currentCts_eq hbook] at hpending
    exact hcoupled.accept hkept hlength hallowed hbuild hnone hmax hmin hnextBook hids hopen
      hpending

/-- An amendment, of whatever order. -/
theorem Coupled.amend (hkept : Kept allowed safe) (hcoupled : Coupled initial safe oms exchange)
    (hbook : exchange.currentBook = some currentBook) (hallowed : allowed order)
    (hprice : (orderPrice order).isSome) (amendment : OrderAmendedBuilder F)
    (hsame : amendment.price = order.price ∧ amendment.qty = order.qty) :
    ∃ next, exchange.amendOrder amendment = some next ∧
      Coupled initial safe oms next ∧ next.currentBook = exchange.currentBook := by
  have hlinked := hcoupled.balanced.linked
  have hbound := hlinked.executionIds
  obtain ⟨next, hnext, hnextBook, hnextId, hcase⟩ := SimulatedExchange.amendOrder_cases hbook
    hlinked.priced (by rw [hsame.1]; exact hprice)
  have hcts := SimulatedExchange.currentCts_congr hnextBook
  refine ⟨next, hnext, ?_, hnextBook⟩
  obtain ⟨hopen, hpending⟩ | ⟨existingOrder, price, hexisting, hamended, hopen, hpending⟩ := hcase
  · exact hcoupled.congr hopen hpending hcts hnextId
  obtain ⟨stored, hstored, -, hmirrors⟩ := hlinked.exists_order hexisting
  obtain ⟨stored', hstored', hstoredOpen, hstoredSide⟩ := hcoupled.opened _ _ hexisting
  let amendedOrder := SimulatedExchange.amended existingOrder amendment
  have hsymbol : stored.symbol = amendedOrder.symbol := hmirrors.symbol
  have hside : stored.side = amendedOrder.side := hmirrors.side
  have huncounted : ∀ execId, (amendment.orderLinkId, execId) ∉
      (oms.respond exchange.pendingEvents).processedExecutions := by
    intro execId hmem
    have hnone := ((hlinked.linkedAt amendment.orderLinkId).counted execId hmem).2
    simp [hexisting] at hnone
  rw [← SimulatedExchange.currentCts_eq hbook] at hpending
  apply hcoupled.answer (newOrderAcknowledgement amendment.orderLinkId
    amendedOrder price exchange.currentCts) hcoupled.indexed (fun _ hmem ↦ hmem) rfl
    (OrderManagementSystem.mem_idMap_of_order hstored') hpending
  · rw [hpending, OrderManagementSystem.respond_append]
    apply Linked.acknowledge hlinked.indexed (fun other _ ↦ hlinked.linkedAt other) hstored hsymbol
      hside hamended ((hlinked.linkedAt amendment.orderLinkId).recent stored hstored) huncounted
      hopen hcts
    · rw [hopen]
      apply hlinked.onePerSide.insert
      intro other resting hresting hside
      exact hlinked.onePerSide other _ resting existingOrder hresting hexisting hside
    · rw [hnextId, hopen, SortedMap.keys_insert,
        Finset.insert_eq_of_mem (SortedMap.mem_keys_of_lookup hexisting)]
      exact hbound
  · rw [hpending, OrderManagementSystem.respond_append]
    exact (OrderManagementSystem.metrics_handleOrderUpdate _ _).1.trans hcoupled.metrics_eq
  · rw [hopen]
    exact hkept.amend _ _ _ _ _ _ (hcoupled.metrics_eq ▸ hcoupled.balanced.safe) hexisting
      hallowed hsame.2
  · rw [hopen]
    exact opened_insert ⟨stored', hstored', hstoredOpen, hstoredSide⟩ hcoupled.opened

end Queue

end MarketMaker
