import MarketMaker.Offline.ClosedLoop
import MarketMaker.Offline.Runner

/-!
# Whole turns of the offline loop

`Settled` is what holds after every drain: the queue is empty and the copies agree.  A turn keeps
it, so it holds throughout every market.

The link ids never wrap.  A side is submitted at most once in a turn, since a submitted order
occupies it until the drain, and turns in which the strategy is due lie at least a second apart.
-/

namespace MarketMaker

variable {σ F : Type}

def freeSides (orders : List (Order F)) : ℕ :=
  [OrderSide.buy, .sell].countP fun side ↦ (RiskManager.getExistingOrder orders side).isNone

theorem freeSides_le (orders : List (Order F)) : freeSides orders ≤ 2 := List.countP_le_length

/-- Storing an open order on a free side occupies it. -/
theorem freeSides_append {orders : List (Order F)} {stored : Order F}
    (hnone : RiskManager.getExistingOrder orders stored.side = none)
    (hopen : stored.orderStatus.isOpen) :
    freeSides (orders ++ [stored]) + 1 = freeSides orders := by
  have hside := RiskManager.getExistingOrder_append orders hopen
  cases hstored : stored.side <;> rw [hstored] at hnone <;>
    simp [freeSides, List.countP_cons, hside, hstored, hnone, Nat.add_comm]

/-- How many orders can have been submitted when the strategy was last due. -/
def submissionLimit : Option UInt64 → ℕ
  | none => 0
  | some lastCts => 2 * (lastCts.toNat / 1000 + 1)

theorem submissionLimit_lt (lastCts : Option UInt64) : submissionLimit lastCts + 2 < 2 ^ 63 := by
  cases lastCts with
  | none => simp [submissionLimit]
  | some lastCts =>
    have hlt := lastCts.toNat_lt
    simp only [submissionLimit]
    omega

namespace OfflineRunner

/-- After a drain the queue is empty, the copies agree, and the metrics are those of the executions
processed so far. -/
structure Settled [F64 F] [Add F] [Sub F] [Mul F] [Div F] [LT F] [DecidableLT F] [BEq F]
    [OfScientific F] (safe : Metrics F → OpenOrders F → Prop) (runner : OfflineRunner σ F) :
    Prop where
  drained : runner.simulatedExchange.pendingEvents = []
  linked : Linked initialOrderLinkId runner.oms runner.simulatedExchange
  ledger : runner.oms.metrics =
    (executions runner.processedEvents).foldl Metrics.execute (Metrics.new 0.0 0.0)
  safe : safe runner.oms.metrics runner.simulatedExchange.openOrders
  room : runner.oms.orders.length ≤ submissionLimit runner.lastStrategyCts

/-- A due turn may submit an order on each side. -/
theorem submissionLimit_due {runner : OfflineRunner σ F} {orderBook : OrderBook F}
    (hdue : runner.strategyIsDue orderBook) :
    submissionLimit runner.lastStrategyCts + 2 ≤ submissionLimit (some orderBook.cts) := by
  unfold strategyIsDue at hdue
  cases hlast : runner.lastStrategyCts with
  | none => simp [submissionLimit]
  | some lastCts =>
    simp only [hlast, ge_iff_le, decide_eq_true_eq, UInt64.le_iff_toNat_le, toNat_saturatingSub]
      at hdue
    have hinterval : strategyIntervalMs.toNat = 1000 := rfl
    simp only [submissionLimit]
    omega

variable [F64 F] [Add F] [Sub F] [Mul F] [Div F] [LT F] [DecidableLT F] [BEq F] [OfScientific F]
variable {allowed : OrderBuilder F → Prop} {safe : Metrics F → OpenOrders F → Prop}
  {runner : OfflineRunner σ F} {order : OrderBuilder F} {orderBook : OrderBook F}

theorem settled_new (hsafe : safe (Metrics.new 0.0 0.0) ∅) (strategy : σ) :
    Settled safe (new strategy : OfflineRunner σ F) where
  drained := rfl
  linked := by
    refine ⟨OrderManagementSystem.Indexed.new omsConfig, fun id ↦ ⟨rfl, ?_, ?_⟩, ?_, le_refl _⟩
    · intro stored hstored
      simp [new, OrderManagementSystem.new, OrderManagementSystem.order] at hstored
    · intro execId hmem
      simp [new, OrderManagementSystem.new] at hmem
    · intro id id' order order' horder
      simp [new, SimulatedExchange.default] at horder
  ledger := rfl
  safe := hsafe
  room := le_refl _

theorem Settled.balanced (hsettled : Settled safe runner) :
    Balanced initialOrderLinkId safe runner.oms runner.simulatedExchange := by
  refine ⟨?_, ?_, ?_⟩ <;> rw [hsettled.drained]
  · exact hsettled.linked
  · rfl
  · exact hsettled.safe

theorem Settled.coupled (hsettled : Settled safe runner) :
    Coupled initialOrderLinkId safe runner.oms runner.simulatedExchange where
  indexed := hsettled.linked.indexed
  balanced := hsettled.balanced
  quiet := by
    rw [hsettled.drained]
    rfl
  issued := by simp [hsettled.drained]
  opened := by
    intro id order horder
    obtain ⟨stored, hstored, hstatus, hmirrors⟩ := hsettled.linked.exists_order horder
    exact ⟨stored, hstored, by simp [hstatus, OrderStatus.isOpen], hmirrors.side⟩

variable [LE F] [DecidableLE F]

/-- A drain settles what it finds balanced. -/
theorem settled_processExchangeEvents (runner : OfflineRunner σ F)
    (hbalanced : Balanced initialOrderLinkId safe runner.oms runner.simulatedExchange)
    (hledger : runner.oms.metrics =
      (executions runner.processedEvents).foldl Metrics.execute (Metrics.new 0.0 0.0))
    (hroom : runner.oms.orders.length ≤ submissionLimit runner.lastStrategyCts) :
    ∃ next, runner.processExchangeEvents = some next ∧ Settled safe next ∧
      next.lastStrategyCts = runner.lastStrategyCts ∧
      next.simulatedExchange.currentBook = runner.simulatedExchange.currentBook := by
  obtain ⟨repaidCoins, hprocess⟩ := runner.processExchangeEvents_eq_some
  refine ⟨_, hprocess, ⟨rfl, ?_, ?_, hbalanced.safe, ?_⟩, rfl, rfl⟩
  · exact hbalanced.linked.congr rfl (UInt64.le_refl _) rfl
  · exact hbalanced.counted.trans (by rw [hledger, executions_append, List.foldl_append])
  · exact (runner.oms.respond_keeps_table _).2.2.trans_le hroom

variable [Neg F]

/-- Forwarding one order of the strategy. -/
theorem forwardOrder_eq_some (runner : OfflineRunner σ F) (hkept : Kept allowed safe)
    (hcoupled : Coupled initialOrderLinkId safe runner.oms runner.simulatedExchange)
    (hbook : ∃ currentBook, runner.simulatedExchange.currentBook = some currentBook)
    (hallowed : allowed order) (hprice : (orderPrice order).isSome) {limit : ℕ}
    (hroom : runner.oms.orders.length + freeSides runner.oms.orders ≤ limit)
    (hlimit : limit < 2 ^ 64) :
    ∃ oms exchange,
      runner.forwardOrder order = some { runner with oms, simulatedExchange := exchange } ∧
      Coupled initialOrderLinkId safe oms exchange ∧
      exchange.currentBook = runner.simulatedExchange.currentBook ∧
      oms.metrics = runner.oms.metrics ∧ oms.orders.length + freeSides oms.orders ≤ limit := by
  obtain ⟨currentBook, hbook⟩ := hbook
  obtain ⟨outcome, houtcome⟩ := Option.isSome_iff_exists.mp (RiskManager.evaluateOrder_isSome hprice
    runner.oms.orders runner.oms.metrics.inventory runner.oms.metrics.averageEntryPrice)
  rw [forwardOrder, omsStep, OrderManagementSystem.step, OrderManagementSystem.forwardOrders,
    houtcome, Option.bind_some]
  obtain rfl | ⟨rfl, hnone, hmax, hmin⟩ | ⟨price, existingOrder, -, -, -, rfl⟩ :=
    RiskManager.evaluateOrder_cases houtcome
  · exact ⟨runner.oms, runner.simulatedExchange, rfl, hcoupled, rfl, rfl, hroom⟩
  · obtain ⟨stored, hbuild⟩ : ∃ stored, order.build runner.oms.idGenerator = some stored := by
      apply Option.isSome_iff_exists.mp
      rw [OrderBuilder.build, Option.isSome_map]
      exact hprice
    obtain ⟨-, hstatus, -, hside, -⟩ := OrderBuilder.build_eq_some hbuild
    obtain ⟨exchange, hsubmit, hcoupled', hbook'⟩ := hcoupled.submit hkept (by omega) hbook hallowed
      hbuild hnone hmax hmin
    refine ⟨runner.oms.store stored, exchange, ?_, hcoupled', hbook', rfl, ?_⟩
    · simp [OrderManagementSystem.insertNewOrder, hbuild, SimulatedExchange.perform, hsubmit]
    · have hoccupied := freeSides_append (hside ▸ hnone) (by simp [hstatus, OrderStatus.isOpen])
      rw [OrderManagementSystem.orders_store, List.length_append, List.length_singleton]
      omega
  · obtain ⟨exchange, hamend, hcoupled', hbook'⟩ := hcoupled.amend hkept hbook hallowed hprice
      (RiskManager.amendment order price existingOrder) ⟨rfl, rfl⟩
    refine ⟨runner.oms, exchange, ?_, hcoupled', hbook', rfl, hroom⟩
    simp [SimulatedExchange.perform, hamend]

/-- Forwarding all orders of a turn. -/
theorem forwardOrders_eq_some (runner : OfflineRunner σ F) (hkept : Kept allowed safe)
    (hcoupled : Coupled initialOrderLinkId safe runner.oms runner.simulatedExchange)
    (hbook : ∃ currentBook, runner.simulatedExchange.currentBook = some currentBook) {limit : ℕ}
    (hroom : runner.oms.orders.length + freeSides runner.oms.orders ≤ limit)
    (hlimit : limit < 2 ^ 64) {orders : List (OrderBuilder F)}
    (horders : ∀ order ∈ orders, allowed order ∧ (orderPrice order).isSome) :
    ∃ oms exchange,
      orders.foldlM forwardOrder runner = some { runner with oms, simulatedExchange := exchange } ∧
      Coupled initialOrderLinkId safe oms exchange ∧
      exchange.currentBook = runner.simulatedExchange.currentBook ∧
      oms.metrics = runner.oms.metrics ∧ oms.orders.length ≤ limit := by
  let motive (current : OfflineRunner σ F) (rest : List (OrderBuilder F)) : Prop :=
    ∃ oms exchange, current = { runner with oms, simulatedExchange := exchange } ∧
      Coupled initialOrderLinkId safe oms exchange ∧
      exchange.currentBook = runner.simulatedExchange.currentBook ∧
      oms.metrics = runner.oms.metrics ∧ oms.orders.length + freeSides oms.orders ≤ limit ∧
      ∀ order ∈ rest, allowed order ∧ (orderPrice order).isSome
  have hstep : ∀ current order rest, motive current (order :: rest) →
      ∃ next, forwardOrder current order = some next ∧ motive next rest := by
    rintro current order rest
      ⟨oms, exchange, rfl, hcurrent, hcurrentBook, hmetrics, hcurrentRoom, hrest⟩
    obtain ⟨hallowed, hprice⟩ := hrest order (List.mem_cons_self ..)
    obtain ⟨oms', exchange', hforward, hcoupled', hbook', hmetrics', hroom'⟩ := forwardOrder_eq_some
      { runner with oms, simulatedExchange := exchange } hkept hcurrent
      (hcurrentBook ▸ hbook) hallowed hprice hcurrentRoom hlimit
    exact ⟨_, hforward, oms', exchange', rfl, hcoupled', hbook'.trans hcurrentBook,
      hmetrics'.trans hmetrics, hroom', fun later hmem ↦ hrest later (List.mem_cons_of_mem _ hmem)⟩
  obtain ⟨final, hfinal, oms, exchange, rfl, hcoupled', hbook', hmetrics, hroom', -⟩ :=
    Machine.foldlM_total hstep (show motive runner orders from
      ⟨runner.oms, runner.simulatedExchange, rfl, hcoupled, rfl, rfl, hroom, horders⟩)
  exact ⟨oms, exchange, hfinal, hcoupled', hbook', hmetrics, by omega⟩

/-- The books of a market: two sides each. -/
def HasSides (orderBook : OrderBook F) : Prop := orderBook.bids ≠ [] ∧ orderBook.asks ≠ []

/-- The second half of a turn in which the strategy is due. -/
theorem due_eq_some (hkept : Kept allowed safe) {execute : Strategy σ F}
    (hissues : ∀ order, execute.Issues order → allowed order ∧ (orderPrice order).isSome)
    (hsettled : Settled safe runner)
    (hbook : ∃ currentBook, runner.simulatedExchange.currentBook = some currentBook)
    (hdue : runner.strategyIsDue orderBook) (strategy : σ) {orders : List (OrderBuilder F)}
    (horders : ∃ inventory, (execute runner.strategy orderBook inventory).2 = orders) :
    ∃ forwarded next, orders.foldlM forwardOrder
        { runner with strategy, lastStrategyCts := some orderBook.cts } = some forwarded ∧
      forwarded.processExchangeEvents = some next ∧ Settled safe next ∧
      next.simulatedExchange.currentBook = runner.simulatedExchange.currentBook := by
  let due := { runner with strategy, lastStrategyCts := some orderBook.cts }
  have hlimit := submissionLimit_due hdue
  have hlt := submissionLimit_lt (some orderBook.cts)
  have hfree := freeSides_le runner.oms.orders
  have hsettledRoom := hsettled.room
  have hroom : due.oms.orders.length + freeSides due.oms.orders ≤
      submissionLimit (some orderBook.cts) := by
    change runner.oms.orders.length + freeSides runner.oms.orders ≤ _
    omega
  obtain ⟨inventory, rfl⟩ := horders
  obtain ⟨oms, exchange, hforward, hcoupled, hforwardBook, hmetrics, hforwardRoom⟩ :=
    forwardOrders_eq_some due hkept hsettled.coupled hbook hroom (by omega)
      fun order hmem ↦ hissues order ⟨runner.strategy, orderBook, inventory, hmem⟩
  obtain ⟨next, hnext, hnextSettled, -, hnextBook⟩ := settled_processExchangeEvents
    { due with oms, simulatedExchange := exchange } hcoupled.balanced
    (hmetrics.trans hsettled.ledger) hforwardRoom
  exact ⟨_, next, hforward, hnext, hnextSettled, hnextBook.trans hforwardBook⟩

/-- A turn does not abort and leaves settled states after its drains. -/
theorem step_eq_some (hkept : Kept allowed safe) {execute : Strategy σ F}
    (hissues : ∀ order, execute.Issues order → allowed order ∧ (orderPrice order).isSome)
    (hsettled : Settled safe runner)
    (hsides : HasSides orderBook) (hcts : runner.simulatedExchange.currentCts ≤ orderBook.cts) :
    ∃ next drained, runner.step execute orderBook = some (next, drained) ∧
      (Settled safe next ∧ next.simulatedExchange.currentCts = orderBook.cts) ∧
      ∀ state ∈ drained, Settled safe state := by
  have hlimit := submissionLimit_lt runner.lastStrategyCts
  have hroom := hsettled.room
  obtain ⟨exchange, currentBook, hmatch, hbalanced, hbook, hbookCts⟩ :=
    hsettled.balanced.matchOrders hkept (by omega) hsides.1 hsides.2 hcts
  obtain ⟨drained, hprocess, hdrained, -, hdrainedBook⟩ := settled_processExchangeEvents
    { runner with simulatedExchange := exchange } hbalanced hsettled.ledger hroom
  replace hdrainedBook : drained.simulatedExchange.currentBook = some currentBook :=
    hdrainedBook.trans hbook
  have hcurrentCts : ∀ state : OfflineRunner σ F,
      state.simulatedExchange.currentBook = drained.simulatedExchange.currentBook →
      state.simulatedExchange.currentCts = orderBook.cts := by
    intro state hstate
    rw [SimulatedExchange.currentCts_congr hstate, SimulatedExchange.currentCts_eq hdrainedBook]
    exact hbookCts
  rw [step, hmatch, Option.bind_some, hprocess, Option.bind_some]
  cases hdue : drained.strategyIsDue orderBook with
  | false =>
    exact ⟨drained, [drained], rfl, ⟨hdrained, hcurrentCts drained rfl⟩, by simpa using hdrained⟩
  | true =>
    obtain ⟨forwarded, next, hforward, hnext, hnextSettled, hnextBook⟩ := due_eq_some hkept hissues
      hdrained ⟨currentBook, hdrainedBook⟩ hdue
      (execute drained.strategy orderBook drained.oms.inventory).1 ⟨drained.oms.inventory, rfl⟩
    refine ⟨next, [drained, next], ?_, ⟨hnextSettled, hcurrentCts next hnextBook⟩, ?_⟩
    · simp only [Bool.not_true, Bool.false_eq_true, if_false]
      rw [hforward, Option.bind_some, hnext]
      rfl
    · simp [hdrained, hnextSettled]

/-- Over a market whose books have two sides and do not go back in time, every drain leaves a
settled state. -/
theorem run_settled (hkept : Kept allowed safe) {execute : Strategy σ F}
    (hissues : ∀ order, execute.Issues order → allowed order ∧ (orderPrice order).isSome)
    (hsafe : safe (Metrics.new 0.0 0.0) ∅) (strategy : σ)
    {orderBooks : List (OrderBook F)} (hsides : ∀ orderBook ∈ orderBooks, HasSides orderBook)
    (hcts : orderBooks.Pairwise fun earlier later ↦ earlier.cts ≤ later.cts) :
    ∃ final outputs, run execute (new strategy) orderBooks = some (final, outputs) ∧
      ∀ drained ∈ outputs.flatten, Settled safe drained := by
  let motive (runner : OfflineRunner σ F) (rest : List (OrderBook F)) : Prop :=
    Settled safe runner ∧
      (∀ orderBook ∈ rest, HasSides orderBook ∧
        runner.simulatedExchange.currentCts ≤ orderBook.cts) ∧
      rest.Pairwise fun earlier later ↦ earlier.cts ≤ later.cts
  have hstep : ∀ runner orderBook rest, motive runner (orderBook :: rest) →
      ∃ next drained, runner.step execute orderBook = some (next, drained) ∧ motive next rest ∧
        ∀ state ∈ drained, Settled safe state := by
    intro runner orderBook rest hmotive
    obtain ⟨hsettled, hbooks, hpairwise⟩ := hmotive
    obtain ⟨hbook, hage⟩ := hbooks orderBook (List.mem_cons_self ..)
    obtain ⟨hlater, hrest⟩ := List.pairwise_cons.mp hpairwise
    obtain ⟨next, drained, hnext, ⟨hnextSettled, hnextCts⟩, hdrained⟩ :=
      step_eq_some hkept hissues hsettled hbook hage
    refine ⟨next, drained, hnext, ⟨hnextSettled, ?_, hrest⟩, hdrained⟩
    intro later hmem
    rw [hnextCts]
    exact ⟨(hbooks later (List.mem_cons_of_mem _ hmem)).1, hlater later hmem⟩
  have hinit : motive (new strategy) orderBooks :=
    ⟨settled_new hsafe strategy, fun orderBook hmem ↦ ⟨hsides orderBook hmem, UInt64.zero_le⟩, hcts⟩
  obtain ⟨final, outputs, hrun, houtputs⟩ := Machine.run_total hstep hinit
  refine ⟨final, outputs, hrun, ?_⟩
  intro drained hmem
  obtain ⟨output, houtput, hdrained⟩ := List.mem_flatten.mp hmem
  exact houtputs output houtput drained hdrained

end OfflineRunner

end MarketMaker
