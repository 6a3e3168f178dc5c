import MarketMaker.Offline.SimulatedExchange
import MarketMaker.Oms.Responses
import MarketMaker.Strategy.Runner

/-!
# The offline runner

One turn for each book of a recorded market: the exchange matches its orders, its events are
drained into the order management system, and, when the strategy is due, its orders go through the
risk manager and the events are drained again.  The strategy is a parameter.

The runner also hands books and executions to the recorder, which gives nothing back to the loop and
is left out.
-/

namespace MarketMaker

variable {σ F : Type}

def initialOrderLinkId : UInt64 := 90

/-- `lastStrategyCts` is the time of the last turn in which the strategy was due. -/
structure OfflineRunner (σ F : Type) where
  strategy : σ
  oms : OrderManagementSystem F
  simulatedExchange : SimulatedExchange F
  lastStrategyCts : Option UInt64
  processedEvents : List (OrderEvent F)

namespace OfflineRunner

def omsConfig [OfScientific F] : OmsConfig F :=
  { coin := "ADA", inventory := 0.0, avgEntryPrice := 0.0, initialOrderLinkId }

def new [OfScientific F] (strategy : σ) : OfflineRunner σ F :=
  { strategy
    oms := (OrderManagementSystem.new omsConfig).1
    simulatedExchange := SimulatedExchange.default
    lastStrategyCts := none
    processedEvents := [] }

def strategyIsDue (runner : OfflineRunner σ F) (orderBook : OrderBook F) : Bool :=
  match runner.lastStrategyCts with
  | none => true
  | some lastCts => decide (saturatingSub orderBook.cts lastCts ≥ strategyIntervalMs)

variable [F64 F] [Add F] [Sub F] [Mul F] [Div F] [LT F] [DecidableLT F] [LE F] [DecidableLE F]
  [BEq F] [OfScientific F]

/-- A step of the order management system, with the exchange behind its gateway. -/
def omsStep (runner : OfflineRunner σ F) (input : OmsInput F) : Option (OfflineRunner σ F) :=
  (runner.oms.step input).bind fun (oms, effects) ↦
    (effects.foldlM SimulatedExchange.perform runner.simulatedExchange).map fun exchange ↦
      { runner with oms, simulatedExchange := exchange }

def processEvent (runner : OfflineRunner σ F) (event : OrderEvent F) :
    Option (OfflineRunner σ F) :=
  (runner.omsStep (.event event)).map fun runner ↦
    { runner with processedEvents := runner.processedEvents ++ [event] }

def processExchangeEvents (runner : OfflineRunner σ F) : Option (OfflineRunner σ F) :=
  let (events, exchange) := runner.simulatedExchange.drainEvents
  events.foldlM processEvent { runner with simulatedExchange := exchange }

/-! ## Draining -/

/-- The calls made for a counted execution reach a log of the exchange at most. -/
theorem perform_settlement (exchange : SimulatedExchange F) (coin : String) (metrics : Metrics F)
    (order : OrderExecution F) :
    ∃ repaidCoins, (OrderManagementSystem.settlement coin metrics order).foldlM
      SimulatedExchange.perform exchange = some { exchange with repaidCoins } := by
  unfold OrderManagementSystem.settlement
  split_ifs
  · exact ⟨exchange.repaidCoins ++ [coin], rfl⟩
  · exact ⟨exchange.repaidCoins, rfl⟩

/-- Processing an event changes the order management system as `respond` says, and a log of the
exchange at most. -/
theorem processEvent_eq_some (runner : OfflineRunner σ F) (event : OrderEvent F) :
    ∃ repaidCoins, runner.processEvent event = some
      { runner with
        oms := runner.oms.respond [event]
        simulatedExchange := { runner.simulatedExchange with repaidCoins }
        processedEvents := runner.processedEvents ++ [event] } := by
  obtain ⟨repaidCoins, hperform⟩ : ∃ repaidCoins, (runner.oms.orderResponse event).2.foldlM
      SimulatedExchange.perform runner.simulatedExchange =
        some { runner.simulatedExchange with repaidCoins } := by
    cases event with
    | orderUpdate | submissionFailed => exact ⟨runner.simulatedExchange.repaidCoins, rfl⟩
    | executionUpdate order =>
      obtain ⟨-, heq⟩ | ⟨-, heq⟩ := runner.oms.handleExecutionUpdate_cases order <;>
        rw [OrderManagementSystem.orderResponse, heq]
      · exact perform_settlement ..
      · exact ⟨runner.simulatedExchange.repaidCoins, rfl⟩
  refine ⟨repaidCoins, ?_⟩
  simp only [processEvent, omsStep, OrderManagementSystem.step, Option.bind_some, hperform,
    Option.map_some]
  rfl

theorem processEvents_eq_some (runner : OfflineRunner σ F) (events : List (OrderEvent F)) :
    ∃ repaidCoins, events.foldlM processEvent runner = some
      { runner with
        oms := runner.oms.respond events
        simulatedExchange := { runner.simulatedExchange with repaidCoins }
        processedEvents := runner.processedEvents ++ events } := by
  induction events generalizing runner with
  | nil => exact ⟨runner.simulatedExchange.repaidCoins, by simp⟩
  | cons event events ih =>
    obtain ⟨firstCoins, hfirst⟩ := runner.processEvent_eq_some event
    obtain ⟨repaidCoins, hrest⟩ := ih _
    refine ⟨repaidCoins, ?_⟩
    rw [List.foldlM_cons, hfirst, Option.bind_eq_bind, Option.bind_some, hrest]
    simp

/-- A drain processes the pending events and leaves none. -/
theorem processExchangeEvents_eq_some (runner : OfflineRunner σ F) :
    ∃ repaidCoins, runner.processExchangeEvents = some
      { runner with
        oms := runner.oms.respond runner.simulatedExchange.pendingEvents
        simulatedExchange :=
          { runner.simulatedExchange with pendingEvents := [], repaidCoins }
        processedEvents :=
          runner.processedEvents ++ runner.simulatedExchange.pendingEvents } :=
  processEvents_eq_some ..

/-! ## Turns -/

variable [Neg F]

def forwardOrder (runner : OfflineRunner σ F) (order : OrderBuilder F) :
    Option (OfflineRunner σ F) :=
  runner.omsStep (.forward RiskManager.evaluateOrder order)

/-- One turn of the loop, with the states after its drains. -/
def step (execute : Strategy σ F) (runner : OfflineRunner σ F) (orderBook : OrderBook F) :
    Option (OfflineRunner σ F × List (OfflineRunner σ F)) :=
  (runner.simulatedExchange.matchOrders orderBook).bind fun exchange ↦
    ({ runner with simulatedExchange := exchange }.processExchangeEvents).bind fun drained ↦
      if !drained.strategyIsDue orderBook then some (drained, [drained])
      else
        let (strategy, orders) := execute drained.strategy orderBook drained.oms.inventory
        let due := { drained with strategy, lastStrategyCts := some orderBook.cts }
        (orders.foldlM forwardOrder due).bind fun forwarded ↦
          forwarded.processExchangeEvents.map fun next ↦ (next, [drained, next])

/-- The loop over the books of a market, with the states after the drains of each turn. -/
abbrev run (execute : Strategy σ F) (runner : OfflineRunner σ F) (orderBooks : List (OrderBook F)) :
    Option (OfflineRunner σ F × List (List (OfflineRunner σ F))) :=
  Machine.run (step execute) runner orderBooks

/-- A turn drains the exchange once, and once more when the strategy was due. -/
theorem drains_of_step {execute : Strategy σ F} {runner next : OfflineRunner σ F}
    {orderBook : OrderBook F} {drains : List (OfflineRunner σ F)}
    (hstep : runner.step execute orderBook = some (next, drains)) :
    drains = [next] ∨ ∃ drained, drains = [drained, next] := by
  obtain ⟨exchange, -, hstep⟩ := Option.bind_eq_some_iff.mp hstep
  obtain ⟨drained, -, hstep⟩ := Option.bind_eq_some_iff.mp hstep
  split_ifs at hstep
  · obtain ⟨rfl, rfl⟩ := Prod.mk.inj (Option.some.inj hstep)
    exact .inl rfl
  · obtain ⟨forwarded, -, hstep⟩ := Option.bind_eq_some_iff.mp hstep
    obtain ⟨after, -, heq⟩ := Option.map_eq_some_iff.mp hstep
    obtain ⟨rfl, rfl⟩ := Prod.mk.inj heq
    exact .inr ⟨drained, rfl⟩

theorem drains_of_run {execute : Strategy σ F} {runner final : OfflineRunner σ F}
    {orderBooks : List (OrderBook F)} {outputs : List (List (OfflineRunner σ F))}
    (hrun : run execute runner orderBooks = some (final, outputs)) :
    outputs.length = orderBooks.length ∧ ∀ drains ∈ outputs, drains.length ∈ [1, 2] := by
  refine ⟨Machine.run_length hrun, ?_⟩
  apply Machine.run_history (motive := fun _ _ outputs ↦ ∀ drains ∈ outputs,
    drains.length ∈ [1, 2]) _ _ hrun
  · simp
  · intro first middle front orderBook next last _ hfront hstep drains hmem
    obtain hmem | hmem := List.mem_append.mp hmem
    · exact hfront drains hmem
    · rw [List.mem_singleton.mp hmem]
      obtain rfl | ⟨drained, rfl⟩ := drains_of_step hstep <;> simp

end OfflineRunner

end MarketMaker
