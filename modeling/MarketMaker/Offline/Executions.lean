import MarketMaker.Offline.Runner

/-!
# Executions of the simulated exchange

The exchange numbers the executions that it queues.  After every drain the executions processed are
all that it issued since the start, each of them once and in the order of their numbers.
-/

namespace MarketMaker

variable {σ F : Type}

def executionName (executionId : ℕ) : String := "sim-execution-" ++ toString executionId

theorem executionName_injective : Function.Injective executionName := by
  intro first second hname
  exact repr_injective ((String.append_right_inj _).mp hname)

/-- Executions numbered one after the other. -/
def Numbered (first : ℕ) (fills : List (OrderExecution F)) : Prop :=
  fills.map OrderExecution.execId = (List.range' first fills.length).map executionName

theorem Numbered.append {first : ℕ} {fills later : List (OrderExecution F)}
    (hfills : Numbered first fills) (hlater : Numbered (first + fills.length) later) :
    Numbered first (fills ++ later) := by
  unfold Numbered at *
  rw [List.map_append, hfills, hlater, ← List.map_append, List.length_append,
    List.range'_append_1]

theorem Numbered.nodup {first : ℕ} {fills : List (OrderExecution F)}
    (hfills : Numbered first fills) : (fills.map OrderExecution.execId).Nodup := by
  rw [hfills]
  exact List.Nodup.map executionName_injective List.nodup_range'

namespace SimulatedExchange

/-- What matching queues: executions at the time of the book, numbered from the next execution id
on. -/
structure Issues (cts : UInt64) (first : ℕ) (exchange : SimulatedExchange F) : Prop where
  times : ∀ fill ∈ executions exchange.pendingEvents, fill.execTs = cts
  numbered : Numbered first (executions exchange.pendingEvents)
  nextId : exchange.nextExecutionId.toNat = first + (executions exchange.pendingEvents).length

variable [F64 F] [OfScientific F] {exchange next : SimulatedExchange F} {cts id : UInt64}
  {first : ℕ}

theorem Issues.fillOrder [Mul F] (hissues : exchange.Issues cts first)
    (hfill : exchange.fillOrder cts id = some next) : next.Issues cts first := by
  obtain ⟨order, -, hfill⟩ := Option.bind_eq_some_iff.mp hfill
  obtain ⟨price, -, hfill⟩ := Option.bind_eq_some_iff.mp hfill
  obtain ⟨nextId, hnextId, rfl⟩ := Option.map_eq_some_iff.mp hfill
  let fill := fillExecution id order price exchange.nextExecutionId cts
  have hpending : executions (exchange.pendingEvents ++
      fillEvents id order price exchange.nextExecutionId cts) =
        executions exchange.pendingEvents ++ [fill] := executions_append ..
  refine ⟨?_, ?_, ?_⟩
  · intro other hmem
    rw [hpending, List.mem_append] at hmem
    obtain hmem | hmem := hmem
    · exact hissues.times other hmem
    · rw [List.mem_singleton.mp hmem]
      rfl
  · rw [hpending]
    apply hissues.numbered.append
    rw [← hissues.nextId]
    rfl
  · rw [hpending, List.length_append, ← Nat.add_assoc, ← hissues.nextId]
    exact checkedAdd_eq_some hnextId

variable [LE F] [DecidableLE F] {orderBook : OrderBook F}

/-- Matching against a book with no execution queued. -/
theorem issues_of_matchOrders [Mul F] (hquiet : executions exchange.pendingEvents = [])
    (hmatch : exchange.matchOrders orderBook = some next) :
    next.Issues orderBook.cts exchange.nextExecutionId.toNat := by
  obtain ⟨currentBook, -, hmatch⟩ := Option.bind_eq_some_iff.mp hmatch
  obtain ⟨ids, -, hmatch⟩ := Option.bind_eq_some_iff.mp hmatch
  apply Machine.foldlM_invariant (motive := fun current : SimulatedExchange F ↦
    current.Issues orderBook.cts exchange.nextExecutionId.toNat) _ _ hmatch
  · intro current id next hissues hfill
    exact hissues.fillOrder hfill
  · refine ⟨?_, ?_, ?_⟩ <;> simp [hquiet, Numbered]

/-- A request is answered without an execution. -/
theorem executions_of_perform {effect : Effect F} (hperform : exchange.perform effect = some next) :
    executions next.pendingEvents = executions exchange.pendingEvents ∧
      next.nextExecutionId = exchange.nextExecutionId := by
  cases effect with
  | submitOrder order orderLinkId =>
    obtain ⟨currentBook, -, hperform⟩ := Option.bind_eq_some_iff.mp hperform
    obtain ⟨price, -, rfl⟩ := Option.map_eq_some_iff.mp hperform
    dsimp only
    split_ifs <;> exact ⟨(executions_append ..).trans (List.append_nil _), rfl⟩
  | amendOrder amendment =>
    obtain ⟨currentBook, -, hperform⟩ := Option.bind_eq_some_iff.mp hperform
    dsimp only at hperform
    split at hperform
    · obtain rfl := Option.some.inj hperform
      exact ⟨rfl, rfl⟩
    · obtain ⟨price, -, rfl⟩ := Option.map_eq_some_iff.mp hperform
      split_ifs
      · exact ⟨rfl, rfl⟩
      · exact ⟨(executions_append ..).trans (List.append_nil _), rfl⟩
  | repayLiability coin =>
    obtain rfl := Option.some.inj hperform
    exact ⟨rfl, rfl⟩
  | forcePush inventory =>
    obtain rfl := Option.some.inj hperform
    exact ⟨rfl, rfl⟩

end SimulatedExchange

namespace OfflineRunner

/-- No execution is queued, and those that were processed have the names that the exchange has given
so far, in order and once each. -/
structure Counted (runner : OfflineRunner σ F) : Prop where
  quiet : executions runner.simulatedExchange.pendingEvents = []
  numbered : Numbered 1 (executions runner.processedEvents)
  nextId : runner.simulatedExchange.nextExecutionId.toNat =
    1 + (executions runner.processedEvents).length

theorem counted_new [OfScientific F] (strategy : σ) :
    (new strategy : OfflineRunner σ F).Counted where
  quiet := rfl
  numbered := rfl
  nextId := rfl

theorem Counted.issues {runner : OfflineRunner σ F} (hcounted : runner.Counted) (cts : UInt64) :
    runner.simulatedExchange.Issues cts (1 + (executions runner.processedEvents).length) := by
  refine ⟨?_, ?_, ?_⟩ <;> rw [hcounted.quiet]
  · simp
  · rfl
  · exact hcounted.nextId

theorem Counted.due {runner : OfflineRunner σ F} (hcounted : runner.Counted) (strategy : σ)
    (lastStrategyCts : Option UInt64) : Counted { runner with strategy, lastStrategyCts } :=
  ⟨hcounted.quiet, hcounted.numbered, hcounted.nextId⟩

variable [F64 F] [Add F] [Sub F] [Mul F] [Div F] [LT F] [DecidableLT F] [LE F] [DecidableLE F]
  [BEq F] [OfScientific F]

variable {runner next : OfflineRunner σ F} {orderBook : OrderBook F}

/-- A drain processes the executions that matching queued. -/
theorem counted_of_drain (runner : OfflineRunner σ F) {cts : UInt64}
    (hnumbered : Numbered 1 (executions runner.processedEvents))
    (hissues : runner.simulatedExchange.Issues cts
      (1 + (executions runner.processedEvents).length))
    (hdrain : runner.processExchangeEvents = some next) :
    next.Counted ∧ executions next.processedEvents = executions runner.processedEvents ++
      executions runner.simulatedExchange.pendingEvents := by
  obtain ⟨repaidCoins, hdrained⟩ := runner.processExchangeEvents_eq_some
  obtain rfl := Option.some.inj (hdrained.symm.trans hdrain)
  refine ⟨⟨rfl, ?_, ?_⟩, executions_append ..⟩
  · rw [executions_append]
    exact hnumbered.append hissues.numbered
  · rw [executions_append, List.length_append, ← Nat.add_assoc]
    exact hissues.nextId

/-- Matching and the drain after it count the executions of the book. -/
theorem counted_of_matchOrders {exchange : SimulatedExchange F} (hcounted : runner.Counted)
    (hmatch : runner.simulatedExchange.matchOrders orderBook = some exchange)
    (hdrain : processExchangeEvents { runner with simulatedExchange := exchange } = some next) :
    next.Counted ∧ executions next.processedEvents =
      executions runner.processedEvents ++ executions exchange.pendingEvents ∧
        ∀ fill ∈ executions exchange.pendingEvents, fill.execTs = orderBook.cts := by
  have hissues := SimulatedExchange.issues_of_matchOrders hcounted.quiet hmatch
  rw [hcounted.nextId] at hissues
  obtain ⟨hnext, hprocessed⟩ := counted_of_drain { runner with simulatedExchange := exchange }
    hcounted.numbered hissues hdrain
  exact ⟨hnext, hprocessed, hissues.times⟩

variable [Neg F]

/-- Forwarding an order queues no execution and processes no event. -/
theorem counted_of_forwardOrder {order : OrderBuilder F} (hcounted : runner.Counted)
    (hforward : runner.forwardOrder order = some next) :
    next.Counted ∧ next.processedEvents = runner.processedEvents := by
  obtain ⟨⟨oms, effects⟩, -, hperform⟩ := Option.bind_eq_some_iff.mp hforward
  obtain ⟨exchange, hexchange, rfl⟩ := Option.map_eq_some_iff.mp hperform
  obtain ⟨hpending, hnextId⟩ : executions exchange.pendingEvents =
      executions runner.simulatedExchange.pendingEvents ∧
        exchange.nextExecutionId = runner.simulatedExchange.nextExecutionId := by
    apply Machine.foldlM_invariant (motive := fun current : SimulatedExchange F ↦
      executions current.pendingEvents = executions runner.simulatedExchange.pendingEvents ∧
        current.nextExecutionId = runner.simulatedExchange.nextExecutionId) _ ⟨rfl, rfl⟩ hexchange
    intro current effect next hcurrent hperform
    obtain ⟨hpending, hnextId⟩ := SimulatedExchange.executions_of_perform hperform
    exact ⟨hpending.trans hcurrent.1, hnextId.trans hcurrent.2⟩
  refine ⟨⟨hpending.trans hcounted.quiet, hcounted.numbered, ?_⟩, rfl⟩
  rw [hnextId]
  exact hcounted.nextId

theorem counted_of_forwardOrders {orders : List (OrderBuilder F)} (hcounted : runner.Counted)
    (hforward : orders.foldlM forwardOrder runner = some next) :
    next.Counted ∧ next.processedEvents = runner.processedEvents := by
  apply Machine.foldlM_invariant (motive := fun current : OfflineRunner σ F ↦
    current.Counted ∧ current.processedEvents = runner.processedEvents) _ ⟨hcounted, rfl⟩ hforward
  intro current order next hcurrent hforward
  obtain ⟨hnext, hprocessed⟩ := counted_of_forwardOrder hcurrent.1 hforward
  exact ⟨hnext, hprocessed.trans hcurrent.2⟩

/-- A turn keeps the count at each of its drains. -/
theorem counted_of_step {execute : Strategy σ F} {drains : List (OfflineRunner σ F)}
    (hcounted : runner.Counted) (hstep : runner.step execute orderBook = some (next, drains)) :
    next.Counted ∧ ∀ drained ∈ drains, drained.Counted := by
  obtain ⟨exchange, hmatch, hstep⟩ := Option.bind_eq_some_iff.mp hstep
  obtain ⟨drained, hdrain, hstep⟩ := Option.bind_eq_some_iff.mp hstep
  obtain ⟨hdrained, -⟩ := counted_of_matchOrders hcounted hmatch hdrain
  split_ifs at hstep
  · obtain ⟨rfl, rfl⟩ := Prod.mk.inj (Option.some.inj hstep)
    exact ⟨hdrained, by simpa using hdrained⟩
  · obtain ⟨forwarded, hforward, hstep⟩ := Option.bind_eq_some_iff.mp hstep
    obtain ⟨after, hafter, heq⟩ := Option.map_eq_some_iff.mp hstep
    obtain ⟨rfl, rfl⟩ := Prod.mk.inj heq
    obtain ⟨hforwarded, -⟩ := counted_of_forwardOrders (hdrained.due _ _) hforward
    obtain ⟨hnext, -⟩ := counted_of_drain _ hforwarded.numbered (hforwarded.issues 0) hafter
    exact ⟨hnext, by simp [hdrained, hnext]⟩

theorem counted_of_run {execute : Strategy σ F} {strategy : σ} {orderBooks : List (OrderBook F)}
    {outputs : List (List (OfflineRunner σ F))}
    (hrun : run execute (new strategy) orderBooks = some (next, outputs)) :
    next.Counted ∧ ∀ drained ∈ outputs.flatten, drained.Counted := by
  apply Machine.run_history (motive := fun _ current outputs ↦
    current.Counted ∧ ∀ drained ∈ outputs.flatten, OfflineRunner.Counted drained) _ _ hrun
  · exact ⟨counted_new strategy, by simp⟩
  · intro first middle front orderBook next drains _ hfront hstep
    obtain ⟨hnext, hdrains⟩ := counted_of_step hfront.1 hstep
    refine ⟨hnext, ?_⟩
    intro drained hmem
    rw [List.flatten_append, List.flatten_singleton, List.mem_append] at hmem
    obtain hmem | hmem := hmem
    · exact hfront.2 drained hmem
    · exact hdrains drained hmem

end OfflineRunner

end MarketMaker
