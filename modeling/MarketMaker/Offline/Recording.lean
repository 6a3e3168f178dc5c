import MarketMaker.Foundation.Channel
import MarketMaker.Offline.Market
import MarketMaker.Recorder.Timing

/-!
# The recorder in the offline loop

The whole runner: it hands every execution and every book to the markout engine, keeps the markouts
with the time of the book that completed them, and notes what the strategy decided.  Nothing of this
goes back into the loop.  Without its records a turn is a turn of the loop, and as long as the times
of the market leave room for the horizons the records never abort it.
-/

namespace MarketMaker

variable {σ F : Type}

/-- What the strategy was shown and what it asked for. -/
structure StrategyDecision (F : Type) where
  cts : UInt64
  inventory : F
  orders : List (OrderBuilder F)
  deriving DecidableEq

structure RecordedRunner (σ F : Type) extends OfflineRunner σ F where
  recorder : MarkoutEngine F
  strategyDecisions : List (StrategyDecision F)
  completedMarkouts : List (UInt64 × CompletedMarkout F)

namespace RecordedRunner

def new [OfScientific F] (strategy : σ) : RecordedRunner σ F :=
  { OfflineRunner.new strategy with
    recorder := MarkoutEngine.new, strategyDecisions := [], completedMarkouts := [] }

/-- A part of the loop that the records do not see. -/
def unrecorded (part : OfflineRunner σ F → Option (OfflineRunner σ F))
    (runner : RecordedRunner σ F) : Option (RecordedRunner σ F) :=
  (part runner.toOfflineRunner).map fun toOfflineRunner ↦ { runner with toOfflineRunner }

section Step

variable [F64 F] [Add F] [Sub F] [Mul F] [Div F] [LT F] [DecidableLT F] [LE F] [DecidableLE F]
  [BEq F] [OfScientific F]

/-- The recorder is told of an execution before the order management system is. -/
def processEvent (runner : RecordedRunner σ F) (event : OrderEvent F) :
    Option (RecordedRunner σ F) :=
  { runner with recorder := runner.recorder.register event }.unrecorded (·.processEvent event)

def processExchangeEvents (runner : RecordedRunner σ F) : Option (RecordedRunner σ F) :=
  let (events, exchange) := runner.simulatedExchange.drainEvents
  events.foldlM processEvent { runner with simulatedExchange := exchange }

def processOrderBook (runner : RecordedRunner σ F) (orderBook : OrderBook F) :
    Option (RecordedRunner σ F) :=
  (runner.recorder.processOrderBook orderBook).map fun (recorder, markouts) ↦
    { runner with
      recorder
      completedMarkouts :=
        runner.completedMarkouts ++ markouts.map fun markout ↦ (orderBook.cts, markout) }

variable [Neg F]

def forwardOrder (runner : RecordedRunner σ F) (order : OrderBuilder F) :
    Option (RecordedRunner σ F) :=
  runner.unrecorded (·.forwardOrder order)

/-- The part of a turn in which the strategy is due. -/
def executeStrategy (execute : Strategy σ F) (runner : RecordedRunner σ F)
    (orderBook : OrderBook F) : Option (RecordedRunner σ F) :=
  let inventory := runner.oms.inventory
  let (strategy, orders) := execute runner.strategy orderBook inventory
  let due : RecordedRunner σ F :=
    { runner with
      strategy
      lastStrategyCts := some orderBook.cts
      strategyDecisions :=
        runner.strategyDecisions ++ [{ cts := orderBook.cts, inventory, orders }] }
  (orders.foldlM forwardOrder due).bind processExchangeEvents

def step (execute : Strategy σ F) (runner : RecordedRunner σ F) (orderBook : OrderBook F) :
    Option (RecordedRunner σ F) :=
  (runner.simulatedExchange.matchOrders orderBook).bind fun exchange ↦
    ({ runner with simulatedExchange := exchange }.processExchangeEvents).bind fun drained ↦
      (drained.processOrderBook orderBook).bind fun recorded ↦
        if !recorded.strategyIsDue orderBook then some recorded
        else recorded.executeStrategy execute orderBook

abbrev run (execute : Strategy σ F) (runner : RecordedRunner σ F)
    (orderBooks : List (OrderBook F)) : Option (RecordedRunner σ F) :=
  orderBooks.foldlM (step execute) runner

end Step

end RecordedRunner

/-! ## The recorder's calls of one turn -/

theorem MarkoutEngine.foldl_register (engine : MarkoutEngine F) (events : List (OrderEvent F)) :
    events.foldl register engine = (executions events).foldl updateTrades engine := by
  rw [executions_eq]
  induction events generalizing engine with
  | nil => rfl
  | cons event rest ih =>
    rw [List.foldl_cons, ih]
    cases event <;> rfl

def turnInputs (fills : List (OrderExecution F)) (orderBook : OrderBook F) :
    List (MarkoutInput F) :=
  fills.map .updateTrades ++ [.processOrderBook orderBook]

section Turns

variable (fills : List (OrderExecution F)) (orderBook : OrderBook F)

theorem filterMap_turnInputs :
    (turnInputs fills orderBook).filterMap MarkoutInput.execution = fills := by
  rw [turnInputs, List.filterMap_append, List.filterMap_map]
  exact (List.append_nil _).trans (List.filterMap_some ..)

theorem processedBooks_turnInputs : processedBooks (turnInputs fills orderBook) = [orderBook] := by
  have hnone : processedBooks (fills.map MarkoutInput.updateTrades) = [] := by
    rw [processedBooks, List.filterMap_eq_nil_iff]
    intro input hinput
    obtain ⟨fill, -, rfl⟩ := List.mem_map.mp hinput
    rfl
  rw [turnInputs, processedBooks_append, hnone]
  rfl

theorem inOrder_turnInputs : MarkoutEngine.InOrder (turnInputs fills orderBook) := by
  unfold MarkoutEngine.InOrder turnInputs
  rw [List.pairwise_append]
  refine ⟨?_, List.pairwise_singleton .., ?_⟩
  · apply List.pairwise_map.mpr
    exact List.pairwise_of_forall fun _ _ _ _ hbook _ ↦ nomatch hbook
  · intro earlier hearlier later hlater other execution hbook
    obtain ⟨fill, -, rfl⟩ := List.mem_map.mp hearlier
    cases hbook

theorem timedMarkouts_turnInputs (markouts : List (CompletedMarkout F)) :
    timedMarkouts (turnInputs fills orderBook) (fills.map (fun _ ↦ []) ++ [markouts]) =
      markouts.map fun markout ↦ (orderBook.cts, markout) := by
  have hnone : timedMarkouts (fills.map MarkoutInput.updateTrades)
      (fills.map fun _ ↦ ([] : List (CompletedMarkout F))) = [] := by
    rw [timedMarkouts, List.flatMap_eq_nil_iff]
    intro call hcall
    obtain ⟨fill, -, hfill⟩ := List.mem_map.mp (List.of_mem_zip hcall).1
    rw [← hfill]
    rfl
  rw [turnInputs, timedMarkouts_append (by simp), hnone, timedMarkouts_singleton]
  rfl

variable [Add F] [Sub F] [Div F] [OfScientific F]

theorem run_updateTrades (engine : MarkoutEngine F) :
    Machine.run MarkoutEngine.step engine (fills.map .updateTrades) =
      some (fills.foldl MarkoutEngine.updateTrades engine, fills.map fun _ ↦ []) := by
  induction fills generalizing engine with
  | nil => rfl
  | cons fill rest ih =>
    apply Machine.run_cons_eq_some.mpr
    exact ⟨_, [], _, rfl, ih _, rfl⟩

theorem run_turnInputs {engine next : MarkoutEngine F} {markouts : List (CompletedMarkout F)}
    (hprocess : (fills.foldl MarkoutEngine.updateTrades engine).processOrderBook orderBook =
      some (next, markouts)) :
    Machine.run MarkoutEngine.step engine (turnInputs fills orderBook) =
      some (next, fills.map (fun _ ↦ []) ++ [markouts]) :=
  Machine.run_concat (run_updateTrades fills engine) hprocess

end Turns

/-! ## A turn without its records -/

namespace RecordedRunner

@[simp]
theorem map_unrecorded (part : OfflineRunner σ F → Option (OfflineRunner σ F))
    (runner : RecordedRunner σ F) :
    (runner.unrecorded part).map toOfflineRunner = part runner.toOfflineRunner := by
  rw [unrecorded, Option.map_map]
  exact Option.map_id'

theorem foldlM_unrecorded {α : Type} (part : OfflineRunner σ F → α → Option (OfflineRunner σ F))
    (runner : RecordedRunner σ F) (entries : List α) :
    entries.foldlM (fun current entry ↦ unrecorded (part · entry) current) runner =
      runner.unrecorded fun base ↦ entries.foldlM part base := by
  induction entries generalizing runner with
  | nil => rfl
  | cons entry rest ih =>
    rw [List.foldlM_cons]
    cases hpart : part runner.toOfflineRunner entry with
    | none => simp [unrecorded, hpart]
    | some base =>
      have hhead : runner.unrecorded (part · entry) =
          some { runner with toOfflineRunner := base } := by simp [unrecorded, hpart]
      rw [hhead, Option.bind_eq_bind, Option.bind_some, ih]
      simp [unrecorded, hpart]

variable [F64 F] [Add F] [Sub F] [Mul F] [Div F] [LT F] [DecidableLT F] [LE F] [DecidableLE F]
  [BEq F] [OfScientific F]

variable {execute : Strategy σ F} {runner next : RecordedRunner σ F} {orderBook : OrderBook F}

/-- A drain hands its executions to the recorder and is a drain of the loop besides. -/
theorem processExchangeEvents_eq (runner : RecordedRunner σ F) :
    runner.processExchangeEvents =
      { runner with
        recorder := (executions runner.simulatedExchange.pendingEvents).foldl
          MarkoutEngine.updateTrades runner.recorder }.unrecorded (·.processExchangeEvents) := by
  have hevents : ∀ (events : List (OrderEvent F)) (runner : RecordedRunner σ F),
      events.foldlM processEvent runner =
        { runner with recorder := events.foldl MarkoutEngine.register runner.recorder }.unrecorded
          fun base ↦ events.foldlM OfflineRunner.processEvent base := by
    intro events
    induction events with
    | nil => exact fun _ ↦ rfl
    | cons event rest ih =>
      intro runner
      rw [List.foldlM_cons]
      cases hevent : runner.toOfflineRunner.processEvent event with
      | none => simp [processEvent, unrecorded, hevent]
      | some base => simp [processEvent, unrecorded, hevent, ih]
  rw [← MarkoutEngine.foldl_register]
  exact hevents _ _

/-- The fills of a turn, what became of them, and what the strategy's part leaves as it is. -/
structure TurnRecords (runner next : RecordedRunner σ F) (orderBook : OrderBook F)
    (fills : List (OrderExecution F)) (markouts : List (CompletedMarkout F)) : Prop where
  counted : next.Counted
  processed : executions next.processedEvents = executions runner.processedEvents ++ fills
  times : ∀ fill ∈ fills, fill.execTs = orderBook.cts
  recorded : (fills.foldl MarkoutEngine.updateTrades runner.recorder).processOrderBook orderBook =
    some (next.recorder, markouts)
  completed : next.completedMarkouts =
    runner.completedMarkouts ++ markouts.map fun markout ↦ (orderBook.cts, markout)

variable [Neg F]

/-- The strategy's part of a turn leaves the recorder alone. -/
theorem executeStrategy_keeps (hcounted : runner.Counted)
    (hexecute : runner.executeStrategy execute orderBook = some next) :
    next.Counted ∧ executions next.processedEvents = executions runner.processedEvents ∧
      next.recorder = runner.recorder ∧ next.completedMarkouts = runner.completedMarkouts := by
  obtain ⟨forwarded, hforward, hdrain⟩ := Option.bind_eq_some_iff.mp hexecute
  obtain ⟨base, hbase, rfl⟩ :=
    Option.map_eq_some_iff.mp ((foldlM_unrecorded _ _ _).symm.trans hforward)
  obtain ⟨hforwarded, hprocessed⟩ :=
    OfflineRunner.counted_of_forwardOrders (hcounted.due _ _) hbase
  rw [processExchangeEvents_eq] at hdrain
  obtain ⟨drained, hdrained, rfl⟩ := Option.map_eq_some_iff.mp hdrain
  obtain ⟨hnext, hexecutions⟩ := OfflineRunner.counted_of_drain _ hforwarded.numbered
    (hforwarded.issues 0) hdrained
  refine ⟨hnext, ?_, ?_, rfl⟩
  · change executions drained.processedEvents = _
    rw [hexecutions, hforwarded.quiet, List.append_nil, hprocessed]
  · change (executions base.simulatedExchange.pendingEvents).foldl _ runner.recorder = _
    rw [hforwarded.quiet]
    rfl

/-- What a turn records. -/
theorem records_of_step (hcounted : runner.Counted)
    (hstep : runner.step execute orderBook = some next) :
    ∃ fills markouts, TurnRecords runner next orderBook fills markouts := by
  obtain ⟨exchange, hmatch, hstep⟩ := Option.bind_eq_some_iff.mp hstep
  obtain ⟨drained, hdrain, hstep⟩ := Option.bind_eq_some_iff.mp hstep
  obtain ⟨recorded, hrecord, hstep⟩ := Option.bind_eq_some_iff.mp hstep
  rw [processExchangeEvents_eq] at hdrain
  obtain ⟨base, hbase, rfl⟩ := Option.map_eq_some_iff.mp hdrain
  obtain ⟨⟨recorder, markouts⟩, hprocess, rfl⟩ := Option.map_eq_some_iff.mp hrecord
  obtain ⟨hbaseCounted, hprocessed, htimes⟩ :=
    OfflineRunner.counted_of_matchOrders hcounted hmatch hbase
  refine ⟨executions exchange.pendingEvents, markouts, ?_⟩
  split_ifs at hstep
  · obtain rfl := Option.some.inj hstep
    exact ⟨hbaseCounted, hprocessed, htimes, hprocess, rfl⟩
  · obtain ⟨hnext, hexecutions, hrecorder, hcompleted⟩ := executeStrategy_keeps hbaseCounted hstep
    refine ⟨hnext, hexecutions.trans hprocessed, htimes, ?_, hcompleted⟩
    rw [hrecorder]
    exact hprocess

/-! ## Whole markets -/

/-- The records of a market are those of the engine on the fills and the books in the order of the
loop. -/
structure RecordsOf (inputs : List (MarkoutInput F)) (outputs : List (List (CompletedMarkout F)))
    (orderBooks : List (OrderBook F)) (runner : RecordedRunner σ F) : Prop where
  counted : runner.Counted
  engine : Machine.run MarkoutEngine.step MarkoutEngine.new inputs =
    some (runner.recorder, outputs)
  completed : runner.completedMarkouts = timedMarkouts inputs outputs
  fills : inputs.filterMap MarkoutInput.execution = executions runner.processedEvents
  books : processedBooks inputs = orderBooks
  times : ∀ fill ∈ executions runner.processedEvents, ∃ orderBook ∈ orderBooks,
    fill.execTs = orderBook.cts
  inOrder : orderBooks.Pairwise (fun earlier later ↦ earlier.cts ≤ later.cts) →
    MarkoutEngine.InOrder inputs

omit [F64 F] [Mul F] [LT F] [DecidableLT F] [LE F] [DecidableLE F] [BEq F] [Neg F] in
theorem recordsOf_new (strategy : σ) :
    RecordsOf [] [] [] (new strategy : RecordedRunner σ F) where
  counted := OfflineRunner.counted_new strategy
  engine := rfl
  completed := rfl
  fills := rfl
  books := rfl
  times := by
    intro fill hmem
    cases hmem
  inOrder _ := .nil

omit [F64 F] [Mul F] [LT F] [DecidableLT F] [LE F] [DecidableLE F] [BEq F] [Neg F] in
/-- A turn appends its calls. -/
theorem RecordsOf.step {inputs : List (MarkoutInput F)}
    {outputs : List (List (CompletedMarkout F))} {orderBooks : List (OrderBook F)}
    {fills : List (OrderExecution F)} {markouts : List (CompletedMarkout F)}
    (hrecords : RecordsOf inputs outputs orderBooks runner)
    (hturn : TurnRecords runner next orderBook fills markouts) :
    RecordsOf (inputs ++ turnInputs fills orderBook)
      (outputs ++ (fills.map (fun _ ↦ []) ++ [markouts])) (orderBooks ++ [orderBook]) next where
  counted := hturn.counted
  engine := by
    apply Machine.run_append_eq_some.mpr
    exact ⟨_, _, _, hrecords.engine, run_turnInputs fills orderBook hturn.recorded, rfl⟩
  completed := by
    rw [timedMarkouts_append (Machine.run_length hrecords.engine), ← hrecords.completed,
      timedMarkouts_turnInputs]
    exact hturn.completed
  fills := by
    rw [List.filterMap_append, hrecords.fills, filterMap_turnInputs, hturn.processed]
  books := by rw [processedBooks_append, hrecords.books, processedBooks_turnInputs]
  times := by
    intro fill hmem
    rw [hturn.processed, List.mem_append] at hmem
    obtain hmem | hmem := hmem
    · obtain ⟨earlier, hearlier, htime⟩ := hrecords.times fill hmem
      exact ⟨earlier, List.mem_append_left _ hearlier, htime⟩
    · exact ⟨orderBook, by simp, hturn.times fill hmem⟩
  inOrder := by
    intro hcts
    obtain ⟨hbefore, -, hlast⟩ := List.pairwise_append.mp hcts
    apply List.pairwise_append.mpr
    refine ⟨hrecords.inOrder hbefore, inOrder_turnInputs fills orderBook, ?_⟩
    intro earlier hearlier later hlater book execution hbook hexecution
    have hmem : book ∈ orderBooks := by
      rw [← hrecords.books, mem_processedBooks, ← hbook]
      exact hearlier
    have hfill : execution ∈ fills := by
      rw [← filterMap_turnInputs fills orderBook, List.mem_filterMap]
      exact ⟨later, hlater, hexecution ▸ rfl⟩
    rw [hturn.times execution hfill]
    exact hlast book hmem orderBook (List.mem_singleton_self _)

theorem recordsOf_of_run {strategy : σ} {orderBooks : List (OrderBook F)}
    {final : RecordedRunner σ F} (hrun : run execute (new strategy) orderBooks = some final) :
    ∃ inputs outputs, RecordsOf inputs outputs orderBooks final := by
  induction orderBooks using List.reverseRecOn generalizing final with
  | nil =>
    obtain rfl := Option.some.inj hrun
    exact ⟨[], [], recordsOf_new strategy⟩
  | append_singleton first orderBook ih =>
    rw [run, List.foldlM_append] at hrun
    obtain ⟨middle, hfirst, hlast⟩ := Option.bind_eq_some_iff.mp hrun
    obtain ⟨inputs, outputs, hrecords⟩ := ih hfirst
    have hstep : middle.step execute orderBook = some final := by simpa using hlast
    obtain ⟨fills, markouts, hturn⟩ := records_of_step hrecords.counted hstep
    exact ⟨_, _, hrecords.step hturn⟩

/-- On a market whose books do not go back in time the completed markouts are, up to their order,
the market's markouts of the executions processed, each at the time of the book that completed it;
no two executions share a name. -/
theorem markouts_of_market {strategy : σ} {orderBooks : List (OrderBook F)}
    {final : RecordedRunner σ F} (hcts : orderBooks.Pairwise fun earlier later ↦
      earlier.cts ≤ later.cts)
    (hrun : run execute (new strategy) orderBooks = some final) :
    final.completedMarkouts.Perm
        ((executions final.processedEvents).filterMap (marketMarkout orderBooks)) ∧
      ((executions final.processedEvents).map OrderExecution.execId).Nodup := by
  obtain ⟨inputs, outputs, hrecords⟩ := recordsOf_of_run hrun
  have hdistinct := hrecords.counted.numbered.nodup
  refine ⟨?_, hdistinct⟩
  rw [← hrecords.fills, ← registrations_eq_map] at hdistinct
  rw [hrecords.completed, ← hrecords.fills, ← hrecords.books]
  exact MarkoutEngine.timedMarkouts_perm hdistinct (hrecords.inOrder hcts) hrecords.engine

/-- The buy is filled at time 2, and the last book is ten seconds younger. -/
def sampleRecordedMarket : List (OrderBook ℚ) :=
  OfflineRunner.sampleMarket ++ [sampleOrderBook 1500, sampleOrderBook 6000, sampleOrderBook 10002]

theorem markouts_of_market_sample :
    ∃ final : RecordedRunner Unit ℚ,
      run OfflineRunner.sampleStrategy (new ()) sampleRecordedMarket = some final ∧
      final.completedMarkouts.Perm ((executions final.processedEvents).filterMap
        (marketMarkout sampleRecordedMarket)) ∧
      final.completedMarkouts.map Prod.fst = [10002] := by
  have hchecked : (run OfflineRunner.sampleStrategy (new ()) sampleRecordedMarket).any
      (fun final ↦ final.completedMarkouts.map Prod.fst = [10002]) := by
    decide +kernel
  obtain ⟨final, hrun, htimes⟩ := (Option.any_eq_true ..).mp hchecked
  have hcts : sampleRecordedMarket.Pairwise fun earlier later ↦ earlier.cts ≤ later.cts := by
    simp [sampleRecordedMarket, OfflineRunner.sampleMarket, sampleOrderBook]
  exact ⟨final, hrun, (markouts_of_market hcts hrun).1, of_decide_eq_true htimes⟩

/-! ## The records do not disturb the loop -/

/-- Without its records the strategy's part is that of the loop. -/
theorem map_executeStrategy (runner : RecordedRunner σ F) (orderBook : OrderBook F) :
    (runner.executeStrategy execute orderBook).map toOfflineRunner =
      ((execute runner.strategy orderBook runner.oms.inventory).2.foldlM OfflineRunner.forwardOrder
        { runner.toOfflineRunner with
          strategy := (execute runner.strategy orderBook runner.oms.inventory).1
          lastStrategyCts := some orderBook.cts }).bind OfflineRunner.processExchangeEvents := by
  have hfold := foldlM_unrecorded (fun (base : OfflineRunner σ F) order ↦ base.forwardOrder order)
    { runner with
      strategy := (execute runner.strategy orderBook runner.oms.inventory).1
      lastStrategyCts := some orderBook.cts
      strategyDecisions := runner.strategyDecisions ++
        [{ cts := orderBook.cts
           inventory := runner.oms.inventory
           orders := (execute runner.strategy orderBook runner.oms.inventory).2 }] }
    (execute runner.strategy orderBook runner.oms.inventory).2
  unfold executeStrategy
  dsimp only
  change ((List.foldlM (fun current order ↦ unrecorded (·.forwardOrder order) current) _ _).bind
    _).map _ = _
  rw [hfold, unrecorded, Option.map_bind]
  cases (execute runner.strategy orderBook runner.oms.inventory).2.foldlM OfflineRunner.forwardOrder
    { runner.toOfflineRunner with
      strategy := (execute runner.strategy orderBook runner.oms.inventory).1
      lastStrategyCts := some orderBook.cts } with
  | none => rfl
  | some base =>
    simp only [Option.map_some, Option.bind_some, Function.comp_apply, processExchangeEvents_eq,
      map_unrecorded]

omit [LT F] [DecidableLT F] [BEq F] [Neg F] in
/-- Matching needs both sides of the book. -/
theorem dataPoint_of_matchOrders {exchange matched : SimulatedExchange F}
    (hmatch : exchange.matchOrders orderBook = some matched) : orderBook.dataPoint.isSome := by
  obtain ⟨currentBook, hbook, -⟩ := Option.bind_eq_some_iff.mp hmatch
  obtain ⟨bid, hbid, hbook⟩ := Option.bind_eq_some_iff.mp hbook
  obtain ⟨ask, hask, -⟩ := Option.map_eq_some_iff.mp hbook
  rw [OrderBook.dataPoint, hbid, hask]
  rfl

/-- Without its records a turn is a turn of the loop, if the recorder can process the book. -/
theorem map_step (hcounted : runner.Counted)
    (hprocess : ∀ fills : List (OrderExecution F), (∀ fill ∈ fills, fill.execTs = orderBook.cts) →
      orderBook.dataPoint.isSome →
      ((fills.foldl MarkoutEngine.updateTrades runner.recorder).processOrderBook
        orderBook).isSome) :
    (runner.step execute orderBook).map toOfflineRunner =
      (runner.toOfflineRunner.step execute orderBook).map Prod.fst := by
  unfold step OfflineRunner.step
  cases hmatch : runner.simulatedExchange.matchOrders orderBook with
  | none => rfl
  | some exchange =>
    have hissues := SimulatedExchange.issues_of_matchOrders hcounted.quiet hmatch
    obtain ⟨⟨recorder, markouts⟩, hrecord⟩ := Option.isSome_iff_exists.mp
      (hprocess (executions exchange.pendingEvents) hissues.times (dataPoint_of_matchOrders hmatch))
    rw [Option.bind_some, Option.bind_some, processExchangeEvents_eq, unrecorded]
    cases hdrain : ({ runner.toOfflineRunner with
        simulatedExchange := exchange }).processExchangeEvents with
    | none => rfl
    | some base =>
      rw [Option.map_some, Option.bind_some, processOrderBook]
      dsimp only
      rw [hrecord, Option.map_some, Option.bind_some, Option.bind_some]
      dsimp only
      split_ifs with hdue
      · rfl
      · rw [map_executeStrategy, Option.map_bind]
        apply Option.bind_congr
        intro forwarded _
        rw [Function.comp_apply, Option.map_map]
        exact Option.map_id'.symm

omit [F64 F] [Mul F] [LT F] [DecidableLT F] [LE F] [DecidableLE F] [BEq F] [Neg F] in
/-- After the fills of a turn the recorder can process its book, while the horizons fit. -/
theorem RecordsOf.processOrderBook_isSome {inputs : List (MarkoutInput F)}
    {outputs : List (List (CompletedMarkout F))} {orderBooks : List (OrderBook F)}
    {fills : List (OrderExecution F)} (hrecords : RecordsOf inputs outputs orderBooks runner)
    (hroom : ∀ earlier ∈ orderBooks, earlier.cts.toNat + 10000 < 2 ^ 64)
    (hfills : ∀ fill ∈ fills, fill.execTs.toNat + 10000 < 2 ^ 64)
    (hdataPoint : orderBook.dataPoint.isSome) :
    ((fills.foldl MarkoutEngine.updateTrades runner.recorder).processOrderBook
      orderBook).isSome := by
  have hengine := Machine.run_append_eq_some.mpr
    ⟨_, _, _, hrecords.engine, run_updateTrades fills runner.recorder, rfl⟩
  apply MarkoutEngine.processOrderBook_isSome (MarkoutEngine.distinctKeys_of_run hengine) hdataPoint
  intro execId pendingMarkout hpending
  obtain ⟨execution, hmem, -, horigin⟩ := MarkoutEngine.origin_of_run hengine hpending
  rw [horigin]
  change execution.execTs.toNat + 10000 < 2 ^ 64
  obtain hearlier | hmem := List.mem_append.mp hmem
  · have hprocessed : execution ∈ executions runner.processedEvents := by
      rw [← hrecords.fills]
      exact List.mem_filterMap.mpr ⟨_, hearlier, rfl⟩
    obtain ⟨earlier, hbook, htime⟩ := hrecords.times execution hprocessed
    rw [htime]
    exact hroom earlier hbook
  · obtain ⟨fill, hfill, heq⟩ := List.mem_map.mp hmem
    cases heq
    exact hfills execution hfill

/-- From any state that a market leads to. -/
theorem map_run {inputs : List (MarkoutInput F)} {outputs : List (List (CompletedMarkout F))}
    {earlier orderBooks : List (OrderBook F)} (hrecords : RecordsOf inputs outputs earlier runner)
    (hroom : ∀ orderBook ∈ earlier ++ orderBooks, orderBook.cts.toNat + 10000 < 2 ^ 64) :
    (run execute runner orderBooks).map toOfflineRunner =
      (OfflineRunner.run execute runner.toOfflineRunner orderBooks).map Prod.fst := by
  induction orderBooks generalizing runner inputs outputs earlier with
  | nil => rfl
  | cons orderBook rest ih =>
    have hbook := hroom orderBook (by simp)
    have hhead : (runner.step execute orderBook).map toOfflineRunner =
        (runner.toOfflineRunner.step execute orderBook).map Prod.fst := by
      apply map_step hrecords.counted
      intro fills htimes hdataPoint
      apply hrecords.processOrderBook_isSome _ _ hdataPoint
      · intro book hmem
        exact hroom book (List.mem_append_left _ hmem)
      · intro fill hmem
        rw [htimes fill hmem]
        exact hbook
    rw [run, List.foldlM_cons, OfflineRunner.run, Machine.run]
    cases hstep : runner.step execute orderBook with
    | none =>
      rw [hstep] at hhead
      rw [Option.map_eq_none_iff.mp hhead.symm]
      rfl
    | some next =>
      rw [hstep] at hhead
      obtain ⟨⟨base, drained⟩, hbase, rfl⟩ := Option.map_eq_some_iff.mp hhead.symm
      obtain ⟨fills, markouts, hturn⟩ := records_of_step hrecords.counted hstep
      have hlater : ∀ book ∈ (earlier ++ [orderBook]) ++ rest,
          book.cts.toNat + 10000 < 2 ^ 64 := by
        rw [List.append_assoc]
        exact hroom
      rw [hbase, Option.bind_some, Option.map_map]
      exact ih (hrecords.step hturn) hlater

/-- The recorder does not disturb the loop: for every strategy and every market whose times leave
room for the horizons, the runner without its records ends or aborts as the loop does. -/
theorem run_without_records (execute : Strategy σ F) (strategy : σ)
    {orderBooks : List (OrderBook F)}
    (hroom : ∀ orderBook ∈ orderBooks, orderBook.cts.toNat + 10000 < 2 ^ 64) :
    (run execute (new strategy) orderBooks).map toOfflineRunner =
      (OfflineRunner.run execute (OfflineRunner.new strategy) orderBooks).map Prod.fst :=
  map_run (recordsOf_new strategy) hroom

theorem run_without_records_sample :
    (run OfflineRunner.sampleStrategy (new ()) sampleRecordedMarket).map toOfflineRunner =
      (OfflineRunner.run OfflineRunner.sampleStrategy (OfflineRunner.new ())
        sampleRecordedMarket).map Prod.fst :=
  run_without_records OfflineRunner.sampleStrategy () (by
    simp [sampleRecordedMarket, OfflineRunner.sampleMarket, sampleOrderBook])

end RecordedRunner

end MarketMaker
