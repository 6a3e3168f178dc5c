import MarketMaker.Recorder.Markout

/-!
# Markouts at the right book

Slot by slot, a markout holds the data point of the first book after its registration that reaches
the horizon.  The three horizons are nested, so the last slot decides: a markout is pending until
the first book that reaches ten seconds, and that book's call returns it, once.
-/

namespace MarketMaker

variable {F : Type}

def registrations (inputs : List (MarkoutInput F)) : List String :=
  inputs.filterMap fun
    | .updateTrades execution => some execution.execId
    | .processOrderBook _ => none

@[simp]
theorem registrations_append (first second : List (MarkoutInput F)) :
    registrations (first ++ second) = registrations first ++ registrations second :=
  List.filterMap_append

@[simp]
theorem registrations_updateTrades (execution : OrderExecution F)
    (inputs : List (MarkoutInput F)) :
    registrations (.updateTrades execution :: inputs) =
      execution.execId :: registrations inputs := rfl

@[simp]
theorem registrations_processOrderBook (orderBook : OrderBook F)
    (inputs : List (MarkoutInput F)) :
    registrations (.processOrderBook orderBook :: inputs) = registrations inputs := rfl

def MarkoutInput.execution : MarkoutInput F → Option (OrderExecution F)
  | .updateTrades execution => some execution
  | .processOrderBook _ => none

theorem registrations_eq_map (inputs : List (MarkoutInput F)) :
    registrations inputs =
      (inputs.filterMap MarkoutInput.execution).map OrderExecution.execId := by
  rw [registrations, List.map_filterMap]
  congr 1
  funext input
  cases input <;> rfl

theorem mem_registrations {inputs : List (MarkoutInput F)} {execId : String} :
    execId ∈ registrations inputs ↔ ∃ before execution after,
      inputs = before ++ .updateTrades execution :: after ∧ execution.execId = execId := by
  constructor
  · intro hmem
    obtain ⟨input, hinput, hid⟩ := List.mem_filterMap.mp hmem
    obtain ⟨before, after, hsplit⟩ := List.append_of_mem hinput
    cases input with
    | updateTrades execution => exact ⟨before, execution, after, hsplit, Option.some.inj hid⟩
    | processOrderBook orderBook => simp at hid
  · rintro ⟨before, execution, after, rfl, rfl⟩
    simp

/-- The id of a registered execution is not registered elsewhere. -/
theorem notMem_of_nodup {before after : List (MarkoutInput F)} {execution : OrderExecution F}
    (hdistinct : (registrations (before ++ .updateTrades execution :: after)).Nodup) :
    execution.execId ∉ registrations before ∧ execution.execId ∉ registrations after := by
  rw [registrations_append, registrations_updateTrades, List.nodup_append] at hdistinct
  obtain ⟨-, hlater, hdisjoint⟩ := hdistinct
  constructor
  · intro hmem
    exact hdisjoint _ hmem _ (List.mem_cons_self ..) rfl
  · exact (List.nodup_cons.mp hlater).1

/-- Executions with distinct ids whose horizons do not overflow, and books with two sides. -/
structure ValidInputs (inputs : List (MarkoutInput F)) : Prop where
  distinct : (registrations inputs).Nodup
  fills : ∀ execution, .updateTrades execution ∈ inputs →
    execution.execTs.toNat + 10000 < 2 ^ 64
  books : ∀ orderBook, .processOrderBook orderBook ∈ inputs →
    orderBook.bids ≠ [] ∧ orderBook.asks ≠ []

theorem ValidInputs.of_append {before after : List (MarkoutInput F)}
    (hvalid : ValidInputs (before ++ after)) : ValidInputs before where
  distinct := by
    have hdistinct := hvalid.distinct
    rw [registrations_append] at hdistinct
    exact hdistinct.of_append_left
  fills execution hmem := hvalid.fills execution (List.mem_append_left _ hmem)
  books orderBook hmem := hvalid.books orderBook (List.mem_append_left _ hmem)

variable [Add F] [Sub F] [Div F] [OfScientific F]

/-- Mid price and imbalance of the best levels of a book with two sides. -/
def OrderBook.top (orderBook : OrderBook F) : Option (DataPoint F) :=
  match orderBook.bids, orderBook.asks with
  | bid :: _, ask :: _ =>
    some
      { midPrice := (bid.price + ask.price) / 2.0
        imbalance := (bid.size - ask.size) / (bid.size + ask.size) }
  | _, _ => none

theorem OrderBook.dataPoint_eq_top (orderBook : OrderBook F) :
    orderBook.dataPoint = orderBook.top := by
  unfold dataPoint top
  cases orderBook.bids with
  | nil => rfl
  | cons bid bids => cases orderBook.asks <;> rfl

/-- Time and top of a processed book. -/
def MarkoutInput.observation : MarkoutInput F → Option (UInt64 × DataPoint F)
  | .processOrderBook orderBook => orderBook.top.map fun top ↦ (orderBook.cts, top)
  | .updateTrades _ => none

/-- The top of the first book that reaches a horizon after a fill. -/
def firstAt (fillTs : UInt64) (horizon : ℕ) (inputs : List (MarkoutInput F)) :
    Option (DataPoint F) :=
  ((inputs.filterMap MarkoutInput.observation).find? fun seen ↦
    fillTs.toNat + horizon ≤ seen.1.toNat).map Prod.snd

@[simp]
theorem firstAt_nil (fillTs : UInt64) (horizon : ℕ) :
    firstAt fillTs horizon ([] : List (MarkoutInput F)) = none := rfl

theorem firstAt_append (fillTs : UInt64) (horizon : ℕ) (first second : List (MarkoutInput F)) :
    firstAt fillTs horizon (first ++ second) =
      (firstAt fillTs horizon first).or (firstAt fillTs horizon second) := by
  rw [firstAt, List.filterMap_append, List.find?_append, Option.map_or]
  rfl

theorem firstAt_updateTrades (fillTs : UInt64) (horizon : ℕ) (execution : OrderExecution F) :
    firstAt fillTs horizon [.updateTrades execution] = none := rfl

theorem firstAt_processOrderBook (fillTs : UInt64) (horizon : ℕ) {orderBook : OrderBook F}
    {top : DataPoint F} (htop : orderBook.top = some top) :
    firstAt fillTs horizon [.processOrderBook orderBook] =
      if fillTs.toNat + horizon ≤ orderBook.cts.toNat then some top else none := by
  by_cases hdue : fillTs.toNat + horizon ≤ orderBook.cts.toNat <;>
    simp [firstAt, MarkoutInput.observation, htop, hdue]

/-- A book that reaches a horizon reaches every shorter one. -/
theorem firstAt_isSome_of_le {fillTs : UInt64} {short long : ℕ} (hle : short ≤ long)
    {inputs : List (MarkoutInput F)} (hlong : (firstAt fillTs long inputs).isSome) :
    (firstAt fillTs short inputs).isSome := by
  simp only [firstAt, Option.isSome_map, List.find?_isSome, decide_eq_true_eq] at hlong ⊢
  obtain ⟨seen, hmem, hreach⟩ := hlong
  exact ⟨seen, hmem, by omega⟩

/-- The markout of an execution after the inputs since its registration. -/
def expectedMarkout (execution : OrderExecution F) (inputs : List (MarkoutInput F)) :
    PendingMarkout F :=
  { orderLinkId := execution.orderLinkId
    fillTs := execution.execTs
    side := execution.orderSide
    limitPrice := execution.orderPrice
    execPrice := execution.execPrice
    execQty := execution.execQty
    mid1s := firstAt execution.execTs 1000 inputs
    mid5s := firstAt execution.execTs 5000 inputs
    mid10s := firstAt execution.execTs 10000 inputs }

/-- What is pending: the expected markout until ten seconds are reached, then nothing. -/
def pendingAfter (execution : OrderExecution F) (inputs : List (MarkoutInput F)) :
    Option (PendingMarkout F) :=
  if (firstAt execution.execTs 10000 inputs).isSome then none
  else some (expectedMarkout execution inputs)

/-- The record of an execution and of the market at the three horizons. -/
def recordOf (execution : OrderExecution F) (mid1s mid5s mid10s : DataPoint F) :
    CompletedMarkout F :=
  { execId := execution.execId
    orderLinkId := execution.orderLinkId
    fillTs := execution.execTs
    side := execution.orderSide
    limitPrice := execution.orderPrice
    execPrice := execution.execPrice
    execQty := execution.execQty
    mid1s, mid5s, mid10s }

/-- The record of an execution once all horizons are reached. -/
def completedAfter (execution : OrderExecution F) (inputs : List (MarkoutInput F)) :
    Option (CompletedMarkout F) :=
  (firstAt execution.execTs 1000 inputs).bind fun mid1s ↦
    (firstAt execution.execTs 5000 inputs).bind fun mid5s ↦
      (firstAt execution.execTs 10000 inputs).map fun mid10s ↦
        recordOf execution mid1s mid5s mid10s

/-- What the call for a book returns: the record if this book is the first to reach ten seconds,
and nothing otherwise. -/
def returnedAt (execution : OrderExecution F) (inputs : List (MarkoutInput F))
    (orderBook : OrderBook F) : List (CompletedMarkout F) :=
  if (firstAt execution.execTs 10000 inputs).isSome then []
  else (completedAfter execution (inputs ++ [.processOrderBook orderBook])).toList

theorem ofPending_expectedMarkout (execution : OrderExecution F)
    (inputs : List (MarkoutInput F)) :
    CompletedMarkout.ofPending (execution.execId, expectedMarkout execution inputs) =
      completedAfter execution inputs := rfl

theorem isComplete_expectedMarkout (execution : OrderExecution F)
    (inputs : List (MarkoutInput F)) :
    (expectedMarkout execution inputs).isComplete =
      (firstAt execution.execTs 10000 inputs).isSome := by
  have hnested : ∀ horizon ≤ 10000, (firstAt execution.execTs 10000 inputs).isSome →
      (firstAt execution.execTs horizon inputs).isSome :=
    fun horizon hle ↦ firstAt_isSome_of_le hle
  rw [PendingMarkout.isComplete, expectedMarkout]
  cases hlast : (firstAt execution.execTs 10000 inputs).isSome with
  | false => simp
  | true => simp [hnested 1000 (by decide) hlast, hnested 5000 (by decide) hlast]

theorem expectedMarkout_updateTrades (execution other : OrderExecution F)
    (inputs : List (MarkoutInput F)) :
    expectedMarkout execution (inputs ++ [.updateTrades other]) =
      expectedMarkout execution inputs := by
  simp only [expectedMarkout, firstAt_append, firstAt_updateTrades, Option.or_none]

theorem expectedMarkout_processOrderBook (execution : OrderExecution F)
    (inputs : List (MarkoutInput F)) {orderBook : OrderBook F} {top : DataPoint F}
    (htop : orderBook.top = some top) :
    expectedMarkout execution (inputs ++ [.processOrderBook orderBook]) =
      (expectedMarkout execution inputs).advance top orderBook.cts := by
  simp only [expectedMarkout, firstAt_append, firstAt_processOrderBook _ _ htop]
  rfl

theorem isSome_completedAfter (execution : OrderExecution F) (inputs : List (MarkoutInput F)) :
    (completedAfter execution inputs).isSome = (firstAt execution.execTs 10000 inputs).isSome := by
  rw [← ofPending_expectedMarkout, PendingMarkout.ofPending_isSome, isComplete_expectedMarkout]

theorem returnedAt_length (execution : OrderExecution F) (inputs : List (MarkoutInput F))
    (orderBook : OrderBook F) :
    (returnedAt execution inputs orderBook).length =
      if (firstAt execution.execTs 10000 inputs).isSome then 0
      else if (firstAt execution.execTs 10000 (inputs ++ [.processOrderBook orderBook])).isSome
        then 1 else 0 := by
  rw [← isSome_completedAfter execution (inputs ++ _), returnedAt]
  split_ifs with hreached hcomplete
  · rfl
  · obtain ⟨markout, hmarkout⟩ := Option.isSome_iff_exists.mp hcomplete
    rw [hmarkout]
    rfl
  · rw [Option.not_isSome_iff_eq_none.mp hcomplete]
    rfl

/-- The first book that reaches ten seconds gives the record its last part. -/
theorem returnedAt_of_first {execution : OrderExecution F} {inputs : List (MarkoutInput F)}
    {orderBook : OrderBook F} {mid10s : DataPoint F} (htop : orderBook.top = some mid10s)
    (hopen : firstAt execution.execTs 10000 inputs = none)
    (hreach : execution.execTs.toNat + 10000 ≤ orderBook.cts.toNat) :
    ∃ mid1s mid5s,
      firstAt execution.execTs 1000 (inputs ++ [.processOrderBook orderBook]) = some mid1s ∧
      firstAt execution.execTs 5000 (inputs ++ [.processOrderBook orderBook]) = some mid5s ∧
      returnedAt execution inputs orderBook = [recordOf execution mid1s mid5s mid10s] := by
  have hlast : firstAt execution.execTs 10000 (inputs ++ [.processOrderBook orderBook]) =
      some mid10s := by
    rw [firstAt_append, hopen, Option.none_or, firstAt_processOrderBook _ _ htop, if_pos hreach]
  have hnested : ∀ horizon ≤ 10000,
      (firstAt execution.execTs horizon (inputs ++ [.processOrderBook orderBook])).isSome := by
    intro horizon hle
    apply firstAt_isSome_of_le hle
    rw [hlast]
    rfl
  obtain ⟨mid1s, h1s⟩ := Option.isSome_iff_exists.mp (hnested 1000 (by decide))
  obtain ⟨mid5s, h5s⟩ := Option.isSome_iff_exists.mp (hnested 5000 (by decide))
  refine ⟨mid1s, mid5s, h1s, h5s, ?_⟩
  rw [returnedAt, hopen, completedAfter, h1s, h5s, hlast]
  rfl

theorem returnedAt_of_not_first {execution : OrderExecution F} {inputs : List (MarkoutInput F)}
    {orderBook : OrderBook F} {top : DataPoint F} (htop : orderBook.top = some top)
    (hlate : ¬(firstAt execution.execTs 10000 inputs = none ∧
      execution.execTs.toNat + 10000 ≤ orderBook.cts.toNat)) :
    returnedAt execution inputs orderBook = [] := by
  rw [← List.length_eq_zero_iff, returnedAt_length]
  split_ifs with hreached hlast
  · rfl
  · have hopen := Option.not_isSome_iff_eq_none.mp hreached
    rw [firstAt_append, hopen, Option.none_or, firstAt_processOrderBook _ _ htop,
      if_neg (not_and.mp hlate hopen)] at hlast
    cases hlast
  · rfl

namespace MarkoutEngine

variable {engine state next final : MarkoutEngine F} {input : MarkoutInput F}
  {inputs before after : List (MarkoutInput F)} {execution : OrderExecution F}
  {markouts : List (CompletedMarkout F)} {outputs : List (List (CompletedMarkout F))}

theorem distinctKeys_step (hdistinct : engine.DistinctKeys)
    (hstep : engine.step input = some (next, markouts)) : next.DistinctKeys := by
  cases input with
  | updateTrades execution =>
    obtain ⟨rfl, -⟩ := Prod.mk.inj (Option.some.inj hstep)
    exact distinctKeys_updateTrades hdistinct execution
  | processOrderBook orderBook =>
    obtain ⟨-, -, hnext, -⟩ := processOrderBook_spec hdistinct hstep
    exact hnext

theorem distinctKeys_of_run (hrun : Machine.run step new inputs = some (state, outputs)) :
    state.DistinctKeys :=
  Machine.run_invariant (motive := fun state : MarkoutEngine F ↦ state.DistinctKeys)
    (fun _ _ _ _ _ hdistinct hstep ↦ distinctKeys_step hdistinct hstep)
    (show (new : MarkoutEngine F).DistinctKeys from List.nodup_nil) hrun

/-! ## Before the registration -/

/-- An execution that is not in the map stays out until it is registered. -/
theorem absent_step {execId : String} (hdistinct : engine.DistinctKeys)
    (habsent : engine.pending execId = none) (hinput : execId ∉ registrations [input])
    (hstep : engine.step input = some (next, markouts)) :
    next.pending execId = none ∧ returnedFor execId markouts = [] := by
  cases input with
  | updateTrades execution =>
    obtain ⟨rfl, rfl⟩ := Prod.mk.inj (Option.some.inj hstep)
    have hne : execution.execId ≠ execId := by simpa [registrations, eq_comm] using hinput
    rw [pending_updateTrades, if_neg hne]
    exact ⟨habsent, rfl⟩
  | processOrderBook orderBook =>
    obtain ⟨dataPoint, -, -, hspec⟩ := processOrderBook_spec hdistinct hstep
    obtain ⟨hpending, hreturned⟩ := hspec execId
    rw [hpending, hreturned, habsent]
    exact ⟨rfl, rfl⟩

theorem absent_of_run {execId : String} (hrun : Machine.run step new inputs = some (state, outputs))
    (hinputs : execId ∉ registrations inputs) :
    state.pending execId = none ∧ returnedFor execId outputs.flatten = [] := by
  refine Machine.run_history (motive := fun inputs state outputs ↦
    execId ∉ registrations inputs →
      state.pending execId = none ∧ returnedFor execId outputs.flatten = []) ?_ ?_ hrun hinputs
  · exact fun _ ↦ ⟨rfl, rfl⟩
  · intro first middle front input next output hfirst ih hstep hnew
    rw [registrations_append, List.mem_append, not_or] at hnew
    obtain ⟨habsent, hfront⟩ := ih hnew.1
    obtain ⟨hnext, houtput⟩ := absent_step (distinctKeys_of_run hfirst) habsent hnew.2 hstep
    rw [List.flatten_append, List.flatten_singleton, returnedFor_append, hfront, houtput]
    exact ⟨hnext, rfl⟩

/-! ## From the registration on -/

/-- One input after the registration: the pending markout and what is returned are the expected
ones. -/
theorem registered_step {first : List (MarkoutInput F)} (hdistinct : engine.DistinctKeys)
    (hpending : engine.pending execution.execId = pendingAfter execution first)
    (hinput : execution.execId ∉ registrations [input])
    (hstep : engine.step input = some (next, markouts)) :
    next.pending execution.execId = pendingAfter execution (first ++ [input]) ∧
      returnedFor execution.execId markouts = match input with
        | .updateTrades _ => []
        | .processOrderBook orderBook => returnedAt execution first orderBook := by
  cases input with
  | updateTrades other =>
    obtain ⟨rfl, rfl⟩ := Prod.mk.inj (Option.some.inj hstep)
    have hne : other.execId ≠ execution.execId := by simpa [registrations, eq_comm] using hinput
    rw [pending_updateTrades, if_neg hne, hpending, pendingAfter, pendingAfter,
      expectedMarkout_updateTrades, firstAt_append, firstAt_updateTrades, Option.or_none]
    exact ⟨rfl, rfl⟩
  | processOrderBook orderBook =>
    obtain ⟨dataPoint, hdataPoint, -, hspec⟩ := processOrderBook_spec hdistinct hstep
    obtain ⟨hnext, hreturned⟩ := hspec execution.execId
    rw [OrderBook.dataPoint_eq_top] at hdataPoint
    simp only [hnext, hreturned, hpending, pendingAfter, returnedAt, ← ofPending_expectedMarkout]
    by_cases hreached : (firstAt execution.execTs 10000 first).isSome = true
    · -- the markout left the map before
      have hlater : (firstAt execution.execTs 10000
          (first ++ [.processOrderBook orderBook])).isSome := by
        rw [firstAt_append, Option.isSome_or, hreached, Bool.true_or]
      simp [hreached, hlater]
    · rw [if_neg hreached, if_neg hreached, Option.map_some,
        ← expectedMarkout_processOrderBook execution first hdataPoint,
        ← isComplete_expectedMarkout]
      constructor
      · cases hcomplete : (expectedMarkout execution
          (first ++ [.processOrderBook orderBook])).isComplete <;>
          simp [Option.filter, hcomplete]
      · cases hmarkout : CompletedMarkout.ofPending (execution.execId, expectedMarkout execution
          (first ++ [.processOrderBook orderBook])) <;> simp [hmarkout]

/-- From a fresh registration on the pending markout is the expected one, and one markout is
returned in all once ten seconds are reached. -/
theorem registered_of_run (hdistinct : engine.DistinctKeys)
    (hpending : engine.pending execution.execId = some (PendingMarkout.ofExecution execution))
    (hrun : Machine.run step engine inputs = some (state, outputs))
    (hinputs : execution.execId ∉ registrations inputs) :
    state.DistinctKeys ∧ state.pending execution.execId = pendingAfter execution inputs ∧
      (returnedFor execution.execId outputs.flatten).length =
        if (firstAt execution.execTs 10000 inputs).isSome then 1 else 0 := by
  refine Machine.run_history (motive := fun inputs state outputs ↦
    execution.execId ∉ registrations inputs → state.DistinctKeys ∧
      state.pending execution.execId = pendingAfter execution inputs ∧
      (returnedFor execution.execId outputs.flatten).length =
        if (firstAt execution.execTs 10000 inputs).isSome then 1 else 0) ?_ ?_ hrun hinputs
  · exact fun _ ↦ ⟨hdistinct, hpending, rfl⟩
  · intro first middle front input next output _ ih hstep hnew
    rw [registrations_append, List.mem_append, not_or] at hnew
    obtain ⟨hmiddle, hmiddlePending, hcount⟩ := ih hnew.1
    obtain ⟨hnext, hreturned⟩ := registered_step hmiddle hmiddlePending hnew.2 hstep
    refine ⟨distinctKeys_step hmiddle hstep, hnext, ?_⟩
    rw [List.flatten_append, List.flatten_singleton, returnedFor_append, List.length_append,
      hcount, hreturned]
    cases input with
    | updateTrades other =>
      rw [firstAt_append, firstAt_updateTrades, Option.or_none]
      rfl
    | processOrderBook orderBook =>
      have hkept : (firstAt execution.execTs 10000 first).isSome →
          (firstAt execution.execTs 10000 (first ++ [.processOrderBook orderBook])).isSome := by
        intro hreached
        rw [firstAt_append, Option.isSome_or, hreached, Bool.true_or]
      simp only [returnedAt_length]
      split_ifs with hfirst hlater <;> simp_all

/-! ## Whole runs -/

theorem dataPoint_isSome {orderBook : OrderBook F} (hbids : orderBook.bids ≠ [])
    (hasks : orderBook.asks ≠ []) : orderBook.dataPoint.isSome := by
  obtain ⟨bid, bids, hbid⟩ := List.exists_cons_of_ne_nil hbids
  obtain ⟨ask, asks, hask⟩ := List.exists_cons_of_ne_nil hasks
  simp [OrderBook.dataPoint, hbid, hask]

/-- A pending markout is that of a registered execution, up to its slots. -/
theorem origin_of_run {execId : String} {pendingMarkout : PendingMarkout F}
    (hrun : Machine.run step new inputs = some (state, outputs))
    (hpending : state.pending execId = some pendingMarkout) :
    ∃ execution, .updateTrades execution ∈ inputs ∧ execution.execId = execId ∧
      pendingMarkout =
        { PendingMarkout.ofExecution execution with
          mid1s := pendingMarkout.mid1s
          mid5s := pendingMarkout.mid5s
          mid10s := pendingMarkout.mid10s } := by
  refine Machine.run_history (motive := fun inputs state _ ↦ ∀ execId pendingMarkout,
    state.pending execId = some pendingMarkout → ∃ execution,
      .updateTrades execution ∈ inputs ∧ execution.execId = execId ∧
      pendingMarkout =
        { PendingMarkout.ofExecution execution with
          mid1s := pendingMarkout.mid1s
          mid5s := pendingMarkout.mid5s
          mid10s := pendingMarkout.mid10s }) ?_ ?_ hrun execId pendingMarkout hpending
  · intro execId pendingMarkout hpending
    simp [new, pending] at hpending
  · intro first middle front input next output hfirst ih hstep execId pendingMarkout hpending
    cases input with
    | updateTrades execution =>
      obtain ⟨rfl, -⟩ := Prod.mk.inj (Option.some.inj hstep)
      rw [pending_updateTrades] at hpending
      split_ifs at hpending with hid
      · exact ⟨execution, by simp, hid, Option.some.inj hpending ▸ rfl⟩
      · obtain ⟨registered, hmem, horigin⟩ := ih execId pendingMarkout hpending
        exact ⟨registered, List.mem_append_left _ hmem, horigin⟩
    | processOrderBook orderBook =>
      obtain ⟨dataPoint, -, -, hspec⟩ := processOrderBook_spec (distinctKeys_of_run hfirst) hstep
      rw [(hspec execId).1, Option.filter_eq_some_iff] at hpending
      obtain ⟨before, hbefore, rfl⟩ := Option.map_eq_some_iff.mp hpending.1
      obtain ⟨registered, hmem, hid, horigin⟩ := ih execId before hbefore
      refine ⟨registered, List.mem_append_left _ hmem, hid, ?_⟩
      rw [horigin]
      rfl

/-- Valid inputs never abort the engine. -/
theorem run_isSome (hvalid : ValidInputs inputs) :
    ∃ state outputs, Machine.run step new inputs = some (state, outputs) := by
  induction inputs using List.reverseRecOn with
  | nil => exact ⟨new, [], rfl⟩
  | append_singleton first input ih =>
    obtain ⟨middle, front, hfirst⟩ := ih hvalid.of_append
    have hstep : (middle.step input).isSome := by
      cases input with
      | updateTrades execution => rfl
      | processOrderBook orderBook =>
        obtain ⟨hbids, hasks⟩ := hvalid.books orderBook (by simp)
        apply processOrderBook_isSome (distinctKeys_of_run hfirst) (dataPoint_isSome hbids hasks)
        intro execId pendingMarkout hpending
        obtain ⟨execution, hmem, -, horigin⟩ := origin_of_run hfirst hpending
        rw [horigin]
        exact hvalid.fills execution (List.mem_append_left _ hmem)
    obtain ⟨⟨next, output⟩, hstep⟩ := Option.isSome_iff_exists.mp hstep
    exact ⟨next, front ++ [output], Machine.run_append_eq_some.mpr ⟨middle, front, [output], hfirst,
      Machine.run_singleton_eq_some.mpr ⟨output, hstep, rfl⟩, rfl⟩⟩

/-- The state right after a registration. -/
theorem run_registered {mid : List (MarkoutInput F)}
    (hrun : Machine.run step new (before ++ .updateTrades execution :: mid) =
      some (state, outputs)) :
    ∃ middle front back, Machine.run step new before = some (middle, front) ∧
      Machine.run step (middle.updateTrades execution) mid = some (state, back) ∧
      outputs = front ++ [] :: back := by
  obtain ⟨middle, front, _, hbefore, hrest, rfl⟩ := Machine.run_append_eq_some.mp hrun
  obtain ⟨registered, output, back, hstep, hmid, rfl⟩ := Machine.run_cons_eq_some.mp hrest
  obtain ⟨rfl, rfl⟩ := Prod.mk.inj (Option.some.inj hstep)
  exact ⟨middle, front, back, hbefore, hmid, rfl⟩

/-- The state and the returned markouts of an execution after its registration. -/
theorem registered_at {mid : List (MarkoutInput F)}
    (hbefore : execution.execId ∉ registrations before)
    (hmid : execution.execId ∉ registrations mid)
    (hrun : Machine.run step new (before ++ .updateTrades execution :: mid) =
      some (state, outputs)) :
    state.DistinctKeys ∧ state.pending execution.execId = pendingAfter execution mid ∧
      (returnedFor execution.execId outputs.flatten).length =
        if (firstAt execution.execTs 10000 mid).isSome then 1 else 0 := by
  obtain ⟨middle, early, back, hearly, hback, rfl⟩ := run_registered hrun
  have hfresh : (middle.updateTrades execution).pending execution.execId =
      some (PendingMarkout.ofExecution execution) := by
    rw [pending_updateTrades, if_pos rfl]
  obtain ⟨hkeys, hpending, hcount⟩ := registered_of_run
    (distinctKeys_updateTrades (distinctKeys_of_run hearly) execution) hfresh hback hmid
  refine ⟨hkeys, hpending, ?_⟩
  rw [List.flatten_append, List.flatten_cons, List.nil_append, returnedFor_append,
    (absent_of_run hearly hbefore).2]
  exact hcount

/-- While executions have distinct ids none of them is returned twice. -/
theorem returnedFor_length_le_one (hdistinct : (registrations inputs).Nodup)
    (hrun : Machine.run step new inputs = some (state, outputs)) (execId : String) :
    (returnedFor execId outputs.flatten).length ≤ 1 := by
  by_cases hmem : execId ∈ registrations inputs
  · obtain ⟨before, execution, after, rfl, rfl⟩ := mem_registrations.mp hmem
    obtain ⟨hbefore, hafter⟩ := notMem_of_nodup hdistinct
    rw [(registered_at hbefore hafter hrun).2.2]
    split_ifs <;> omega
  · rw [(absent_of_run hrun hmem).2]
    exact Nat.zero_le 1

/-- For every trade of a run: at every point after its registration it is pending, with the horizons
reached filled in, until ten seconds are reached; the call for the first book that reaches ten
seconds returns its record, with the tops of the first books that reach each horizon; no other call
returns it; and in all it is returned once if ten seconds are reached and never otherwise. -/
theorem markouts_at_first_books (hvalid : ValidInputs inputs) :
    ∃ final outputs, Machine.run step new inputs = some (final, outputs) ∧
      ∀ before execution after, inputs = before ++ .updateTrades execution :: after →
        (∀ mid rest state front, after = mid ++ rest →
          Machine.run step new (before ++ .updateTrades execution :: mid) = some (state, front) →
          state.pending execution.execId = pendingAfter execution mid) ∧
        (∀ mid orderBook rest state front next markouts,
          after = mid ++ .processOrderBook orderBook :: rest →
          Machine.run step new (before ++ .updateTrades execution :: mid) = some (state, front) →
          state.processOrderBook orderBook = some (next, markouts) →
          if firstAt execution.execTs 10000 mid = none ∧
              execution.execTs.toNat + 10000 ≤ orderBook.cts.toNat then
            ∃ mid1s mid5s mid10s,
              firstAt execution.execTs 1000 (mid ++ [.processOrderBook orderBook]) = some mid1s ∧
              firstAt execution.execTs 5000 (mid ++ [.processOrderBook orderBook]) = some mid5s ∧
              orderBook.top = some mid10s ∧
              returnedFor execution.execId markouts = [recordOf execution mid1s mid5s mid10s]
          else returnedFor execution.execId markouts = []) ∧
        (∀ first orderBook rest state front next markouts,
          before = first ++ .processOrderBook orderBook :: rest →
          Machine.run step new first = some (state, front) →
          state.processOrderBook orderBook = some (next, markouts) →
          returnedFor execution.execId markouts = []) ∧
        (returnedFor execution.execId outputs.flatten).length =
          if (firstAt execution.execTs 10000 after).isSome then 1 else 0 := by
  obtain ⟨final, outputs, hrun⟩ := run_isSome hvalid
  refine ⟨final, outputs, hrun, ?_⟩
  intro before execution after hinputs
  subst hinputs
  obtain ⟨hbefore, hafter⟩ := notMem_of_nodup hvalid.distinct
  refine ⟨?_, ?_, ?_, (registered_at hbefore hafter hrun).2.2⟩
  · intro mid rest state front hsplit hstate
    subst hsplit
    rw [registrations_append, List.mem_append, not_or] at hafter
    exact (registered_at hbefore hafter.1 hstate).2.1
  · intro mid orderBook rest state front next markouts hsplit hstate hprocess
    subst hsplit
    rw [registrations_append, List.mem_append, not_or] at hafter
    obtain ⟨hkeys, hpending, -⟩ := registered_at hbefore hafter.1 hstate
    have hbook : execution.execId ∉
        registrations [(.processOrderBook orderBook : MarkoutInput F)] := by simp [registrations]
    obtain ⟨-, hreturned⟩ := registered_step hkeys hpending hbook hprocess
    simp only at hreturned
    obtain ⟨hbids, hasks⟩ := hvalid.books orderBook (by simp)
    have hsides := dataPoint_isSome hbids hasks
    rw [OrderBook.dataPoint_eq_top] at hsides
    obtain ⟨mid10s, htop⟩ := Option.isSome_iff_exists.mp hsides
    rw [hreturned]
    split_ifs with hfirst
    · obtain ⟨mid1s, mid5s, h1s, h5s, hrecord⟩ := returnedAt_of_first htop hfirst.1 hfirst.2
      exact ⟨mid1s, mid5s, mid10s, h1s, h5s, htop, hrecord⟩
    · exact returnedAt_of_not_first htop hfirst
  · intro first orderBook rest state front next markouts hsplit hstate hprocess
    subst hsplit
    rw [registrations_append, List.mem_append, not_or] at hbefore
    obtain ⟨habsent, -⟩ := absent_of_run hstate hbefore.1
    have hbook : execution.execId ∉
        registrations [(.processOrderBook orderBook : MarkoutInput F)] := by simp [registrations]
    exact (absent_step (distinctKeys_of_run hstate) habsent hbook hprocess).2

/-- Two books of which the second is older, then one after five and one after ten seconds. -/
def sampleHorizons : List (MarkoutInput ℚ) :=
  [.processOrderBook (sampleMarketAt 1500 10 3 12 1),
    .processOrderBook (sampleMarketAt 900 20 1 22 1),
    .processOrderBook (sampleMarketAt 6000 30 1 33 3)]

theorem markouts_at_first_books_sample :
    ∃ state front next markouts,
      Machine.run step new (.updateTrades sampleExecution :: sampleHorizons) =
        some (state, front) ∧
      state.processOrderBook (sampleMarketAt 12000 40 1 41 4) = some (next, markouts) ∧
      state.pending "exec-1" =
        some { orderLinkId := 90, fillTs := 2, side := .buy, limitPrice := 567 / 1000
               execPrice := 567 / 1000, execQty := 25
               mid1s := some { midPrice := 11, imbalance := 1 / 2 }
               mid5s := some { midPrice := 63 / 2, imbalance := -1 / 2 }
               mid10s := none } ∧
      returnedFor "exec-1" markouts =
        [{ execId := "exec-1", orderLinkId := 90, fillTs := 2, side := .buy
           limitPrice := 567 / 1000, execPrice := 567 / 1000, execQty := 25
           mid1s := { midPrice := 11, imbalance := 1 / 2 }
           mid5s := { midPrice := 63 / 2, imbalance := -1 / 2 }
           mid10s := { midPrice := 81 / 2, imbalance := -3 / 5 } }] := by
  have hvalid : ValidInputs (.updateTrades sampleExecution :: sampleHorizons ++
      [.processOrderBook (sampleMarketAt 12000 40 1 41 4)]) := by
    constructor
    · simp [registrations, sampleHorizons]
    · intro execution hinput
      obtain rfl : execution = sampleExecution := by simpa [sampleHorizons] using hinput
      decide
    · intro orderBook hinput
      simp only [sampleHorizons, List.cons_append, List.nil_append, List.mem_cons, reduceCtorEq,
        MarkoutInput.processOrderBook.injEq, List.not_mem_nil, or_false, false_or] at hinput
      rcases hinput with rfl | rfl | rfl | rfl <;> simp [sampleMarketAt]
  obtain ⟨final, outputs, hrun, hmarkouts⟩ := markouts_at_first_books hvalid
  obtain ⟨state, front, _, hfront, hlast, rfl⟩ := Machine.run_append_eq_some.mp hrun
  obtain ⟨markouts, hstep, rfl⟩ := Machine.run_singleton_eq_some.mp hlast
  obtain ⟨hpending, hreturned, -⟩ := hmarkouts [] sampleExecution _ rfl
  refine ⟨state, front, final, markouts, hfront, hstep, ?_, ?_⟩
  · exact (hpending sampleHorizons _ state front rfl hfront).trans (by decide +kernel)
  · have hrecord := hreturned sampleHorizons _ [] state front final markouts rfl hfront hstep
    rw [if_pos (by decide +kernel)] at hrecord
    obtain ⟨mid1s, mid5s, mid10s, h1s, h5s, h10s, hmarkout⟩ := hrecord
    have hfirst : (some mid1s, some mid5s, some mid10s) =
        (some { midPrice := (11 : ℚ), imbalance := 1 / 2 },
          some { midPrice := 63 / 2, imbalance := -1 / 2 },
          some { midPrice := 81 / 2, imbalance := -3 / 5 }) := by
      rw [← h1s, ← h5s, ← h10s]
      decide +kernel
    simp only [Prod.mk.injEq, Option.some.injEq] at hfirst
    obtain ⟨rfl, rfl, rfl⟩ := hfirst
    exact hmarkout

end MarkoutEngine

end MarketMaker
