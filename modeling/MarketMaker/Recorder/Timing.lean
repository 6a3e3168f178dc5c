import MarketMaker.Recorder.Horizons

/-!
# When a markout is completed

The caller of the engine knows the book that a markout was completed by.  On a market, `firstBook`
is the first book that reaches a horizon after a fill, and `marketMarkout` what the books say about
the fill.  If every fill is registered before the younger books are processed, the engine returns
the market's markouts of its fills, each at the time of the book that completes it.
-/

namespace MarketMaker

variable {F : Type}

def MarkoutInput.orderBook : MarkoutInput F → Option (OrderBook F)
  | .processOrderBook orderBook => some orderBook
  | .updateTrades _ => none

def processedBooks (inputs : List (MarkoutInput F)) : List (OrderBook F) :=
  inputs.filterMap MarkoutInput.orderBook

@[simp]
theorem processedBooks_nil : processedBooks ([] : List (MarkoutInput F)) = [] := rfl

@[simp]
theorem processedBooks_append (first second : List (MarkoutInput F)) :
    processedBooks (first ++ second) = processedBooks first ++ processedBooks second :=
  List.filterMap_append

@[simp]
theorem processedBooks_updateTrades (execution : OrderExecution F)
    (inputs : List (MarkoutInput F)) :
    processedBooks (.updateTrades execution :: inputs) = processedBooks inputs := rfl

@[simp]
theorem processedBooks_processOrderBook (orderBook : OrderBook F)
    (inputs : List (MarkoutInput F)) :
    processedBooks (.processOrderBook orderBook :: inputs) =
      orderBook :: processedBooks inputs := rfl

theorem mem_processedBooks {inputs : List (MarkoutInput F)} {orderBook : OrderBook F} :
    orderBook ∈ processedBooks inputs ↔ .processOrderBook orderBook ∈ inputs := by
  rw [processedBooks, List.mem_filterMap]
  constructor
  · intro hmem
    obtain ⟨input, hinput, hbook⟩ := hmem
    cases input with
    | updateTrades execution => cases hbook
    | processOrderBook other => rwa [← Option.some.inj hbook]
  · intro hmem
    exact ⟨_, hmem, rfl⟩

/-- What a call returned, with the time of its book. -/
def MarkoutInput.timed (input : MarkoutInput F) (markouts : List (CompletedMarkout F)) :
    List (UInt64 × CompletedMarkout F) :=
  match input with
  | .updateTrades _ => []
  | .processOrderBook orderBook => markouts.map fun markout ↦ (orderBook.cts, markout)

def timedMarkouts (inputs : List (MarkoutInput F)) (outputs : List (List (CompletedMarkout F))) :
    List (UInt64 × CompletedMarkout F) :=
  (inputs.zip outputs).flatMap fun call ↦ call.1.timed call.2

theorem timedMarkouts_append {first second : List (MarkoutInput F)}
    {front back : List (List (CompletedMarkout F))} (hlength : front.length = first.length) :
    timedMarkouts (first ++ second) (front ++ back) =
      timedMarkouts first front ++ timedMarkouts second back := by
  unfold timedMarkouts
  rw [List.zip_append hlength.symm, List.flatMap_append]

@[simp]
theorem timedMarkouts_singleton (input : MarkoutInput F) (markouts : List (CompletedMarkout F)) :
    timedMarkouts [input] [markouts] = input.timed markouts := by
  simp [timedMarkouts]

theorem mem_flatten_of_mem_timedMarkouts {inputs : List (MarkoutInput F)}
    {outputs : List (List (CompletedMarkout F))} {entry : UInt64 × CompletedMarkout F}
    (hmem : entry ∈ timedMarkouts inputs outputs) : entry.2 ∈ outputs.flatten := by
  obtain ⟨⟨input, markouts⟩, hcall, hentry⟩ := List.mem_flatMap.mp hmem
  apply List.mem_flatten_of_mem (List.of_mem_zip hcall).2
  cases input with
  | updateTrades execution => cases hentry
  | processOrderBook orderBook =>
    obtain ⟨markout, hmarkout, rfl⟩ := List.mem_map.mp hentry
    exact hmarkout

def timedFor (execId : String) (entries : List (UInt64 × CompletedMarkout F)) :
    List (UInt64 × CompletedMarkout F) :=
  entries.filter fun entry ↦ entry.2.execId = execId

theorem timedFor_append (execId : String) (first second : List (UInt64 × CompletedMarkout F)) :
    timedFor execId (first ++ second) = timedFor execId first ++ timedFor execId second :=
  List.filter_append ..

theorem timedFor_processOrderBook (execId : String) (orderBook : OrderBook F)
    (markouts : List (CompletedMarkout F)) :
    timedFor execId ((MarkoutInput.processOrderBook orderBook).timed markouts) =
      (MarkoutEngine.returnedFor execId markouts).map fun markout ↦ (orderBook.cts, markout) := by
  unfold timedFor MarkoutInput.timed MarkoutEngine.returnedFor
  rw [List.filter_map]
  rfl

/-! ## The market -/

/-- The first book of a market that reaches a horizon after a fill. -/
def firstBook (fillTs : UInt64) (horizon : ℕ) (orderBooks : List (OrderBook F)) :
    Option (OrderBook F) :=
  orderBooks.find? fun orderBook ↦ fillTs.toNat + horizon ≤ orderBook.cts.toNat

theorem firstBook_append (fillTs : UInt64) (horizon : ℕ) (first second : List (OrderBook F)) :
    firstBook fillTs horizon (first ++ second) =
      (firstBook fillTs horizon first).or (firstBook fillTs horizon second) :=
  List.find?_append

/-- Books that are not younger than the fill do not matter. -/
theorem firstBook_append_of_le {fillTs : UInt64} {horizon : ℕ} (hhorizon : 0 < horizon)
    {before : List (OrderBook F)} (hbefore : ∀ orderBook ∈ before, orderBook.cts ≤ fillTs)
    (after : List (OrderBook F)) :
    firstBook fillTs horizon (before ++ after) = firstBook fillTs horizon after := by
  have hnone : firstBook fillTs horizon before = none := by
    rw [firstBook, List.find?_eq_none]
    intro orderBook hmem
    have hle := UInt64.le_iff_toNat_le.mp (hbefore orderBook hmem)
    simp only [decide_eq_true_eq]
    omega
  rw [firstBook_append, hnone, Option.none_or]

variable [Add F] [Sub F] [Div F] [OfScientific F]

/-- What the books of a market say about a fill, and the time of the last book it takes. -/
def marketMarkout (orderBooks : List (OrderBook F)) (execution : OrderExecution F) :
    Option (UInt64 × CompletedMarkout F) := do
  let last ← firstBook execution.execTs 10000 orderBooks
  let mid1s ← (← firstBook execution.execTs 1000 orderBooks).top
  let mid5s ← (← firstBook execution.execTs 5000 orderBooks).top
  let mid10s ← last.top
  return (last.cts, recordOf execution mid1s mid5s mid10s)

theorem marketMarkout_append {before : List (OrderBook F)} {execution : OrderExecution F}
    (hbefore : ∀ orderBook ∈ before, orderBook.cts ≤ execution.execTs)
    (after : List (OrderBook F)) :
    marketMarkout (before ++ after) execution = marketMarkout after execution := by
  unfold marketMarkout
  rw [firstBook_append_of_le (by decide) hbefore, firstBook_append_of_le (by decide) hbefore,
    firstBook_append_of_le (by decide) hbefore]

theorem execId_of_marketMarkout {orderBooks : List (OrderBook F)} {execution : OrderExecution F}
    {entry : UInt64 × CompletedMarkout F}
    (hentry : marketMarkout orderBooks execution = some entry) :
    entry.2.execId = execution.execId := by
  simp only [marketMarkout, bind, Option.bind_eq_some_iff, pure, Option.some.injEq] at hentry
  obtain ⟨_, -, _, -, _, -, _, -, _, -, _, -, rfl⟩ := hentry
  rfl

/-! ## The engine on a market -/

/-- What was found for a fill among the books since its registration. -/
def completedAt (execution : OrderExecution F) (inputs : List (MarkoutInput F)) :
    Option (UInt64 × CompletedMarkout F) :=
  (firstBook execution.execTs 10000 (processedBooks inputs)).bind fun last ↦
    (completedAfter execution inputs).map fun markout ↦ (last.cts, markout)

/-- Every processed book has two sides. -/
def Observed (inputs : List (MarkoutInput F)) : Prop :=
  ∀ orderBook ∈ processedBooks inputs, orderBook.top.isSome

theorem firstAt_eq {inputs : List (MarkoutInput F)} (hobserved : Observed inputs)
    (fillTs : UInt64) (horizon : ℕ) :
    firstAt fillTs horizon inputs =
      (firstBook fillTs horizon (processedBooks inputs)).bind OrderBook.top := by
  induction inputs with
  | nil => rfl
  | cons input rest ih =>
    cases input with
    | updateTrades execution => exact ih hobserved
    | processOrderBook orderBook =>
      obtain ⟨top, htop⟩ :=
        Option.isSome_iff_exists.mp (hobserved orderBook (List.mem_cons_self ..))
      have hrest := ih fun other hmem ↦ hobserved other (List.mem_cons_of_mem _ hmem)
      by_cases hreach : fillTs.toNat + horizon ≤ orderBook.cts.toNat
      · simp [firstAt, firstBook, MarkoutInput.observation, htop, hreach]
      · simpa [firstAt, firstBook, MarkoutInput.observation, htop, hreach] using hrest

theorem isSome_firstBook {inputs : List (MarkoutInput F)} (hobserved : Observed inputs)
    (fillTs : UInt64) (horizon : ℕ) :
    (firstBook fillTs horizon (processedBooks inputs)).isSome =
      (firstAt fillTs horizon inputs).isSome := by
  rw [firstAt_eq hobserved]
  cases hfirst : firstBook fillTs horizon (processedBooks inputs) with
  | none => rfl
  | some orderBook =>
    rw [Option.bind_some, hobserved orderBook (List.mem_of_find?_eq_some hfirst)]
    rfl

theorem completedAt_eq {inputs : List (MarkoutInput F)} (hobserved : Observed inputs)
    (execution : OrderExecution F) :
    completedAt execution inputs = marketMarkout (processedBooks inputs) execution := by
  unfold completedAt marketMarkout
  cases hlast : firstBook execution.execTs 10000 (processedBooks inputs) with
  | none => rfl
  | some last =>
    simp [completedAfter, firstAt_eq hobserved, hlast, Option.bind_assoc, Option.map_eq_bind]

/-- Once ten seconds are reached nothing changes. -/
theorem completedAt_append {first : List (MarkoutInput F)} (hobserved : Observed first)
    {execution : OrderExecution F} (hreached : (firstAt execution.execTs 10000 first).isSome)
    (second : List (MarkoutInput F)) :
    completedAt execution (first ++ second) = completedAt execution first := by
  have hcompleted : completedAfter execution (first ++ second) =
      completedAfter execution first := by
    have hslot : ∀ horizon ≤ 10000, firstAt execution.execTs horizon (first ++ second) =
        firstAt execution.execTs horizon first := by
      intro horizon hle
      rw [firstAt_append, Option.or_of_isSome (firstAt_isSome_of_le hle hreached)]
    unfold completedAfter
    rw [hslot 1000 (by decide), hslot 5000 (by decide), hslot 10000 (by decide)]
  rw [← isSome_firstBook hobserved] at hreached
  unfold completedAt
  rw [hcompleted, processedBooks_append, firstBook_append, Option.or_of_isSome hreached]

/-- The book that reaches ten seconds completes the markout. -/
theorem completedAt_processOrderBook {first : List (MarkoutInput F)} (hobserved : Observed first)
    {execution : OrderExecution F} (hopen : ¬(firstAt execution.execTs 10000 first).isSome)
    {orderBook : OrderBook F} {top : DataPoint F} (htop : orderBook.top = some top) :
    completedAt execution (first ++ [.processOrderBook orderBook]) =
      (completedAfter execution (first ++ [.processOrderBook orderBook])).map
        fun markout ↦ (orderBook.cts, markout) := by
  have hfirst : firstAt execution.execTs 10000 first = none :=
    Option.not_isSome_iff_eq_none.mp hopen
  rw [← isSome_firstBook hobserved, Option.not_isSome_iff_eq_none] at hopen
  have hbook : firstBook execution.execTs 10000
      (processedBooks (first ++ [.processOrderBook orderBook])) =
        if execution.execTs.toNat + 10000 ≤ orderBook.cts.toNat then some orderBook else none := by
    rw [processedBooks_append, firstBook_append, hopen, Option.none_or]
    by_cases hreach : execution.execTs.toNat + 10000 ≤ orderBook.cts.toNat <;>
      simp [firstBook, hreach]
  unfold completedAt
  rw [hbook]
  split_ifs with hreach
  · rfl
  · have hnone : completedAfter execution (first ++ [.processOrderBook orderBook]) = none := by
      rw [← Option.not_isSome_iff_eq_none, isSome_completedAfter, firstAt_append, hfirst,
        Option.none_or, firstAt_processOrderBook _ _ htop, if_neg hreach]
      exact Bool.false_ne_true
    rw [hnone]
    rfl

/-- The markouts of the fills with one id. -/
theorem timedFor_filterMap (execId : String) (orderBooks : List (OrderBook F))
    (fills : List (OrderExecution F)) :
    timedFor execId (fills.filterMap (marketMarkout orderBooks)) =
      (fills.filter fun fill ↦ fill.execId = execId).filterMap (marketMarkout orderBooks) := by
  unfold timedFor
  rw [List.filter_filterMap, List.filterMap_filter]
  congr 1
  funext fill
  cases hentry : marketMarkout orderBooks fill with
  | none => simp
  | some entry => simp [Option.filter, execId_of_marketMarkout hentry]

namespace MarkoutEngine

variable {state : MarkoutEngine F} {inputs : List (MarkoutInput F)}
  {outputs : List (List (CompletedMarkout F))} {execution : OrderExecution F}

/-- A book that was processed has two sides. -/
theorem observed_of_run {engine : MarkoutEngine F}
    (hrun : Machine.run step engine inputs = some (state, outputs)) : Observed inputs := by
  apply Machine.run_history (motive := fun inputs _ _ ↦ Observed inputs) _ _ hrun
  · intro orderBook hmem
    cases hmem
  · intro first middle front input next output _ hobserved hstep orderBook hmem
    rw [processedBooks_append, List.mem_append] at hmem
    obtain hmem | hmem := hmem
    · exact hobserved orderBook hmem
    · cases input with
      | updateTrades execution => cases hmem
      | processOrderBook other =>
        obtain rfl := List.mem_singleton.mp hmem
        obtain ⟨updated, hupdate, -⟩ := Option.bind_eq_some_iff.mp hstep
        obtain ⟨dataPoint, hdataPoint, -⟩ := Option.bind_eq_some_iff.mp hupdate
        rw [← OrderBook.dataPoint_eq_top, hdataPoint]
        rfl

/-- Since a fresh registration the engine returned what the books completed. -/
theorem timed_of_registered {engine : MarkoutEngine F} (hdistinct : engine.DistinctKeys)
    (hpending : engine.pending execution.execId = some (PendingMarkout.ofExecution execution))
    (hrun : Machine.run step engine inputs = some (state, outputs))
    (hinputs : execution.execId ∉ registrations inputs) :
    timedFor execution.execId (timedMarkouts inputs outputs) =
      (completedAt execution inputs).toList := by
  revert hinputs
  apply Machine.run_history (motive := fun inputs _ outputs ↦
    execution.execId ∉ registrations inputs →
      timedFor execution.execId (timedMarkouts inputs outputs) =
        (completedAt execution inputs).toList) _ _ hrun
  · intro _
    rfl
  · intro first middle front input next output hfirst ih hstep hnew
    rw [registrations_append, List.mem_append, not_or] at hnew
    obtain ⟨hkeys, hmiddle, -⟩ := registered_of_run hdistinct hpending hfirst hnew.1
    obtain ⟨-, hreturned⟩ := registered_step hkeys hmiddle hnew.2 hstep
    have hobserved := observed_of_run hfirst
    rw [timedMarkouts_append (Machine.run_length hfirst), timedFor_append, ih hnew.1,
      timedMarkouts_singleton]
    cases input with
    | updateTrades other =>
      have hsame : completedAt execution (first ++ [.updateTrades other]) =
          completedAt execution first := by
        unfold completedAt
        rw [← ofPending_expectedMarkout, expectedMarkout_updateTrades, ofPending_expectedMarkout,
          processedBooks_append]
        simp
      rw [hsame]
      exact List.append_nil _
    | processOrderBook orderBook =>
      rw [timedFor_processOrderBook]
      simp only at hreturned
      rw [hreturned, returnedAt]
      by_cases hreached : (firstAt execution.execTs 10000 first).isSome
      · rw [if_pos hreached, completedAt_append hobserved hreached]
        exact List.append_nil _
      · obtain ⟨dataPoint, hdataPoint, -⟩ := processOrderBook_spec hkeys hstep
        have hnone : completedAt execution first = none := by
          rw [← isSome_firstBook hobserved, Option.not_isSome_iff_eq_none] at hreached
          rw [completedAt, hreached]
          rfl
        rw [OrderBook.dataPoint_eq_top] at hdataPoint
        rw [if_neg hreached, hnone, completedAt_processOrderBook hobserved hreached hdataPoint]
        cases completedAfter execution (first ++ [.processOrderBook orderBook]) <;> rfl

/-- Nothing is returned for an execution that was not registered. -/
theorem timedFor_of_absent {execId : String}
    (hrun : Machine.run step new inputs = some (state, outputs))
    (hinputs : execId ∉ registrations inputs) :
    timedFor execId (timedMarkouts inputs outputs) = [] := by
  have hreturned := (absent_of_run hrun hinputs).2
  rw [returnedFor, List.filter_eq_nil_iff] at hreturned
  rw [timedFor, List.filter_eq_nil_iff]
  intro entry hentry
  exact hreturned entry.2 (mem_flatten_of_mem_timedMarkouts hentry)

/-- Every fill is registered before the younger books are processed. -/
def InOrder (inputs : List (MarkoutInput F)) : Prop :=
  inputs.Pairwise fun earlier later ↦ ∀ orderBook execution,
    earlier = .processOrderBook orderBook → later = .updateTrades execution →
    orderBook.cts ≤ execution.execTs

/-- What a run returned for a registered fill. -/
theorem timedFor_of_run (hdistinct : (registrations inputs).Nodup)
    (hordered : InOrder inputs) (hrun : Machine.run step new inputs = some (state, outputs))
    (hregistered : .updateTrades execution ∈ inputs) :
    timedFor execution.execId (timedMarkouts inputs outputs) =
      (marketMarkout (processedBooks inputs) execution).toList := by
  have hobserved := observed_of_run hrun
  obtain ⟨before, after, rfl⟩ := List.append_of_mem hregistered
  obtain ⟨hbefore, hafter⟩ := notMem_of_nodup hdistinct
  obtain ⟨middle, front, back, hfront, hback, rfl⟩ := run_registered hrun
  have hfresh : (middle.updateTrades execution).pending execution.execId =
      some (PendingMarkout.ofExecution execution) := by
    rw [pending_updateTrades, if_pos rfl]
  have hlater : Observed after := by
    intro orderBook hmem
    apply hobserved orderBook
    rw [processedBooks_append, processedBooks_updateTrades]
    exact List.mem_append_right _ hmem
  have hearlier : ∀ orderBook ∈ processedBooks before, orderBook.cts ≤ execution.execTs := by
    intro orderBook hmem
    exact (List.pairwise_append.mp hordered).2.2 _ (mem_processedBooks.mp hmem) _
      (List.mem_cons_self ..) orderBook execution rfl rfl
  rw [timedMarkouts_append (Machine.run_length hfront), timedFor_append,
    timedFor_of_absent hfront hbefore, List.nil_append, processedBooks_append,
    processedBooks_updateTrades,
    marketMarkout_append hearlier, ← completedAt_eq hlater]
  change timedFor execution.execId (timedMarkouts after back) = _
  exact timed_of_registered (distinctKeys_updateTrades (distinctKeys_of_run hfront) execution)
    hfresh hback hafter

/-- The engine returns the market's markouts of its fills, each at the time of the book that
completes it, and nothing else. -/
theorem timedMarkouts_perm (hdistinct : (registrations inputs).Nodup)
    (hordered : InOrder inputs) (hrun : Machine.run step new inputs = some (state, outputs)) :
    (timedMarkouts inputs outputs).Perm
      ((inputs.filterMap MarkoutInput.execution).filterMap
        (marketMarkout (processedBooks inputs))) := by
  apply Keyed.perm_of_filter_eq fun entry : UInt64 × CompletedMarkout F ↦ entry.2.execId
  intro execId
  change timedFor execId _ = timedFor execId _
  rw [registrations_eq_map] at hdistinct
  rw [timedFor_filterMap, Keyed.filter_key_eq hdistinct]
  cases hlookup : Keyed.lookup OrderExecution.execId (inputs.filterMap MarkoutInput.execution)
      execId with
  | none =>
    have hnot : execId ∉ registrations inputs := by
      rw [registrations_eq_map]
      exact Keyed.lookup_eq_none.mp hlookup
    rw [timedFor_of_absent hrun hnot]
    rfl
  | some execution =>
    obtain rfl := Keyed.key_of_lookup hlookup
    obtain ⟨input, hinput, hexecution⟩ :=
      List.mem_filterMap.mp ((Keyed.mem_iff_lookup hdistinct).mpr hlookup)
    cases input with
    | processOrderBook orderBook => cases hexecution
    | updateTrades other =>
      obtain rfl := Option.some.inj hexecution
      rw [← registrations_eq_map] at hdistinct
      rw [timedFor_of_run hdistinct hordered hrun hinput]
      cases hentry : marketMarkout (processedBooks inputs) other <;> simp [hentry]

end MarkoutEngine

end MarketMaker
