import MarketMaker.Recorder.Horizons

/-!
# Redelivered executions

The order management system remembers which executions it counted; the markout engine does not.
It registers a redelivered execution anew, which is harmless while the first registration is
pending with empty slots, and otherwise clears its slots or starts a second markout.  Where every
copy is that early, the run returns what it returns without the copies.
-/

namespace MarketMaker

variable {F : Type}

/-- Executions with the same id are copies of each other. -/
def IdenticalCopies (inputs : List (MarkoutInput F)) : Prop :=
  ∀ first second, .updateTrades first ∈ inputs → .updateTrades second ∈ inputs →
    first.execId = second.execId → first = second

theorem identicalCopies_of_forall {inputs : List (MarkoutInput F)} (execution : OrderExecution F)
    (hall : ∀ other, .updateTrades other ∈ inputs → other = execution) :
    IdenticalCopies inputs := by
  intro first second hfirst hsecond _
  rw [hall first hfirst, hall second hsecond]

/-- Remove every execution whose id was seen before. -/
def dropCopies (seen : List String) : List (MarkoutInput F) → List (MarkoutInput F)
  | [] => []
  | .updateTrades execution :: rest =>
    if execution.execId ∈ seen then dropCopies seen rest
    else .updateTrades execution :: dropCopies (execution.execId :: seen) rest
  | .processOrderBook orderBook :: rest => .processOrderBook orderBook :: dropCopies seen rest

theorem dropCopies_congr {seen seen' : List String} (hsame : ∀ id, id ∈ seen ↔ id ∈ seen')
    (inputs : List (MarkoutInput F)) : dropCopies seen inputs = dropCopies seen' inputs := by
  induction inputs generalizing seen seen' with
  | nil => rfl
  | cons input rest ih =>
    cases input with
    | updateTrades execution =>
      have hlater := ih fun id ↦ show id ∈ execution.execId :: seen ↔ id ∈ execution.execId :: seen'
        by simp [hsame]
      rw [dropCopies, dropCopies, ih hsame, hlater]
      simp only [hsame]
    | processOrderBook orderBook => rw [dropCopies, dropCopies, ih hsame]

theorem mem_registrations_concat {first : List (MarkoutInput F)} {execution : OrderExecution F}
    {id : String} : id ∈ registrations (first ++ [.updateTrades execution]) ↔
      id = execution.execId ∨ id ∈ registrations first := by
  simp [registrations, or_comm]

/-- Without copies the ids are distinct, and new. -/
theorem registrations_dropCopies (seen : List String) (inputs : List (MarkoutInput F)) :
    (registrations (dropCopies seen inputs)).Nodup ∧
      ∀ id ∈ registrations (dropCopies seen inputs), id ∉ seen := by
  induction inputs generalizing seen with
  | nil => simp [dropCopies, registrations]
  | cons input rest ih =>
    cases input with
    | updateTrades execution =>
      rw [dropCopies]
      split_ifs with hseen
      · exact ih seen
      · obtain ⟨hnodup, hnew⟩ := ih (execution.execId :: seen)
        rw [registrations_updateTrades]
        constructor
        · exact List.nodup_cons.mpr ⟨fun hmem ↦ hnew _ hmem (List.mem_cons_self ..), hnodup⟩
        · intro id hmem
          rcases List.mem_cons.mp hmem with rfl | hmem
          · exact hseen
          · exact fun hold ↦ hnew id hmem (List.mem_cons_of_mem _ hold)
    | processOrderBook orderBook => exact ih seen

def returnedList : MarkoutInput F × List (CompletedMarkout F) → List (List (CompletedMarkout F))
  | (.processOrderBook _, markouts) => [markouts]
  | (.updateTrades _, _) => []

def returnedLists (inputs : List (MarkoutInput F)) (outputs : List (List (CompletedMarkout F))) :
    List (List (CompletedMarkout F)) :=
  (inputs.zip outputs).flatMap returnedList

variable [Add F] [Sub F] [Div F] [OfScientific F]

namespace MarkoutEngine

variable {state : MarkoutEngine F} {inputs : List (MarkoutInput F)}
  {outputs : List (List (CompletedMarkout F))}

/-- Every copy arrives while its execution is pending with no horizon recorded. -/
def CopiesComeEarly (inputs : List (MarkoutInput F)) : Prop :=
  ∀ first execution rest state front, inputs = first ++ .updateTrades execution :: rest →
    execution.execId ∈ registrations first →
    Machine.run step new first = some (state, front) →
    ∃ pendingMarkout, state.pending execution.execId = some pendingMarkout ∧
      pendingMarkout.mid1s = none ∧ pendingMarkout.mid5s = none ∧ pendingMarkout.mid10s = none

/-- An early copy finds the markout it would write. -/
theorem updateTrades_copy (hcopies : IdenticalCopies inputs) (hearly : CopiesComeEarly inputs)
    {first rest : List (MarkoutInput F)} {execution : OrderExecution F}
    {front : List (List (CompletedMarkout F))}
    (hinputs : inputs = first ++ .updateTrades execution :: rest)
    (hcopy : execution.execId ∈ registrations first)
    (hrun : Machine.run step new first = some (state, front)) :
    state.updateTrades execution = state := by
  apply updateTrades_eq_self
  obtain ⟨pendingMarkout, hpending, h1s, h5s, h10s⟩ :=
    hearly first execution rest state front hinputs hcopy hrun
  obtain ⟨registered, hmem, hid, horigin⟩ := origin_of_run hrun hpending
  have hsame : registered = execution := hcopies registered execution
    (hinputs ▸ List.mem_append_left _ hmem) (by simp [hinputs]) hid
  rw [h1s, h5s, h10s, hsame] at horigin
  rw [hpending, horigin]
  rfl

/-- Early copies are silent. -/
theorem skips_dropCopies (hcopies : IdenticalCopies inputs) (hearly : CopiesComeEarly inputs)
    {first rest : List (MarkoutInput F)} {front : List (List (CompletedMarkout F))}
    (hinputs : inputs = first ++ rest) (hrun : Machine.run step new first = some (state, front)) :
    Machine.Skips step (fun input ↦ ∃ execution, input = .updateTrades execution) [] state rest
      (dropCopies (registrations first) rest) := by
  induction rest generalizing first state front with
  | nil => exact .nil state
  | cons input rest ih =>
    have hsplit : inputs = (first ++ [input]) ++ rest := by simp [hinputs]
    have hnext : ∀ next output, state.step input = some (next, output) →
        Machine.run step new (first ++ [input]) = some (next, front ++ [output]) :=
      fun next output hstep ↦ Machine.run_append_eq_some.mpr ⟨state, front, [output], hrun,
        Machine.run_singleton_eq_some.mpr ⟨output, hstep, rfl⟩, rfl⟩
    cases input with
    | updateTrades execution =>
      have hstep : state.step (.updateTrades execution) =
          some (state.updateTrades execution, []) := rfl
      have hlater := ih hsplit (hnext _ _ hstep)
      rw [dropCopies]
      split_ifs with hcopy
      · have hsame := updateTrades_copy hcopies hearly hinputs hcopy hrun
        have hseen : ∀ id, id ∈ registrations (first ++ [.updateTrades execution]) ↔
            id ∈ registrations first := by
          intro id
          rw [mem_registrations_concat]
          exact or_iff_right_of_imp fun heq ↦ heq ▸ hcopy
        rw [hsame, dropCopies_congr hseen] at hlater
        have hsilent : state.step (.updateTrades execution) = some (state, []) :=
          hstep.trans (by rw [hsame])
        exact .skip ⟨execution, rfl⟩ hsilent hlater
      · apply Machine.Skips.keep
        intro next output houtput
        obtain ⟨rfl, -⟩ := Prod.mk.inj (Option.some.inj houtput)
        have hseen : ∀ id, id ∈ registrations (first ++ [.updateTrades execution]) ↔
            id ∈ execution.execId :: registrations first := by
          intro id
          rw [mem_registrations_concat, List.mem_cons]
        rwa [dropCopies_congr hseen] at hlater
    | processOrderBook orderBook =>
      apply Machine.Skips.keep
      intro next output houtput
      have hsame : registrations (first ++ [.processOrderBook orderBook]) =
          registrations first := by simp [registrations]
      exact hsame ▸ ih hsplit (hnext next output houtput)

/-- An observer who does not see silent registrations observes the same with and without the
copies. -/
theorem run_dropCopies {ω : Type} (observe : MarkoutInput F × List (CompletedMarkout F) → List ω)
    (hcopies : IdenticalCopies inputs) (hearly : CopiesComeEarly inputs)
    (hobserve : ∀ execution, observe (.updateTrades execution, []) = []) :
    (Machine.run step new inputs).map (fun result ↦ (inputs.zip result.2).flatMap observe) =
      (Machine.run step new (dropCopies [] inputs)).map
        fun result ↦ ((dropCopies [] inputs).zip result.2).flatMap observe := by
  have hskips := skips_dropCopies hcopies hearly (List.nil_append inputs).symm (Machine.run_nil new)
  have hhidden : ∀ input : MarkoutInput F, (∃ execution, input = .updateTrades execution) →
      observe (input, []) = [] := by
    intro input hinput
    obtain ⟨execution, rfl⟩ := hinput
    exact hobserve execution
  have hsame := congrArg (Option.map Prod.snd) (hskips.run_eq hhidden)
  simpa [Function.comp_def, registrations] using hsame

/-- Early copies leave at most one markout for each execution. -/
theorem returnedFor_length_le_one_of_early (hcopies : IdenticalCopies inputs)
    (hearly : CopiesComeEarly inputs) (hrun : Machine.run step new inputs = some (state, outputs))
    (execId : String) : (returnedFor execId outputs.flatten).length ≤ 1 := by
  have hflatten : ∀ {inputs : List (MarkoutInput F)} {state : MarkoutEngine F} {outputs},
      Machine.run step new inputs = some (state, outputs) →
      (inputs.zip outputs).flatMap Prod.snd = outputs.flatten := by
    intro inputs state outputs hrun
    rw [List.flatMap_def, List.map_snd_zip (Machine.run_length hrun).le]
  have hsame := run_dropCopies Prod.snd hcopies hearly fun _ ↦ rfl
  rw [hrun, Option.map_some, hflatten hrun, eq_comm] at hsame
  obtain ⟨⟨final, kept⟩, hreduced, heq⟩ := Option.map_eq_some_iff.mp hsame
  rw [← heq, hflatten hreduced]
  exact returnedFor_length_le_one (registrations_dropCopies [] inputs).1 hreduced execId

/-- If every copy comes early, the calls return the same lists as without the copies, no execution
is returned twice, and a copy changes nothing. -/
theorem redelivery_harmless (hcopies : IdenticalCopies inputs) (hearly : CopiesComeEarly inputs) :
    (Machine.run step new inputs).map (fun result ↦ returnedLists inputs result.2) =
      (Machine.run step new (dropCopies [] inputs)).map
        (fun result ↦ returnedLists (dropCopies [] inputs) result.2) ∧
    (∀ state outputs, Machine.run step new inputs = some (state, outputs) →
      ∀ execId, (returnedFor execId outputs.flatten).length ≤ 1) ∧
    ∀ first execution rest state front, inputs = first ++ .updateTrades execution :: rest →
      execution.execId ∈ registrations first →
      Machine.run step new first = some (state, front) →
      state.updateTrades execution = state := by
  refine ⟨run_dropCopies returnedList hcopies hearly fun _ ↦ rfl, ?_, ?_⟩
  · intro state outputs hrun execId
    exact returnedFor_length_le_one_of_early hcopies hearly hrun execId
  · intro first execution rest state front hinputs hcopy hrun
    exact updateTrades_copy hcopies hearly hinputs hcopy hrun

/-- An execution delivered twice before the first book. -/
def earlyCopy : List (MarkoutInput ℚ) :=
  [.updateTrades sampleExecution, .updateTrades sampleExecution,
    .processOrderBook (sampleOrderBook 10002)]

theorem redelivery_harmless_sample :
    (Machine.run step new earlyCopy).map (fun result ↦ returnedLists earlyCopy result.2) =
      (Machine.run step new (dropCopies [] earlyCopy)).map
        fun result ↦ returnedLists (dropCopies [] earlyCopy) result.2 := by
  have hcopies : IdenticalCopies earlyCopy :=
    identicalCopies_of_forall sampleExecution fun other hinput ↦ by simpa [earlyCopy] using hinput
  have hearly : CopiesComeEarly earlyCopy := by
    intro first execution rest state front hinputs hcopy hrun
    match first, hinputs with
    | [], _ => simp [registrations] at hcopy
    | [_], hinputs =>
      simp only [earlyCopy, List.cons_append, List.nil_append, List.cons.injEq,
        MarkoutInput.updateTrades.injEq] at hinputs
      obtain ⟨rfl, rfl, -⟩ := hinputs
      obtain ⟨rfl, -⟩ := Prod.mk.inj (Option.some.inj hrun)
      exact ⟨.ofExecution sampleExecution, rfl, rfl, rfl, rfl⟩
    | [_, _], hinputs => simp [earlyCopy] at hinputs
    | _ :: _ :: _ :: _, hinputs => simp [earlyCopy] at hinputs
  exact (redelivery_harmless hcopies hearly).1

/-- An execution delivered again after its markout was returned. -/
def lateCopy : List (MarkoutInput ℚ) :=
  [.updateTrades sampleExecution, .processOrderBook (sampleOrderBook 10002),
    .updateTrades sampleExecution, .processOrderBook (sampleOrderBook 10003)]

/-- The copy starts a second markout, which the next book returns again. -/
theorem redelivery_restarts_markout :
    ¬∀ inputs : List (MarkoutInput ℚ), IdenticalCopies inputs →
      (∀ orderBook, .processOrderBook orderBook ∈ inputs →
        orderBook.bids ≠ [] ∧ orderBook.asks ≠ []) →
      (Machine.run step new inputs).map (fun result ↦ returnedLists inputs result.2) =
        (Machine.run step new (dropCopies [] inputs)).map
          fun result ↦ returnedLists (dropCopies [] inputs) result.2 := by
  intro hsame
  have hcopies : IdenticalCopies lateCopy :=
    identicalCopies_of_forall sampleExecution fun other hinput ↦ by simpa [lateCopy] using hinput
  have hbooks : ∀ orderBook, .processOrderBook orderBook ∈ lateCopy →
      orderBook.bids ≠ [] ∧ orderBook.asks ≠ [] := by
    intro orderBook hinput
    have hbook : orderBook = sampleOrderBook 10002 ∨ orderBook = sampleOrderBook 10003 := by
      simpa [lateCopy] using hinput
    rcases hbook with rfl | rfl <;> simp [sampleOrderBook]
  have hlate := hsame lateCopy hcopies hbooks
  revert hlate
  decide +kernel

end MarkoutEngine

end MarketMaker
