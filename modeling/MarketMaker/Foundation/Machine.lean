import Mathlib.Data.List.Induction

/-!
# Runs of a step function that may abort

A component is a step function from a state and an input to the next state and one output; `none`
is an abort.  `run` iterates it over a list of inputs and collects one output for each input, so
zipping inputs and outputs gives the transcript of the run.

Conditions on a run are stated with `Along`: every step meets a condition on the state before it,
its input and the inputs still to come.  The invariant rules below are the only inductions over
runs that a development on top of this module needs.  `Skips` relates a run to the run from which
silent inputs have been removed.
-/

namespace MarketMaker.Machine

variable {σ ι ο : Type*}

/-- Iterate `step`, collecting one output for each input. -/
def run (step : σ → ι → Option (σ × ο)) : σ → List ι → Option (σ × List ο)
  | state, [] => some (state, [])
  | state, input :: rest =>
    (step state input).bind fun current ↦
      (run step current.1 rest).map fun later ↦ (later.1, current.2 :: later.2)

variable {step : σ → ι → Option (σ × ο)}

@[simp]
theorem run_nil (state : σ) : run step state [] = some (state, []) := rfl

theorem run_cons_eq_some {state final : σ} {input : ι} {rest : List ι} {outputs : List ο} :
    run step state (input :: rest) = some (final, outputs) ↔
      ∃ next output later, step state input = some (next, output) ∧
        run step next rest = some (final, later) ∧ outputs = output :: later := by
  simp only [run, Option.bind_eq_some_iff, Option.map_eq_some_iff, Prod.exists, Prod.mk.injEq]
  constructor
  · rintro ⟨next, output, hstep, last, later, hrest, rfl, rfl⟩
    exact ⟨next, output, later, hstep, hrest, rfl⟩
  · rintro ⟨next, output, later, hstep, hrest, rfl⟩
    exact ⟨next, output, hstep, final, later, hrest, rfl, rfl⟩

theorem run_append_eq_some {state final : σ} {first second : List ι} {outputs : List ο} :
    run step state (first ++ second) = some (final, outputs) ↔
      ∃ middle front back, run step state first = some (middle, front) ∧
        run step middle second = some (final, back) ∧ outputs = front ++ back := by
  induction first generalizing state outputs with
  | nil => simp
  | cons input rest ih =>
    simp only [List.cons_append, run_cons_eq_some, ih]
    constructor
    · rintro ⟨next, output, _, hstep, ⟨middle, front, back, hfront, hback, rfl⟩, rfl⟩
      exact ⟨middle, output :: front, back, ⟨next, output, front, hstep, hfront, rfl⟩, hback, rfl⟩
    · rintro ⟨middle, _, back, ⟨next, output, front, hstep, hfront, rfl⟩, hback, rfl⟩
      exact ⟨next, output, front ++ back, hstep, ⟨middle, front, back, hfront, hback, rfl⟩, rfl⟩

theorem run_singleton_eq_some {state final : σ} {input : ι} {outputs : List ο} :
    run step state [input] = some (final, outputs) ↔
      ∃ output, step state input = some (final, output) ∧ outputs = [output] := by
  simp only [run_cons_eq_some, run_nil, Option.some.injEq, Prod.mk.injEq]
  constructor
  · rintro ⟨next, output, _, hstep, ⟨rfl, rfl⟩, rfl⟩
    exact ⟨output, hstep, rfl⟩
  · rintro ⟨output, hstep, rfl⟩
    exact ⟨final, output, [], hstep, ⟨rfl, rfl⟩, rfl⟩

theorem run_length {state final : σ} {inputs : List ι} {outputs : List ο}
    (hrun : run step state inputs = some (final, outputs)) : outputs.length = inputs.length := by
  induction inputs generalizing state outputs with
  | nil => simp_all
  | cons input rest ih =>
    obtain ⟨next, output, later, -, hrest, rfl⟩ := run_cons_eq_some.mp hrun
    simp [ih hrest]

/-- A run over translated inputs. -/
theorem run_map {α : Type*} (translate : α → ι) (state : σ) (inputs : List α) :
    run step state (inputs.map translate) =
      run (fun current input ↦ step current (translate input)) state inputs := by
  induction inputs generalizing state with
  | nil => rfl
  | cons input rest ih => simp only [List.map_cons, run, ih]

/-- An input that leaves the state as it is may be repeated. -/
theorem run_replicate {state : σ} {input : ι} {output : ο}
    (hfixed : step state input = some (state, output)) (n : ℕ) :
    run step state (List.replicate n input) = some (state, List.replicate n output) := by
  induction n with
  | zero => rfl
  | succ n ih => simp [List.replicate_succ, run, hfixed, ih]

/-! ## Conditions along a run -/

/-- Every step of the run meets `condition`, which may look at the inputs still to come. -/
def Along (step : σ → ι → Option (σ × ο)) (condition : σ → ι → List ι → Prop) :
    σ → List ι → Prop
  | _, [] => True
  | state, input :: rest => condition state input rest ∧
      ∀ next output, step state input = some (next, output) → Along step condition next rest

variable {condition : σ → ι → List ι → Prop}

@[simp]
theorem along_nil (state : σ) : Along step condition state [] := trivial

theorem along_iff_of_step {state next : σ} {input : ι} {rest : List ι} {output : ο}
    (hstep : step state input = some (next, output)) :
    Along step condition state (input :: rest) ↔
      condition state input rest ∧ Along step condition next rest := by
  simp [Along, hstep]

theorem along_iff_of_abort {state : σ} {input : ι} {rest : List ι}
    (hstep : step state input = none) :
    Along step condition state (input :: rest) ↔ condition state input rest := by
  simp [Along, hstep]

instance decidableAlong [∀ state input rest, Decidable (condition state input rest)] :
    ∀ state inputs, Decidable (Along step condition state inputs)
  | _, [] => isTrue trivial
  | state, input :: rest => match hstep : step state input with
    | none => decidable_of_iff _ (along_iff_of_abort hstep).symm
    | some (next, _) =>
      haveI := decidableAlong next rest
      decidable_of_iff _ (along_iff_of_step hstep).symm

theorem along_cons {state next : σ} {input : ι} {rest : List ι} {output : ο}
    (halong : Along step condition state (input :: rest))
    (hstep : step state input = some (next, output)) :
    condition state input rest ∧ Along step condition next rest :=
  ⟨halong.1, halong.2 next output hstep⟩

/-- The condition at any point of the run. -/
theorem Along.at {state middle : σ} {first rest : List ι} {input : ι} {front : List ο}
    (halong : Along step condition state (first ++ input :: rest))
    (hfirst : run step state first = some (middle, front)) : condition middle input rest := by
  induction first generalizing state front with
  | nil =>
    obtain ⟨rfl, -⟩ : state = middle ∧ [] = front := by simpa using hfirst
    exact halong.1
  | cons head tail ih =>
    obtain ⟨next, output, later, hstep, htail, rfl⟩ := run_cons_eq_some.mp hfirst
    exact ih (halong.2 next output hstep) htail

theorem along_of_forall {state : σ} {inputs : List ι}
    (hall : ∀ current, ∀ input ∈ inputs, ∀ rest, condition current input rest) :
    Along step condition state inputs := by
  induction inputs generalizing state with
  | nil => trivial
  | cons input rest ih =>
    exact ⟨hall state input (by simp) rest,
      fun next _ _ ↦ ih fun current tail htail ↦ hall current tail (by simp [htail])⟩

/-- A condition that holds at every point that the run reaches. -/
theorem along_of_reached {state : σ} {inputs : List ι}
    (hall : ∀ first input rest middle front, inputs = first ++ input :: rest →
      run step state first = some (middle, front) → condition middle input rest) :
    Along step condition state inputs := by
  induction inputs generalizing state with
  | nil => trivial
  | cons input rest ih =>
    refine ⟨hall [] input rest state [] rfl rfl, ?_⟩
    intro next output hstep
    apply ih
    intro first other tail middle front hsplit hrun
    exact hall (input :: first) other tail middle (output :: front) (congrArg (input :: ·) hsplit)
      (run_cons_eq_some.mpr ⟨next, output, front, hstep, hrun, rfl⟩)

/-- Inputs may be replaced by inputs that do the same wherever the condition holds. -/
theorem run_map_eq_of_along {replace : ι → ι} {state : σ} {inputs : List ι}
    (hsame : ∀ current, ∀ input ∈ inputs, ∀ rest, condition current input rest →
      step current (replace input) = step current input)
    (halong : Along step condition state inputs) :
    run step state (inputs.map replace) = run step state inputs := by
  induction inputs generalizing state with
  | nil => rfl
  | cons input rest ih =>
    rw [List.map_cons, run, run, hsame state input (by simp) rest halong.1]
    apply Option.bind_congr
    intro current hcurrent
    rw [ih (fun state other hmem ↦ hsame state other (List.mem_cons_of_mem input hmem))
      (halong.2 current.1 current.2 hcurrent)]

/-! ## Invariants -/

/-- A property of the state and of the inputs still to come, kept by every step that meets the
condition, holds at every point of the run. -/
theorem run_invariant_along {motive : σ → List ι → Prop}
    (hstep : ∀ state input rest next output, motive state (input :: rest) →
      condition state input rest → step state input = some (next, output) → motive next rest)
    {state middle : σ} {first rest : List ι} {outputs : List ο}
    (hinit : motive state (first ++ rest))
    (halong : Along step condition state (first ++ rest))
    (hrun : run step state first = some (middle, outputs)) : motive middle rest := by
  induction first generalizing state outputs with
  | nil =>
    obtain ⟨rfl, -⟩ : state = middle ∧ [] = outputs := by simpa using hrun
    exact hinit
  | cons input tail ih =>
    obtain ⟨next, output, later, hnext, htail, -⟩ := run_cons_eq_some.mp hrun
    obtain ⟨hcond, hlater⟩ := along_cons halong hnext
    exact ih (hstep state input (tail ++ rest) next output hinit hcond hnext) hlater htail

/-- A property kept by every step on one of the inputs holds at the end of the run. -/
theorem run_invariant {motive : σ → Prop} {state final : σ} {inputs : List ι} {outputs : List ο}
    (hstep : ∀ current, ∀ input ∈ inputs, ∀ next output, motive current →
      step current input = some (next, output) → motive next)
    (hinit : motive state) (hrun : run step state inputs = some (final, outputs)) :
    motive final := by
  induction inputs generalizing state outputs with
  | nil =>
    obtain ⟨rfl, -⟩ : state = final ∧ [] = outputs := by simpa using hrun
    exact hinit
  | cons input rest ih =>
    obtain ⟨next, output, later, hnext, hrest, -⟩ := run_cons_eq_some.mp hrun
    exact ih (fun current tail htail ↦ hstep current tail (by simp [htail]))
      (hstep state input (by simp) next output hinit hnext) hrest

/-- Induction over the history of a run: the motive relates the inputs so far, the state they
lead to and the outputs they gave. -/
theorem run_history {motive : List ι → σ → List ο → Prop} {state : σ}
    (hnil : motive [] state [])
    (hsnoc : ∀ first middle front input next output,
      run step state first = some (middle, front) → motive first middle front →
      step middle input = some (next, output) →
      motive (first ++ [input]) next (front ++ [output]))
    {final : σ} {inputs : List ι} {outputs : List ο}
    (hrun : run step state inputs = some (final, outputs)) : motive inputs final outputs := by
  induction inputs using List.reverseRecOn generalizing final outputs with
  | nil =>
    obtain ⟨rfl, rfl⟩ : state = final ∧ [] = outputs := by simpa using hrun
    exact hnil
  | append_singleton first input ih =>
    obtain ⟨middle, front, back, hfirst, hlast, rfl⟩ := run_append_eq_some.mp hrun
    obtain ⟨output, hstep, rfl⟩ := run_singleton_eq_some.mp hlast
    exact hsnoc first middle front input final output hfirst (ih hfirst) hstep

/-- What every entry of a fold keeps holds at its end. -/
theorem foldlM_invariant {α : Type*} {f : σ → α → Option σ} {motive : σ → Prop}
    (hstep : ∀ current entry next, motive current → f current entry = some next → motive next)
    {state final : σ} {entries : List α} (hinit : motive state)
    (hfold : entries.foldlM f state = some final) : motive final := by
  induction entries generalizing state with
  | nil =>
    obtain rfl : state = final := by simpa using hfold
    exact hinit
  | cons entry rest ih =>
    rw [List.foldlM_cons] at hfold
    obtain ⟨next, hnext, hrest⟩ := Option.bind_eq_some_iff.mp hfold
    exact ih (hstep state entry next hinit hnext) hrest

/-! ## Runs that do not abort -/

/-- A fold does not abort if every step keeps a property of the state and of the entries still to
come. -/
theorem foldlM_total {α : Type*} {f : σ → α → Option σ} {motive : σ → List α → Prop}
    (hstep : ∀ state entry rest, motive state (entry :: rest) →
      ∃ next, f state entry = some next ∧ motive next rest)
    {state : σ} {entries : List α} (hinit : motive state entries) :
    ∃ final, entries.foldlM f state = some final ∧ motive final [] := by
  induction entries generalizing state with
  | nil => exact ⟨state, rfl, hinit⟩
  | cons entry rest ih =>
    obtain ⟨next, hnext, hrest⟩ := hstep state entry rest hinit
    obtain ⟨final, hfinal, hmotive⟩ := ih hrest
    refine ⟨final, ?_, hmotive⟩
    rw [List.foldlM_cons, hnext]
    exact hfinal

/-- A run does not abort if every step keeps a property of the state and of the inputs still to
come; what each step says about its output holds of all outputs. -/
theorem run_total {motive : σ → List ι → Prop} {good : ο → Prop}
    (hstep : ∀ state input rest, motive state (input :: rest) →
      ∃ next output, step state input = some (next, output) ∧ motive next rest ∧ good output)
    {state : σ} {inputs : List ι} (hinit : motive state inputs) :
    ∃ final outputs, run step state inputs = some (final, outputs) ∧
      ∀ output ∈ outputs, good output := by
  induction inputs generalizing state with
  | nil => exact ⟨state, [], rfl, by simp⟩
  | cons input rest ih =>
    obtain ⟨next, output, hnext, hrest, hgood⟩ := hstep state input rest hinit
    obtain ⟨final, later, hfinal, hlater⟩ := ih hrest
    refine ⟨final, output :: later, ?_, ?_⟩
    · exact run_cons_eq_some.mpr ⟨next, output, later, hnext, hfinal, rfl⟩
    · intro result hmem
      rcases List.mem_cons.mp hmem with rfl | hmem
      · exact hgood
      · exact hlater result hmem

/-! ## Silent inputs -/

/-- `reduced` is `full` without some hidden inputs, each of which leaves the state it meets as it
is and gives the silent output there. -/
inductive Skips (step : σ → ι → Option (σ × ο)) (hidden : ι → Prop) (silent : ο) :
    σ → List ι → List ι → Prop
  | nil (state) : Skips step hidden silent state [] []
  | keep {state input full reduced}
      (hlater : ∀ next output, step state input = some (next, output) →
        Skips step hidden silent next full reduced) :
      Skips step hidden silent state (input :: full) (input :: reduced)
  | skip {state input full reduced} (hhidden : hidden input)
      (hsilent : step state input = some (state, silent))
      (hlater : Skips step hidden silent state full reduced) :
      Skips step hidden silent state (input :: full) reduced

/-- Without the skipped inputs the run ends in the same state or aborts as well, and an observer of
the transcript who does not see silent hidden inputs observes the same. -/
theorem Skips.run_eq {ω : Type*} {hidden : ι → Prop} {silent : ο} {state : σ}
    {full reduced : List ι} (hskips : Skips step hidden silent state full reduced)
    {observe : ι × ο → List ω} (hobserve : ∀ input, hidden input → observe (input, silent) = []) :
    (run step state full).map (fun result ↦ (result.1, (full.zip result.2).flatMap observe)) =
      (run step state reduced).map
        fun result ↦ (result.1, (reduced.zip result.2).flatMap observe) := by
  induction hskips with
  | nil state => rfl
  | @keep state input full reduced hlater ih =>
    cases hstep : step state input with
    | none => simp [run, hstep]
    | some next =>
      have hrest := congrArg (Option.map fun result ↦
        (result.1, observe (input, next.2) ++ result.2)) (ih next.1 next.2 hstep)
      simpa [run, hstep, Option.map_map, Function.comp_def] using hrest
  | skip hhidden hsilent hlater ih =>
    rw [← ih]
    simp [run, hsilent, Function.comp_def, hobserve _ hhidden]

end MarketMaker.Machine
