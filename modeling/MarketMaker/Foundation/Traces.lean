import MarketMaker.Foundation.Machine

/-!
# Reordering independent inputs

Every input belongs to a lane.  When inputs of different lanes may be swapped without a difference
in the state or in the calls made, a run depends only on what each lane received: two input
sequences with the same projection onto every lane end in the same state with the same calls.
-/

namespace MarketMaker.Machine

variable {σ ι ω κ : Type*} {step : σ → ι → Option (σ × List ω)}

/-- The final state of a run and all calls made on the way. -/
def play (step : σ → ι → Option (σ × List ω)) (state : σ) (inputs : List ι) :
    Option (σ × List ω) :=
  (run step state inputs).map fun result ↦ (result.1, result.2.flatten)

@[simp]
theorem play_nil (state : σ) : play step state [] = some (state, []) := rfl

theorem play_cons (state : σ) (input : ι) (rest : List ι) :
    play step state (input :: rest) = (step state input).bind fun current ↦
      (play step current.1 rest).map fun later ↦ (later.1, current.2 ++ later.2) := by
  simp only [play, run, Option.map_bind, Option.map_map, Function.comp_def, List.flatten_cons]

/-- Two inputs may be swapped in every state of an invariant. -/
def Independent (step : σ → ι → Option (σ × List ω)) (motive : σ → Prop) (first second : ι) :
    Prop :=
  ∀ state, motive state → play step state [first, second] = play step state [second, first]

theorem play_cons_cons (state : σ) (first second : ι) (rest : List ι) :
    play step state (first :: second :: rest) =
      (play step state [first, second]).bind fun current ↦
        (play step current.1 rest).map fun later ↦ (later.1, current.2 ++ later.2) := by
  simp only [play_cons, play_nil, Option.map_some, List.append_nil, Option.map_bind,
    Option.bind_assoc, Option.map_map, Function.comp_def, Option.bind_some, List.append_assoc]

variable {motive : σ → Prop}

/-- An input moves to the front past inputs it is independent of. -/
theorem play_middle
    (hkeep : ∀ state input next output, motive state → step state input = some (next, output) →
      motive next)
    {state : σ} (hmotive : motive state) {first : List ι} {input : ι}
    (hindependent : ∀ other ∈ first, Independent step motive other input) (rest : List ι) :
    play step state (first ++ input :: rest) = play step state (input :: (first ++ rest)) := by
  induction first generalizing state with
  | nil => rfl
  | cons head tail ih =>
    have hhead : Independent step motive head input := hindependent head (by simp)
    have htail : ∀ other ∈ tail, Independent step motive other input :=
      fun other hmem ↦ hindependent other (List.mem_cons_of_mem head hmem)
    calc play step state (head :: (tail ++ input :: rest))
        = play step state (head :: input :: (tail ++ rest)) := by
          rw [play_cons, play_cons]
          apply Option.bind_congr
          intro current hcurrent
          rw [ih (hkeep state head current.1 current.2 hmotive hcurrent) htail]
      _ = play step state (input :: head :: (tail ++ rest)) := by
          rw [play_cons_cons, hhead state hmotive, ← play_cons_cons]

variable [DecidableEq κ] {lane : ι → κ}

/-- The first input of a sequence stands in a sequence with the same projections behind inputs of
other lanes only; without it the projections still agree. -/
theorem exists_split_of_projections {input : ι} {rest other : List ι}
    (hsame : ∀ l, (input :: rest).filter (fun entry ↦ lane entry = l) =
      other.filter fun entry ↦ lane entry = l) :
    ∃ before after, other = before ++ input :: after ∧
      (∀ entry ∈ before, lane entry ≠ lane input) ∧
      ∀ l, rest.filter (fun entry ↦ lane entry = l) =
        (before ++ after).filter fun entry ↦ lane entry = l := by
  have hhead : other.filter (fun entry ↦ lane entry = lane input) =
      input :: rest.filter fun entry ↦ lane entry = lane input := by
    rw [← hsame (lane input)]
    simp
  obtain ⟨before, after, rfl, hbefore, -, hafter⟩ := List.filter_eq_cons_iff.mp hhead
  refine ⟨before, after, rfl, by simpa using hbefore, ?_⟩
  intro l
  have hl := hsame l
  by_cases hlane : lane input = l
  · subst hlane
    have hnone : before.filter (fun entry ↦ lane entry = lane input) = [] :=
      List.filter_eq_nil_iff.mpr hbefore
    rw [List.filter_append, hnone, hafter, List.nil_append]
  · simpa [List.filter_append, hlane] using hl

/-- A run depends only on its projections onto the lanes. -/
theorem play_eq_of_projections
    (hkeep : ∀ state input next output, motive state → step state input = some (next, output) →
      motive next)
    (hindependent : ∀ first second, lane first ≠ lane second →
      Independent step motive first second)
    {state : σ} (hmotive : motive state) {inputs other : List ι}
    (hsame : ∀ l, inputs.filter (fun entry ↦ lane entry = l) =
      other.filter fun entry ↦ lane entry = l) :
    play step state inputs = play step state other := by
  induction inputs generalizing state other with
  | nil =>
    have hnone : ∀ entry, entry ∉ other := by
      intro entry hmem
      have hfilter := List.filter_eq_nil_iff.mp (hsame (lane entry)).symm entry hmem
      simp at hfilter
    rw [List.eq_nil_iff_forall_not_mem.mpr hnone]
  | cons input rest ih =>
    obtain ⟨before, after, rfl, hbefore, hrest⟩ := exists_split_of_projections hsame
    rw [play_middle hkeep hmotive
      (fun entry hmem ↦ hindependent entry input (hbefore entry hmem)), play_cons, play_cons]
    apply Option.bind_congr
    intro current hcurrent
    rw [ih (hkeep state input current.1 current.2 hmotive hcurrent) hrest]

end MarketMaker.Machine
