import MarketMaker.Foundation.Traces

/-!
# Work that runs out

Some steps of a system only work off what is already there.  When every step of this kind lowers a
measure, each schedule of them is at most as long as the measure, and a schedule after which none
can be taken any more exists.
-/

namespace MarketMaker.Machine

variable {σ ι ω : Type*} {step : σ → ι → Option (σ × List ω)} {internal : σ → ι → Prop}
  {work : σ → ℕ}

def Lowers (step : σ → ι → Option (σ × List ω)) (internal : σ → ι → Prop) (work : σ → ℕ) : Prop :=
  ∀ state input next output, internal state input → step state input = some (next, output) →
    work next < work state

abbrev Internally (step : σ → ι → Option (σ × List ω)) (internal : σ → ι → Prop) (state : σ)
    (inputs : List ι) : Prop :=
  Along step (fun current input _ ↦ internal current input) state inputs

/-- No internal step can be taken. -/
def Exhausted (step : σ → ι → Option (σ × List ω)) (internal : σ → ι → Prop) (state : σ) : Prop :=
  ∀ input, internal state input → step state input = none

theorem Lowers.length_add_le (hlowers : Lowers step internal work) {state final : σ}
    {inputs : List ι} {log : List ω} (hplay : play step state inputs = some (final, log))
    (hinternal : Internally step internal state inputs) :
    inputs.length + work final ≤ work state := by
  induction inputs generalizing state log with
  | nil =>
    obtain ⟨rfl, -⟩ := Prod.mk.inj (Option.some.inj hplay)
    simp
  | cons input rest ih =>
    rw [play_cons] at hplay
    obtain ⟨⟨next, output⟩, hstep, hrest⟩ := Option.bind_eq_some_iff.mp hplay
    obtain ⟨⟨last, later⟩, hlater, heq⟩ := Option.map_eq_some_iff.mp hrest
    obtain ⟨rfl, -⟩ := Prod.mk.inj heq
    obtain ⟨hinput, htail⟩ := along_cons hinternal hstep
    have hbound : rest.length + work last ≤ work next := ih hlater htail
    have hlower : work next < work state := hlowers state input next output hinput hstep
    change rest.length + 1 + work last ≤ work state
    omega

/-- Internal steps can be taken until there is none left. -/
theorem Lowers.exists_exhausted (hlowers : Lowers step internal work) (state : σ) :
    ∃ inputs final log, play step state inputs = some (final, log) ∧
      Internally step internal state inputs ∧ Exhausted step internal final := by
  induction hwork : work state using Nat.strongRecOn generalizing state with
  | ind bound ih =>
    by_cases hexhausted : Exhausted step internal state
    · exact ⟨[], state, [], rfl, trivial, hexhausted⟩
    · unfold Exhausted at hexhausted
      push Not at hexhausted
      obtain ⟨input, hinput, hsome⟩ := hexhausted
      obtain ⟨⟨next, output⟩, hstep⟩ := Option.ne_none_iff_exists'.mp hsome
      have hlower := hlowers state input next output hinput hstep
      obtain ⟨inputs, final, log, hplay, hinternal, hfinal⟩ := ih _ (hwork ▸ hlower) next rfl
      refine ⟨input :: inputs, final, output ++ log, ?_, ⟨hinput, ?_⟩, hfinal⟩
      · rw [play_cons, hstep, Option.bind_some, hplay]
        rfl
      · intro other later hother
        obtain ⟨rfl, -⟩ := Prod.mk.inj (Option.some.inj (hstep.symm.trans hother))
        exact hinternal

end MarketMaker.Machine
