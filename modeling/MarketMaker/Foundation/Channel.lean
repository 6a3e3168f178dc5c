import MarketMaker.Foundation.Traces

/-!
# Channels between components

A system is a step function whose calls are written to a log.  What passes through a channel, and
what a component does, is read off the log entry by entry, so a fact about the log of one step
becomes a fact about the log of a run.

`log_eq_of_play` is the rule for a queue in arrival order, `perm_of_play` the rule for a bag from
which anything may be taken, `tracks_of_play` the rule for a slot in which a new value replaces the
old one, and `component_of_play` the rule for a component that is a step function of its own.
-/

namespace MarketMaker.Machine

variable {σ ι ω : Type*} {step : σ → ι → Option (σ × List ω)}

/-- Induction over the history of a run: the motive relates the log so far to the state reached, and
a step may use that the run led there. -/
theorem play_induction {motive : List ω → σ → Prop} {state : σ} (hnil : motive [] state)
    (hsnoc : ∀ first log current input next output, play step state first = some (current, log) →
      motive log current → step current input = some (next, output) → motive (log ++ output) next)
    {final : σ} {inputs : List ι} {log : List ω}
    (hplay : play step state inputs = some (final, log)) : motive log final := by
  obtain ⟨⟨last, outputs⟩, hrun, heq⟩ := Option.map_eq_some_iff.mp hplay
  obtain ⟨rfl, rfl⟩ := Prod.mk.inj heq
  apply run_history (motive := fun _ current outputs ↦ motive outputs.flatten current) hnil _ hrun
  intro first middle front input next output hfirst hmiddle hstep
  have hearlier : play step state first = some (middle, front.flatten) := by
    rw [play, hfirst]
    rfl
  rw [List.flatten_append, List.flatten_singleton]
  exact hsnoc first _ middle input next output hearlier hmiddle hstep

/-- Induction over the history where a step needs nothing of the run before it. -/
theorem play_history {motive : List ω → σ → Prop} {state : σ} (hnil : motive [] state)
    (hsnoc : ∀ log current input next output, motive log current →
      step current input = some (next, output) → motive (log ++ output) next)
    {final : σ} {inputs : List ι} {log : List ω}
    (hplay : play step state inputs = some (final, log)) : motive log final :=
  play_induction hnil (fun _ log current input next output _ ↦ hsnoc log current input next output)
    hplay

/-- What holds of every entry at its writing, of the log before it, holds of every entry of a
run. -/
theorem entry_of_play {motive : List ω → ω → Prop} {state : σ}
    (hstep : ∀ first log current input next output, play step state first = some (current, log) →
      step current input = some (next, output) →
      ∀ before entry after, output = before ++ entry :: after → motive (log ++ before) entry)
    {final : σ} {inputs : List ι} {log : List ω}
    (hplay : play step state inputs = some (final, log)) :
    ∀ before entry after, log = before ++ entry :: after → motive before entry := by
  apply play_induction (motive := fun log _ ↦
    ∀ before entry after, log = before ++ entry :: after → motive before entry) _ _ hplay
  · intro before entry after hsplit
    simp at hsplit
  · intro first log current input next output hfirst hlog hnext before entry after hsplit
    obtain ⟨rest, hbefore, houtput⟩ | ⟨rest, hlogged, hrest⟩ := List.append_eq_append_iff.mp hsplit
    · rw [hbefore]
      exact hstep first log current input next output hfirst hnext rest entry after houtput
    · obtain ⟨rfl, houtput⟩ | ⟨tail, rfl, -⟩ := List.cons_eq_append_iff.mp hrest
      · rw [List.append_nil] at hlogged
        have hentry := hstep first log current input next output hfirst hnext [] entry after houtput
        rwa [List.append_nil, hlogged] at hentry
      · exact hlog before entry tail hlogged

/-- When a step writes one entry at most, the log before an entry is that of a run. -/
theorem prefix_of_play {state final : σ} {inputs : List ι} {log : List ω}
    (hsingle : ∀ current input next output, step current input = some (next, output) →
      output.length ≤ 1)
    (hplay : play step state inputs = some (final, log)) :
    ∀ before entry after, log = before ++ entry :: after →
      ∃ first current, play step state first = some (current, before) := by
  apply entry_of_play (motive := fun before _ ↦
    ∃ first current, play step state first = some (current, before)) _ hplay
  intro first log current input next output hfirst hnext before entry after houtput
  have hlength := hsingle current input next output hnext
  rw [houtput, List.length_append, List.length_cons] at hlength
  obtain rfl : before = [] := List.eq_nil_of_length_eq_zero (by omega)
  rw [List.append_nil]
  exact ⟨first, current, hfirst⟩

/-- One more step of a run. -/
theorem run_concat {ο : Type*} {step : σ → ι → Option (σ × ο)} {state middle final : σ}
    {inputs : List ι} {outputs : List ο} {input : ι} {output : ο}
    (hrun : run step state inputs = some (middle, outputs))
    (hstep : step middle input = some (final, output)) :
    run step state (inputs ++ [input]) = some (final, outputs ++ [output]) := by
  apply run_append_eq_some.mpr
  exact ⟨middle, outputs, [output], hrun, run_singleton_eq_some.mpr ⟨output, hstep, rfl⟩, rfl⟩

/-- One run after another. -/
theorem play_append {state middle final : σ} {first second : List ι} {log later : List ω}
    (hfirst : play step state first = some (middle, log))
    (hsecond : play step middle second = some (final, later)) :
    play step state (first ++ second) = some (final, log ++ later) := by
  obtain ⟨⟨_, front⟩, hfront, heq⟩ := Option.map_eq_some_iff.mp hfirst
  obtain ⟨rfl, rfl⟩ := Prod.mk.inj heq
  obtain ⟨⟨_, back⟩, hback, heq⟩ := Option.map_eq_some_iff.mp hsecond
  obtain ⟨rfl, rfl⟩ := Prod.mk.inj heq
  have hrun := run_append_eq_some.mpr ⟨_, front, back, hfront, hback, rfl⟩
  rw [play, hrun, Option.map_some, List.flatten_append]

/-! ## Queues -/

section Queue

variable {α : Type*} {queue : σ → List α} {sent taken : ω → List α}

/-- What was sent into a queue in arrival order is what was taken from it, followed by what it still
holds. -/
theorem log_eq_of_play
    (hstep : ∀ current input next output, step current input = some (next, output) →
      queue current ++ output.flatMap sent = output.flatMap taken ++ queue next)
    {state final : σ} {inputs : List ι} {log : List ω} (hempty : queue state = [])
    (hplay : play step state inputs = some (final, log)) :
    log.flatMap sent = log.flatMap taken ++ queue final := by
  apply play_history (motive := fun log current ↦
    log.flatMap sent = log.flatMap taken ++ queue current) _ _ hplay
  · rw [hempty]
    rfl
  · intro log current input next output hlog hnext
    calc (log ++ output).flatMap sent
        = log.flatMap taken ++ (queue current ++ output.flatMap sent) := by
          rw [List.flatMap_append, hlog, List.append_assoc]
      _ = (log ++ output).flatMap taken ++ queue next := by
          rw [hstep current input next output hnext, List.flatMap_append, List.append_assoc]

end Queue

/-! ## Bags -/

section Bag

variable {α : Type*} {bag : σ → List α} {put taken : ω → List α}

/-- What was put into a bag, from which anything may be taken, is what was taken from it together
with what it still holds. -/
theorem perm_of_play
    (hstep : ∀ current input next output, step current input = some (next, output) →
      (bag current ++ output.flatMap put).Perm (output.flatMap taken ++ bag next))
    {state final : σ} {inputs : List ι} {log : List ω} (hempty : bag state = [])
    (hplay : play step state inputs = some (final, log)) :
    (log.flatMap put).Perm (log.flatMap taken ++ bag final) := by
  apply play_history (motive := fun log current ↦
    (log.flatMap put).Perm (log.flatMap taken ++ bag current)) _ _ hplay
  · rw [hempty]
    exact List.Perm.refl _
  · intro log current input next output hlog hnext
    rw [List.flatMap_append, List.flatMap_append, List.append_assoc]
    apply (hlog.append_right _).trans
    rw [List.append_assoc]
    exact (hstep current input next output hnext).append_left _

end Bag

/-! ## Slots -/

/-- One step of a slot: nothing, a write over the old value, or the removal of the value. -/
inductive SlotStep {α : Type*} (slot : Option α) : List α → List α → Option α → Prop
  | idle : SlotStep slot [] [] slot
  | write (value : α) : SlotStep slot [value] [] (some value)
  | take : SlotStep slot [] slot.toList none

/-- What was taken out of a slot and what it holds were written in this order, and the last value
written was not lost. -/
structure Tracks {α : Type*} (written taken : List α) (slot : Option α) : Prop where
  sublist : (taken ++ slot.toList).Sublist written
  latest : (taken ++ slot.toList).getLast? = written.getLast?

theorem Tracks.empty {α : Type*} : Tracks ([] : List α) [] none where
  sublist := List.Sublist.refl _
  latest := rfl

theorem Tracks.after {α : Type*} {written taken writes takes : List α} {slot next : Option α}
    (htracks : Tracks written taken slot) (hstep : SlotStep slot writes takes next) :
    Tracks (written ++ writes) (taken ++ takes) next := by
  cases hstep with
  | idle => simpa using htracks
  | write value =>
    refine ⟨?_, by simp⟩
    have htaken : taken.Sublist written :=
      (List.sublist_append_left taken slot.toList).trans htracks.sublist
    simpa using htaken.append_right [value]
  | take => exact ⟨by simpa using htracks.sublist, by simpa using htracks.latest⟩

theorem tracks_of_play {α : Type*} {slot : σ → Option α} {written taken : ω → List α}
    (hstep : ∀ current input next output, step current input = some (next, output) →
      SlotStep (slot current) (output.flatMap written) (output.flatMap taken) (slot next))
    {state final : σ} {inputs : List ι} {log : List ω} (hempty : slot state = none)
    (hplay : play step state inputs = some (final, log)) :
    Tracks (log.flatMap written) (log.flatMap taken) (slot final) := by
  apply play_history (motive := fun log current ↦
    Tracks (log.flatMap written) (log.flatMap taken) (slot current)) _ _ hplay
  · rw [hempty]
    exact Tracks.empty
  · intro log current input next output hlog hnext
    rw [List.flatMap_append, List.flatMap_append]
    exact hlog.after (hstep current input next output hnext)

/-! ## Components -/

/-- A part of the state that every step changes as the part's own step function does on the inputs
in the log has run over all of them. -/
theorem component_of_play {τ κ ο : Type*} {component : σ → τ} {own : τ → κ → Option (τ × ο)}
    {inputsOf : ω → List κ} {outputsOf : ω → List ο}
    (hstep : ∀ current input next output, step current input = some (next, output) →
      run own (component current) (output.flatMap inputsOf) =
        some (component next, output.flatMap outputsOf))
    {state final : σ} {inputs : List ι} {log : List ω}
    (hplay : play step state inputs = some (final, log)) :
    run own (component state) (log.flatMap inputsOf) =
      some (component final, log.flatMap outputsOf) := by
  apply play_history (motive := fun log current ↦
    run own (component state) (log.flatMap inputsOf) =
      some (component current, log.flatMap outputsOf)) rfl _ hplay
  intro log current input next output hlog hnext
  rw [List.flatMap_append, List.flatMap_append]
  apply run_append_eq_some.mpr
  exact ⟨component current, _, _, hlog, hstep current input next output hnext, rfl⟩

end MarketMaker.Machine
