import Mathlib.Data.List.Basic
import Mathlib.Order.Lattice

/-!
# Registers that keep the last write

A register takes timed messages in any order and with repetitions.  It drops a message older than
the one it shows and takes over every other one.  What it shows at the end is the message with the
greatest time, whatever the order of delivery, as long as times are distinct.
-/

namespace MarketMaker.LastWriter

variable {μ τ ρ : Type*} [LinearOrder τ]

/-- No delivered message is later than `latest`, which was delivered. -/
def IsLatest (time : μ → τ) (delivered : List μ) (latest : μ) : Prop :=
  latest ∈ delivered ∧ ∀ message ∈ delivered, time message ≤ time latest

/-- The register is fresh until the first delivery and shows the latest message afterwards. -/
def Keeps (time : μ → τ) (fresh : ρ → Prop) (shows : ρ → μ → Prop) (delivered : List μ)
    (register : ρ) : Prop :=
  delivered = [] ∧ fresh register ∨ ∃ latest, IsLatest time delivered latest ∧ shows register latest

variable {time : μ → τ} {fresh : ρ → Prop} {shows : ρ → μ → Prop} {delivered messages : List μ}
  {register changed : ρ} {message latest : μ}

theorem isLatest_append_newer (hlatest : IsLatest time delivered latest)
    (hle : time latest ≤ time message) : IsLatest time (delivered ++ [message]) message := by
  refine ⟨by simp, fun other hother ↦ ?_⟩
  rcases List.mem_append.mp hother with hother | hother
  · exact (hlatest.2 other hother).trans hle
  · exact (List.mem_singleton.mp hother ▸ le_rfl)

theorem isLatest_append_older (hlatest : IsLatest time delivered latest)
    (hle : time message ≤ time latest) : IsLatest time (delivered ++ [message]) latest := by
  refine ⟨by simp [hlatest.1], fun other hother ↦ ?_⟩
  rcases List.mem_append.mp hother with hother | hother
  · exact hlatest.2 other hother
  · exact List.mem_singleton.mp hother ▸ hle

/-- With distinct times the latest message depends only on which messages were delivered. -/
theorem IsLatest.unique {other : μ} (hlatest : IsLatest time delivered latest)
    (hother : IsLatest time messages other) (hmem : ∀ m, m ∈ delivered ↔ m ∈ messages)
    (hdistinct : ∀ a ∈ messages, ∀ b ∈ messages, time a = time b → a = b) : latest = other :=
  hdistinct latest ((hmem latest).mp hlatest.1) other hother.1
    (le_antisymm (hother.2 latest ((hmem latest).mp hlatest.1))
      (hlatest.2 other ((hmem other).mpr hother.1)))

/-- A message that is not older than the one shown is taken over. -/
theorem Keeps.write (hkeeps : Keeps time fresh shows delivered register)
    (hnew : ∀ shown, shows register shown → time shown ≤ time message)
    (hshows : shows changed message) :
    Keeps time fresh shows (delivered ++ [message]) changed := by
  obtain ⟨rfl, -⟩ | ⟨latest, hlatest, hshown⟩ := hkeeps
  · exact .inr ⟨message, ⟨by simp, by simp⟩, hshows⟩
  · exact .inr ⟨message, isLatest_append_newer hlatest (hnew latest hshown), hshows⟩

/-- An older message is dropped; a fresh register drops none. -/
theorem Keeps.drop (hkeeps : Keeps time fresh shows delivered register)
    (hfresh : ¬fresh register)
    (hold : ∀ shown, shows register shown → time message ≤ time shown) :
    Keeps time fresh shows (delivered ++ [message]) register := by
  obtain ⟨-, hregister⟩ | ⟨latest, hlatest, hshown⟩ := hkeeps
  · exact absurd hregister hfresh
  · exact .inr ⟨latest, isLatest_append_older hlatest (hold latest hshown), hshown⟩

/-- A change made to fresh registers only does not disturb a register that shows a message. -/
theorem Keeps.amend (hkeeps : Keeps time fresh shows delivered register)
    (hfresh : fresh register → fresh changed) (hidle : ∀ shown ∈ delivered, ¬shows register shown) :
    Keeps time fresh shows delivered changed := by
  obtain ⟨hnone, hregister⟩ | ⟨latest, hlatest, hshown⟩ := hkeeps
  · exact .inl ⟨hnone, hfresh hregister⟩
  · exact absurd hshown (hidle latest hlatest.1)

/-- Once every message was delivered the register shows the latest one. -/
theorem Keeps.converges (hkeeps : Keeps time fresh shows delivered register)
    (hmem : ∀ m, m ∈ delivered ↔ m ∈ messages)
    (hdistinct : ∀ a ∈ messages, ∀ b ∈ messages, time a = time b → a = b)
    (hlatest : IsLatest time messages latest) : shows register latest := by
  obtain ⟨rfl, -⟩ | ⟨shown, hshown, hshows⟩ := hkeeps
  · simpa using (hmem latest).mpr hlatest.1
  · exact hshown.unique hlatest hmem hdistinct ▸ hshows

end MarketMaker.LastWriter
