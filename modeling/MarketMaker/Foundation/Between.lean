import Mathlib.Algebra.Order.Field.Basic
import Mathlib.Tactic.Linarith

/-!
# Values between others

`Between values x` places `x` between the smallest and the largest of finitely many values.
Weighted means with nonnegative weights stay between.
-/

namespace MarketMaker

variable {α : Type*}

/-- `x` is at least the smallest and at most the largest of the values. -/
def Between [LE α] (values : List α) (x : α) : Prop :=
  (∃ low ∈ values, low ≤ x) ∧ ∃ high ∈ values, x ≤ high

instance [LE α] [DecidableLE α] (values : List α) (x : α) : Decidable (Between values x) :=
  inferInstanceAs (Decidable ((∃ low ∈ values, low ≤ x) ∧ ∃ high ∈ values, x ≤ high))

theorem between_of_mem [Preorder α] {values : List α} {x : α} (hmem : x ∈ values) :
    Between values x :=
  ⟨⟨x, hmem, le_rfl⟩, x, hmem, le_rfl⟩

theorem Between.mono [LE α] {values more : List α} {x : α} (hbetween : Between values x)
    (hsubset : values ⊆ more) : Between more x := by
  obtain ⟨⟨low, hlow, hle⟩, high, hhigh, hge⟩ := hbetween
  exact ⟨⟨low, hsubset hlow, hle⟩, high, hsubset hhigh, hge⟩

variable [Field α] [LinearOrder α] [IsStrictOrderedRing α]

def weightedMean (weight value weight' value' : α) : α :=
  (weight * value + weight' * value') / (weight + weight')

variable {weight value weight' value' bound : α}

theorem le_weightedMean (hweight : 0 < weight) (hweight' : 0 ≤ weight') (hvalue : bound ≤ value)
    (hvalue' : bound ≤ value') : bound ≤ weightedMean weight value weight' value' := by
  rw [weightedMean, le_div_iff₀ (by linarith), mul_comm, add_mul]
  exact add_le_add (mul_le_mul_of_nonneg_left hvalue hweight.le)
    (mul_le_mul_of_nonneg_left hvalue' hweight')

theorem weightedMean_le (hweight : 0 < weight) (hweight' : 0 ≤ weight') (hvalue : value ≤ bound)
    (hvalue' : value' ≤ bound) : weightedMean weight value weight' value' ≤ bound := by
  rw [weightedMean, div_le_iff₀ (by linarith), mul_comm bound, add_mul]
  exact add_le_add (mul_le_mul_of_nonneg_left hvalue hweight.le)
    (mul_le_mul_of_nonneg_left hvalue' hweight')

theorem Between.weightedMean {values : List α} (hvalue : Between values value)
    (hvalue' : Between values value') (hweight : 0 < weight) (hweight' : 0 ≤ weight') :
    Between values (MarketMaker.weightedMean weight value weight' value') := by
  obtain ⟨⟨low, hlow, hlow_le⟩, high, hhigh, hle_high⟩ := hvalue
  obtain ⟨⟨low', hlow', hlow_le'⟩, high', hhigh', hle_high'⟩ := hvalue'
  constructor
  · rcases le_total low low' with hle | hle
    · exact ⟨low, hlow, le_weightedMean hweight hweight' hlow_le (hle.trans hlow_le')⟩
    · exact ⟨low', hlow', le_weightedMean hweight hweight' (hle.trans hlow_le) hlow_le'⟩
  · rcases le_total high high' with hle | hle
    · exact ⟨high', hhigh', weightedMean_le hweight hweight' (hle_high.trans hle) hle_high'⟩
    · exact ⟨high, hhigh, weightedMean_le hweight hweight' hle_high (hle_high'.trans hle)⟩

end MarketMaker
