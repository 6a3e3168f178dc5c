import MarketMaker.Foundation.F64
import Mathlib.Data.UInt

/-!
# Arithmetic and texts of `u64`

The additions and subtractions the code uses on times and counters, with their values as natural
numbers, and the texts it reads counters from.
-/

namespace MarketMaker

/-- The addition of `u64`; `none` is the panic on overflow. -/
def checkedAdd (left right : UInt64) : Option UInt64 :=
  if left.toNat + right.toNat < 2 ^ 64 then some (left + right) else none

/-- `u64::saturating_sub`. -/
def saturatingSub (left right : UInt64) : UInt64 :=
  if right ≤ left then left - right else 0

theorem checkedAdd_eq_some {left right sum : UInt64} (hadd : checkedAdd left right = some sum) :
    sum.toNat = left.toNat + right.toNat := by
  unfold checkedAdd at hadd
  split_ifs at hadd with hlt
  obtain rfl := Option.some.inj hadd
  rw [UInt64.toNat_add, Nat.mod_eq_of_lt hlt]

theorem checkedAdd_isSome {left right : UInt64} :
    (checkedAdd left right).isSome ↔ left.toNat + right.toNat < 2 ^ 64 := by
  unfold checkedAdd
  split_ifs with hlt
  · exact iff_of_true rfl hlt
  · exact iff_of_false Bool.false_ne_true hlt

theorem toNat_saturatingSub (left right : UInt64) :
    (saturatingSub left right).toNat = left.toNat - right.toNat := by
  unfold saturatingSub
  split_ifs with hle
  · exact UInt64.toNat_sub_of_le _ _ hle
  · rw [UInt64.le_iff_toNat_le] at hle
    rw [UInt64.toNat_zero]
    omega

/-- `u64::from_str`: digits after an optional plus sign, below `2^64`; leading zeros are read. -/
def u64FromStr (text : String) : Option UInt64 :=
  (F64.Decimal.natural (match text.toList with
    | '+' :: digits => digits
    | digits => digits)).bind fun value ↦
      if value < 2 ^ 64 then some (UInt64.ofNat value) else none

example : u64FromStr "090" = some 90 := by decide +kernel

example : u64FromStr "manual-1" = none := by decide +kernel

/-! ## Decimal texts -/

theorem repr_injective : Function.Injective Nat.repr := by
  intro first second hrepr
  have hdigits : Nat.toDigits 10 first = Nat.toDigits 10 second := by
    rw [← Nat.toList_repr, ← Nat.toList_repr, hrepr]
  calc first = Nat.ofDigitChars 10 (Nat.toDigits 10 first) 0 :=
        Nat.ofDigitChars_ten_toDigits.symm
    _ = second := by rw [hdigits, Nat.ofDigitChars_ten_toDigits]

theorem toString_injective : Function.Injective (toString : UInt64 → String) := by
  intro first second htext
  exact UInt64.toNat_inj.mp (repr_injective htext)

/-- A counter is read from its own text. -/
theorem u64FromStr_toString (n : UInt64) : u64FromStr (toString n) = some n := by
  have hdigits : (toString n).toList = Nat.toDigits 10 n.toNat := Nat.toList_repr
  have hne : Nat.toDigits 10 n.toNat ≠ [] := Nat.toDigits_ne_nil
  have hall : (Nat.toDigits 10 n.toNat).all Char.isDigit = true :=
    List.all_eq_true.mpr fun c hc ↦ Nat.isDigit_of_mem_toDigits (by decide) (by decide) hc
  have hvalue : F64.Decimal.digitsValue (Nat.toDigits 10 n.toNat) = n.toNat :=
    Nat.ofDigitChars_ten_toDigits
  unfold u64FromStr
  rw [hdigits]
  split
  · rename_i digits hplus
    rw [hplus] at hall
    simp at hall
  · rw [F64.Decimal.natural, if_pos ⟨hne, hall⟩, Option.bind_some, hvalue, if_pos n.toNat_lt,
      UInt64.ofNat_toNat]

end MarketMaker
