import MarketMaker.Foundation.F64
import Mathlib.Algebra.Order.Round
import Mathlib.Algebra.Ring.Int.Parity
import Mathlib.Data.List.TakeWhile
import Mathlib.Data.Rat.Floor
import Mathlib.Tactic.Linarith

/-!
# Numbers written with a fixed number of decimals

Formatting a number to a fixed number of decimals rounds it to the nearest multiple of the last
place, ties to even.  The rounding is characterised by the thresholds at which it changes, and
parsing the text gives the rounded number back.
-/

namespace MarketMaker

/-- The nearest integer, ties to even. -/
def roundHalfEven (value : ℚ) : ℤ :=
  if value - ⌊value⌋ < 1 / 2 ∨ value - ⌊value⌋ = 1 / 2 ∧ Even ⌊value⌋ then ⌊value⌋
  else ⌊value⌋ + 1

/-- The thresholds of the rounding, which determine it. -/
theorem roundHalfEven_le_iff (value : ℚ) (n : ℤ) :
    roundHalfEven value ≤ n ↔
      value < n + 1 / 2 ∨ value = n + 1 / 2 ∧ Even n := by
  have hfloor : (⌊value⌋ : ℚ) ≤ value := Int.floor_le value
  have hceil : value < ⌊value⌋ + 1 := Int.lt_floor_add_one value
  unfold roundHalfEven
  obtain hlt | rfl | hgt := lt_trichotomy ⌊value⌋ n
  · have hstep : (⌊value⌋ : ℚ) + 1 ≤ n := by exact_mod_cast hlt
    have hbelow : value < n + 1 / 2 ∨ value = n + 1 / 2 ∧ Even n := .inl (by linarith)
    split_ifs <;> simp only [hbelow, iff_true] <;> omega
  · split_ifs with hdown
    · simp only [le_refl, true_iff]
      rcases hdown with hdown | ⟨hdown, heven⟩
      · exact .inl (by linarith)
      · exact .inr ⟨by linarith, heven⟩
    · refine iff_of_false (by omega) ?_
      rintro (hbelow | ⟨htie, heven⟩)
      · exact hdown (.inl (by linarith))
      · exact hdown (.inr ⟨by linarith, heven⟩)
  · have hstep : (n : ℚ) + 1 ≤ ⌊value⌋ := by exact_mod_cast hgt
    have habove : ¬(value < n + 1 / 2 ∨ value = n + 1 / 2 ∧ Even n) := by
      rintro (hbelow | ⟨htie, -⟩) <;> linarith
    split_ifs <;> simp only [habove, iff_false] <;> omega

theorem lt_roundHalfEven_iff (value : ℚ) (n : ℤ) :
    n < roundHalfEven value ↔
      n + 1 / 2 < value ∨ value = n + 1 / 2 ∧ ¬Even n := by
  rw [← not_le, roundHalfEven_le_iff]
  constructor
  · intro habove
    rw [not_or, not_lt, not_and] at habove
    exact (habove.1.lt_or_eq).imp_right fun heq ↦ ⟨heq.symm, habove.2 heq.symm⟩
  · rintro (habove | ⟨rfl, hodd⟩)
    · rintro (hbelow | ⟨htie, -⟩) <;> linarith
    · rintro (hbelow | ⟨-, heven⟩)
      · exact lt_irrefl _ hbelow
      · exact hodd heven

@[simp]
theorem roundHalfEven_intCast (n : ℤ) : roundHalfEven n = n := by
  apply le_antisymm
  · exact (roundHalfEven_le_iff n n).mpr (.inl (by linarith))
  · rw [← Int.sub_one_lt_iff, lt_roundHalfEven_iff]
    left
    push_cast
    linarith

/-- Ties to even treat both directions alike. -/
theorem roundHalfEven_neg (value : ℚ) : roundHalfEven (-value) = -roundHalfEven value := by
  apply eq_of_forall_ge_iff
  intro n
  have hparity : Even (-n - 1) ↔ ¬Even n := by
    rw [Int.even_sub_one, even_neg]
  rw [roundHalfEven_le_iff, neg_le, ← Int.sub_one_lt_iff, lt_roundHalfEven_iff, hparity, not_not]
  push_cast
  apply or_congr
  · constructor <;> intro h <;> linarith
  · apply and_congr_left
    intro _
    constructor <;> intro h <;> linarith

theorem roundHalfEven_mono {low high : ℚ} (hle : low ≤ high) :
    roundHalfEven low ≤ roundHalfEven high := by
  rw [roundHalfEven_le_iff]
  obtain hbelow | ⟨htie, heven⟩ := (roundHalfEven_le_iff high _).mp le_rfl
  · exact .inl (hle.trans_lt hbelow)
  · obtain hlt | heq := hle.lt_or_eq
    · exact .inl (hlt.trans_eq htie)
    · exact .inr ⟨heq.trans htie, heven⟩

/-- An even shift does not change how ties are broken. -/
theorem roundHalfEven_add {n : ℤ} (heven : Even n) (value : ℚ) :
    roundHalfEven (value + n) = roundHalfEven value + n := by
  apply eq_of_forall_ge_iff
  intro m
  have hparity : Even (m - n) ↔ Even m := by simp [Int.even_sub, heven]
  rw [roundHalfEven_le_iff, ← le_sub_iff_add_le, roundHalfEven_le_iff, hparity]
  push_cast
  apply or_congr
  · constructor <;> intro h <;> linarith
  · apply and_congr_left
    intro _
    constructor <;> intro h <;> linarith

/-- A threshold `n + 1 / 2` of the rounding lies between two values; a value on the threshold is on
the side that its ties go to. -/
def ThresholdBetween (low high : ℚ) : Prop :=
  ∃ n : ℤ, (low < n + 1 / 2 ∨ low = n + 1 / 2 ∧ Even n) ∧
    (n + 1 / 2 < high ∨ high = n + 1 / 2 ∧ ¬Even n)

theorem roundHalfEven_lt_roundHalfEven_iff (low high : ℚ) :
    roundHalfEven low < roundHalfEven high ↔ ThresholdBetween low high := by
  simp only [ThresholdBetween, ← roundHalfEven_le_iff, ← lt_roundHalfEven_iff]
  constructor
  · intro hlt
    exact ⟨roundHalfEven low, le_rfl, hlt⟩
  · rintro ⟨n, hlow, hhigh⟩
    exact hlow.trans_lt hhigh

theorem roundHalfEven_nonneg {value : ℚ} (hvalue : 0 ≤ value) : 0 ≤ roundHalfEven value := by
  rw [← Int.sub_one_lt_iff, lt_roundHalfEven_iff]
  left
  push_cast
  linarith

namespace F64

/-- The value of a text with the given number of decimals that is nearest to `value`. -/
def fixedValue (places : ℕ) (value : ℚ) : ℚ := roundHalfEven (value * 10 ^ places) / 10 ^ places

theorem fixedValue_mono (places : ℕ) {low high : ℚ} (hle : low ≤ high) :
    fixedValue places low ≤ fixedValue places high := by
  have hscaled : low * 10 ^ places ≤ high * 10 ^ places :=
    mul_le_mul_of_nonneg_right hle (by positivity)
  have hrounded : (roundHalfEven (low * 10 ^ places) : ℚ) ≤ roundHalfEven (high * 10 ^ places) := by
    exact_mod_cast roundHalfEven_mono hscaled
  unfold fixedValue
  gcongr

/-- An even number of last places may be added before or after the rounding. -/
theorem fixedValue_add (places : ℕ) {n : ℤ} (heven : Even n) (value : ℚ) :
    fixedValue places (value + n / 10 ^ places) = fixedValue places value + n / 10 ^ places := by
  have hunit : (10 : ℚ) ^ places ≠ 0 := by positivity
  rw [fixedValue, fixedValue, add_mul, div_mul_cancel₀ _ hunit, roundHalfEven_add heven]
  push_cast
  rw [add_div]

/-- The digits of a number of last places, with at least one before the point. -/
def fixedDigits (places scaled : ℕ) : List Char :=
  (Nat.toDigits 10 scaled).leftpad (places + 1) '0'

/-- The digits with the point before the last `places` of them. -/
def placePoint (places : ℕ) (digits : List Char) : List Char :=
  digits.take (digits.length - places) ++
    if places = 0 then [] else '.' :: digits.drop (digits.length - places)

def formatFixed (places : ℕ) (value : ℚ) : String :=
  String.ofList ((if value < 0 then ['-'] else []) ++
    placePoint places (fixedDigits places (roundHalfEven (|value| * 10 ^ places)).toNat))

namespace Decimal

theorem number_whole {whole : List Char} (hne : whole ≠ []) (hwhole : ∀ c ∈ whole, c.isDigit) :
    number whole = some (digitsValue whole : ℚ) := by
  have htake : whole.takeWhile Char.isDigit = whole := List.takeWhile_eq_self_iff.mpr hwhole
  have hdrop : whole.dropWhile Char.isDigit = [] := List.dropWhile_eq_nil_iff.mpr hwhole
  simp [number, List.span_eq_takeWhile_dropWhile, htake, hdrop, hne, exponent]

theorem number_point {whole fraction : List Char} (hne : ¬(whole = [] ∧ fraction = []))
    (hwhole : ∀ c ∈ whole, c.isDigit) (hfraction : ∀ c ∈ fraction, c.isDigit) :
    number (whole ++ '.' :: fraction) =
      some ((digitsValue (whole ++ fraction) : ℚ) / 10 ^ fraction.length) := by
  have htake : (whole ++ '.' :: fraction).takeWhile Char.isDigit = whole := by
    rw [List.takeWhile_append_of_pos hwhole]
    simp
  have hdrop : (whole ++ '.' :: fraction).dropWhile Char.isDigit = '.' :: fraction := by
    rw [List.dropWhile_append_of_pos hwhole]
    simp
  have htake' : fraction.takeWhile Char.isDigit = fraction :=
    List.takeWhile_eq_self_iff.mpr hfraction
  have hdrop' : fraction.dropWhile Char.isDigit = [] := List.dropWhile_eq_nil_iff.mpr hfraction
  simp [number, List.span_eq_takeWhile_dropWhile, htake, hdrop, htake', hdrop', hne, exponent,
    div_eq_mul_inv]

theorem parse_unsigned {text : String} {first : Char} {rest : List Char}
    (htext : text.toList = first :: rest) (hminus : first ≠ '-') (hplus : first ≠ '+') :
    parse text = number (first :: rest) := by
  simp [parse, htext, hminus, hplus]

/-- A text that starts with a digit has no sign. -/
theorem parse_digit {text : String} {first : Char} {rest : List Char}
    (htext : text.toList = first :: rest) (hfirst : first.isDigit) :
    parse text = number (first :: rest) := by
  apply parse_unsigned htext
  · rintro rfl
    exact absurd hfirst (by decide)
  · rintro rfl
    exact absurd hfirst (by decide)

theorem parse_ofList_minus (rest : List Char) :
    parse (String.ofList ('-' :: rest)) = (number rest).map Neg.neg := by
  simp [parse]

end Decimal

theorem length_fixedDigits (places scaled : ℕ) :
    places < (fixedDigits places scaled).length := by
  rw [fixedDigits, List.length_leftpad]
  omega

theorem isDigit_fixedDigits {places scaled : ℕ} {c : Char} (hc : c ∈ fixedDigits places scaled) :
    c.isDigit := by
  rw [fixedDigits, List.leftpad, List.mem_append] at hc
  rcases hc with hc | hc
  · rw [List.eq_of_mem_replicate hc]
    rfl
  · exact Nat.isDigit_of_mem_toDigits (by decide) (by decide) hc

theorem digitsValue_fixedDigits (places scaled : ℕ) :
    Decimal.digitsValue (fixedDigits places scaled) = scaled := by
  calc
    _ = Nat.ofDigitChars 10 (fixedDigits places scaled) 0 := rfl
    _ = Nat.ofDigitChars 10 (Nat.toDigits 10 scaled) 0 := by
      rw [fixedDigits, List.leftpad, Nat.ofDigitChars_append, Nat.ofDigitChars_replicate_zero,
        Nat.mul_zero]
    _ = scaled := Nat.ofDigitChars_ten_toDigits

/-- The number written by digits with the point in place. -/
theorem number_placePoint {places : ℕ} {digits : List Char} (hlength : places < digits.length)
    (hdigits : ∀ c ∈ digits, c.isDigit) :
    Decimal.number (placePoint places digits) =
      some ((Decimal.digitsValue digits : ℚ) / 10 ^ places) := by
  have hne : digits.take (digits.length - places) ≠ [] := by
    rw [← List.length_pos_iff, List.length_take]
    omega
  have hwhole : ∀ c ∈ digits.take (digits.length - places), c.isDigit :=
    fun c hc ↦ hdigits c (List.mem_of_mem_take hc)
  have hfraction : ∀ c ∈ digits.drop (digits.length - places), c.isDigit :=
    fun c hc ↦ hdigits c (List.mem_of_mem_drop hc)
  unfold placePoint
  split_ifs with hplaces
  · subst hplaces
    rw [List.append_nil, Decimal.number_whole hne hwhole]
    simp
  · rw [Decimal.number_point (fun hempty ↦ hne hempty.1) hwhole hfraction,
      List.take_append_drop, List.length_drop, Nat.sub_sub_self hlength.le]

/-- What is written without a sign is read without one. -/
theorem parse_placePoint {places : ℕ} {digits : List Char} (hlength : places < digits.length)
    (hdigits : ∀ c ∈ digits, c.isDigit) :
    Decimal.parse (String.ofList (placePoint places digits)) =
      Decimal.number (placePoint places digits) := by
  obtain ⟨keep, hkeep⟩ : ∃ keep, digits.length - places = keep + 1 :=
    ⟨digits.length - places - 1, by omega⟩
  unfold placePoint
  rw [hkeep]
  cases digits with
  | nil => simp at hlength
  | cons first rest => exact Decimal.parse_digit (by simp) (hdigits first (by simp))

/-- Parsing a formatted number gives the nearest number with these decimals. -/
theorem parse_formatFixed (places : ℕ) (value : ℚ) :
    Decimal.parse (formatFixed places value) = some (fixedValue places value) := by
  have hscaled : 0 ≤ |value| * 10 ^ places := by positivity
  have hlength := length_fixedDigits places (roundHalfEven (|value| * 10 ^ places)).toNat
  have hnumber : Decimal.number (placePoint places
      (fixedDigits places (roundHalfEven (|value| * 10 ^ places)).toNat)) =
        some ((roundHalfEven (|value| * 10 ^ places) : ℚ) / 10 ^ places) := by
    have hcast : ((roundHalfEven (|value| * 10 ^ places)).toNat : ℚ) =
        roundHalfEven (|value| * 10 ^ places) := by
      exact_mod_cast Int.toNat_of_nonneg (roundHalfEven_nonneg hscaled)
    rw [number_placePoint hlength fun c hc ↦ isDigit_fixedDigits hc, digitsValue_fixedDigits,
      hcast]
  unfold formatFixed
  by_cases hnegative : value < 0
  · rw [if_pos hnegative, List.singleton_append, Decimal.parse_ofList_minus, hnumber,
      Option.map_some, abs_of_neg hnegative, neg_mul, roundHalfEven_neg, fixedValue]
    push_cast
    rw [neg_div, neg_neg]
  · rw [if_neg hnegative, List.nil_append,
      parse_placePoint hlength fun c hc ↦ isDigit_fixedDigits hc, hnumber,
      abs_of_nonneg (not_lt.mp hnegative), fixedValue]

example : formatFixed 3 (-1 / 20000) = "-0.000" := by decide +kernel

/-! ## Numbers that have a text -/

/-- Some text is read as the number. -/
def Decimal.Written (value : ℚ) : Prop := ∃ text, Decimal.parse text = some value

/-- What the grammar reads is an integer with a decimal exponent. -/
theorem Decimal.exists_exponent {text : List Char} {value : ℚ}
    (hnumber : number text = some value) :
    ∃ mantissa power : ℤ, value = mantissa * 10 ^ power := by
  unfold number at hnumber
  dsimp only at hnumber
  split_ifs at hnumber
  obtain ⟨power, -, rfl⟩ := Option.map_eq_some_iff.mp hnumber
  exact ⟨_, _, by rw [Int.cast_natCast]⟩

/-- A multiple of the last place is not changed by the formatting. -/
theorem fixedValue_eq_self {places : ℕ} {value : ℚ} {n : ℤ} (hvalue : value * 10 ^ places = n) :
    fixedValue places value = value := by
  have hunit : (10 : ℚ) ^ places ≠ 0 := by positivity
  rw [fixedValue, hvalue, roundHalfEven_intCast, ← hvalue, mul_div_cancel_right₀ _ hunit]

/-- The numbers with a text are the integers with a decimal exponent. -/
theorem Decimal.written_iff {value : ℚ} :
    Written value ↔ ∃ mantissa power : ℤ, value = mantissa * 10 ^ power := by
  constructor
  · rintro ⟨text, hparse⟩
    unfold parse at hparse
    split at hparse
    · obtain ⟨absolute, hnumber, rfl⟩ := Option.map_eq_some_iff.mp hparse
      obtain ⟨mantissa, power, rfl⟩ := exists_exponent hnumber
      exact ⟨-mantissa, power, by push_cast; ring⟩
    · exact exists_exponent hparse
    · exact exists_exponent hparse
  · rintro ⟨mantissa, power, rfl⟩
    -- the last place is that of the exponent, or the ones
    have hscaled : ∃ n : ℤ, (mantissa * 10 ^ power : ℚ) * 10 ^ (-power).toNat = n := by
      obtain ⟨exponent, rfl | rfl⟩ := power.eq_nat_or_neg
      · exact ⟨mantissa * 10 ^ exponent, by simp⟩
      · refine ⟨mantissa, ?_⟩
        rw [neg_neg, Int.toNat_natCast, mul_assoc, zpow_neg, zpow_natCast,
          inv_mul_cancel₀ (by positivity), mul_one]
    obtain ⟨n, hscaled⟩ := hscaled
    refine ⟨formatFixed (-power).toNat (mantissa * 10 ^ power), ?_⟩
    rw [parse_formatFixed, fixedValue_eq_self hscaled]

theorem Decimal.Written.mul {left right : ℚ} (hleft : Written left) (hright : Written right) :
    Written (left * right) := by
  obtain ⟨first, power, rfl⟩ := written_iff.mp hleft
  obtain ⟨second, power', rfl⟩ := written_iff.mp hright
  refine written_iff.mpr ⟨first * second, power + power', ?_⟩
  rw [zpow_add₀ (by norm_num)]
  push_cast
  ring

end F64

/-- The remaining functions of `f64` the strategy and the gateway call. -/
class F64Format (F : Type) where
  isFinite : F → Bool
  formatFixed : ℕ → F → String

/-- Exact rationals are finite. -/
instance : F64Format ℚ where
  isFinite _ := true
  formatFixed := F64.formatFixed

end MarketMaker
