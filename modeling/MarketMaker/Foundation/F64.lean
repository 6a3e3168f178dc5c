import Mathlib.Algebra.Order.Field.Rat
import Mathlib.Data.Rat.Cast.Order
import Mathlib.Tactic.NormNum

/-!
# The `f64` interface and its exact reading

The bot computes with `f64`.  The operators and literals are Lean's own classes (`Add`, `LE`,
`OfScientific`, ...); `F64` adds the standard-library functions the code calls.  The model is
generic over a type with these operations, so a result that does not depend on arithmetic holds
for IEEE doubles as for any other reading.  Results about amounts and prices are stated for `ℚ`,
the reading of `f64` as exact rationals.

`f64::NAN` only ever occurs as the fill price of an order without fills, a field that is stored
and never read; it is modelled by `none` in an `Option`.
-/

namespace MarketMaker

/-- The functions of `f64` the bot calls, beside its operators. -/
class F64 (F : Type) where
  /-- `f64::from_str`; `none` is its error. -/
  fromStr : String → Option F
  abs : F → F
  isSignPositive : F → Bool
  isSignNegative : F → Bool
  signum : F → F

namespace F64.Decimal

/-- The natural number written by a list of decimal digits. -/
def digitsValue (digits : List Char) : ℕ :=
  digits.foldl (fun value digit ↦ 10 * value + (digit.toNat - '0'.toNat)) 0

def natural (text : List Char) : Option ℕ :=
  if text ≠ [] ∧ text.all Char.isDigit then some (digitsValue text) else none

/-- A natural number after an optional sign. -/
def integer : List Char → Option ℤ
  | '-' :: digits => (natural digits).map fun value ↦ -(value : ℤ)
  | '+' :: digits => (natural digits).map Int.ofNat
  | digits => (natural digits).map Int.ofNat

def exponent : List Char → Option ℤ
  | [] => some 0
  | mark :: rest => if mark = 'e' ∨ mark = 'E' then integer rest else none

/-- `Digit+ | Digit+ '.' Digit* | Digit* '.' Digit+`, then an optional exponent. -/
def number (text : List Char) : Option ℚ :=
  let (whole, rest) := text.span Char.isDigit
  let (fraction, rest) := match rest with
    | '.' :: tail => tail.span Char.isDigit
    | _ => ([], rest)
  if whole = [] ∧ fraction = [] then none
  else (exponent rest).map fun power ↦
    (digitsValue (whole ++ fraction) : ℚ) * (10 : ℚ) ^ (power - (fraction.length : ℤ))

/-- The grammar of `f64::from_str` read exactly.  The texts of infinities and of NaN denote no
rational number and are errors here. -/
def parse (text : String) : Option ℚ :=
  match text.toList with
  | '-' :: rest => (number rest).map Neg.neg
  | '+' :: rest => number rest
  | rest => number rest

end F64.Decimal

/-- `f64` read as exact rationals: zero has one, positive, sign. -/
instance : F64 ℚ where
  fromStr := F64.Decimal.parse
  abs value := |value|
  isSignPositive value := decide (0 ≤ value)
  isSignNegative value := decide (value < 0)
  signum value := if value < 0 then -1 else 1

namespace F64

@[simp]
theorem abs_rat (value : ℚ) : F64.abs value = |value| := rfl

@[simp]
theorem isSignPositive_rat (value : ℚ) : isSignPositive value = decide (0 ≤ value) := rfl

@[simp]
theorem isSignNegative_rat (value : ℚ) : isSignNegative value = decide (value < 0) := rfl

theorem signum_rat (value : ℚ) : signum value = if value < 0 then -1 else 1 := rfl

/-- Signs agree exactly when both values are negative or neither is. -/
theorem signum_ne_rat (left right : ℚ) :
    signum left ≠ signum right ↔ ¬(left < 0 ↔ right < 0) := by
  simp only [signum_rat]
  by_cases hleft : left < 0 <;> by_cases hright : right < 0 <;> norm_num [hleft, hright]

example : F64.fromStr "0.567" = some (567 / 1000 : ℚ) := by decide +kernel

example : F64.fromStr "-1.5e2" = some (-150 : ℚ) := by decide +kernel

end F64

end MarketMaker
