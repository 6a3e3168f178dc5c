import Mathlib.Tactic.TypeStar

/-!
# Results of fallible code

A computation that stops at its first error returns a value exactly if every part of it does.
-/

namespace MarketMaker

universe u

variable {ε : Type*} {α β : Type u}

theorem bind_eq_ok {first : Except ε α} {second : α → Except ε β} {result : β} :
    (first >>= second) = .ok result ↔
      ∃ middle, first = .ok middle ∧ second middle = .ok result := by
  cases first with
  | error reason => simp [bind, Except.bind]
  | ok value => simp [bind, Except.bind]

theorem map_eq_ok {first : Except ε α} {f : α → β} {result : β} :
    first.map f = .ok result ↔ ∃ middle, first = .ok middle ∧ f middle = result := by
  cases first with
  | error reason => simp [Except.map]
  | ok value => simp [Except.map]

theorem eq_ok_of_toOption {result : Except ε α} {value : α}
    (hsome : result.toOption = some value) : result = .ok value := by
  cases result with
  | error reason => simp [Except.toOption] at hsome
  | ok other => exact congrArg Except.ok (Option.some.inj hsome)

end MarketMaker
