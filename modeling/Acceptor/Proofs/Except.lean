import Mathlib.Tactic.Use

/-!
# Computations in steps

What the result of a computation in two steps says of its steps.
-/

namespace Acceptor

variable {ε ε' α β : Type} {x : Except ε α} {k : α → Except ε β}

theorem bind_ok (a : α) (k : α → Except ε β) :
  Except.ok a >>= k = k a
  := rfl

/-- A computation in two steps succeeds when both do. -/
theorem bind_eq_ok {b : β} (h : x >>= k = .ok b) :
  ∃ a, x = .ok a ∧ k a = .ok b
  := by
  cases x with
  | error e => cases h
  | ok a => use a, rfl, h

/-- A computation in two steps fails with the fault of the first or of the second. -/
theorem bind_eq_error {e : ε} (h : x >>= k = .error e) :
  x = .error e ∨ ∃ a, x = .ok a ∧ k a = .error e
  := by
  cases x with
  | error e' =>
    left
    rw [Except.error.inj h]
  | ok a =>
    right
    use a, rfl, h

theorem mapError_eq_ok {f : ε → ε'} {a : α} (h : x.mapError f = .ok a) :
  x = .ok a
  := by
  cases x with
  | error e => cases h
  | ok a' =>
    cases h
    rfl

end Acceptor
