/-
Stepping through computations that can fail.

A program in `Except ε` is a chain of binds.  Run forwards, each bind disappears
once the outcome of its first part is known; run backwards, a chain that returned
splits into the parts that returned.
-/
import Mathlib.Algebra.Order.Ring.Nat
import Mathlib.Tactic.Common

namespace Except

variable {ε α β : Type}

@[simp] theorem ok_bind (a : α) (f : α → Except ε β) : (Except.ok a >>= f) = f a := rfl

@[simp] theorem error_bind (e : ε) (f : α → Except ε β) :
    ((Except.error e : Except ε α) >>= f) = Except.error e := rfl

@[simp] theorem pure_eq_ok (a : α) : (pure a : Except ε α) = Except.ok a := rfl

@[simp] theorem throw_eq_error (e : ε) : (throw e : Except ε α) = Except.error e := rfl

theorem ok_ne_error (a : α) (e : ε) : (Except.ok a : Except ε α) ≠ Except.error e := nofun

/-- **A bind returned exactly when both its parts did.** -/
theorem bind_eq_ok {x : Except ε α} {f : α → Except ε β} {b : β} :
    (x >>= f) = Except.ok b ↔ ∃ a, x = Except.ok a ∧ f a = Except.ok b := by
  cases x with
  | error e => simp
  | ok a => simp

/-- An error that neither part of a bind ends in is not the bind's. -/
theorem bind_ne_error {x : Except ε α} {f : α → Except ε β} {e : ε} (hx : x ≠ Except.error e)
    (hf : ∀ a, f a ≠ Except.error e) : (x >>= f) ≠ Except.error e := by
  cases x with
  | error e' => exact fun h => hx (congrArg Except.error (Except.error.inj h))
  | ok a => exact hf a

/-- What is returned of a result adds no error. -/
theorem bind_pure_eq_error {x : Except ε α} {f : α → β} {e : ε} :
    (x >>= fun a => pure (f a)) = Except.error e ↔ x = Except.error e := by
  cases x with
  | error e' => simp
  | ok a => simp

end Except
