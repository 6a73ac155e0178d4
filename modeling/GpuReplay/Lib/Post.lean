/-
Postconditions of computations that fail with their state.

A computation `EStateM ε σ α` ends in a state whether it returns or throws, and what it
has done up to a failure counts.  `Post x s Q E` says that from `s` the computation `x`
returns into `Q` or throws into `E`.  The rules are those of the weakest precondition;
loops are inductions that use them.  `Moves R x` is the case of one relation between the state
before and the state after, whatever the outcome.
-/
import Mathlib.Algebra.Order.Ring.Nat
import Mathlib.Tactic.Common

variable {ε σ α β : Type}

/-- From `s`, `x` returns a value and a state in `Q`, or throws an error in a state in `E`. -/
def Post (x : EStateM ε σ α) (s : σ) (Q : α → σ → Prop) (E : ε → σ → Prop) : Prop :=
  match x s with
  | .ok a s' => Q a s'
  | .error e s' => E e s'

variable {x : EStateM ε σ α} {f : α → EStateM ε σ β} {s : σ} {Q Q' : α → σ → Prop}
  {E E' : ε → σ → Prop} {R : β → σ → Prop}

/-- What a bind does after its first part returned. -/
theorem EStateM.bind_eq_of_ok {a : α} {s' : σ} (h : x s = .ok a s') : (x >>= f) s = f a s' := by
  change EStateM.bind x f s = f a s'
  unfold EStateM.bind
  rw [h]

/-- What a bind does after its first part threw. -/
theorem EStateM.bind_eq_of_error {e : ε} {s' : σ} (h : x s = .error e s') :
    (x >>= f) s = .error e s' := by
  change EStateM.bind x f s = .error e s'
  unfold EStateM.bind
  rw [h]

namespace Post

theorem of_eq_ok {a : α} {s' : σ} (h : x s = .ok a s') (hQ : Q a s') : Post x s Q E := by
  unfold Post
  rw [h]
  exact hQ

theorem of_eq_error {e : ε} {s' : σ} (h : x s = .error e s') (hE : E e s') : Post x s Q E := by
  unfold Post
  rw [h]
  exact hE

/-- What holds after every run that returns. -/
theorem ok {a : α} {s' : σ} (h : Post x s Q E) (hrun : x s = .ok a s') : Q a s' := by
  unfold Post at h
  rwa [hrun] at h

/-- What holds after every run that throws. -/
theorem error {e : ε} {s' : σ} (h : Post x s Q E) (hrun : x s = .error e s') : E e s' := by
  unfold Post at h
  rwa [hrun] at h

theorem mono (h : Post x s Q E) (hQ : ∀ a s', Q a s' → Q' a s') (hE : ∀ e s', E e s' → E' e s') :
    Post x s Q' E' := by
  unfold Post at *
  cases hrun : x s with
  | ok a s' => rw [hrun] at h; exact hQ a s' h
  | error e s' => rw [hrun] at h; exact hE e s' h

theorem and (h : Post x s Q E) (h' : Post x s Q' E') :
    Post x s (fun a s' => Q a s' ∧ Q' a s') (fun e s' => E e s' ∧ E' e s') := by
  unfold Post at *
  cases hrun : x s with
  | ok a s' =>
      rw [hrun] at h h'
      exact ⟨h, h'⟩
  | error e s' =>
      rw [hrun] at h h'
      exact ⟨h, h'⟩

theorem pure {a : α} (h : Q a s) : Post (Pure.pure a : EStateM ε σ α) s Q E := h

theorem throw {e : ε} (h : E e s) : Post (MonadExcept.throw e : EStateM ε σ α) s Q E := h

/-- **Sequencing.** -/
theorem bind (h : Post x s (fun a s' => Post (f a) s' R E) E) : Post (x >>= f) s R E := by
  unfold Post at h ⊢
  cases hrun : x s with
  | ok a s' =>
      rw [hrun] at h
      rw [EStateM.bind_eq_of_ok hrun]
      exact h
  | error e s' =>
      rw [hrun] at h
      rw [EStateM.bind_eq_of_error hrun]
      exact h

/-- The same, with what holds in between stated. -/
theorem seq (h : Post x s Q E) (hf : ∀ a s', Q a s' → Post (f a) s' R E) :
    Post (x >>= f) s R E :=
  bind (h.mono hf fun _ _ he => he)

theorem get {Q : σ → σ → Prop} (h : Q s s) : Post (MonadState.get : EStateM ε σ σ) s Q E := h

theorem set {s' : σ} {Q : PUnit → σ → Prop} (h : Q ⟨⟩ s') :
    Post (MonadStateOf.set s' : EStateM ε σ PUnit) s Q E := h

end Post

/-! ### What every step does -/

/-- Whether it returns or throws, `x` ends in a state that is `R` to the one it started in. -/
def Moves (R : σ → σ → Prop) (x : EStateM ε σ α) : Prop :=
  ∀ s, Post x s (fun _ s' => R s s') (fun _ s' => R s s')

namespace Moves

variable {R : σ → σ → Prop}

section Refl

variable [Std.Refl R]

theorem pure (a : α) : Moves R (Pure.pure a : EStateM ε σ α) := fun s => Std.Refl.refl s

theorem throw (e : ε) : Moves R (MonadExcept.throw e : EStateM ε σ α) := fun s => Std.Refl.refl s

theorem get : Moves R (MonadState.get : EStateM ε σ σ) := fun s => Std.Refl.refl s

end Refl

theorem modifyGet {g : σ → α × σ} (h : ∀ s, R s (g s).2) :
    Moves R (MonadState.modifyGet g : EStateM ε σ α) := h

theorem bind [IsTrans σ R] (h : Moves R x) (hf : ∀ a, Moves R (f a)) : Moves R (x >>= f) := by
  intro s
  refine Post.bind ((h s).mono (fun a s' hs' => ?_) fun _ _ hs' => hs')
  exact (hf a s').mono (fun _ _ hs'' => IsTrans.trans _ _ _ hs' hs'')
    fun _ _ hs'' => IsTrans.trans _ _ _ hs' hs''

theorem ite {c : Prop} [Decidable c] {y : EStateM ε σ α} (hx : c → Moves R x)
    (hy : ¬c → Moves R y) : Moves R (if c then x else y) := by
  split
  next h => exact hx h
  next h => exact hy h

end Moves

/-- **A bind returned exactly when both its parts did.** -/
theorem EStateM.bind_eq_ok {b : β} {s'' : σ} :
    (x >>= f) s = .ok b s'' ↔ ∃ a s', x s = .ok a s' ∧ f a s' = .ok b s'' := by
  cases hrun : x s with
  | ok a s' =>
      rw [EStateM.bind_eq_of_ok hrun]
      simp
  | error e s' =>
      rw [EStateM.bind_eq_of_error hrun]
      simp
