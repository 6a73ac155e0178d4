/-
Two computations side by side.

`Twins R V x y` says that from states related by `R` the computations `x` and `y` end in states
related by `R`, and that both return, with values related by `V`, or both throw the same error.
With `x` and `y` the same program over two environments it says what the program does not learn:
whether and how it ends depends on nothing that `R` leaves open.
-/
import GpuReplay.Lib.Post

variable {ε σ α β γ δ : Type}

/-- Two outcomes of one kind. -/
inductive Together (R : σ → σ → Prop) (V : α → β → Prop) :
    EStateM.Result ε σ α → EStateM.Result ε σ β → Prop
  | ok {a : α} {b : β} {s t : σ} : V a b → R s t → Together R V (.ok a s) (.ok b t)
  | error {e : ε} {s t : σ} : R s t → Together R V (.error e s) (.error e t)

/-- From related states, `x` and `y` come to outcomes of one kind. -/
def Twins (R : σ → σ → Prop) (V : α → β → Prop) (x : EStateM ε σ α) (y : EStateM ε σ β) : Prop :=
  ∀ s t, R s t → Together R V (x s) (y t)

namespace Twins

variable {R : σ → σ → Prop} {V : α → β → Prop} {W : γ → δ → Prop} {x x' : EStateM ε σ α}
  {y y' : EStateM ε σ β}

theorem pure {a : α} {b : β} (h : V a b) :
    Twins R V (Pure.pure a : EStateM ε σ α) (Pure.pure b : EStateM ε σ β) :=
  fun _ _ hst => .ok h hst

theorem throw (e : ε) : Twins R V (MonadExcept.throw e : EStateM ε σ α)
    (MonadExcept.throw e : EStateM ε σ β) :=
  fun _ _ hst => .error hst

theorem get : Twins R R (MonadState.get : EStateM ε σ σ) MonadState.get :=
  fun _ _ hst => .ok hst hst

theorem set {s' t' : σ} (h : R s' t') : Twins R Eq (MonadStateOf.set s' : EStateM ε σ PUnit)
    (MonadStateOf.set t') :=
  fun _ _ _ => .ok rfl h

theorem modifyGet {g : σ → α × σ} {g' : σ → β × σ}
    (h : ∀ s t, R s t → V (g s).1 (g' t).1 ∧ R (g s).2 (g' t).2) :
    Twins R V (MonadState.modifyGet g : EStateM ε σ α) (MonadState.modifyGet g') :=
  fun s t hst => .ok (h s t hst).1 (h s t hst).2

/-- **Sequencing.** -/
theorem bind {f : α → EStateM ε σ γ} {g : β → EStateM ε σ δ} (h : Twins R V x y)
    (hf : ∀ a b, V a b → Twins R W (f a) (g b)) : Twins R W (x >>= f) (y >>= g) := by
  intro s t hst
  have htogether := h s t hst
  cases hx : x s with
  | ok a s' =>
      cases hy : y t with
      | ok b t' =>
          rw [hx, hy] at htogether
          rw [EStateM.bind_eq_of_ok hx, EStateM.bind_eq_of_ok hy]
          cases htogether with
          | ok hab hst' => exact hf a b hab s' t' hst'
      | error e t' =>
          rw [hx, hy] at htogether
          cases htogether
  | error e s' =>
      cases hy : y t with
      | ok b t' =>
          rw [hx, hy] at htogether
          cases htogether
      | error e' t' =>
          rw [hx, hy] at htogether
          rw [EStateM.bind_eq_of_error hx, EStateM.bind_eq_of_error hy]
          cases htogether with
          | error hst' => exact .error hst'

/-- Sequencing after one and the same value. -/
theorem bind_eq {x y : EStateM ε σ α} {f : α → EStateM ε σ γ} {g : α → EStateM ε σ δ}
    (h : Twins R Eq x y) (hf : ∀ a, Twins R W (f a) (g a)) : Twins R W (x >>= f) (y >>= g) :=
  h.bind fun a _ hab => hab ▸ hf a

theorem ite {c : Prop} [Decidable c] (hx : c → Twins R V x y) (hy : ¬c → Twins R V x' y') :
    Twins R V (if c then x else x') (if c then y else y') := by
  split
  next h => exact hx h
  next h => exact hy h

/-- **If one returns, so does the other.** -/
theorem exists_ok (h : Twins R V x y) {s t s' : σ} {a : α} (hst : R s t) (hx : x s = .ok a s') :
    ∃ b t', y t = .ok b t' ∧ V a b ∧ R s' t' := by
  have htogether := h s t hst
  rw [hx] at htogether
  cases hy : y t with
  | ok b t' =>
      rw [hy] at htogether
      cases htogether with
      | ok hab hst' => exact ⟨b, t', rfl, hab, hst'⟩
  | error e t' =>
      rw [hy] at htogether
      cases htogether

end Twins

/-! ### Computations without a state -/

/-- Both return, with values related by `V`, or both throw the same error. -/
inductive Alike (V : α → β → Prop) : Except ε α → Except ε β → Prop
  | ok {a : α} {b : β} : V a b → Alike V (.ok a) (.ok b)
  | error (e : ε) : Alike V (.error e) (.error e)

namespace Alike

variable {V : α → β → Prop} {W : γ → δ → Prop} {x x' : Except ε α} {y y' : Except ε β}

theorem of_eq {V : α → α → Prop} (hV : ∀ a, V a a) {x y : Except ε α} (h : x = y) : Alike V x y := by
  subst h
  cases x with
  | ok a => exact .ok (hV a)
  | error e => exact .error e

theorem bind {f : α → Except ε γ} {g : β → Except ε δ} (h : Alike V x y)
    (hf : ∀ a b, V a b → Alike W (f a) (g b)) : Alike W (x >>= f) (y >>= g) := by
  cases h with
  | ok hab => exact hf _ _ hab
  | error e => exact .error e

theorem map {f : α → γ} {g : β → δ} (h : Alike V x y) (hf : ∀ a b, V a b → W (f a) (g b)) :
    Alike W (x.map f) (y.map g) := by
  cases h with
  | ok hab => exact .ok (hf _ _ hab)
  | error e => exact .error e

theorem ite {c : Prop} [Decidable c] (hx : c → Alike V x y) (hy : ¬c → Alike V x' y') :
    Alike V (if c then x else x') (if c then y else y') := by
  split
  next h => exact hx h
  next h => exact hy h

end Alike

/-! ### Where only one of them may return -/

/-- Where both return, their values are related by `V`. -/
def BothReturn (R : σ → σ → Prop) (V : α → β → Prop) (x : EStateM ε σ α) (y : EStateM ε σ β) :
    Prop :=
  ∀ s t a b s' t', R s t → x s = .ok a s' → y t = .ok b t' → V a b ∧ R s' t'

namespace BothReturn

variable {R : σ → σ → Prop} {V : α → β → Prop} {W : γ → δ → Prop} {x : EStateM ε σ α}
  {y : EStateM ε σ β}

theorem of_twins (h : Twins R V x y) : BothReturn R V x y := by
  intro s t a b s' t' hst hx hy
  have htogether := h s t hst
  rw [hx, hy] at htogether
  cases htogether with
  | ok hab hst' => exact ⟨hab, hst'⟩

theorem bind {f : α → EStateM ε σ γ} {g : β → EStateM ε σ δ} (h : BothReturn R V x y)
    (hf : ∀ a b, V a b → BothReturn R W (f a) (g b)) : BothReturn R W (x >>= f) (y >>= g) := by
  intro s t c d s' t' hst hx hy
  obtain ⟨a, s₁, hx, hxf⟩ := EStateM.bind_eq_ok.mp hx
  obtain ⟨b, t₁, hy, hyg⟩ := EStateM.bind_eq_ok.mp hy
  obtain ⟨hab, hst₁⟩ := h s t a b s₁ t₁ hst hx hy
  exact hf a b hab s₁ t₁ c d s' t' hst₁ hxf hyg

end BothReturn
