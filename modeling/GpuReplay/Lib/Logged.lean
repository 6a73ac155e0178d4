/-
Computations that can fail, with a log of the calls they make.

A computation in `Except ε` shows what it returns, not what it asked for on the way.
`Logged κ ε` keeps both: the calls, in order and up to a failure, and the result.  The
result of a bind is the bind of the results, so a program written twice, with and without
the log, does the same thing; and what holds of every call of a bind holds of every call of
its parts.
-/
import GpuReplay.Lib.Except

/-- The calls a computation makes, and how it ends. -/
structure Logged (κ ε α : Type) where
  calls : List κ
  result : Except ε α

namespace Logged

variable {κ ε α β : Type}

/-- A computation that makes no calls. -/
def quiet (x : Except ε α) : Logged κ ε α := ⟨[], x⟩

/-- The call `c`, which comes to `x`. -/
def call (c : κ) (x : Except ε α) : Logged κ ε α := ⟨[c], x⟩

/-- What follows makes its calls only when there is a value to go on with. -/
def callsAfter (x : Except ε α) (f : α → Logged κ ε β) : List κ :=
  match x with
  | .ok a => (f a).calls
  | .error _ => []

instance : Monad (Logged κ ε) where
  pure a := ⟨[], .ok a⟩
  bind x f := ⟨x.calls ++ callsAfter x.result f, x.result >>= fun a => (f a).result⟩

instance : MonadLift (Except ε) (Logged κ ε) := ⟨quiet⟩

/-! ### Without the log -/

@[simp] theorem result_quiet (x : Except ε α) : (quiet x : Logged κ ε α).result = x := rfl

@[simp] theorem result_call (c : κ) (x : Except ε α) : (call c x).result = x := rfl

@[simp] theorem result_pure (a : α) : (pure a : Logged κ ε α).result = .ok a := rfl

@[simp] theorem result_bind (x : Logged κ ε α) (f : α → Logged κ ε β) :
    (x >>= f).result = x.result >>= fun a => (f a).result := rfl

@[simp] theorem result_ite (c : Prop) [Decidable c] (x y : Logged κ ε α) :
    (if c then x else y).result = if c then x.result else y.result := apply_ite _ _ _ _

/-! ### What holds of every call -/

/-- Every call satisfies `P`. -/
def All (P : κ → Prop) (x : Logged κ ε α) : Prop := ∀ c ∈ x.calls, P c

variable {P : κ → Prop} {x : Logged κ ε α} {f : α → Logged κ ε β}

@[simp] theorem all_quiet (x : Except ε α) : All P (quiet x : Logged κ ε α) :=
  fun _ hc => absurd hc List.not_mem_nil

@[simp] theorem all_pure (a : α) : All P (pure a : Logged κ ε α) :=
  fun _ hc => absurd hc List.not_mem_nil

@[simp] theorem all_call (c : κ) (x : Except ε α) : All P (call c x) ↔ P c :=
  ⟨fun h => h c List.mem_cons_self, fun h d hd => by rwa [List.mem_singleton.mp hd]⟩

/-- **Sequencing**: the calls of the first part, and of the second where the first returned. -/
theorem all_bind_iff :
    All P (x >>= f) ↔ All P x ∧ ∀ a, x.result = .ok a → All P (f a) := by
  have hcalls : (x >>= f).calls = x.calls ++ callsAfter x.result f := rfl
  unfold All
  rw [hcalls]
  cases hx : x.result with
  | error e =>
      have hnone : callsAfter (.error e : Except ε α) f = [] := rfl
      rw [hnone, List.append_nil]
      exact ⟨fun h => ⟨h, fun a ha => absurd ha.symm (Except.ok_ne_error a e)⟩, fun h => h.1⟩
  | ok a =>
      have hnext : callsAfter (.ok a : Except ε α) f = (f a).calls := rfl
      rw [hnext, List.forall_mem_append]
      constructor
      · intro h
        refine ⟨h.1, fun b hb => ?_⟩
        obtain rfl := Except.ok.inj hb
        exact h.2
      · exact fun h => ⟨h.1, h.2 a rfl⟩

theorem All.bind (hx : All P x) (hf : ∀ a, x.result = .ok a → All P (f a)) : All P (x >>= f) :=
  all_bind_iff.mpr ⟨hx, hf⟩

/-- After a part that makes no calls. -/
theorem all_quiet_bind {x : Except ε α} :
    All P (quiet x >>= f) ↔ ∀ a, x = .ok a → All P (f a) :=
  all_bind_iff.trans ⟨fun h => h.2, fun h => ⟨all_quiet x, h⟩⟩

end Logged
