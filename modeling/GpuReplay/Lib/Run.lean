/-
Runs of a transition function.

`step s e` is the state after the step `e`, or nothing where the step cannot be taken.
`Reached` is what runs from an initial state come to, all of whose steps are as `ok` wants
them; with `ok` always true it is reachability.  An invariant is shown once, for a step.
`AllStates` and `AllSteps` are about one run: what holds in every state of it, and of every step.
-/
import Mathlib.Algebra.Order.Ring.Nat
import Mathlib.Tactic.Common

variable {σ ε : Type}

/-- The states of runs whose steps all meet `ok`. -/
inductive Reached (step : σ → ε → Option σ) (init : σ → Prop) (ok : σ → ε → Prop) : σ → Prop
  | start {s : σ} (h : init s) : Reached step init ok s
  | next {s s' : σ} {e : ε} (h : Reached step init ok s) (hok : ok s e)
      (hstep : step s e = some s') : Reached step init ok s'

namespace Reached

variable {step : σ → ε → Option σ} {init : σ → Prop} {ok : σ → ε → Prop}

/-- **What a step keeps, a run keeps.** -/
theorem invariant {P : σ → Prop} (hinit : ∀ s, init s → P s)
    (hstep : ∀ s e s', P s → ok s e → step s e = some s' → P s') {s : σ}
    (h : Reached step init ok s) : P s := by
  induction h with
  | start h => exact hinit _ h
  | next _ hok hs ih => exact hstep _ _ _ ih hok hs

/-- A list of steps, taken one after the other. -/
theorem foldlM {steps : List ε} :
    ∀ {s s' : σ}, Reached step init ok s → steps.foldlM step s = some s' →
      (∀ s e, e ∈ steps → ok s e) → Reached step init ok s' := by
  induction steps with
  | nil =>
      intro s s' h hrun _
      exact Option.some.inj hrun ▸ h
  | cons e steps ih =>
      intro s s' h hrun hok
      rw [List.foldlM_cons] at hrun
      obtain ⟨mid, hmid, hrest⟩ := Option.bind_eq_some_iff.mp hrun
      have hnext := Reached.next h (hok s e List.mem_cons_self) hmid
      exact ih hnext hrest fun s e' he' => hok s e' (List.mem_cons_of_mem e he')

end Reached

/-! ### One run -/

section Runs

variable (step : σ → ε → Option σ)

/-- `P` holds in every state of the run. -/
def AllStates (P : σ → Prop) : σ → List ε → Prop
  | s, [] => P s
  | s, e :: es => P s ∧ ∀ s', step s e = some s' → AllStates P s' es

/-- `ok` holds of every step of the run, and of the state before it. -/
def AllSteps (ok : σ → ε → Prop) : σ → List ε → Prop
  | _, [] => True
  | s, e :: es => ok s e ∧ ∀ s', step s e = some s' → AllSteps ok s' es

variable {step} {P : σ → Prop} {ok : σ → ε → Prop}

/-- **What a step keeps exactly under a condition**, a run keeps exactly where all its steps meet
it. -/
theorem allStates_iff {Q : σ → Prop} (hQ : ∀ s e s', Q s → step s e = some s' → Q s')
    (hstep : ∀ s e s', Q s → P s → step s e = some s' → (P s' ↔ ok s e)) :
    ∀ {es : List ε} {s : σ}, Q s → P s → (es.foldlM step s).isSome →
      (AllStates step P s es ↔ AllSteps step ok s es) := by
  intro es
  induction es with
  | nil => exact fun _ hP _ => iff_of_true hP trivial
  | cons e es ih =>
      intro s hinv hP hrun
      rw [List.foldlM_cons] at hrun
      cases hmid : step s e with
      | none => simp [hmid] at hrun
      | some mid =>
          have hrest : (es.foldlM step mid).isSome := by simpa [hmid] using hrun
          have hstate := hstep s e mid hinv hP hmid
          simp only [AllStates, AllSteps, hmid, Option.some.injEq, forall_eq', hP, true_and]
          constructor
          · intro hall
            have hPmid : P mid := by
              cases es with
              | nil => exact hall
              | cons e' es => exact hall.1
            exact ⟨hstate.mp hPmid, (ih (hQ s e mid hinv hmid) hPmid hrest).mp hall⟩
          · rintro ⟨hok, hall⟩
            exact (ih (hQ s e mid hinv hmid) (hstate.mpr hok) hrest).mpr hall

/-- **What the steps of a run keep, the run keeps.** -/
theorem AllSteps.invariant (hstep : ∀ s e s', P s → ok s e → step s e = some s' → P s')
    {es : List ε} : ∀ {s s' : σ}, AllSteps step ok s es → es.foldlM step s = some s' → P s → P s' := by
  induction es with
  | nil =>
      intro s s' _ hrun hP
      exact Option.some.inj hrun ▸ hP
  | cons e es ih =>
      intro s s' hall hrun hP
      rw [List.foldlM_cons] at hrun
      obtain ⟨mid, hmid, hrest⟩ := Option.bind_eq_some_iff.mp hrun
      exact ih (hall.2 mid hmid) hrest (hstep s e mid hP hall.1 hmid)

end Runs

/-! ### Two runs -/

/-- **A condition on an abstract run**: where the steps of one system follow those of another, and
their conditions agree, the runs agree in all their steps being good.  Of the first system all
steps but the last are known to be possible; of the second all are. -/
theorem allSteps_iff_of_follows {τ : Type} {step : σ → ε → Option σ} {ok : σ → ε → Prop}
    {next : τ → ε → τ} {ok' : τ → ε → Prop} {R : σ → τ → Prop}
    (hok : ∀ s t e, R s t → (ok s e ↔ ok' t e))
    (hstep : ∀ s t e s', R s t → ok s e → step s e = some s' → R s' (next t e))
    {es : List ε} {last : ε} :
    ∀ {s : σ} {t : τ}, R s t → (es.foldlM step s).isSome →
      (AllSteps step ok s (es ++ [last]) ↔
        AllSteps (fun t e => some (next t e)) ok' t (es ++ [last])) := by
  induction es with
  | nil =>
      intro s t hR _
      simp only [List.nil_append, AllSteps, implies_true, and_true]
      exact hok s t last hR
  | cons e es ih =>
      intro s t hR hrun
      rw [List.foldlM_cons] at hrun
      obtain ⟨mid, hmid⟩ : ∃ mid, step s e = some mid := by
        cases hmid : step s e with
        | none => simp [hmid] at hrun
        | some mid => exact ⟨mid, rfl⟩
      have hrest : (es.foldlM step mid).isSome := by simpa [hmid] using hrun
      simp only [List.cons_append, AllSteps, hmid, Option.some.injEq, forall_eq']
      rw [hok s t e hR]
      exact and_congr_right fun h => ih (hstep s t e mid hR ((hok s t e hR).mpr h) hmid) hrest
