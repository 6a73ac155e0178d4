/-
Histories: lists of events in the order they happened.

A safety property of a program that leaves a history often says of each event that it
was right when it happened, which depends on what had happened by then.  `EachAfter D`
says this, with `D before e` for one event; it is proved along the run, since events are
only added at the end.  `Latest p` is the last event of a kind, which a program's variable holds
when it is overwritten by each event of that kind and by no other.
-/
import Mathlib.Algebra.Order.Ring.Nat
import Mathlib.Data.List.Induction
import Mathlib.Tactic.Common

variable {ε : Type} {D : List ε → ε → Prop}

/-- Each event of the history is as `D` wants it after those before it. -/
def EachAfter (D : List ε → ε → Prop) (history : List ε) : Prop :=
  ∀ before e after, history = before ++ e :: after → D before e

namespace EachAfter

theorem nil : EachAfter D [] := by
  intro before e after h
  exact absurd h.symm (List.append_ne_nil_of_right_ne_nil _ (List.cons_ne_nil e after))

/-- One more event. -/
theorem snoc {history : List ε} {e : ε} (h : EachAfter D history) (he : D history e) :
    EachAfter D (history ++ [e]) := by
  intro before e' after heq
  rcases List.append_eq_append_iff.mp heq with ⟨mid, hbefore, hmid⟩ | ⟨mid, hhistory, hmid⟩
  · cases mid with
    | nil =>
        simp only [List.nil_append, List.cons.injEq] at hmid
        rw [hbefore, List.append_nil, ← hmid.1]
        exact he
    | cons x mid =>
        simp only [List.cons_append, List.cons.injEq] at hmid
        exact absurd hmid.2.symm (List.append_ne_nil_of_right_ne_nil _ (List.cons_ne_nil e' after))
  · cases mid with
    | nil =>
        simp only [List.nil_append, List.cons.injEq] at hmid
        rw [List.append_nil] at hhistory
        rw [← hhistory, hmid.1]
        exact he
    | cons x mid =>
        simp only [List.cons_append, List.cons.injEq] at hmid
        rw [← hmid.1] at hhistory
        exact h before e' mid hhistory

theorem snoc_iff {history : List ε} {e : ε} :
    EachAfter D (history ++ [e]) ↔ EachAfter D history ∧ D history e := by
  refine ⟨fun h => ⟨fun before e' after heq => ?_, h history e [] rfl⟩, fun h => h.1.snoc h.2⟩
  refine h before e' (after ++ [e]) ?_
  rw [heq, List.append_assoc, List.cons_append]

/-- More events, none of which `D` wants anything of. -/
theorem append {history : List ε} (h : EachAfter D history) (seg : List ε)
    (hseg : ∀ e ∈ seg, ∀ before, D before e) : EachAfter D (history ++ seg) := by
  induction seg generalizing history with
  | nil =>
      rw [List.append_nil]
      exact h
  | cons e seg ih =>
      have hone : EachAfter D (history ++ [e]) := h.snoc (hseg e List.mem_cons_self history)
      have hall := ih hone fun e' he' => hseg e' (List.mem_cons_of_mem e he')
      rwa [List.append_assoc] at hall

theorem append_iff {history seg : List ε} (hseg : ∀ e ∈ seg, ∀ before, D before e) :
    EachAfter D (history ++ seg) ↔ EachAfter D history := by
  refine ⟨fun h before e after heq => h before e (after ++ seg) ?_, fun h => h.append seg hseg⟩
  rw [heq, List.append_assoc, List.cons_append]

end EachAfter

/-! ### The latest event of a kind -/

section Latest

variable {p : ε → Prop} {history : List ε} {e e' : ε}

/-- `e` is the last event of the history with `p`. -/
def Latest (p : ε → Prop) (history : List ε) (e : ε) : Prop :=
  ∃ before after, history = before ++ e :: after ∧ p e ∧ ∀ e' ∈ after, ¬p e'

theorem latest_snoc : Latest p (history ++ [e]) e' ↔ p e ∧ e' = e ∨ ¬p e ∧ Latest p history e' := by
  constructor
  · rintro ⟨before, after, heq, hp, hafter⟩
    rcases List.eq_nil_or_concat after with rfl | ⟨mid, x, rfl⟩
    · obtain ⟨-, hlast⟩ := List.append_inj' heq rfl
      obtain rfl : e = e' := List.head_eq_of_cons_eq hlast
      exact .inl ⟨hp, rfl⟩
    · rw [List.concat_eq_append, ← List.cons_append, ← List.append_assoc] at heq
      obtain ⟨hhistory, hlast⟩ := List.append_inj' heq rfl
      obtain rfl : e = x := List.head_eq_of_cons_eq hlast
      rw [List.concat_eq_append] at hafter
      refine .inr ⟨hafter e (List.mem_append_right _ List.mem_cons_self), before, mid, hhistory, hp, ?_⟩
      exact fun y hy => hafter y (List.mem_append_left _ hy)
  · rintro (⟨hp, rfl⟩ | ⟨hne, before, after, rfl, hp, hafter⟩)
    · exact ⟨history, [], rfl, hp, fun _ h => absurd h List.not_mem_nil⟩
    · refine ⟨before, after ++ [e], by rw [List.append_assoc, List.cons_append], hp, fun y hy => ?_⟩
      rcases List.mem_append.mp hy with hy | hy
      · exact hafter y hy
      · rwa [List.mem_singleton.mp hy]

/-- Where there is an event of the kind, there is a last one. -/
theorem exists_latest (h : ∃ e ∈ history, p e) : ∃ e, Latest p history e := by
  induction history using List.reverseRecOn with
  | nil =>
      obtain ⟨e, he, -⟩ := h
      exact absurd he List.not_mem_nil
  | append_singleton history x ih =>
      by_cases hx : p x
      · exact ⟨x, latest_snoc.mpr (.inl ⟨hx, rfl⟩)⟩
      · obtain ⟨e, he, hp⟩ := h
        rcases List.mem_append.mp he with he | he
        · obtain ⟨e', he'⟩ := ih ⟨e, he, hp⟩
          exact ⟨e', latest_snoc.mpr (.inr ⟨hx, he'⟩)⟩
        · exact absurd (List.mem_singleton.mp he ▸ hp) hx

end Latest
