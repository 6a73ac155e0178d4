/-
A memory that decides itself what may be written to it.

`reach m` are the cells that an agent can write to while the memory is `m`, as a device can
write where the tables it finds in memory allow it.  Some other agent writes to cells of its
own.  If `reach` depends on cells that neither of them can write to, it never changes, and so
the two stay where they are for ever: that is `Closed.run`.
-/
import Mathlib.Algebra.Order.Ring.Nat
import Mathlib.Data.Set.Disjoint
import Mathlib.Logic.Relation

namespace Confined

variable {ι β : Type*}

/-- Cells outside `s` are what they were. -/
def ChangesOnly (s : Set ι) (m m' : ι → β) : Prop := ∀ i, i ∉ s → m' i = m i

theorem ChangesOnly.refl (s : Set ι) (m : ι → β) : ChangesOnly s m m := fun _ _ => rfl

theorem ChangesOnly.trans {s : Set ι} {m m' m'' : ι → β} (h : ChangesOnly s m m')
    (h' : ChangesOnly s m' m'') : ChangesOnly s m m'' :=
  fun i hi => (h' i hi).trans (h i hi)

theorem ChangesOnly.mono {s t : Set ι} {m m' : ι → β} (h : ChangesOnly s m m') (hst : s ⊆ t) :
    ChangesOnly t m m' :=
  fun i hi => h i fun his => hi (hst his)

/-- A write by the agent that the memory keeps in bounds, or by the one with cells of its
own. -/
def Step (reach : (ι → β) → Set ι) (own : Set ι) (m m' : ι → β) : Prop :=
  ChangesOnly (reach m ∪ own) m m'

/-- At `m`, what is within reach is decided by the cells `tables`, and nobody writes to
them. -/
structure Closed (reach : (ι → β) → Set ι) (own tables : Set ι) (m : ι → β) : Prop where
  decided : ∀ m', (∀ i ∈ tables, m' i = m i) → reach m' = reach m
  reach : ∀ i ∈ tables, i ∉ reach m
  own : ∀ i ∈ tables, i ∉ own

variable {reach : (ι → β) → Set ι} {own tables : Set ι} {m m' : ι → β}

theorem Closed.same (h : Closed reach own tables m) (hm : ChangesOnly (reach m ∪ own) m m') :
    ∀ i ∈ tables, m' i = m i :=
  fun i hi => hm i fun hin => hin.elim (h.reach i hi) (h.own i hi)

/-- **After any number of writes** only these cells have changed. -/
theorem Closed.run (h : Closed reach own tables m)
    (hrun : Relation.ReflTransGen (Step reach own) m m') : ChangesOnly (reach m ∪ own) m m' := by
  induction hrun with
  | refl => exact ChangesOnly.refl _ m
  | tail _ hstep ih =>
      refine ih.trans ?_
      rw [← h.decided _ (h.same ih)]
      exact hstep

end Confined
