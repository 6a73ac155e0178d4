/-
Circular doubly linked lists with their nodes in the elements.

`Links` is the memory of all nodes, `listAdd` and `listDelInit` are its updates, pointer by
pointer.  `IsList k head xs` says that from `head` the nodes `xs` are linked in both
directions and back to `head`; a node can be in one list only, and what an operation does
not touch stays as it was (`Frame`).
-/
import Mathlib.Algebra.Order.Ring.Nat
import Mathlib.Logic.Function.Basic
import Mathlib.Tactic.Common

namespace LinkedList

open Function

variable {α : Type}

/-- The two pointers of every node. -/
structure Links (α : Type) where
  next : α → α
  prev : α → α

/-- From `a` through `xs` to `b`. -/
def Seg (k : Links α) : α → List α → α → Prop
  | a, [], b => k.next a = b ∧ k.prev b = a
  | a, x :: xs, b => (k.next a = x ∧ k.prev x = a) ∧ Seg k x xs b

structure IsList (k : Links α) (head : α) (xs : List α) : Prop where
  nodup : (head :: xs).Nodup
  seg : Seg k head xs head

/-- Only nodes of `touched` have changed. -/
def Frame (k k' : Links α) (touched : List α) : Prop :=
  ∀ z, z ∉ touched → k'.next z = k.next z ∧ k'.prev z = k.prev z

variable {k k' : Links α} {head new p : α} {xs ys touched : List α}

theorem Seg.congr : ∀ {xs : List α} {a b : α}, Seg k a xs b →
    (∀ z, z = a ∨ z ∈ xs → k'.next z = k.next z) →
    (∀ z, z ∈ xs ∨ z = b → k'.prev z = k.prev z) → Seg k' a xs b := by
  intro xs
  induction xs with
  | nil =>
      intro a b h hnext hprev
      rw [Seg, hnext a (Or.inl rfl), hprev b (Or.inr rfl)]
      exact h
  | cons x xs ih =>
      intro a b h hnext hprev
      obtain ⟨hx, hrest⟩ := h
      refine ⟨?_, ih hrest ?_ ?_⟩
      · rw [hnext a (Or.inl rfl), hprev x (Or.inl List.mem_cons_self)]
        exact hx
      · rintro z (rfl | hz)
        · exact hnext z (Or.inr List.mem_cons_self)
        · exact hnext z (Or.inr (List.mem_cons_of_mem x hz))
      · rintro z (hz | rfl)
        · exact hprev z (Or.inl (List.mem_cons_of_mem x hz))
        · exact hprev z (Or.inr rfl)

/-! ### Reading a list -/

namespace IsList

theorem next_nil (h : IsList k head []) : k.next head = head := h.seg.1

theorem next_cons (h : IsList k head (p :: xs)) : k.next head = p := h.seg.1.1

theorem prev_first (h : IsList k head (p :: xs)) : k.prev p = head := h.seg.1.2

/-- The first node or, in an empty list, the head. -/
theorem next_mem (h : IsList k head xs) : k.next head ∈ head :: xs := by
  cases xs with
  | nil => simp [h.next_nil]
  | cons x xs => simp [h.next_cons]

/-- What comes behind the first node. -/
theorem next_first_mem (h : IsList k head (p :: xs)) : k.next p ∈ head :: xs := by
  cases xs with
  | nil => simp [h.seg.2.1]
  | cons x xs => simp [h.seg.2.1.1]

/-- A list is the same after updates elsewhere. -/
theorem frame (h : IsList k head xs) (hframe : Frame k k' touched)
    (hdisjoint : ∀ z ∈ head :: xs, z ∉ touched) : IsList k' head xs := by
  refine ⟨h.nodup, h.seg.congr ?_ ?_⟩
  · rintro z (rfl | hz)
    · exact (hframe z (hdisjoint z List.mem_cons_self)).1
    · exact (hframe z (hdisjoint z (List.mem_cons_of_mem head hz))).1
  · rintro z (hz | rfl)
    · exact (hframe z (hdisjoint z (List.mem_cons_of_mem head hz))).2
    · exact (hframe z (hdisjoint z List.mem_cons_self)).2

end IsList

theorem Frame.mono (h : Frame k k' touched) (hsub : touched ⊆ ys) : Frame k k' ys :=
  fun z hz => h z fun hmem => hz (hsub hmem)

/-! ### The operations -/

variable [DecidableEq α]

def initListHead (k : Links α) (e : α) : Links α :=
  { next := update k.next e e, prev := update k.prev e e }

/-- `new` comes behind `head`. -/
def listAdd (k : Links α) (new head : α) : Links α :=
  let next := k.next head
  let k := { k with prev := update k.prev next new }
  let k := { k with next := update k.next new next }
  let k := { k with prev := update k.prev new head }
  { k with next := update k.next head new }

/-- The neighbours are linked to each other, the entry to itself. -/
def listDelInit (k : Links α) (e : α) : Links α :=
  let prev := k.prev e
  let next := k.next e
  let k := { k with prev := update k.prev next prev }
  let k := { k with next := update k.next prev next }
  initListHead k e

theorem isList_initListHead (k : Links α) (head : α) : IsList (initListHead k head) head [] :=
  ⟨by simp, by simp [Seg, initListHead]⟩

theorem frame_initListHead (k : Links α) (e : α) : Frame k (initListHead k e) [e] := by
  intro z hz
  have hne : z ≠ e := by simpa using hz
  simp [initListHead, hne]

theorem next_listAdd (k : Links α) {new head z : α} (hnew : z ≠ new) (hhead : z ≠ head) :
    (listAdd k new head).next z = k.next z := by
  simp [listAdd, hnew, hhead]

theorem prev_listAdd (k : Links α) {new head z : α} (hnew : z ≠ new) (hnext : z ≠ k.next head) :
    (listAdd k new head).prev z = k.prev z := by
  simp [listAdd, hnew, hnext]

theorem next_head_listAdd (k : Links α) (new head : α) : (listAdd k new head).next head = new := by
  simp [listAdd]

theorem frame_listAdd (k : Links α) (new head : α) :
    Frame k (listAdd k new head) [new, head, k.next head] := by
  intro z hz
  simp only [List.mem_cons, List.not_mem_nil, or_false, not_or] at hz
  obtain ⟨hnew, hhead, hnext⟩ := hz
  exact ⟨next_listAdd k hnew hhead, prev_listAdd k hnew hnext⟩

/-- **Adding behind the head.**  The pointer that is overwritten, back from the first node,
need not have been right. -/
theorem IsList.listAdd_of (h : IsList k head xs) (hnew : new ∉ head :: xs)
    (hnext : ∀ z ∈ head :: xs, k'.next z = k.next z)
    (hprev : ∀ z ∈ head :: xs, z ≠ k.next head → k'.prev z = k.prev z) :
    IsList (listAdd k' new head) head (new :: xs) := by
  have hne : new ≠ head := fun heq => hnew (heq ▸ List.mem_cons_self)
  have hnot : new ∉ xs := fun hmem => hnew (List.mem_cons_of_mem head hmem)
  refine ⟨?_, ?_⟩
  · have hnodup := h.nodup
    simp only [List.nodup_cons, List.mem_cons, not_or] at hnodup ⊢
    exact ⟨⟨hne.symm, hnodup.1⟩, hnot, hnodup.2⟩
  · have hhead := hnext head List.mem_cons_self
    cases xs with
    | nil =>
        have hself := h.next_nil
        simp [Seg, listAdd, hhead, hself, hne, hne.symm]
    | cons x xs =>
        have hx := h.next_cons
        have hxne : new ≠ x := fun heq => hnot (heq ▸ List.mem_cons_self)
        have hnodup := h.nodup
        simp only [List.nodup_cons, List.mem_cons, not_or] at hnodup
        obtain ⟨⟨hheadx, hheadxs⟩, hxxs, hrest⟩ := hnodup
        refine ⟨?_, ?_, h.seg.2.congr ?_ ?_⟩
        · simp [listAdd]
        · simp [listAdd, hhead, hx, hne, hxne.symm]
        · rintro z hz
          have hmem : z ∈ head :: x :: xs := List.mem_cons_of_mem head (List.mem_cons.mpr hz)
          have hzhead : z ≠ head := by
            rintro rfl
            exact hz.elim hheadx hheadxs
          have hznew : z ≠ new := fun heq => hnew (heq ▸ hmem)
          simp [listAdd, hzhead, hznew, hnext z hmem]
        · rintro z hz
          have hmem : z ∈ head :: x :: xs := by
            rcases hz with hz | rfl
            · exact List.mem_cons_of_mem head (List.mem_cons_of_mem x hz)
            · exact List.mem_cons_self
          have hzx : z ≠ x := by
            rintro rfl
            exact hz.elim hxxs (fun heq => hheadx heq.symm)
          have hznew : z ≠ new := fun heq => hnew (heq ▸ hmem)
          have hzfirst : z ≠ k.next head := hx ▸ hzx
          simp [listAdd, hznew, hhead, hx, hzx, hprev z hmem hzfirst]

theorem IsList.listAdd (h : IsList k head xs) (hnew : new ∉ head :: xs) :
    IsList (listAdd k new head) head (new :: xs) :=
  h.listAdd_of hnew (fun _ _ => rfl) fun _ _ _ => rfl

theorem IsList.frame_listAdd (h : IsList k head xs) (new : α) :
    Frame k (LinkedList.listAdd k new head) (new :: head :: xs) :=
  (LinkedList.frame_listAdd k new head).mono fun z hz => by
    simp only [List.mem_cons, List.not_mem_nil, or_false] at hz ⊢
    rcases hz with rfl | rfl | rfl
    · exact Or.inl rfl
    · exact Or.inr (Or.inl rfl)
    · exact Or.inr (List.mem_cons.mp h.next_mem)

/-- **Taking the first node out.** -/
theorem IsList.listDelInit (h : IsList k head (p :: xs)) :
    IsList (listDelInit k p) head xs ∧ (listDelInit k p).next p = p ∧
      (listDelInit k p).prev p = p := by
  have hprev := h.prev_first
  have hnodup := h.nodup
  simp only [List.nodup_cons, List.mem_cons, not_or] at hnodup
  obtain ⟨⟨hheadp, hheadxs⟩, hpxs, hrest⟩ := hnodup
  refine ⟨⟨List.nodup_cons.mpr ⟨hheadxs, hrest⟩, ?_⟩, ?_, ?_⟩
  · cases xs with
    | nil =>
        have hnext := h.seg.2.1
        simp [Seg, LinkedList.listDelInit, initListHead, hprev, hnext, hheadp]
    | cons x xs =>
        have hnext := h.seg.2.1.1
        simp only [List.nodup_cons, List.mem_cons, not_or] at hpxs hheadxs hrest
        refine ⟨?_, h.seg.2.2.congr ?_ ?_⟩
        · have hxp : x ≠ p := fun heq => hpxs.1 heq.symm
          simp [LinkedList.listDelInit, initListHead, hprev, hnext, hheadp, hxp]
        · rintro z hz
          have hzhead : z ≠ head := by
            rintro rfl
            exact hz.elim hheadxs.1 hheadxs.2
          have hzp : z ≠ p := by
            rintro rfl
            exact hz.elim hpxs.1 hpxs.2
          simp [LinkedList.listDelInit, initListHead, hprev, hzhead, hzp]
        · rintro z hz
          have hzx : z ≠ x := by
            rintro rfl
            exact hz.elim hrest.1 (fun heq => hheadxs.1 heq.symm)
          have hzp : z ≠ p := by
            rintro rfl
            exact hz.elim hpxs.2 (fun heq => hheadp heq.symm)
          simp [LinkedList.listDelInit, initListHead, hnext, hzx, hzp]
  · simp [LinkedList.listDelInit, initListHead]
  · simp [LinkedList.listDelInit, initListHead]

theorem IsList.frame_listDelInit (h : IsList k head (p :: xs)) :
    Frame k (LinkedList.listDelInit k p) (head :: p :: xs) := by
  intro z hz
  simp only [List.mem_cons, not_or] at hz
  obtain ⟨hzhead, hzp, hzxs⟩ := hz
  have hznext : z ≠ k.next p := by
    rintro rfl
    rcases List.mem_cons.mp h.next_first_mem with hmem | hmem
    · exact hzhead hmem
    · exact hzxs hmem
  simp [LinkedList.listDelInit, initListHead, h.prev_first, hzhead, hzp, hznext]

/-- A node that is linked to itself stays so. -/
theorem listDelInit_self (hnext : k.next p = p) (hprev : k.prev p = p) :
    LinkedList.listDelInit k p = k := by
  have hnext' : update k.next p p = k.next := by rw [← hnext]; simp [hnext]
  have hprev' : update k.prev p p = k.prev := by rw [← hprev]; simp [hprev]
  simp only [LinkedList.listDelInit, initListHead, hnext, hprev, hnext', hprev']

end LinkedList
