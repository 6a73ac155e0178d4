/-
Reading a buffer record by record.

A writer has put records one after another into a buffer, each `size` bytes long, and a
reader walks over them with a cursor: what it makes of the bytes at the cursor says
both what it reports and where the cursor goes next.  Nothing in the buffer marks
where a record ends, so one wrong step puts every later one in the wrong place.

`Follows` is what a reader that keeps step reports: one line for each record, in order,
with the cursor at each record's first byte before it and at the next record's after it.
`scan_follows_iff` says that the reader keeps step exactly when it gets each single
record right, at the place where the writer put it; `along_iff` then turns a condition
on places into one on the records.
-/
import Mathlib.Algebra.Order.Ring.Nat
import Mathlib.Tactic.Common

/-- A reader: what it reports at a position, and the position it goes on from. -/
structure Cursor (β : Type*) where
  step : Nat → Option (β × Nat)
  /-- The reader never stays where it is, so a scan ends. -/
  advances : ∀ {i l j}, step i = some (l, j) → i < j

namespace Cursor

variable {α β : Type*}

/-- Reads from `i` until the cursor is at `stop` or past it. -/
def scan (c : Cursor β) (stop i : Nat) : Option (List (β × Nat)) :=
  if i < stop then
    match h : c.step i with
    | none => none
    | some (l, j) =>
        have := c.advances h
        (scan c stop j).map ((l, j) :: ·)
  else some []
termination_by stop - i

theorem scan_of_ge (c : Cursor β) {stop i : Nat} (h : stop ≤ i) : c.scan stop i = some [] := by
  rw [scan, if_neg (by omega)]

theorem scan_none (c : Cursor β) {stop i : Nat} (h : i < stop) (hs : c.step i = none) :
    c.scan stop i = none := by
  rw [scan, if_pos h]
  split
  · rfl
  · rename_i l j hsome
    rw [hs] at hsome
    cases hsome

theorem scan_some (c : Cursor β) {stop i j : Nat} {l : β} (h : i < stop)
    (hs : c.step i = some (l, j)) : c.scan stop i = (c.scan stop j).map ((l, j) :: ·) := by
  rw [scan, if_pos h]
  split
  · rename_i hnone
    rw [hs] at hnone
    cases hnone
  · rename_i l' j' hsome
    rw [hs] at hsome
    obtain ⟨rfl, rfl⟩ := Prod.mk.inj (Option.some.inj hsome)
    rfl

/-! ### Records one after another -/

/-- The bytes a list of records takes. -/
def total (size : α → Nat) (rs : List α) : Nat := (rs.map size).sum

@[simp] theorem total_nil (size : α → Nat) : total size [] = 0 := rfl

@[simp] theorem total_cons (size : α → Nat) (r : α) (rs : List α) :
    total size (r :: rs) = size r + total size rs := List.sum_cons

@[simp] theorem total_append (size : α → Nat) (rs qs : List α) :
    total size (rs ++ qs) = total size rs + total size qs := by
  rw [total, List.map_append, List.sum_append]
  rfl

/-- Every record, at the position it has when the first one is at `i`, has the property. -/
def Along (size : α → Nat) (P : Nat → α → Prop) : Nat → List α → Prop
  | _, [] => True
  | i, r :: rs => P i r ∧ Along size P (i + size r) rs

/-- A property that, where `Q` holds, does not depend on the position. -/
theorem along_iff {size : α → Nat} {P Q : Nat → α → Prop} {G : α → Prop}
    (h : ∀ i r, Q i r → (P i r ↔ G r)) {rs : List α} :
    ∀ {i : Nat}, Along size Q i rs → (Along size P i rs ↔ ∀ r ∈ rs, G r) := by
  induction rs with
  | nil =>
      intro i _
      exact ⟨fun _ r hr => absurd hr List.not_mem_nil, fun _ => trivial⟩
  | cons r rs ih =>
      intro i hq
      rw [List.forall_mem_cons]
      exact and_congr (h i r hq.1) (ih hq.2)

/-! ### Readers that keep step -/

/-- One line for each record, with the cursor at the end of the record after it. -/
def Follows (size : α → Nat) (R : α → β → Prop) : Nat → List α → List (β × Nat) → Prop
  | _, [], [] => True
  | i, r :: rs, (l, j) :: ls => R r l ∧ j = i + size r ∧ Follows size R j rs ls
  | _, _, _ => False

/-- The reader gets the record at `i` right, and steps over just that record. -/
def Reads (c : Cursor β) (size : α → Nat) (R : α → β → Prop) (i : Nat) (r : α) : Prop :=
  ∃ l, c.step i = some (l, i + size r) ∧ R r l

/-- **A reader keeps step with the writer exactly when it gets every record right.** -/
theorem scan_follows_iff (c : Cursor β) {size : α → Nat} (hsize : ∀ r, 0 < size r)
    (R : α → β → Prop) {rs : List α} : ∀ {i : Nat},
      (∃ ls, c.scan (i + total size rs) i = some ls ∧ Follows size R i rs ls)
        ↔ Along size (c.Reads size R) i rs := by
  induction rs with
  | nil =>
      intro i
      exact ⟨fun _ => trivial, fun _ => ⟨[], c.scan_of_ge (Nat.le_refl _), trivial⟩⟩
  | cons r rs ih =>
      intro i
      have hr := hsize r
      have hlt : i < i + total size (r :: rs) := by
        rw [total_cons]
        omega
      have hstop : i + total size (r :: rs) = i + size r + total size rs := by
        rw [total_cons, Nat.add_assoc]
      constructor
      · rintro ⟨ls, hscan, hfollows⟩
        cases hs : c.step i with
        | none =>
            rw [c.scan_none hlt hs] at hscan
            cases hscan
        | some lj =>
            obtain ⟨l, j⟩ := lj
            rw [c.scan_some hlt hs] at hscan
            obtain ⟨tail, htail, rfl⟩ := Option.map_eq_some_iff.mp hscan
            obtain ⟨hR, rfl, hrest⟩ := hfollows
            rw [hstop] at htail
            exact ⟨⟨l, hs, hR⟩, ih.mp ⟨tail, htail, hrest⟩⟩
      · rintro ⟨⟨l, hs, hR⟩, hrest⟩
        obtain ⟨ls, htail, hfollows⟩ := ih.mpr hrest
        refine ⟨(l, i + size r) :: ls, ?_, hR, rfl, hfollows⟩
        rw [c.scan_some hlt hs, hstop, htail]
        rfl

end Cursor
