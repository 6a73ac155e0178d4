/-
A ring buffer with a count that overflows.

What is added goes to the slot `count % size`.  The count says two things: where the next item
goes, and, as long as it is below `size`, how many there are.  Where it overflows it starts again
at `size`: if `size` divides what it overflows at, that is the same slot, and the ring is full.

The slots need not hold the items themselves: `Holds R` is about slots whose contents are `R` to
their items.
-/
import Mathlib.Algebra.Order.Ring.Nat
import Mathlib.Tactic.Common

namespace RingBuffer

variable {α : Type*} {limit size count n : Nat}

/-- The count after one more item. -/
def nextCount (limit size count : Nat) : Nat :=
  if (count + 1) % limit = 0 then size else (count + 1) % limit

/-- How many items the ring holds. -/
def kept (size count : Nat) : Nat := if count < size then count else size

/-- The count after `n` items. -/
structure Counts (limit size count n : Nat) : Prop where
  lt : count < limit
  le : count ≤ n
  place : count % size = n % size
  filling : count < size → count = n

theorem counts_zero (hlimit : 0 < limit) : Counts limit size 0 0 :=
  ⟨hlimit, Nat.le_refl 0, rfl, fun _ => rfl⟩

/-- The count does not overflow, or the size divides what it overflows at. -/
theorem Counts.next (h : Counts limit size count n)
    (hroom : n + 1 < limit ∨ (size ∣ limit ∧ size < limit)) :
    Counts limit size (nextCount limit size count) (n + 1) := by
  have hlt := h.lt
  have hle := h.le
  have hsucc : (count + 1) % size = (n + 1) % size := by
    rw [Nat.add_mod, h.place, ← Nat.add_mod]
  unfold nextCount
  by_cases hwrap : count + 1 < limit
  · rw [Nat.mod_eq_of_lt hwrap, if_neg (Nat.succ_ne_zero _)]
    refine ⟨hwrap, Nat.succ_le_succ hle, hsucc, fun hsmall => ?_⟩
    rw [h.filling (by omega)]
  · have heq : count + 1 = limit := by omega
    obtain ⟨hdvd, hsize⟩ : size ∣ limit ∧ size < limit := hroom.resolve_left (by omega)
    rw [heq, Nat.mod_self, if_pos rfl]
    refine ⟨hsize, by omega, ?_, fun hsmall => absurd hsmall (Nat.lt_irrefl _)⟩
    rw [← hsucc, heq, Nat.mod_self, Nat.mod_eq_zero_of_dvd hdvd]

theorem Counts.kept_eq (h : Counts limit size count n) : kept size count = min n size := by
  have hle := h.le
  unfold kept
  split
  next hsmall =>
    have := h.filling hsmall
    omega
  next => omega

theorem kept_le (size count : Nat) : kept size count ≤ count := by
  unfold kept
  split <;> omega

/-- The slot of an item that is kept. -/
theorem Counts.slot_eq (h : Counts limit size count n) (i : Nat) :
    (count - kept size count + i) % size = (n - kept size count + i) % size := by
  by_cases hsmall : count < size
  · rw [h.filling hsmall]
  · have hkept : kept size count = size := if_neg hsmall
    have hle := h.le
    rw [hkept, ← Nat.add_mod_right (count - size + i), ← Nat.add_mod_right (n - size + i),
      show count - size + i + size = count + i by omega,
      show n - size + i + size = n + i by omega, Nat.add_mod, h.place, ← Nat.add_mod]

section Slots

variable {β : Type*} {R : β → α → Prop} {buf buf' : Nat → β} {items : List α}

/-- The ring holds the last of `items`, as many as there is room for: what is in a slot is `R` to
the item. -/
def Holds (R : β → α → Prop) (size : Nat) (buf : Nat → β) (items : List α) : Prop :=
  ∀ i a, items[i]? = some a → items.length ≤ i + size → R (buf (i % size)) a

theorem holds_nil (buf : Nat → β) : Holds R size buf [] :=
  fun _ a h => absurd h.symm (Option.some_ne_none a)

/-- An item is written behind others, of which those are held that do not make room for it. -/
theorem holds_write {a : α}
    (hold : ∀ i b, items[i]? = some b → items.length + 1 ≤ i + size → R (buf (i % size)) b)
    (hkeep : ∀ j, j ≠ items.length % size → ∀ b, R (buf j) b → R (buf' j) b)
    (hnew : R (buf' (items.length % size)) a) : Holds R size buf' (items ++ [a]) := by
  intro i b hb hlast
  have hlength : (items ++ [a]).length = items.length + 1 := List.length_append
  rw [hlength] at hlast
  by_cases hi : i < items.length
  · -- an older item that is still in the ring is in another slot
    have hne : i % size ≠ items.length % size := by
      intro heq
      have hzero := Nat.sub_mod_eq_zero_of_mod_eq heq.symm
      rw [Nat.mod_eq_of_lt (by omega)] at hzero
      omega
    rw [List.getElem?_append_left hi] at hb
    exact hkeep _ hne _ (hold i b hb hlast)
  · have hlen := (List.getElem?_eq_some_iff.mp hb).1
    have heq : i = items.length := by
      rw [hlength] at hlen
      omega
    rw [heq, List.getElem?_append_right (Nat.le_refl _), Nat.sub_self] at hb
    rw [heq, ← Option.some.inj hb]
    exact hnew

/-- One more item. -/
theorem Holds.add (h : Holds R size buf items) {a : α}
    (hkeep : ∀ j, j ≠ items.length % size → ∀ b, R (buf j) b → R (buf' j) b)
    (hnew : R (buf' (items.length % size)) a) : Holds R size buf' (items ++ [a]) :=
  holds_write (fun i b hb hlast => h i b hb (by omega)) hkeep hnew

/-- Another item in place of the last one. -/
theorem Holds.replace {b : α} (h : Holds R size buf (items ++ [b])) {a : α}
    (hkeep : ∀ j, j ≠ items.length % size → ∀ b, R (buf j) b → R (buf' j) b)
    (hnew : R (buf' (items.length % size)) a) : Holds R size buf' (items ++ [a]) := by
  refine holds_write (fun i c hc hlast => ?_) hkeep hnew
  refine h i c ?_ (by rwa [List.length_append])
  rw [List.getElem?_append_left (List.getElem?_eq_some_iff.mp hc).1]
  exact hc

/-- The last item is in the slot before the next one. -/
theorem Holds.last {a : α} (h : Holds R size buf (items ++ [a])) (hsize : 0 < size) :
    R (buf (items.length % size)) a := by
  refine h items.length a List.getElem?_concat_length ?_
  rw [List.length_append, List.length_singleton]
  omega

/-- **What is read from the slots**, from the oldest on, is the items added last. -/
theorem Holds.read {buf : Nat → α} (h : Holds Eq size buf items)
    (hcount : Counts limit size count items.length) :
    (List.range (kept size count)).map (fun i => buf ((count - kept size count + i) % size)) =
      items.drop (items.length - kept size count) := by
  have hkept := hcount.kept_eq
  refine List.ext_getElem ?_ fun i h₁ h₂ => ?_
  · rw [List.length_map, List.length_range, List.length_drop]
    omega
  · rw [List.length_map, List.length_range] at h₁
    rw [List.getElem_map, List.getElem_range, List.getElem_drop, hcount.slot_eq]
    exact h _ _ (List.getElem?_eq_getElem (by omega)) (by omega)

end Slots

end RingBuffer
