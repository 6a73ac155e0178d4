/-
Sequences of writes to memory.

Two programs that store the same things in different orders, or one over what the other has
left, are compared byte by byte: a byte some write covers does not depend on the memory before
the writes, and a byte none covers is the byte that was there.
-/
import GpuReplay.Lib.ByteMem

namespace ByteMem

/-- The write at `w.1` of the bytes `w.2` reaches `p`. -/
def Covers (w : Nat × List UInt8) (p : Nat) : Prop := w.1 ≤ p ∧ p < w.1 + w.2.length

/-- The memory after some writes, the first one first. -/
def writes : List (Nat × List UInt8) → ByteMem → ByteMem
  | [], m => m
  | w :: ws, m => writes ws (m.write w.1 w.2)

theorem write_apply_of_not_covers (m : ByteMem) {w : Nat × List UInt8} {p : Nat}
    (h : ¬Covers w p) : m.write w.1 w.2 p = m p := by
  refine write_apply_of_not_mem m ?_
  unfold Covers at h
  omega

/-- A byte written does not depend on the memory before. -/
theorem write_apply_of_covers (m m' : ByteMem) {w : Nat × List UInt8} {p : Nat}
    (h : Covers w p) : m.write w.1 w.2 p = m'.write w.1 w.2 p := by
  obtain ⟨hle, hlt⟩ := h
  obtain ⟨k, rfl⟩ := Nat.exists_eq_add_of_le hle
  have hk : k < w.2.length := by omega
  rw [write_apply_add m w.1 hk, write_apply_add m' w.1 hk]

/-- Writing what is there changes nothing. -/
theorem write_read_self (m : ByteMem) (a n : Nat) : m.write a (m.read a n) = m := by
  funext p
  by_cases h : Covers (a, m.read a n) p
  · obtain ⟨hle, hlt⟩ := h
    obtain ⟨k, rfl⟩ := Nat.exists_eq_add_of_le hle
    have hk : k < (m.read a n).length := by
      dsimp only at hlt
      omega
    rw [write_apply_add m a hk, ← Option.some_inj, ← List.getElem?_eq_getElem,
      getElem?_read m (by rwa [length_read] at hk)]
  · exact write_apply_of_not_covers m h

theorem writes_append (ws vs : List (Nat × List UInt8)) :
    ∀ m : ByteMem, writes (ws ++ vs) m = writes vs (writes ws m) := by
  induction ws with
  | nil => exact fun _ => rfl
  | cons w ws ih => exact fun m => ih (m.write w.1 w.2)

/-- What the writes leave at an address depends on the old memory only there. -/
theorem writes_congr {p : Nat} (ws : List (Nat × List UInt8)) :
    ∀ {m m' : ByteMem}, m p = m' p → writes ws m p = writes ws m' p := by
  induction ws with
  | nil => exact fun h => h
  | cons w ws ih => exact fun h => ih (write_congr h w.1 w.2)

/-- A byte outside all the writes is unchanged. -/
theorem writes_apply_of_not_covers {p : Nat} {ws : List (Nat × List UInt8)} :
    ∀ {m : ByteMem}, (∀ w ∈ ws, ¬Covers w p) → writes ws m p = m p := by
  induction ws with
  | nil => exact fun _ => rfl
  | cons w ws ih =>
      intro m h
      rw [writes, ih fun v hv => h v (List.mem_cons_of_mem _ hv)]
      exact write_apply_of_not_covers m (h w List.mem_cons_self)

/-- **A byte that some write covers** does not depend on the memory before the writes. -/
theorem writes_apply_of_covers {p : Nat} {ws : List (Nat × List UInt8)} :
    ∀ {m m' : ByteMem}, (∃ w ∈ ws, Covers w p) → writes ws m p = writes ws m' p := by
  induction ws with
  | nil =>
      intro m m' h
      obtain ⟨w, hw, -⟩ := h
      exact absurd hw List.not_mem_nil
  | cons w ws ih =>
      intro m m' h
      by_cases hw : Covers w p
      · exact writes_congr ws (write_apply_of_covers m m' hw)
      · obtain ⟨v, hv, hcovers⟩ := h
        rcases List.mem_cons.mp hv with rfl | hv
        · exact absurd hcovers hw
        · exact ih ⟨v, hv, hcovers⟩

/-- Where every write stores the same byte, that byte is left. -/
theorem writes_apply_of_forall {p : Nat} {b : UInt8} {ws : List (Nat × List UInt8)} :
    ∀ {m : ByteMem}, (∀ w ∈ ws, ∀ c ∈ w.2, c = b) → (∃ w ∈ ws, Covers w p) → writes ws m p = b := by
  intro m hall hcovers
  -- over the memory that holds the byte everywhere, no write changes anything
  have hconst : ∀ {vs : List (Nat × List UInt8)}, (∀ w ∈ vs, ∀ c ∈ w.2, c = b) →
      writes vs (fun _ => b) p = b := by
    intro vs
    induction vs with
    | nil => exact fun _ => rfl
    | cons w vs ih =>
        intro h
        rw [writes, @writes_congr p vs _ (fun _ => b) ?_]
        · exact ih fun v hv => h v (List.mem_cons_of_mem _ hv)
        · unfold write
          by_cases hle : w.1 ≤ p
          · rw [if_pos hle]
            cases hget : w.2[p - w.1]? with
            | none => rfl
            | some c =>
                obtain ⟨hlt, rfl⟩ := List.getElem?_eq_some_iff.mp hget
                exact h w List.mem_cons_self _ (List.getElem_mem hlt)
          · rw [if_neg hle]
  rw [@writes_apply_of_covers p ws m (fun _ => b) hcovers]
  exact hconst hall

/-- A word after the writes, when they are aligned words themselves: the last one written
there, or the one that was there. -/
theorem read64_writes_words {a : Nat} (ha : a % 8 = 0) {ws : List (Nat × Nat)} :
    ∀ {m : ByteMem}, (∀ w ∈ ws, w.1 % 8 = 0 ∧ w.2 < 2 ^ 64) →
      (∃ v, (a, v) ∈ ws ∧ read64 (writes (ws.map fun w => (w.1, Bytes.le 8 w.2)) m) a = v) ∨
      ((∀ w ∈ ws, w.1 ≠ a) ∧
        read64 (writes (ws.map fun w => (w.1, Bytes.le 8 w.2)) m) a = read64 m a) := by
  induction ws with
  | nil => exact fun _ => Or.inr ⟨fun w hw => absurd hw List.not_mem_nil, rfl⟩
  | cons w ws ih =>
      intro m h
      obtain ⟨hw, hlt⟩ := h w List.mem_cons_self
      rw [List.map_cons, writes]
      rcases @ih (m.write w.1 (Bytes.le 8 w.2)) fun v hv => h v (List.mem_cons_of_mem _ hv) with
        ⟨v, hv, hread⟩ | ⟨hnone, hread⟩
      · exact Or.inl ⟨v, List.mem_cons_of_mem _ hv, hread⟩
      · by_cases hwa : w.1 = a
        · refine Or.inl ⟨w.2, ?_, ?_⟩
          · rw [← hwa]
            exact List.mem_cons_self
          · rw [hread, ← hwa]
            exact read64_write64_self m w.1 hlt
        · refine Or.inr ⟨?_, ?_⟩
          · intro v hv
            rcases List.mem_cons.mp hv with rfl | hv
            · exact hwa
            · exact hnone v hv
          · rw [hread]
            exact read64_write64_of_disjoint m (by omega)

/-- **Writes that do not meet** all stay. -/
theorem read_writes_of_pairwise {ws : List (Nat × List UInt8)} :
    ∀ {m : ByteMem},
      ws.Pairwise (fun v w => v.1 + v.2.length ≤ w.1 ∨ w.1 + w.2.length ≤ v.1) →
      ∀ w ∈ ws, read (writes ws m) w.1 w.2.length = w.2 := by
  induction ws with
  | nil => exact fun _ w hw => absurd hw List.not_mem_nil
  | cons v ws ih =>
      intro m hpairs w hw
      obtain ⟨hfirst, hrest⟩ := List.pairwise_cons.mp hpairs
      rcases List.mem_cons.mp hw with rfl | hw
      · have hkept : read (writes ws (m.write w.1 w.2)) w.1 w.2.length
            = read (m.write w.1 w.2) w.1 w.2.length := by
          refine read_congr fun k hk => writes_apply_of_not_covers fun u hu hcovers => ?_
          obtain ⟨hle, hlt⟩ := hcovers
          have := hfirst u hu
          omega
        exact hkept.trans (read_write_self m w.1 w.2)
      · exact ih hrest w hw

end ByteMem
