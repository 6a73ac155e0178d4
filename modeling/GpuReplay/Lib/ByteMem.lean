/-
Byte-addressed memory, and one memory seen through an address map.

`ByteMem` is the plainest memory there is: a byte for every address.  `read` and
`write` move byte strings in and out of a contiguous range, and the 64-bit forms
move little-endian words.

The second half is about translation.  A program that addresses memory virtually
reads the bytes `m (tr a)`, `m (tr (a + 1))`, ... and writes through the same map;
`gather` and `scatter` are those two operations.  As long as the map is injective
where it is used, the program cannot tell the translated memory from a flat one:
`view_scatter` says that writing through the map is a plain write in the view.
-/
import Mathlib.Data.Set.Function
import GpuReplay.Lib.Bytes

/-- A byte for every address. -/
abbrev ByteMem := Nat → UInt8

namespace ByteMem

/-! ### Contiguous reads and writes -/

/-- The `n` bytes from `a` on. -/
def read (m : ByteMem) (a n : Nat) : List UInt8 :=
  (List.range n).map fun k => m (a + k)

/-- The memory with `bs` stored from `a` on. -/
def write (m : ByteMem) (a : Nat) (bs : List UInt8) : ByteMem := fun p =>
  if a ≤ p then (bs[p - a]?).getD (m p) else m p

@[simp] theorem length_read (m : ByteMem) (a n : Nat) : (read m a n).length = n := by
  simp [read]

theorem getElem?_read (m : ByteMem) {a n k : Nat} (h : k < n) :
    (read m a n)[k]? = some (m (a + k)) := by
  simp [read, h]

theorem read_add (m : ByteMem) (a n k : Nat) :
    read m a (n + k) = read m a n ++ read m (a + n) k := by
  simp only [read, List.range_add, List.map_append, List.map_map]
  congr 1
  refine List.map_congr_left fun i _ => ?_
  simp only [Function.comp_apply, Nat.add_assoc]

theorem read_congr {m m' : ByteMem} {a n : Nat} (h : ∀ k, k < n → m (a + k) = m' (a + k)) :
    read m a n = read m' a n :=
  List.map_congr_left fun k hk => h k (List.mem_range.mp hk)

@[simp] theorem write_nil (m : ByteMem) (a : Nat) : write m a [] = m := by
  funext p
  simp [write]

/-- A byte of the range written is the byte written. -/
theorem write_apply_add (m : ByteMem) (a : Nat) {bs : List UInt8} {k : Nat} (h : k < bs.length) :
    write m a bs (a + k) = bs[k] := by
  simp [write, h]

/-- A byte outside the range written is unchanged. -/
theorem write_apply_of_not_mem (m : ByteMem) {a p : Nat} {bs : List UInt8}
    (h : p < a ∨ a + bs.length ≤ p) : write m a bs p = m p := by
  unfold write
  split
  · rw [List.getElem?_eq_none (by omega)]
    rfl
  · rfl

/-- What a write leaves at an address depends on the old memory only there. -/
theorem write_congr {m m' : ByteMem} {p : Nat} (h : m p = m' p) (a : Nat) (bs : List UInt8) :
    write m a bs p = write m' a bs p := by
  simp only [write, h]

/-- A string goes in byte by byte. -/
theorem write_cons (m : ByteMem) (a : Nat) (b : UInt8) (bs : List UInt8) :
    write m a (b :: bs) = write (Function.update m a b) (a + 1) bs := by
  funext q
  rcases Nat.lt_trichotomy q a with hlt | heq | hgt
  · rw [write_apply_of_not_mem m (Or.inl hlt), write_apply_of_not_mem _ (Or.inl (by omega)),
      Function.update_of_ne (by omega)]
  · subst heq
    rw [write_apply_of_not_mem (Function.update m q b) (Or.inl (by omega)), Function.update_self]
    simp [write]
  · obtain ⟨j, rfl⟩ := Nat.exists_eq_add_of_lt hgt
    have hj : a + j + 1 - a = j + 1 := by omega
    have hj' : a + j + 1 - (a + 1) = j := by omega
    have hne : a + j + 1 ≠ a := by omega
    have hle : a + 1 ≤ a + j + 1 := by omega
    have hle' : a ≤ a + j + 1 := by omega
    simp only [write, if_pos hle, if_pos hle', hj, hj', List.getElem?_cons_succ,
      Function.update_of_ne hne]

theorem read_write_self (m : ByteMem) (a : Nat) (bs : List UInt8) :
    read (write m a bs) a bs.length = bs := by
  apply List.ext_getElem?
  intro k
  by_cases hk : k < bs.length
  · rw [getElem?_read _ hk, write_apply_add m a hk, List.getElem?_eq_getElem hk]
  · rw [List.getElem?_eq_none (by simp; omega), List.getElem?_eq_none (by omega)]

theorem read_write_of_disjoint (m : ByteMem) {a b n : Nat} {bs : List UInt8}
    (h : b + n ≤ a ∨ a + bs.length ≤ b) : read (write m a bs) b n = read m b n :=
  read_congr fun _ _ => write_apply_of_not_mem m (by omega)

/-- A string that was read, read again in two parts. -/
theorem read_append {m : ByteMem} {a n : Nat} {xs ys : List UInt8} (h : read m a n = xs ++ ys) :
    read m a xs.length = xs ∧ read m (a + xs.length) ys.length = ys := by
  have hlen : n = xs.length + ys.length := by
    rw [← length_read m a n, h, List.length_append]
  rw [hlen, read_add] at h
  exact List.append_inj h (length_read ..)

/-- What lies below a write and what lies at it, read together. -/
theorem read_write_append (m : ByteMem) (a n : Nat) (bs : List UInt8) :
    read (write m (a + n) bs) a (n + bs.length) = read m a n ++ bs := by
  rw [read_add, read_write_self, read_write_of_disjoint m (Or.inl (Nat.le_refl _))]

/-! ### Little-endian 64-bit words -/

/-- The 64-bit word stored at `a`. -/
def read64 (m : ByteMem) (a : Nat) : Nat := Bytes.val (read m a 8)

/-- The memory with the 64-bit word `v` stored at `a`. -/
def write64 (m : ByteMem) (a v : Nat) : ByteMem := write m a (Bytes.le 8 v)

/-- Where memory is all zeros, so is every word. -/
theorem read64_zero (a : Nat) : read64 (fun _ => 0) a = 0 := by
  have hread : read (fun _ => 0) a 8 = List.replicate 8 0 := by
    rw [read, List.map_const', List.length_range]
  rw [read64, hread]
  rfl

theorem read64_lt (m : ByteMem) (a : Nat) : read64 m a < 2 ^ 64 := by
  have h := Bytes.val_lt (read m a 8)
  rw [length_read] at h
  exact h

theorem read64_write64_self (m : ByteMem) (a : Nat) {v : Nat} (h : v < 2 ^ 64) :
    read64 (write64 m a v) a = v := by
  have hread := read_write_self m a (Bytes.le 8 v)
  rw [Bytes.length_le] at hread
  rw [read64, write64, hread, Bytes.val_le h]

theorem read64_write64_of_disjoint (m : ByteMem) {a b v : Nat} (h : b + 8 ≤ a ∨ a + 8 ≤ b) :
    read64 (write64 m a v) b = read64 m b := by
  rw [read64, write64, read_write_of_disjoint m (by rw [Bytes.length_le]; exact h), read64]

theorem read64_congr {m m' : ByteMem} {a : Nat} (h : ∀ k, k < 8 → m (a + k) = m' (a + k)) :
    read64 m a = read64 m' a := by
  rw [read64, read64, read_congr h]

/-! ### Arrays of words -/

/-- A range of memory is the words in it. -/
theorem read_eq_words (m : ByteMem) (a n : Nat) :
    read m a (8 * n) = Bytes.words ((List.range n).map fun i => read64 m (a + 8 * i)) := by
  induction n with
  | zero => rfl
  | succ n ih =>
      have hlast := Bytes.le_val (read m (a + 8 * n) 8)
      rw [length_read] at hlast
      have hword : Bytes.words [read64 m (a + 8 * n)] = read m (a + 8 * n) 8 := by
        rw [Bytes.words_cons, read64, hlast]
        exact List.append_nil _
      rw [Nat.mul_succ, read_add, ih, List.range_succ, List.map_append, Bytes.words_append,
        List.map_singleton, hword]

/-- The memory whose aligned 64-bit words are `f 0`, `f 1`, ... -/
def ofWords (f : Nat → Nat) : ByteMem := fun a => ((Bytes.le 8 (f (a / 8)))[a % 8]?).getD 0

theorem read64_ofWords {f : Nat → Nat} {k : Nat} (h : f k < 2 ^ 64) :
    read64 (ofWords f) (8 * k) = f k := by
  have hread : read (ofWords f) (8 * k) 8 = Bytes.le 8 (f k) := by
    refine List.ext_getElem (by rw [length_read, Bytes.length_le]) fun i hi hi' => ?_
    rw [length_read] at hi
    have hdiv : (8 * k + i) / 8 = k := by omega
    have hmod : (8 * k + i) % 8 = i := by omega
    rw [← Option.some_inj, ← List.getElem?_eq_getElem, getElem?_read _ hi]
    unfold ofWords
    rw [hdiv, hmod, List.getElem?_eq_getElem hi', Option.getD_some]
  rw [read64, hread, Bytes.val_le h]

/-! ### Memory seen through an address map -/

/-- The memory as the holder of the map `tr` sees it. -/
def view (m : ByteMem) (tr : Nat → Nat) : ByteMem := fun a => m (tr a)

/-- The `n` bytes a program reads at `a` when `tr` translates its addresses. -/
def gather (m : ByteMem) (tr : Nat → Nat) (a n : Nat) : List UInt8 :=
  (List.range n).map fun k => m (tr (a + k))

/-- The memory after a program stores `bs` at `a` when `tr` translates its addresses. -/
def scatter (tr : Nat → Nat) : ByteMem → Nat → List UInt8 → ByteMem
  | m, _, [] => m
  | m, a, b :: bs => scatter tr (Function.update m (tr a) b) (a + 1) bs

/-- Reading through the map is reading the view. -/
theorem gather_eq_read (m : ByteMem) (tr : Nat → Nat) (a n : Nat) :
    gather m tr a n = read (view m tr) a n := rfl

@[simp] theorem length_gather (m : ByteMem) (tr : Nat → Nat) (a n : Nat) :
    (gather m tr a n).length = n := by
  simp [gather]

theorem gather_add (m : ByteMem) (tr : Nat → Nat) (a n k : Nat) :
    gather m tr a (n + k) = gather m tr a n ++ gather m tr (a + n) k := by
  simp only [gather_eq_read, read_add]

theorem scatter_append (tr : Nat → Nat) (bs cs : List UInt8) :
    ∀ (m : ByteMem) (a : Nat),
      scatter tr m a (bs ++ cs) = scatter tr (scatter tr m a bs) (a + bs.length) cs := by
  induction bs with
  | nil => intro m a; rfl
  | cons b rest ih =>
      intro m a
      rw [List.cons_append, scatter, ih, scatter, List.length_cons]
      congr 1
      omega

/-- A byte no translated address reaches is unchanged. -/
theorem scatter_apply_of_not_mem {tr : Nat → Nat} {bs : List UInt8} {p : Nat} :
    ∀ {m : ByteMem} {a : Nat}, (∀ k, k < bs.length → tr (a + k) ≠ p) →
      scatter tr m a bs p = m p := by
  induction bs with
  | nil => intro m a _; rfl
  | cons b rest ih =>
      intro m a h
      have hrest : ∀ k, k < rest.length → tr (a + 1 + k) ≠ p := by
        intro k hk
        have := h (k + 1) (by simp; omega)
        rwa [show a + (k + 1) = a + 1 + k by omega] at this
      have hne : p ≠ tr a := fun hc => h 0 (by simp) hc.symm
      rw [scatter, ih hrest, Function.update_of_ne hne]

/-- **Writing through an injective map is a plain write in the view.** -/
theorem view_scatter {tr : Nat → Nat} {s : Set Nat} (hinj : Set.InjOn tr s) {q : Nat}
    (hq : q ∈ s) {bs : List UInt8} :
    ∀ {m : ByteMem} {a : Nat}, (∀ k, k < bs.length → a + k ∈ s) →
      scatter tr m a bs (tr q) = write (view m tr) a bs q := by
  induction bs with
  | nil => intro m a _; simp [scatter, view]
  | cons b rest ih =>
      intro m a h
      have hrest : ∀ k, k < rest.length → a + 1 + k ∈ s := by
        intro k hk
        have := h (k + 1) (by simp; omega)
        rwa [show a + (k + 1) = a + 1 + k by omega] at this
      have ha : a ∈ s := by simpa using h 0 (by simp)
      -- one byte has gone in at `a`, in the view exactly where it went in below
      have hbyte : view (Function.update m (tr a) b) tr q
          = Function.update (view m tr) a b q := by
        by_cases hqa : q = a
        · rw [hqa, view, Function.update_self, Function.update_self]
        · have hne : tr q ≠ tr a := fun hc => hqa (hinj hq ha hc)
          rw [view, Function.update_of_ne hne, Function.update_of_ne hqa, view]
      rw [scatter, ih hrest, write_cons, write_congr hbyte]

/-- Writing back what was read through the map changes nothing. -/
theorem scatter_gather (tr : Nat → Nat) (n : Nat) :
    ∀ (m : ByteMem) (a : Nat), scatter tr m a (gather m tr a n) = m := by
  induction n with
  | zero => intro m a; rfl
  | succ n ih =>
      intro m a
      have hsplit : gather m tr a (n + 1) = m (tr a) :: gather m tr (a + 1) n := by
        rw [Nat.add_comm, gather_add]
        rfl
      rw [hsplit, scatter, Function.update_eq_self, ih]

/-- A contiguous write is a write through any map that is contiguous on the range. -/
theorem write_eq_scatter (tr : Nat → Nat) {bs : List UInt8} :
    ∀ {m : ByteMem} {a p : Nat}, (∀ k, k < bs.length → tr (a + k) = p + k) →
      write m p bs = scatter tr m a bs := by
  induction bs with
  | nil => intro m a p _; simp [scatter]
  | cons b rest ih =>
      intro m a p h
      have hrest : ∀ k, k < rest.length → tr (a + 1 + k) = p + 1 + k := by
        intro k hk
        have := h (k + 1) (by simp; omega)
        rw [show a + (k + 1) = a + 1 + k by omega] at this
        omega
      have h0 : tr a = p := by simpa using h 0 (by simp)
      rw [scatter, ← ih hrest, h0, write_cons]

/-- A contiguous read is a read through any map that is contiguous on the range. -/
theorem read_eq_gather {m : ByteMem} {tr : Nat → Nat} {a p n : Nat}
    (h : ∀ k, k < n → tr (a + k) = p + k) : read m p n = gather m tr a n :=
  List.map_congr_left fun k hk => by rw [h k (List.mem_range.mp hk)]

/-! ### Writing piece by piece -/

/-- Two consecutive writes are one write of both. -/
theorem write_append (m : ByteMem) (a : Nat) (bs cs : List UInt8) :
    write m a (bs ++ cs) = write (write m a bs) (a + bs.length) cs := by
  have hid : ∀ (m : ByteMem) (a : Nat) (bs : List UInt8), write m a bs = scatter id m a bs :=
    fun m a bs => write_eq_scatter id fun _ _ => rfl
  rw [hid, hid, hid, scatter_append]

/-- The head of a string that goes in after its tail. -/
theorem write_write_append (m : ByteMem) (a : Nat) (xs ys : List UInt8) :
    write (write m (a + xs.length) ys) a xs = write m a (xs ++ ys) := by
  funext p
  by_cases hlow : p < a ∨ a + xs.length ≤ p
  · rw [write_apply_of_not_mem _ hlow, write_append]
    refine write_congr ?_ _ _
    rw [write_apply_of_not_mem _ hlow]
  · obtain ⟨k, rfl⟩ := Nat.exists_eq_add_of_le (Nat.le_of_not_lt (not_or.mp hlow).1)
    have hk : k < xs.length := by omega
    have hk' : k < (xs ++ ys).length := by
      rw [List.length_append]
      omega
    rw [write_apply_add _ _ hk, write_apply_add _ _ hk', List.getElem_append_left hk]

/-- **A word of an array that was written is the word that is read.** -/
theorem read64_write_words {ws : List Nat} :
    ∀ (m : ByteMem) (a : Nat), (∀ w ∈ ws, w < 2 ^ 64) → ∀ {i : Nat} (hi : i < ws.length),
      read64 (write m a (Bytes.words ws)) (a + 8 * i) = ws[i] := by
  induction ws with
  | nil => intro m a _ i hi; exact absurd hi (Nat.not_lt_zero i)
  | cons w ws ih =>
      intro m a h i hi
      rw [Bytes.words_cons, write_append, Bytes.length_le]
      cases i with
      | zero =>
          have hkeep : read64 (write (write m a (Bytes.le 8 w)) (a + 8) (Bytes.words ws)) a
              = read64 (write m a (Bytes.le 8 w)) a :=
            congrArg Bytes.val (read_write_of_disjoint _ (Or.inl (Nat.le_refl _)))
          have hself := read64_write64_self m a (h w List.mem_cons_self)
          exact hkeep.trans hself
      | succ i =>
          have hi' : i < ws.length := Nat.lt_of_succ_lt_succ hi
          rw [Nat.mul_succ, Nat.add_comm (8 * i), ← Nat.add_assoc]
          exact ih _ _ (fun v hv => h v (List.mem_cons_of_mem _ hv)) hi'

end ByteMem
