/-
The tables the replayer builds, whatever the dump holds.

The page table is a tree of tables in physical memory, and the replayer keeps a tree of
nodes beside it, `UserTree`, so that it can find a bottom table without mapping the ones
above.  `gr_construct_pgt` sets both up from any list of words: every table, and so
every table entry, is a page of the pool, and every other entry is a word of the dump.
-/
import Mathlib.Data.Nat.Bitwise
import GpuReplay.Lib.RadixTree
import GpuReplay.Proofs.MemInit
import GpuReplay.Proofs.PageTable
import GpuReplay.Replayer.Context

namespace GpuReplay.Replayer

open Stdio Driver RadixTree

/-! ### The page table as a tree -/

/-- The entries of the tables in physical memory. -/
def entries (mem : ByteMem) : Tables Nat Nat := fun p i => mem.read64 (p + 8 * i)

/-- The table an entry leads to. -/
def tableAt (w : Nat) : Option Nat := if isTable w then some (pageStart w) else none

/-- The index of a GPU address, `h` levels above the bottom. -/
def gpuIndex (gaddr h : Nat) : Nat := pgdOffset gaddr (3 - h)

/-- The entry at which the MMU ends its walk for a GPU address. -/
def gpuLookup (mem : ByteMem) (pgd gaddr : Nat) : Nat :=
  lookup tableAt (entries mem) (gpuIndex gaddr) 3 pgd

theorem gpuIndex_lt (gaddr h : Nat) : gpuIndex gaddr h < 512 := Nat.mod_lt _ (by decide)

theorem tableAt_relink {w frame : Nat} (hframe : frame % 4096 = 0) (ht : isTable w = true) :
    tableAt (relink w frame) = some frame := by
  unfold tableAt
  rw [isTable_relink w hframe, if_pos ht, pageStart_relink w hframe]

theorem pages_eq_preorder (mem : ByteMem) :
    ∀ n p, pages tableAt 512 (entries mem) n p = preorder mem n p := by
  intro n
  induction n with
  | zero => exact fun _ => rfl
  | succ n ih =>
      intro p
      have hchild : ∀ i ∈ List.range 512,
          (tableAt (entries mem p i)).elim [] (pages tableAt 512 (entries mem) n)
            = if isTable (mem.read64 (p + 8 * i)) then
                preorder mem n (pageStart (mem.read64 (p + 8 * i))) else [] := by
        intro i _
        unfold tableAt entries
        by_cases ht : isTable (mem.read64 (p + 8 * i)) = true
        · rw [if_pos ht, if_pos ht]
          exact ih _
        · rw [if_neg ht, if_neg ht]
          rfl
      rw [pages, preorder, tableWords, List.flatMap_map, List.flatMap_congr hchild]

/-- Entries outside the pages a change is confined to. -/
theorem SameOutside.entries_eq {frames : List Nat} {mem mem' : ByteMem}
    (h : SameOutside frames mem mem') {p i : Nat} (hp : p % 4096 = 0) (hmem : p ∉ frames)
    (hi : i < 512) : entries mem' p i = entries mem p i := by
  refine ByteMem.read64_congr fun k hk => h _ ?_
  have hpage : pageStart (p + 8 * i + k) = p := by unfold pageStart; omega
  rwa [hpage]

/-! ### The nodes beside it -/

/-- Node `node` and the nodes below it stand for the tables of the tree at `pgd`.  A
pointer that belongs to no table leads to no node; all nodes are numbered from `lo` on. -/
def UserTree (heap : List UserPgtable) (t : Tables Nat Nat) (lo : Nat) : Nat → Nat → Nat → Prop
  | 0, pgd, node => lo ≤ node ∧ ∃ u, heap[node]? = some u ∧ u.physPage = pgd
  | n + 1, pgd, node => lo ≤ node ∧ ∃ u, heap[node]? = some u ∧ u.physPage = pgd ∧
      ∀ i, i < 512 →
        (∀ q, tableAt (t pgd i) = some q → ∃ c, u.pgd i = .node c ∧ UserTree heap t lo n q c) ∧
        (tableAt (t pgd i) = none → ∀ c, u.pgd i ≠ .node c)

theorem UserTree.mono {heap heap' : List UserPgtable} {t t' : Tables Nat Nat} {lo lo' : Nat}
    (hlo : lo' ≤ lo) (hheap : ∀ j u, lo ≤ j → heap[j]? = some u → heap'[j]? = some u) :
    ∀ {n pgd node : Nat}, SameUpper tableAt 512 t t' n pgd → UserTree heap t lo n pgd node →
      UserTree heap' t' lo' n pgd node := by
  intro n
  induction n with
  | zero =>
      intro pgd node _ h
      obtain ⟨hnode, u, hu, hpage⟩ := h
      exact ⟨Nat.le_trans hlo hnode, u, hheap node u hnode hu, hpage⟩
  | succ n ih =>
      intro pgd node hsame h
      obtain ⟨hnode, u, hu, hpage, hptrs⟩ := h
      refine ⟨Nat.le_trans hlo hnode, u, hheap node u hnode hu, hpage, fun i hi => ?_⟩
      rw [hsame.1 i hi]
      refine ⟨fun q hq => ?_, (hptrs i hi).2⟩
      obtain ⟨c, hc, hsub⟩ := (hptrs i hi).1 q hq
      exact ⟨c, hc, ih (hsame.2 i hi q hq) hsub⟩

/-- **The nodes find the bottom table that the MMU finds.** -/
theorem UserTree.walk {heap : List UserPgtable} {t : Tables Nat Nat} {lo gaddr : Nat} :
    ∀ {n : Nat}, n ≤ 3 → ∀ {pgd node : Nat} {ptr : UserPtr} {u : UserPgtable},
      UserTree heap t lo n pgd node → walkUserPgt heap gaddr n (3 - n) (.node node) = .ok ptr →
      derefPgt heap ptr = .ok u → leafPage tableAt t (gpuIndex gaddr) n pgd = some u.physPage := by
  intro n
  induction n with
  | zero =>
      intro _ pgd node ptr u h hrun hderef
      obtain ⟨-, v, hv, hpage⟩ := h
      obtain rfl := Except.ok.inj hrun
      rw [derefPgt, hv] at hderef
      obtain rfl := Except.ok.inj hderef
      rw [leafPage, hpage]
  | succ n ih =>
      intro hn pgd node ptr u h hrun hderef
      obtain ⟨-, v, hv, -, hptrs⟩ := h
      have hlevel : 3 - (n + 1) + 1 = 3 - n := by omega
      rw [walkUserPgt, derefPgt, hv, Except.ok_bind] at hrun
      simp only at hrun
      by_cases hnull : v.pgd (pgdOffset gaddr (3 - (n + 1))) = .null
      · rw [if_pos hnull] at hrun
        exact absurd hrun (by simp)
      rw [if_neg hnull, hlevel] at hrun
      obtain ⟨htable, hplain⟩ := hptrs _ (gpuIndex_lt gaddr (n + 1))
      rw [leafPage]
      cases hq : tableAt (t pgd (gpuIndex gaddr (n + 1))) with
      | some q =>
          obtain ⟨c, hc, hsub⟩ := htable q hq
          have hc' : v.pgd (pgdOffset gaddr (3 - (n + 1))) = .node c := hc
          rw [hc'] at hrun
          exact ih (Nat.le_of_succ_le hn) hsub hrun hderef
      | none =>
          -- a pointer that belongs to no table cannot have been followed
          exfalso
          have hnot := hplain hq
          cases hptr : v.pgd (pgdOffset gaddr (3 - (n + 1))) with
          | null => exact hnull hptr
          | node c => exact hnot c hptr
          | wild =>
              rw [hptr] at hrun
              cases n with
              | zero =>
                  obtain rfl := Except.ok.inj hrun
                  exact absurd hderef (by simp [derefPgt])
              | succ n => exact absurd hrun (by simp [walkUserPgt, derefPgt, Except.error_bind])

/-! ### Whatever the dump holds -/

/-- The words a lookup below `pgd` can end at are all in `value`. -/
def WordsIn (value : List Nat) (t : Tables Nat Nat) (n pgd : Nat) : Prop :=
  ∀ ix : Nat → Nat, (∀ h, ix h < 512) → lookup tableAt t ix n pgd ∈ value

/-- A table has been built from machine `m`, with `k` frames for it and the tables below. -/
structure TreeFrom (value : List Nat) (below k : Nat) (m : Machine) (b : Built) : Prop where
  userPgd : b.userPgd = .node m.heap.length
  pool : b.machine.pool = m.pool.drop k
  grown : m.heap.length < b.machine.heap.length
  keep : ∀ j, j < m.heap.length → b.machine.heap[j]? = m.heap[j]?
  frame : SameOutside (m.pool.take k) m.mem b.machine.mem
  walk : pages tableAt 512 (entries b.machine.mem) below b.pgd = m.pool.take k
  tree : UserTree b.machine.heap (entries b.machine.mem) m.heap.length below b.pgd m.heap.length
  words : WordsIn value (entries b.machine.mem) below b.pgd

/-- The entries of a table, from entry `i` on, have been built from machine `m`: `u` and
`u'` are the table's node before and after, `k` the number of frames they took. -/
structure EntriesFrom (value : List Nat) (below node i k : Nat) (ws : List Nat) (m : Machine)
    (u u' : UserPgtable) (r : List Nat × Nat × Machine) : Prop where
  length : r.1.length = ws.length
  lt : ∀ w ∈ r.1, w < 2 ^ 64
  pool : r.2.2.pool = m.pool.drop k
  grown : m.heap.length ≤ r.2.2.heap.length
  keep : ∀ j, j < m.heap.length → j ≠ node → r.2.2.heap[j]? = m.heap[j]?
  self : r.2.2.heap[node]? = some u' ∧ u'.physPage = u.physPage ∧ ∀ j, j < i → u'.pgd j = u.pgd j
  frame : SameOutside (m.pool.take k) m.mem r.2.2.mem
  walk : (r.1.flatMap fun w =>
    (tableAt w).elim [] (pages tableAt 512 (entries r.2.2.mem) below)) = m.pool.take k
  table : ∀ j w, r.1[j]? = some w → ∀ q, tableAt w = some q →
    ∃ c, u'.pgd (i + j) = .node c ∧
      UserTree r.2.2.heap (entries r.2.2.mem) (node + 1) below q c ∧
      WordsIn value (entries r.2.2.mem) below q
  plain : ∀ j w, r.1[j]? = some w → tableAt w = none →
    w ∈ value ∧ u'.pgd (i + j) = u.pgd (i + j)

/-- What building the tables one level down does, when it returns. -/
def TreesBelow (value : List Nat) (below : Nat) (next : Nat → Machine → Except Stop Built) : Prop :=
  ∀ (offset : Nat) (m : Machine) (b : Built), PoolOk m.pool → next offset m = .ok b →
    ∃ k, TreeFrom value below k m b

/-- Words looked up below pages that stay are still in the dump. -/
theorem WordsIn.congr {value : List Nat} {t t' : Tables Nat Nat} {n pgd : Nat}
    (h : WordsIn value t n pgd)
    (hsame : ∀ q ∈ pages tableAt 512 t n pgd, ∀ i, i < 512 → t' q i = t q i) :
    WordsIn value t' n pgd := by
  intro ix hix
  rw [lookup_of_pages hix hsame]
  exact h ix hix

/-- Pages handed out before `k` more frames were are not changed through these. -/
theorem entries_later {pool : List Nat} {mem mem' : ByteMem} (hpool : PoolOk pool) {n k : Nat}
    (hframe : SameOutside ((pool.drop n).take k) mem mem') {q : Nat} (hq : q ∈ pool.take n) :
    ∀ i, i < 512 → entries mem' q i = entries mem q i :=
  fun _ hi => hframe.entries_eq (hpool.aligned q (List.mem_of_mem_take hq))
    (hpool.not_mem_later hq) hi

section Entries

variable {value : List Nat} {below node : Nat} {next : Nat → Machine → Except Stop Built}

theorem EntriesFrom.nil {i offset : Nat} {m : Machine} {u : UserPgtable}
    (hu : m.heap[node]? = some u) : EntriesFrom value below node i 0 [] m u u ([], offset, m) where
  length := rfl
  lt := by simp
  pool := rfl
  grown := Nat.le_refl _
  keep := fun j _ _ => rfl
  self := ⟨hu, rfl, fun j _ => rfl⟩
  frame := SameOutside.refl _ _
  walk := rfl
  table := by simp
  plain := by simp

/-- An entry that names a table, before entries that have been built. -/
theorem EntriesFrom.cons_table {i n k w : Nat} {ws : List Nat} {m : Machine} {u u' : UserPgtable}
    {b : Built} {r : List Nat × Nat × Machine} (hpool : PoolOk m.pool) (ht : isTable w = true)
    (hnode : node < m.heap.length) (hb : TreeFrom value below n m b)
    (hr : EntriesFrom value below node (i + 1) k ws (b.machine.setPgd node i b.userPgd)
      { u with pgd := fun j => if j = i then b.userPgd else u.pgd j } u' r) :
    EntriesFrom value below node i (n + k) (w :: ws) m u u'
      (relink w b.pgd :: r.1, r.2.1, r.2.2) := by
  have hpool₁ : (b.machine.setPgd node i b.userPgd).pool = m.pool.drop n := hb.pool
  have hlen₁ : (b.machine.setPgd node i b.userPgd).heap.length = b.machine.heap.length :=
    List.length_modify ..
  have htake : m.pool.take (n + k) = m.pool.take n ++ (m.pool.drop n).take k := List.take_add
  have hframe : SameOutside ((m.pool.drop n).take k) b.machine.mem r.2.2.mem := hpool₁ ▸ hr.frame
  have hmem : ∀ q ∈ pages tableAt 512 (entries b.machine.mem) below b.pgd, q ∈ m.pool.take n :=
    fun q hq => by rwa [hb.walk] at hq
  have hsame : ∀ q ∈ pages tableAt 512 (entries b.machine.mem) below b.pgd, ∀ j, j < 512 →
      entries r.2.2.mem q j = entries b.machine.mem q j :=
    fun q hq => entries_later hpool hframe (hmem q hq)
  have hpgd : b.pgd ∈ m.pool := List.mem_of_mem_take (hmem _ (root_mem_pages below b.pgd))
  have haligned := hpool.aligned _ hpgd
  exact {
    length := by rw [List.length_cons, List.length_cons, hr.length]
    lt := fun v hv => by
      rcases List.mem_cons.mp hv with rfl | hv
      · exact relink_lt haligned (hpool.bounded _ hpgd)
      · exact hr.lt v hv
    pool := by rw [hr.pool, hpool₁, List.drop_drop]
    grown := by
      have := hr.grown
      rw [hlen₁] at this
      exact Nat.le_trans (Nat.le_of_lt hb.grown) this
    keep := fun j hj hne => by
      rw [hr.keep j (by rw [hlen₁]; exact Nat.lt_trans hj hb.grown) hne,
        getElem?_setPgd_ne _ hne, hb.keep j hj]
    self := ⟨hr.self.1, hr.self.2.1, fun j hj => by
      rw [hr.self.2.2 j (Nat.lt_succ_of_lt hj)]
      exact if_neg (Nat.ne_of_lt hj)⟩
    frame := by
      rw [htake]
      exact hb.frame.trans hframe
    walk := by
      have hupper := sameUpper_of_pages hsame
      rw [List.flatMap_cons, tableAt_relink haligned ht, Option.elim_some, hupper.pages_eq,
        hb.walk, hr.walk, hpool₁, htake]
    table := fun j v hv q hq => by
      cases j with
      | zero =>
          obtain rfl : relink w b.pgd = v := Option.some.inj hv
          rw [tableAt_relink haligned ht] at hq
          obtain rfl := Option.some.inj hq
          refine ⟨m.heap.length, ?_, ?_, hb.words.congr hsame⟩
          · rw [Nat.add_zero, hr.self.2.2 i (Nat.lt_succ_self i)]
            show (if i = i then b.userPgd else _) = _
            rw [if_pos rfl, hb.userPgd]
          · refine hb.tree.mono hnode (fun c v hc hv => ?_) (sameUpper_of_pages hsame)
            have hcb := (List.getElem?_eq_some_iff.mp hv).1
            have hne : c ≠ node := Nat.ne_of_gt (Nat.lt_of_lt_of_le hnode hc)
            rw [hr.keep c (by rw [hlen₁]; exact hcb) hne, getElem?_setPgd_ne _ hne, hv]
      | succ j =>
          have := hr.table j v hv q hq
          rwa [Nat.add_right_comm, Nat.add_assoc] at this
    plain := fun j v hv hq => by
      cases j with
      | zero =>
          obtain rfl : relink w b.pgd = v := Option.some.inj hv
          rw [tableAt_relink haligned ht] at hq
          exact absurd hq (Option.some_ne_none _)
      | succ j =>
          have := hr.plain j v hv hq
          rw [Nat.add_right_comm, Nat.add_assoc] at this
          refine ⟨this.1, this.2.trans (if_neg ?_)⟩
          omega }

/-- An entry that names none stays as it is in the dump. -/
theorem EntriesFrom.cons_plain {i k w : Nat} {ws : List Nat} {m : Machine} {u u' : UserPgtable}
    {r : List Nat × Nat × Machine} (ht : ¬ isTable w = true) (hw : w < 2 ^ 64 ∧ w ∈ value)
    (hr : EntriesFrom value below node (i + 1) k ws m u u' r) :
    EntriesFrom value below node i k (w :: ws) m u u' (w :: r.1, r.2.1, r.2.2) := by
  have hnone : tableAt w = none := if_neg ht
  exact {
    length := by rw [List.length_cons, List.length_cons, hr.length]
    lt := fun v hv => by
      rcases List.mem_cons.mp hv with rfl | hv
      · exact hw.1
      · exact hr.lt v hv
    pool := hr.pool
    grown := hr.grown
    keep := hr.keep
    self := ⟨hr.self.1, hr.self.2.1, fun j hj => hr.self.2.2 j (Nat.lt_succ_of_lt hj)⟩
    frame := hr.frame
    walk := by
      rw [List.flatMap_cons, hnone]
      exact hr.walk
    table := fun j v hv q hq => by
      cases j with
      | zero =>
          obtain rfl : w = v := Option.some.inj hv
          rw [hnone] at hq
          exact absurd hq.symm (Option.some_ne_none q)
      | succ j =>
          have := hr.table j v hv q hq
          rwa [Nat.add_right_comm, Nat.add_assoc] at this
    plain := fun j v hv hq => by
      cases j with
      | zero =>
          obtain rfl : w = v := Option.some.inj hv
          exact ⟨hw.2, hr.self.2.2 i (Nat.lt_succ_self i)⟩
      | succ j =>
          have := hr.plain j v hv hq
          rwa [Nat.add_right_comm, Nat.add_assoc] at this }

theorem constructEntries_from (hnext : TreesBelow value below next) :
    ∀ (ws : List Nat) (i offset : Nat) (m : Machine) (u : UserPgtable)
      (r : List Nat × Nat × Machine),
      (∀ w ∈ ws, w < 2 ^ 64 ∧ w ∈ value) → m.heap[node]? = some u → PoolOk m.pool →
      constructEntries next (3 - (below + 1)) node i ws offset m = .ok r →
      ∃ k u', EntriesFrom value below node i k ws m u u' r := by
  intro ws
  induction ws with
  | nil =>
      intro i offset m u r _ hu _ hrun
      obtain rfl := Except.ok.inj hrun
      exact ⟨0, u, EntriesFrom.nil hu⟩
  | cons w ws ih =>
      intro i offset m u r hws hu hpool hrun
      have hws' : ∀ v ∈ ws, v < 2 ^ 64 ∧ v ∈ value := fun v hv => hws v (List.mem_cons_of_mem _ hv)
      rw [constructEntries, pteIsValid_eq] at hrun
      by_cases ht : isTable w = true
      · rw [if_pos ht] at hrun
        obtain ⟨b, hrunb, hrun⟩ := Except.bind_eq_ok.mp hrun
        obtain ⟨r', hrest, hdone⟩ := Except.bind_eq_ok.mp hrun
        obtain rfl := Except.ok.inj hdone
        obtain ⟨n, hb⟩ := hnext _ m b hpool hrunb
        have hnode : node < m.heap.length := (List.getElem?_eq_some_iff.mp hu).1
        have hu₁ := getElem?_setPgd_self ((hb.keep node hnode).trans hu) i b.userPgd
        have hpool₁ : (b.machine.setPgd node i b.userPgd).pool = m.pool.drop n := hb.pool
        obtain ⟨k, u', hr⟩ := ih (i + 1) b.offset (b.machine.setPgd node i b.userPgd) _ _ hws' hu₁
          (hpool₁ ▸ hpool.drop n) hrest
        exact ⟨n + k, u', EntriesFrom.cons_table hpool ht hnode hb hr⟩
      · rw [if_neg ht] at hrun
        obtain ⟨r', hrest, hdone⟩ := Except.bind_eq_ok.mp hrun
        obtain rfl := Except.ok.inj hdone
        obtain ⟨k, u', hr⟩ := ih (i + 1) offset m u _ hws' hu hpool hrest
        exact ⟨k, u', EntriesFrom.cons_plain ht (hws w List.mem_cons_self) hr⟩

end Entries

theorem pages_succ (mem : ByteMem) (n p : Nat) :
    pages tableAt 512 (entries mem) (n + 1) p
      = p :: (tableWords mem p).flatMap fun w =>
          (tableAt w).elim [] (pages tableAt 512 (entries mem) n) := by
  rw [pages, tableWords, List.flatMap_map]
  rfl

theorem getElem?_tableWords_entries (mem : ByteMem) (p : Nat) {i : Nat} (hi : i < 512) :
    (tableWords mem p)[i]? = some (entries mem p i) :=
  getElem?_tableWords mem p hi

theorem oldPteValue_ok {value ws : List Nat} {offset : Nat}
    (hrun : oldPteValue value offset = .ok ws) : ws.length = 512 ∧ ∀ w ∈ ws, w ∈ value := by
  unfold oldPteValue at hrun
  by_cases hroom : (offset + 1) % 2 ^ 32 + 512 ≤ value.length
  · rw [if_pos hroom] at hrun
    obtain rfl := Except.ok.inj hrun
    refine ⟨?_, fun w hw => List.mem_of_mem_drop (List.mem_of_mem_take hw)⟩
    rw [List.length_take, List.length_drop]
    omega
  · rw [if_neg hroom] at hrun
    exact absurd hrun (by simp)

section Construct

variable {value : List Nat} {junk : Nat → Nat → UserPtr}

/-- A table is written when those its entries name have been built. -/
theorem TreeFrom.of_entries {below k frame : Nat} {pool ws : List Nat} {m : Machine}
    {pgds : Nat → UserPtr} {u' : UserPgtable} {r : List Nat × Nat × Machine}
    (hpool : PoolOk m.pool) (hfp : m.pool = frame :: pool) (hlength : ws.length = 512)
    (hpgds : ∀ i c, pgds i ≠ .node c)
    (hr : EntriesFrom value below m.heap.length 0 k ws
      ⟨m.mem, pool, m.heap ++ [⟨frame, pgds⟩]⟩ ⟨frame, pgds⟩ u' r) :
    TreeFrom value (below + 1) (k + 1) m ⟨frame, .node m.heap.length, r.2.1,
      { r.2.2 with mem := r.2.2.mem.write frame (Bytes.words r.1) }⟩ := by
  rw [hfp] at hpool
  have haligned := hpool.aligned frame List.mem_cons_self
  have hlength' : r.1.length = 512 := by rw [hr.length, hlength]
  have hself := tableWords_write r.2.2.mem frame hlength' hr.lt
  have hbytes : (Bytes.words r.1).length ≤ 4096 := by rw [Bytes.length_words, hlength']
  have hwalk : (r.1.flatMap fun w =>
      (tableAt w).elim [] (pages tableAt 512 (entries r.2.2.mem) below)) = pool.take k := hr.walk
  -- the page of the table itself is written after the tables below it
  have hsame : ∀ w ∈ r.1, ∀ q, tableAt w = some q →
      ∀ p ∈ pages tableAt 512 (entries r.2.2.mem) below q, ∀ i, i < 512 →
        entries (r.2.2.mem.write frame (Bytes.words r.1)) p i = entries r.2.2.mem p i := by
    intro w hw q hq p hp i hi
    have hmem : p ∈ pool.take k := by
      rw [← hwalk]
      refine List.mem_flatMap.mpr ⟨w, hw, ?_⟩
      rwa [hq]
    have hp := List.mem_of_mem_take hmem
    refine (sameOutside_write r.2.2.mem haligned hbytes).entries_eq (hpool.tail.aligned p hp) ?_ hi
    rw [List.mem_singleton]
    rintro rfl
    exact hpool.head_notMem hp
  have hentry : ∀ i, i < 512 →
      r.1[i]? = some (entries (r.2.2.mem.write frame (Bytes.words r.1)) frame i) := by
    intro i hi
    rw [← getElem?_tableWords_entries _ _ hi, hself]
  have htake : m.pool.take (k + 1) = frame :: pool.take k := by rw [hfp]; rfl
  exact {
    userPgd := rfl
    pool := by
      show r.2.2.pool = _
      rw [hr.pool, hfp]
      rfl
    grown := by
      have := hr.grown
      rw [List.length_append] at this
      exact this
    keep := fun j hj => by
      show r.2.2.heap[j]? = _
      rw [hr.keep j (by rw [List.length_append]; exact Nat.lt_succ_of_lt hj) (Nat.ne_of_lt hj)]
      exact List.getElem?_append_left hj
    frame := by
      rw [htake]
      exact hr.frame.write_page haligned hbytes
    walk := by
      show pages tableAt 512 (entries (r.2.2.mem.write frame (Bytes.words r.1))) (below + 1) frame
        = _
      have hbelow : ∀ w ∈ r.1,
          (tableAt w).elim [] (pages tableAt 512
            (entries (r.2.2.mem.write frame (Bytes.words r.1))) below)
          = (tableAt w).elim [] (pages tableAt 512 (entries r.2.2.mem) below) := by
        intro w hw
        cases hq : tableAt w with
        | none => rw [Option.elim_none, Option.elim_none]
        | some q =>
            have hupper := sameUpper_of_pages (hsame w hw q hq)
            rw [Option.elim_some, Option.elim_some, hupper.pages_eq]
      rw [pages_succ, hself, htake, List.flatMap_congr hbelow, hwalk]
    tree := by
      refine ⟨Nat.le_refl _, u', hr.self.1, hr.self.2.1, fun i hi => ⟨fun q hq => ?_, fun hq => ?_⟩⟩
      · obtain ⟨c, hc, htree, -⟩ := hr.table i _ (hentry i hi) q hq
        rw [Nat.zero_add] at hc
        have hw := List.mem_of_getElem? (hentry i hi)
        exact ⟨c, hc, htree.mono (Nat.le_succ _) (fun _ _ _ hv => hv)
          (sameUpper_of_pages (hsame _ hw q hq))⟩
      · obtain ⟨-, hptr⟩ := hr.plain i _ (hentry i hi) hq
        rw [Nat.zero_add] at hptr
        rw [hptr]
        exact hpgds _
    words := fun ix hix => by
      have hword := hentry _ (hix (below + 1))
      show (tableAt (entries _ frame (ix (below + 1)))).elim _ _ ∈ value
      cases hq : tableAt (entries (r.2.2.mem.write frame (Bytes.words r.1)) frame (ix (below + 1)))
        with
      | none => exact (hr.plain _ _ hword hq).1
      | some q =>
          obtain ⟨-, -, -, hwords⟩ := hr.table _ _ hword q hq
          exact hwords.congr (hsame _ (List.mem_of_getElem? hword) q hq) ix hix }

variable (hlt : ∀ w ∈ value, w < 2 ^ 64) (hjunk : ∀ a i c, junk a i ≠ .node c)

include hlt hjunk

/-- **Every table of the reconstruction is a frame of the pool, and every entry that is not
a table entry is a word of the dump.** -/
theorem grConstructPgt_from :
    ∀ below, TreesBelow value below (grConstructPgt junk value below) := by
  intro below
  induction below with
  | zero =>
      intro offset m b hpool hrun
      rw [grConstructPgt] at hrun
      obtain ⟨r, hnew, hrun⟩ := Except.bind_eq_ok.mp hrun
      obtain ⟨ws, hold, hrun⟩ := Except.bind_eq_ok.mp hrun
      obtain ⟨frame, pool, hfp, haligned, rfl⟩ := newTable_ok junk hnew
      obtain ⟨hlength, hin⟩ := oldPteValue_ok hold
      rw [finishTable_eq haligned hlength] at hrun
      obtain rfl := Except.ok.inj hrun
      have hself := tableWords_write m.mem frame hlength fun w hw => hlt w (hin w hw)
      refine ⟨1, {
        userPgd := rfl
        pool := by rw [hfp]; rfl
        grown := by
          show _ < (m.heap ++ [_]).length
          rw [List.length_append]
          exact Nat.lt_succ_self _
        keep := fun j hj => List.getElem?_append_left hj
        frame := by
          rw [hfp]
          exact sameOutside_write m.mem haligned (by rw [Bytes.length_words, hlength])
        walk := by rw [hfp]; rfl
        tree := ⟨Nat.le_refl _, _, List.getElem?_concat_length .., rfl⟩
        words := fun ix hix => by
          have hword := getElem?_tableWords_entries (m.mem.write frame (Bytes.words ws)) frame (hix 0)
          rw [hself] at hword
          exact hin _ (List.mem_of_getElem? hword) }⟩
  | succ below ih =>
      intro offset m b hpool hrun
      rw [grConstructPgt] at hrun
      obtain ⟨r₀, hnew, hrun⟩ := Except.bind_eq_ok.mp hrun
      obtain ⟨ws, hold, hrun⟩ := Except.bind_eq_ok.mp hrun
      obtain ⟨r, hentries, hrun⟩ := Except.bind_eq_ok.mp hrun
      obtain ⟨frame, pool, hfp, haligned, rfl⟩ := newTable_ok junk hnew
      obtain ⟨hlength, hin⟩ := oldPteValue_ok hold
      have hpool' : PoolOk (frame :: pool) := hfp ▸ hpool
      obtain ⟨k, u', hr⟩ := constructEntries_from ih ws 0 offset _ _ r
        (fun w hw => ⟨hlt w (hin w hw), hin w hw⟩) (List.getElem?_concat_length ..)
        hpool'.tail hentries
      rw [finishTable_eq haligned (hr.length.trans hlength)] at hrun
      obtain rfl := Except.ok.inj hrun
      exact ⟨k + 1, TreeFrom.of_entries hpool hfp hlength (hjunk _) hr⟩

end Construct

/-- What uninitialised memory may hold: 64-bit words, and no pointer to a node. -/
structure PgtJunk.Ok (junk : PgtJunk) : Prop where
  word : ∀ k, junk.word k < 2 ^ 64
  node : ∀ a i c, junk.node a i ≠ .node c

theorem readPgtValue_lt :
    ∀ {slots vals : List Nat} {cnt : Nat} {f f' : Stream}, (∀ w ∈ slots, w < 2 ^ 64) →
      readPgtValue slots f = .ok (vals, cnt, f') → ∀ w ∈ vals, w < 2 ^ 64 := by
  intro slots
  induction slots with
  | nil =>
      intro vals cnt f f' _ hrun
      rw [readPgtValue] at hrun
      by_cases hf : f.eof = true
      · rw [if_pos hf] at hrun
        cases hrun
        exact fun w hw => absurd hw (by simp)
      · rw [if_neg hf] at hrun
        exact absurd hrun (by simp)
  | cons old slots ih =>
      intro vals cnt f f' hslots hrun
      have hslots' : ∀ w ∈ slots, w < 2 ^ 64 := fun w hw => hslots w (List.mem_cons_of_mem _ hw)
      have hword : (f.readWord 8 old).1 < 2 ^ 64 := Stream.readWord_lt 8 old f
      rw [readPgtValue] at hrun
      by_cases hf : f.eof = true
      · rw [if_pos hf] at hrun
        cases hrun
        exact hslots
      · rw [if_neg hf] at hrun
        simp only at hrun
        by_cases hmarker : (f.readWord 8 old).1 = 0xFFFFFFFFFF
        · rw [if_pos hmarker] at hrun
          cases hrun
          intro w hw
          rcases List.mem_cons.mp hw with rfl | hw
          · exact hword
          · exact hslots' w hw
        · rw [if_neg hmarker] at hrun
          obtain ⟨⟨vals', cnt', f''⟩, hrest, hdone⟩ := Except.bind_eq_ok.mp hrun
          cases hdone
          intro w hw
          rcases List.mem_cons.mp hw with rfl | hw
          · exact hword
          · exact ih hslots' hrest w hw

/-- **Whatever the dump holds, `gr_pgt_init` builds its tables from the pool.** -/
theorem grPgtInit_from {junk : PgtJunk} (hjunk : junk.Ok) {m : Machine} (hpool : PoolOk m.pool)
    {file : List UInt8} {r : PgtInit} (hrun : grPgtInit junk m file = .ok r) :
    ∃ k, TreeFrom r.pgtValue 3 k m ⟨r.newPgd, r.userPgt, r.offset, r.machine⟩ := by
  unfold grPgtInit at hrun
  simp only at hrun
  obtain ⟨⟨vals, cnt, f⟩, hread, hrun⟩ := Except.bind_eq_ok.mp hrun
  obtain ⟨b, hbuild, hdone⟩ := Except.bind_eq_ok.mp hrun
  cases hdone
  have hslots : ∀ w ∈ (List.range (pgtRemained (Stream.readWord 8 junk.size
      (Stream.open file)).1)).map junk.word, w < 2 ^ 64 := by
    intro w hw
    obtain ⟨k, -, rfl⟩ := List.mem_map.mp hw
    exact hjunk.word k
  exact grConstructPgt_from (readPgtValue_lt hslots hread) hjunk.node 3 0 m b hpool hbuild

end GpuReplay.Replayer
