/-
What `gr_construct_pgt` builds from a recorded table.

`Copied` is the isomorphism between a recorded table and a rebuilt one: the same words,
except that a word that named a table keeps its low twelve bits and names the new frame
of that table, and that the node's pointer leads to the node of that table.

Building a table changes only the frames it takes and the nodes it adds, so what was
built before stays built; that is what `BuiltTree` carries besides `Copied`, and what
lets the induction over the levels pass from one entry to the next.
-/
import GpuReplay.Proofs.GpuMem
import GpuReplay.Proofs.PgtFormat
import GpuReplay.Replayer.PageTable

namespace GpuReplay.Replayer

open Stdio Driver ByteMem

/-! ### Relinked entries -/

/-- A table entry with its address exchanged. -/
def relink (w frame : Nat) : Nat := (w &&& 0xFFF) ||| frame

theorem relink_eq (w : Nat) {frame : Nat} (h : frame % 4096 = 0) :
    relink w frame = frame + w % 4096 := by
  have hlow : w &&& 0xFFF = w % 4096 := Nat.and_two_pow_sub_one_eq_mod w 12
  have hframe : frame = 2 ^ 12 * (frame / 4096) := by omega
  unfold relink
  rw [hlow, Nat.or_comm, hframe, ← Nat.two_pow_add_eq_or_of_lt (Nat.mod_lt _ (by decide)), ← hframe]

theorem isTable_eq (w : Nat) : isTable w = decide (w % 4 = 3) := by
  have hlow : w &&& 3 = w % 4 := Nat.and_two_pow_sub_one_eq_mod w 2
  unfold isTable
  rw [hlow]

theorem pteIsValid_eq {below : Nat} (w : Nat) :
    pteIsValid w (3 - (below + 1)) = isTable w := by
  have hlevel : 3 - (below + 1) ≠ midgardMmuBottomlevel := by
    unfold midgardMmuBottomlevel
    omega
  unfold pteIsValid isTable
  rw [if_neg hlevel]
  rfl

theorem isTable_relink (w : Nat) {frame : Nat} (h : frame % 4096 = 0) :
    isTable (relink w frame) = isTable w := by
  have hmod : (frame + w % 4096) % 4 = w % 4 := by omega
  rw [relink_eq w h, isTable_eq, isTable_eq, hmod]

theorem pageStart_relink (w : Nat) {frame : Nat} (h : frame % 4096 = 0) :
    pageStart (relink w frame) = frame := by
  rw [relink_eq w h]
  unfold pageStart
  omega

theorem relink_lt {w frame : Nat} (h : frame % 4096 = 0) (hlt : frame < 2 ^ 64) :
    relink w frame < 2 ^ 64 := by
  rw [relink_eq w h]
  omega

/-! ### The isomorphism -/

/-- The table at `newPgd`, with node `node`, is the recorded table at `oldPgd` rebuilt.
All its nodes are numbered from `lo` on. -/
def Copied (old mem : ByteMem) (heap : List UserPgtable) (lo : Nat) : Nat → Nat → Nat → Nat → Prop
  | 0, oldPgd, newPgd, node =>
      lo ≤ node ∧ (∃ u, heap[node]? = some u ∧ u.physPage = newPgd) ∧
        tableWords mem newPgd = tableWords old oldPgd
  | below + 1, oldPgd, newPgd, node =>
      lo ≤ node ∧ ∃ u, heap[node]? = some u ∧ u.physPage = newPgd ∧
        ∀ i w, (tableWords old oldPgd)[i]? = some w →
          (isTable w = false → (tableWords mem newPgd)[i]? = some w) ∧
          (isTable w = true → ∃ frame child, frame % 4096 = 0 ∧
            (tableWords mem newPgd)[i]? = some (relink w frame) ∧ u.pgd i = .node child ∧
            Copied old mem heap lo below (pageStart w) frame child)

theorem preorder_self (mem : ByteMem) (below pgd : Nat) : pgd ∈ preorder mem below pgd := by
  cases below with
  | zero => exact List.mem_cons_self
  | succ below => rw [preorder]; exact List.mem_cons_self

theorem preorder_congr {mem mem' : ByteMem} :
    ∀ (below pgd : Nat), (∀ p ∈ preorder mem below pgd, tableWords mem' p = tableWords mem p) →
      preorder mem' below pgd = preorder mem below pgd := by
  intro below
  induction below with
  | zero => intro pgd _; rfl
  | succ below ih =>
      intro pgd h
      have htables : ∀ w ∈ tableWords mem pgd,
          (if isTable w then preorder mem' below (pageStart w) else [])
            = if isTable w then preorder mem below (pageStart w) else [] := by
        intro w hw
        by_cases ht : isTable w = true
        · rw [if_pos ht, if_pos ht]
          refine ih (pageStart w) fun p hp => h p ?_
          rw [preorder]
          refine List.mem_cons_of_mem _ (List.mem_flatMap.mpr ⟨w, hw, ?_⟩)
          rwa [if_pos ht]
        · rw [if_neg ht, if_neg ht]
      rw [preorder, preorder, h pgd (preorder_self ..),
        List.flatMap_congr htables]

/-- A table below a table the walk visits is visited. -/
theorem preorder_child {mem : ByteMem} {below pgd i w : Nat} (hw : (tableWords mem pgd)[i]? = some w)
    (ht : isTable w = true) {p : Nat} (hp : p ∈ preorder mem below (pageStart w)) :
    p ∈ preorder mem (below + 1) pgd := by
  rw [preorder]
  refine List.mem_cons_of_mem _ (List.mem_flatMap.mpr ⟨w, List.mem_of_getElem? hw, ?_⟩)
  rwa [if_pos ht]

/-- **What was built stays built** under changes to other pages and other nodes. -/
theorem Copied.mono {old mem mem' : ByteMem} {heap heap' : List UserPgtable} {lo lo' : Nat}
    (hlo : lo' ≤ lo) (hheap : ∀ j u, lo ≤ j → heap[j]? = some u → heap'[j]? = some u) :
    ∀ (below oldPgd newPgd node : Nat),
      (∀ p ∈ preorder mem below newPgd, tableWords mem' p = tableWords mem p) →
      Copied old mem heap lo below oldPgd newPgd node →
      Copied old mem' heap' lo' below oldPgd newPgd node := by
  intro below
  induction below with
  | zero =>
      intro oldPgd newPgd node hmem h
      obtain ⟨hnode, ⟨u, hu, hpage⟩, hwords⟩ := h
      refine ⟨Nat.le_trans hlo hnode, ⟨u, hheap node u hnode hu, hpage⟩, ?_⟩
      rw [hmem newPgd (preorder_self ..), hwords]
  | succ below ih =>
      intro oldPgd newPgd node hmem h
      obtain ⟨hnode, u, hu, hpage, hentries⟩ := h
      have hself : tableWords mem' newPgd = tableWords mem newPgd :=
        hmem newPgd (preorder_self ..)
      refine ⟨Nat.le_trans hlo hnode, u, hheap node u hnode hu, hpage, fun i w hw => ?_⟩
      obtain ⟨hplain, htable⟩ := hentries i w hw
      rw [hself]
      refine ⟨hplain, fun ht => ?_⟩
      obtain ⟨frame, child, hframe, hword, hptr, hcopied⟩ := htable ht
      refine ⟨frame, child, hframe, hword, hptr, ih _ _ _ (fun p hp => hmem p ?_) hcopied⟩
      refine preorder_child hword (by rw [isTable_relink w hframe]; exact ht) ?_
      rwa [pageStart_relink w hframe]

/-! ### Pages that stay what they were -/

/-- The bytes of every page outside `frames` are unchanged. -/
def SameOutside (frames : List Nat) (mem mem' : ByteMem) : Prop :=
  ∀ a, pageStart a ∉ frames → mem' a = mem a

theorem SameOutside.refl (frames : List Nat) (mem : ByteMem) : SameOutside frames mem mem :=
  fun _ _ => rfl

theorem SameOutside.trans {frames frames' : List Nat} {mem mem' mem'' : ByteMem}
    (h : SameOutside frames mem mem') (h' : SameOutside frames' mem' mem'') :
    SameOutside (frames ++ frames') mem mem'' := by
  intro a ha
  rw [List.mem_append, not_or] at ha
  rw [h' a ha.2, h a ha.1]

theorem SameOutside.mono {frames frames' : List Nat} {mem mem' : ByteMem}
    (h : SameOutside frames mem mem') (hsub : ∀ p ∈ frames, p ∈ frames') :
    SameOutside frames' mem mem' :=
  fun a ha => h a fun hmem => ha (hsub _ hmem)

theorem SameOutside.tableWords {frames : List Nat} {mem mem' : ByteMem}
    (h : SameOutside frames mem mem') {p : Nat} (hp : p % 4096 = 0) (hmem : p ∉ frames) :
    tableWords mem' p = tableWords mem p := by
  refine List.map_congr_left fun i hi => ByteMem.read64_congr fun k hk => h _ ?_
  have hlt := List.mem_range.mp hi
  have hpage : pageStart (p + 8 * i + k) = p := by unfold pageStart; omega
  rwa [hpage]

theorem sameOutside_write (mem : ByteMem) {frame : Nat} (hframe : frame % 4096 = 0)
    {bs : List UInt8} (hlen : bs.length ≤ 4096) : SameOutside [frame] mem (mem.write frame bs) := by
  intro a ha
  rw [List.mem_singleton] at ha
  refine write_apply_of_not_mem mem ?_
  by_contra hin
  refine ha ?_
  unfold pageStart
  omega

theorem getElem?_tableWords (mem : ByteMem) (p : Nat) {i : Nat} (hi : i < 512) :
    (tableWords mem p)[i]? = some (mem.read64 (p + 8 * i)) := by
  unfold tableWords
  rw [List.getElem?_map, List.getElem?_range hi]
  rfl

theorem tableWords_write (mem : ByteMem) (frame : Nat) {ws : List Nat} (hlen : ws.length = 512)
    (hlt : ∀ w ∈ ws, w < 2 ^ 64) : tableWords (mem.write frame (Bytes.words ws)) frame = ws := by
  refine List.ext_getElem? fun i => ?_
  by_cases hi : i < 512
  · rw [getElem?_tableWords _ _ hi, read64_write_words mem frame hlt (by rw [hlen]; exact hi),
      List.getElem?_eq_getElem]
  · rw [List.getElem?_eq_none (by rw [length_tableWords]; omega),
      List.getElem?_eq_none (by rw [hlen]; omega)]

/-! ### One table -/

/-- What the pool hands out: distinct page-aligned frames. -/
structure PoolOk (pool : List Nat) : Prop where
  aligned : ∀ frame ∈ pool, frame % 4096 = 0
  bounded : ∀ frame ∈ pool, frame < 2 ^ 64
  nodup : pool.Nodup

theorem PoolOk.drop {pool : List Nat} (h : PoolOk pool) (n : Nat) : PoolOk (pool.drop n) where
  aligned := fun f hf => h.aligned f (List.mem_of_mem_drop hf)
  bounded := fun f hf => h.bounded f (List.mem_of_mem_drop hf)
  nodup := h.nodup.drop

theorem PoolOk.tail {frame : Nat} {pool : List Nat} (h : PoolOk (frame :: pool)) : PoolOk pool :=
  h.drop 1

theorem PoolOk.head_notMem {frame : Nat} {pool : List Nat} (h : PoolOk (frame :: pool)) :
    frame ∉ pool := (List.nodup_cons.mp h.nodup).1

/-- A page written last. -/
theorem SameOutside.write_page {frames : List Nat} {frame : Nat} {mem mem' : ByteMem}
    {bytes : List UInt8} (h : SameOutside frames mem mem') (haligned : frame % 4096 = 0)
    (hbytes : bytes.length ≤ 4096) :
    SameOutside (frame :: frames) mem (mem'.write frame bytes) := by
  refine (h.trans (sameOutside_write mem' haligned hbytes)).mono fun p hp => ?_
  rcases List.mem_append.mp hp with hp | hp
  · exact List.mem_cons_of_mem _ hp
  · rw [List.mem_singleton.mp hp]
    exact List.mem_cons_self

/-- The table at `oldPgd`, of `n` tables, has been built from machine `m`. -/
structure BuiltTree (old : ByteMem) (below oldPgd n offset : Nat) (m : Machine) (b : Built) :
    Prop where
  userPgd : b.userPgd = .node m.heap.length
  offset : b.offset + 513 = offset + 513 * n
  pool : b.machine.pool = m.pool.drop n
  nodes : b.machine.heap.map UserPgtable.physPage
    = m.heap.map UserPgtable.physPage ++ m.pool.take n
  keep : ∀ j, j < m.heap.length → b.machine.heap[j]? = m.heap[j]?
  frame : SameOutside (m.pool.take n) m.mem b.machine.mem
  walk : preorder b.machine.mem below b.pgd = m.pool.take n
  aligned : b.pgd % 4096 = 0
  copied : Copied old b.machine.mem b.machine.heap m.heap.length below oldPgd b.pgd m.heap.length

/-- The entries `ws` of a table, from entry `i` on, have been built from machine `m`: `u`
and `u'` are the table's node before and after, `n` the number of tables they took. -/
structure BuiltEntries (old : ByteMem) (below node i n offset : Nat) (ws : List Nat) (m : Machine)
    (u u' : UserPgtable) (r : List Nat × Nat × Machine) : Prop where
  length : r.1.length = ws.length
  lt : ∀ w ∈ r.1, w < 2 ^ 64
  offset : r.2.1 = offset + 513 * n
  pool : r.2.2.pool = m.pool.drop n
  nodes : r.2.2.heap.map UserPgtable.physPage
    = m.heap.map UserPgtable.physPage ++ m.pool.take n
  keep : ∀ j, j < m.heap.length → j ≠ node → r.2.2.heap[j]? = m.heap[j]?
  self : r.2.2.heap[node]? = some u' ∧ u'.physPage = u.physPage ∧ ∀ j, j < i → u'.pgd j = u.pgd j
  frame : SameOutside (m.pool.take n) m.mem r.2.2.mem
  walk : (r.1.flatMap fun w => if isTable w then preorder r.2.2.mem below (pageStart w) else [])
    = m.pool.take n
  entries : ∀ j w, ws[j]? = some w →
    (isTable w = false → r.1[j]? = some w) ∧
    (isTable w = true → ∃ frame child, frame % 4096 = 0 ∧ r.1[j]? = some (relink w frame) ∧
      u'.pgd (i + j) = .node child ∧
      Copied old r.2.2.mem r.2.2.heap (node + 1) below (pageStart w) frame child)

/-- Building the tables one level down, from every place in the array. -/
def BuildsBelow (old : ByteMem) (pgtValue : List Nat) (below : Nat)
    (next : Nat → Machine → Except Stop Built) : Prop :=
  ∀ (oldPgd : Nat) (pre post : List Nat) (m : Machine), WrittenTable old below oldPgd →
    pgtValue = pre ++ (blocks old below oldPgd ++ post) → PoolOk m.pool →
    (preorder old below oldPgd).length ≤ m.pool.length →
    ∃ b, next pre.length m = .ok b ∧
      BuiltTree old below oldPgd (preorder old below oldPgd).length pre.length m b

/-- How many tables the entries `ws` take. -/
def tablesBelow (old : ByteMem) (below : Nat) (ws : List Nat) : Nat :=
  (ws.flatMap fun w => if isTable w then preorder old below (pageStart w) else []).length

section Entries

variable {old : ByteMem} {below node : Nat} {pgtValue : List Nat}
  {next : Nat → Machine → Except Stop Built}

theorem getElem?_setPgd_self {m : Machine} {u : UserPgtable} (hu : m.heap[node]? = some u)
    (i : Nat) (p : UserPtr) :
    (m.setPgd node i p).heap[node]?
      = some { u with pgd := fun j => if j = i then p else u.pgd j } := by
  unfold Machine.setPgd
  rw [List.getElem?_modify_eq, hu]
  rfl

theorem getElem?_setPgd_ne (m : Machine) {j : Nat} (hj : j ≠ node) (i : Nat) (p : UserPtr) :
    (m.setPgd node i p).heap[j]? = m.heap[j]? := by
  unfold Machine.setPgd
  exact List.getElem?_modify_ne _ _ (Ne.symm hj)

theorem map_physPage_setPgd (m : Machine) (i : Nat) (p : UserPtr) :
    (m.setPgd node i p).heap.map UserPgtable.physPage = m.heap.map UserPgtable.physPage := by
  refine List.ext_getElem? fun j => ?_
  rw [List.getElem?_map, List.getElem?_map]
  by_cases hj : j = node
  · subst hj
    cases hu : m.heap[j]? with
    | none =>
        unfold Machine.setPgd
        rw [List.getElem?_modify_eq, hu]
        rfl
    | some u => rw [getElem?_setPgd_self hu]; rfl
  · rw [getElem?_setPgd_ne m hj]

theorem tablesBelow_cons_table {w : Nat} (ht : isTable w = true) (ws : List Nat) :
    tablesBelow old below (w :: ws)
      = (preorder old below (pageStart w)).length + tablesBelow old below ws := by
  unfold tablesBelow
  rw [List.flatMap_cons, if_pos ht, List.length_append]

theorem tablesBelow_cons_plain {w : Nat} (ht : ¬ isTable w = true) (ws : List Nat) :
    tablesBelow old below (w :: ws) = tablesBelow old below ws := by
  unfold tablesBelow
  rw [List.flatMap_cons, if_neg ht, List.nil_append]

/-- Frames handed out earlier are not handed out again. -/
theorem PoolOk.not_mem_later {pool : List Nat} (h : PoolOk pool) {n k p : Nat}
    (hp : p ∈ pool.take n) : p ∉ (pool.drop n).take k := by
  intro hlater
  have hsplit := h.nodup
  rw [← List.take_append_drop n pool] at hsplit
  exact (List.nodup_append.mp hsplit).2.2 p hp p (List.mem_of_mem_take hlater) rfl

/-- A walk over earlier frames sees nothing of later ones. -/
theorem walk_later {mem mem' : ByteMem} {pool : List Nat} (hpool : PoolOk pool) {n k below pgd : Nat}
    (hwalk : preorder mem below pgd = pool.take n)
    (hframe : SameOutside ((pool.drop n).take k) mem mem') :
    ∀ p ∈ preorder mem below pgd, tableWords mem' p = tableWords mem p := by
  intro p hp
  rw [hwalk] at hp
  exact hframe.tableWords (hpool.aligned p (List.mem_of_mem_take hp)) (hpool.not_mem_later hp)

theorem BuiltEntries.nil {i offset : Nat} {m : Machine} {u : UserPgtable}
    (hu : m.heap[node]? = some u) :
    BuiltEntries old below node i 0 offset [] m u u ([], offset, m) where
  length := rfl
  lt := by simp
  offset := rfl
  pool := rfl
  nodes := (List.append_nil _).symm
  keep := fun j _ _ => rfl
  self := ⟨hu, rfl, fun j _ => rfl⟩
  frame := SameOutside.refl _ _
  walk := rfl
  entries := by simp

/-- An entry that names a table, before entries that have been built. -/
theorem BuiltEntries.cons_table {i n k offset w : Nat} {ws : List Nat} {m : Machine}
    {u u' : UserPgtable} {b : Built} {r : List Nat × Nat × Machine} (hpool : PoolOk m.pool)
    (ht : isTable w = true) (hnode : node < m.heap.length)
    (hb : BuiltTree old below (pageStart w) n (offset + 513) m b)
    (hr : BuiltEntries old below node (i + 1) k b.offset ws (b.machine.setPgd node i b.userPgd)
      { u with pgd := fun j => if j = i then b.userPgd else u.pgd j } u' r) :
    BuiltEntries old below node i (n + k) offset (w :: ws) m u u'
      (relink w b.pgd :: r.1, r.2.1, r.2.2) := by
  have hheap : b.machine.heap.length = m.heap.length + (m.pool.take n).length := by
    have := congrArg List.length hb.nodes
    rwa [List.length_map, List.length_append, List.length_map] at this
  have hpool₁ : (b.machine.setPgd node i b.userPgd).pool = m.pool.drop n := hb.pool
  have hlen₁ : (b.machine.setPgd node i b.userPgd).heap.length = b.machine.heap.length :=
    List.length_modify ..
  have htake : m.pool.take (n + k) = m.pool.take n ++ (m.pool.drop n).take k := List.take_add
  have hframe : SameOutside ((m.pool.drop n).take k) b.machine.mem r.2.2.mem := hpool₁ ▸ hr.frame
  have hsame := walk_later hpool hb.walk hframe
  have hpgd : b.pgd ∈ m.pool := by
    have := preorder_self b.machine.mem below b.pgd
    rw [hb.walk] at this
    exact List.mem_of_mem_take this
  have hrelinked : isTable (relink w b.pgd) = true := by
    rw [isTable_relink w hb.aligned]
    exact ht
  exact {
    length := by rw [List.length_cons, List.length_cons, hr.length]
    lt := fun v hv => by
      rcases List.mem_cons.mp hv with rfl | hv
      · exact relink_lt hb.aligned (hpool.bounded _ hpgd)
      · exact hr.lt v hv
    offset := by
      have := hb.offset
      rw [hr.offset, Nat.mul_add]
      omega
    pool := by rw [hr.pool, hpool₁, List.drop_drop]
    nodes := by
      rw [hr.nodes, map_physPage_setPgd, hb.nodes, hpool₁, htake, List.append_assoc]
    keep := fun j hj hne => by
      rw [hr.keep j (by rw [hlen₁, hheap]; omega) hne, getElem?_setPgd_ne _ hne,
        hb.keep j hj]
    self := ⟨hr.self.1, hr.self.2.1, fun j hj => by
      rw [hr.self.2.2 j (Nat.lt_succ_of_lt hj)]
      exact if_neg (Nat.ne_of_lt hj)⟩
    frame := by
      rw [htake]
      exact hb.frame.trans hframe
    walk := by
      rw [List.flatMap_cons, if_pos hrelinked, pageStart_relink w hb.aligned,
        preorder_congr below b.pgd hsame, hb.walk, hr.walk, hpool₁, htake]
    entries := fun j v hv => by
      cases j with
      | zero =>
          obtain rfl : w = v := Option.some.inj hv
          refine ⟨fun hplain => absurd ht (by rw [hplain]; exact Bool.false_ne_true),
            fun _ => ⟨b.pgd, m.heap.length, hb.aligned, rfl, ?_, ?_⟩⟩
          · rw [Nat.add_zero, hr.self.2.2 i (Nat.lt_succ_self i)]
            show (if i = i then b.userPgd else _) = _
            rw [if_pos rfl, hb.userPgd]
          · refine hb.copied.mono hnode (fun k v hk hv => ?_) _ _ _ _ hsame
            have hkb := (List.getElem?_eq_some_iff.mp hv).1
            have hne : k ≠ node := Nat.ne_of_gt (Nat.lt_of_lt_of_le hnode hk)
            rw [hr.keep k (by rw [hlen₁]; exact hkb) hne, getElem?_setPgd_ne _ hne, hv]
      | succ j =>
          have := hr.entries j v hv
          rwa [Nat.add_right_comm, Nat.add_assoc] at this }

/-- An entry that names none is copied. -/
theorem BuiltEntries.cons_plain {i n offset w : Nat} {ws : List Nat} {m : Machine}
    {u u' : UserPgtable} {r : List Nat × Nat × Machine} (ht : ¬ isTable w = true)
    (hw : w < 2 ^ 64) (hr : BuiltEntries old below node (i + 1) n offset ws m u u' r) :
    BuiltEntries old below node i n offset (w :: ws) m u u' (w :: r.1, r.2.1, r.2.2) where
  length := by rw [List.length_cons, List.length_cons, hr.length]
  lt := fun v hv => by
    rcases List.mem_cons.mp hv with rfl | hv
    · exact hw
    · exact hr.lt v hv
  offset := hr.offset
  pool := hr.pool
  nodes := hr.nodes
  keep := hr.keep
  self := ⟨hr.self.1, hr.self.2.1, fun j hj => hr.self.2.2 j (Nat.lt_succ_of_lt hj)⟩
  frame := hr.frame
  walk := by
    rw [List.flatMap_cons, if_neg ht, List.nil_append]
    exact hr.walk
  entries := fun j v hv => by
    cases j with
    | zero =>
        obtain rfl : w = v := Option.some.inj hv
        exact ⟨fun _ => rfl, fun htv => absurd htv ht⟩
    | succ j =>
        have := hr.entries j v hv
        rwa [Nat.add_right_comm, Nat.add_assoc] at this

variable (hnext : BuildsBelow old pgtValue below next) (hlen : pgtValue.length < 2 ^ 32)

include hnext hlen

/-- **The loop over the entries builds the tables they name.** -/
theorem constructEntries_built :
    ∀ (ws : List Nat) (i offset : Nat) (m : Machine) (u : UserPgtable) (pre post : List Nat),
      (∀ w ∈ ws, w < 2 ^ 64) →
      (∀ w ∈ ws, isTable w = true → WrittenTable old below (pageStart w)) →
      m.heap[node]? = some u →
      pgtValue = pre ++ ((ws.flatMap fun w =>
        if isTable w then blocks old below (pageStart w) else []) ++ post) →
      pre.length = offset + 513 → PoolOk m.pool → tablesBelow old below ws ≤ m.pool.length →
      ∃ r u', constructEntries next (3 - (below + 1)) node i ws offset m = .ok r ∧
        BuiltEntries old below node i (tablesBelow old below ws) offset ws m u u' r := by
  intro ws
  induction ws with
  | nil =>
      intro i offset m u pre post _ _ hu _ _ _ _
      exact ⟨([], offset, m), u, rfl, BuiltEntries.nil hu⟩
  | cons w ws ih =>
      intro i offset m u pre post hlt hwritten hu hvalue hpre hpool hroom
      have hlt' : ∀ v ∈ ws, v < 2 ^ 64 := fun v hv => hlt v (List.mem_cons_of_mem _ hv)
      have hwritten' : ∀ v ∈ ws, isTable v = true → WrittenTable old below (pageStart v) :=
        fun v hv => hwritten v (List.mem_cons_of_mem _ hv)
      rw [constructEntries, pteIsValid_eq]
      by_cases ht : isTable w = true
      · rw [if_pos ht]
        rw [tablesBelow_cons_table ht] at hroom ⊢
        rw [List.flatMap_cons, if_pos ht, List.append_assoc] at hvalue
        have hcursor : (offset + 513) % 2 ^ 32 = pre.length := by
          have := congrArg List.length hvalue
          rw [List.length_append] at this
          rw [hpre, Nat.mod_eq_of_lt (by omega)]
        have hnode : node < m.heap.length := (List.getElem?_eq_some_iff.mp hu).1
        obtain ⟨b, hrunb, hb⟩ := hnext (pageStart w) pre _ m
          (hwritten w List.mem_cons_self ht) hvalue hpool (by omega)
        generalize hn : (preorder old below (pageStart w)).length = n at hb hroom ⊢
        have hu₁ := getElem?_setPgd_self ((hb.keep node hnode).trans hu) i b.userPgd
        have hpre₁ : (pre ++ blocks old below (pageStart w)).length = b.offset + 513 := by
          rw [List.length_append, length_blocks, hn, hb.offset]
        have hpool₁ : (b.machine.setPgd node i b.userPgd).pool = m.pool.drop n := hb.pool
        obtain ⟨r, u', hrun, hr⟩ := ih (i + 1) b.offset (b.machine.setPgd node i b.userPgd) _
          (pre ++ blocks old below (pageStart w)) post hlt' hwritten' hu₁
          (by rw [hvalue, List.append_assoc]) hpre₁
          (hpool₁ ▸ hpool.drop n) (by rw [hpool₁, List.length_drop]; omega)
        refine ⟨(relink w b.pgd :: r.1, r.2.1, r.2.2), u', ?_,
          BuiltEntries.cons_table hpool ht hnode (hpre ▸ hb) hr⟩
        rw [hcursor, hrunb, Except.ok_bind, hrun]
        rfl
      · rw [if_neg ht]
        rw [tablesBelow_cons_plain ht] at hroom ⊢
        rw [List.flatMap_cons, if_neg ht, List.nil_append] at hvalue
        obtain ⟨r, u', hrun, hr⟩ := ih (i + 1) offset m u pre post hlt' hwritten' hu hvalue hpre
          hpool hroom
        exact ⟨(w :: r.1, r.2.1, r.2.2), u', by rw [hrun]; rfl,
          BuiltEntries.cons_plain ht (hlt w List.mem_cons_self) hr⟩

end Entries

section Construct

variable {old : ByteMem} {pgtValue : List Nat} (junk : Nat → Nat → UserPtr)
  (hlen : pgtValue.length < 2 ^ 32)

theorem newTable_eq {m : Machine} {frame : Nat} {pool : List Nat} (hpool : m.pool = frame :: pool)
    (haligned : frame % 4096 = 0) :
    newTable junk m = .ok (frame,
      ⟨m.mem, pool, m.heap ++ [⟨frame, junk m.heap.length⟩]⟩) := by
  have hmap : grMapPage frame = .ok frame := if_neg (fun h => h haligned)
  unfold newTable allocPage
  rw [hpool]
  simp only [Except.ok_bind, hmap, Except.pure_eq_ok]

/-- What a new table takes, when there is one: the first frame of the pool, which is mapped and
therefore aligned. -/
theorem newTable_ok {m : Machine} {r : Nat × Machine} (hrun : newTable junk m = .ok r) :
    ∃ frame pool, m.pool = frame :: pool ∧ frame % 4096 = 0 ∧
      r = (frame, ⟨m.mem, pool, m.heap ++ [⟨frame, junk m.heap.length⟩]⟩) := by
  cases hfp : m.pool with
  | nil =>
      unfold newTable allocPage at hrun
      rw [hfp] at hrun
      exact absurd hrun.symm (Except.ok_ne_error _ _)
  | cons frame pool =>
      by_cases hframe : frame % 4096 = 0
      · rw [newTable_eq junk hfp hframe] at hrun
        exact ⟨frame, pool, rfl, hframe, (Except.ok.inj hrun).symm⟩
      · have hmap : grMapPage frame = .error (.abort " paddr is not aligned") := if_pos hframe
        unfold newTable allocPage at hrun
        rw [hfp, Except.ok_bind] at hrun
        dsimp only at hrun
        rw [hmap] at hrun
        exact absurd hrun.symm (Except.ok_ne_error _ _)

include hlen in
theorem oldPteValue_eq {pre ws post : List Nat} {header : Nat} (hws : ws.length = 512)
    (hvalue : pgtValue = pre ++ (header :: ws ++ post)) :
    oldPteValue pgtValue pre.length = .ok ws := by
  have hsize : pgtValue.length = pre.length + (513 + post.length) := by
    rw [hvalue, List.length_append, List.length_append, List.length_cons, hws]
  have hcursor : (pre.length + 1) % 2 ^ 32 = pre.length + 1 := Nat.mod_eq_of_lt (by omega)
  have hroom : pre.length + 1 + 512 ≤ pgtValue.length := by omega
  have hdrop : pgtValue.drop (pre.length + 1) = ws ++ post := by
    rw [hvalue, List.drop_append, List.drop_eq_nil_of_le (Nat.le_succ _), Nat.add_sub_cancel_left]
    rfl
  unfold oldPteValue
  rw [hcursor, if_pos hroom, hdrop, List.take_left' hws]

/-- The new page gets its entries last. -/
theorem finishTable_eq {frame : Nat} (haligned : frame % 4096 = 0) {ws : List Nat}
    (hws : ws.length = 512) (node offset : Nat) (m : Machine) :
    finishTable frame node (ws, offset, m) = .ok ⟨frame, .node node, offset,
      { m with mem := m.mem.write frame (Bytes.words ws) }⟩ := by
  have hwrite : grWritePhys m.mem frame (Bytes.words ws)
      = .ok (m.mem.write frame (Bytes.words ws)) :=
    grWritePhys_eq (by rw [haligned, Bytes.length_words, hws])
  have hwords : ws.flatMap (Bytes.le 8) = Bytes.words ws := rfl
  unfold finishTable
  simp only [hwords, hwrite, Except.ok_bind, Except.pure_eq_ok]

/-- There is a frame for the table itself. -/
theorem exists_cons_of_room {below oldPgd : Nat} {pool : List Nat}
    (hroom : (preorder old below oldPgd).length ≤ pool.length) :
    ∃ frame rest, pool = frame :: rest := by
  cases pool with
  | nil =>
      have hpos := List.length_pos_of_mem (preorder_self old below oldPgd)
      exact absurd hroom (Nat.not_le_of_lt hpos)
  | cons frame rest => exact ⟨frame, rest, rfl⟩

/-- A table is written when those its entries name have been built. -/
theorem BuiltTree.of_entries {below oldPgd c offset frame : Nat} {pool : List Nat} {m : Machine}
    {pgds : Nat → UserPtr} {u' : UserPgtable} {r : List Nat × Nat × Machine}
    (hpool : PoolOk m.pool) (hfp : m.pool = frame :: pool)
    (hr : BuiltEntries old below m.heap.length 0 c offset (tableWords old oldPgd)
      ⟨m.mem, pool, m.heap ++ [⟨frame, pgds⟩]⟩ ⟨frame, pgds⟩ u' r) :
    BuiltTree old (below + 1) oldPgd (c + 1) offset m ⟨frame, .node m.heap.length, r.2.1,
      { r.2.2 with mem := r.2.2.mem.write frame (Bytes.words r.1) }⟩ := by
  rw [hfp] at hpool
  have haligned := hpool.aligned frame List.mem_cons_self
  have htake : m.pool.take (c + 1) = frame :: pool.take c := by rw [hfp]; rfl
  have hlength : r.1.length = 512 := by rw [hr.length, length_tableWords]
  have hbytes : (Bytes.words r.1).length = 4096 := by rw [Bytes.length_words, hlength]
  have hself : tableWords (r.2.2.mem.write frame (Bytes.words r.1)) frame = r.1 :=
    tableWords_write r.2.2.mem frame hlength hr.lt
  have hother : ∀ p ∈ pool.take c,
      tableWords (r.2.2.mem.write frame (Bytes.words r.1)) p = tableWords r.2.2.mem p := by
    intro p hp
    have hin := List.mem_of_mem_take hp
    refine (sameOutside_write r.2.2.mem haligned (Nat.le_of_eq hbytes)).tableWords
      (hpool.tail.aligned p hin) ?_
    rw [List.mem_singleton]
    rintro rfl
    exact hpool.head_notMem hin
  -- what a table entry of the new table leads to has been handed out in the loop
  have hwalk : (r.1.flatMap fun w => if isTable w then preorder r.2.2.mem below (pageStart w)
      else []) = pool.take c := hr.walk
  have hchild : ∀ w ∈ r.1, isTable w = true →
      ∀ p ∈ preorder r.2.2.mem below (pageStart w), p ∈ pool.take c := by
    intro w hw ht p hp
    rw [← hwalk]
    refine List.mem_flatMap.mpr ⟨w, hw, ?_⟩
    rwa [if_pos ht]
  exact {
    userPgd := rfl
    offset := by
      show r.2.1 + 513 = _
      rw [hr.offset, Nat.mul_succ, Nat.add_assoc]
    pool := by
      show r.2.2.pool = _
      rw [hr.pool, hfp]
      rfl
    nodes := by
      show r.2.2.heap.map _ = _
      rw [hr.nodes, htake, List.map_append, List.append_assoc]
      rfl
    keep := fun j hj => by
      show r.2.2.heap[j]? = _
      rw [hr.keep j (by rw [List.length_append]; exact Nat.lt_succ_of_lt hj) (Nat.ne_of_lt hj)]
      exact List.getElem?_append_left hj
    frame := by
      rw [htake]
      exact hr.frame.write_page haligned (Nat.le_of_eq hbytes)
    walk := by
      have hbelow : (r.1.flatMap fun w => if isTable w then
          preorder (r.2.2.mem.write frame (Bytes.words r.1)) below (pageStart w) else [])
          = pool.take c := by
        refine (List.flatMap_congr fun w hw => ?_).trans hwalk
        by_cases ht : isTable w = true
        · rw [if_pos ht, if_pos ht]
          exact preorder_congr below _ fun p hp => hother p (hchild w hw ht p hp)
        · rw [if_neg ht, if_neg ht]
      rw [preorder, hself, hbelow, htake]
    aligned := haligned
    copied := by
      refine ⟨Nat.le_refl _, u', hr.self.1, hr.self.2.1, fun i w hw => ?_⟩
      obtain ⟨hplain, htable⟩ := hr.entries i w hw
      rw [hself]
      refine ⟨hplain, fun ht => ?_⟩
      obtain ⟨frame', child, hframe', hword, hptr, hcopied⟩ := htable ht
      rw [Nat.zero_add] at hptr
      refine ⟨frame', child, hframe', hword, hptr, hcopied.mono (Nat.le_succ _)
        (fun _ _ _ hv => hv) _ _ _ _ fun p hp => hother p ?_⟩
      refine hchild _ (List.mem_of_getElem? hword) ?_ p ?_
      · rw [isTable_relink w hframe']
        exact ht
      · rwa [pageStart_relink w hframe'] }

include hlen in
/-- **The reconstruction builds the recorded table.** -/
theorem grConstructPgt_built :
    ∀ below, BuildsBelow old pgtValue below (grConstructPgt junk pgtValue below) := by
  intro below
  induction below with
  | zero =>
      intro oldPgd pre post m hwritten hvalue hpool hroom
      obtain ⟨frame, pool, hfp⟩ := exists_cons_of_room hroom
      have haligned : frame % 4096 = 0 := hpool.aligned frame (by rw [hfp]; exact List.mem_cons_self)
      have hwords : ∀ w ∈ tableWords old oldPgd, w < 2 ^ 64 := fun w hw => (hwritten.2.2 w hw).lt
      have hlength : (tableWords old oldPgd).length = 512 := length_tableWords old oldPgd
      have hbytes : (Bytes.words (tableWords old oldPgd)).length = 4096 := by
        rw [Bytes.length_words, hlength]
      refine ⟨⟨frame, .node m.heap.length, pre.length,
        ⟨m.mem.write frame (Bytes.words (tableWords old oldPgd)), pool,
          m.heap ++ [⟨frame, junk m.heap.length⟩]⟩⟩, ?_, {
        userPgd := rfl
        offset := rfl
        pool := by rw [hfp]; rfl
        nodes := by rw [hfp, List.map_append]; rfl
        keep := fun j hj => List.getElem?_append_left hj
        frame := by rw [hfp]; exact sameOutside_write m.mem haligned (Nat.le_of_eq hbytes)
        walk := by rw [hfp]; rfl
        aligned := haligned
        copied := ⟨Nat.le_refl _, ⟨_, List.getElem?_concat_length .., rfl⟩,
          tableWords_write m.mem frame (length_tableWords ..) hwords⟩ }⟩
      rw [grConstructPgt, newTable_eq junk hfp haligned, Except.ok_bind]
      simp only
      rw [oldPteValue_eq hlen (length_tableWords ..) hvalue, Except.ok_bind]
      exact finishTable_eq haligned hlength m.heap.length pre.length _
  | succ below ih =>
      intro oldPgd pre post m hwritten hvalue hpool hroom
      obtain ⟨-, -, hwords, htables⟩ := hwritten
      obtain ⟨frame, pool, hfp⟩ := exists_cons_of_room hroom
      have hpool' : PoolOk (frame :: pool) := hfp ▸ hpool
      have haligned := hpool'.aligned frame List.mem_cons_self
      have hcount : (preorder old (below + 1) oldPgd).length
          = tablesBelow old below (tableWords old oldPgd) + 1 := by
        rw [preorder, List.length_cons, tablesBelow]
      rw [hcount]
      rw [hcount, hfp, List.length_cons] at hroom
      -- the loop runs with the new frame gone from the pool and the new node at the end
      obtain ⟨r, u', hrun, hr⟩ := constructEntries_built ih hlen
        (tableWords old oldPgd) 0 pre.length
        ⟨m.mem, pool, m.heap ++ [⟨frame, junk m.heap.length⟩]⟩ _
        (pre ++ ((oldPgd ||| (3 - (below + 1))) :: tableWords old oldPgd)) post
        (fun w hw => (hwords w hw).lt) htables (List.getElem?_concat_length ..)
        (by rw [hvalue, blocks, ← List.cons_append, List.append_assoc, List.append_assoc])
        (by rw [List.length_append, List.length_cons, length_tableWords]) hpool'.tail
        (Nat.le_of_succ_le_succ hroom)
      have hlength : r.1.length = 512 := by rw [hr.length, length_tableWords]
      refine ⟨_, ?_, BuiltTree.of_entries hpool hfp hr⟩
      rw [grConstructPgt, newTable_eq junk hfp haligned, Except.ok_bind]
      simp only
      rw [oldPteValue_eq hlen (length_tableWords ..) (by rw [hvalue, blocks, ← List.cons_append,
        List.append_assoc]), Except.ok_bind, hrun, Except.ok_bind]
      exact finishTable_eq haligned hlength m.heap.length r.2.1 r.2.2

end Construct

end GpuReplay.Replayer
