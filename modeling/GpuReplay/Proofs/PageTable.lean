/-
What the replayer rebuilds from a page-table dump.

`grPgtInit_iff` is the round trip.  It holds as long as the size of the dump fits the
`unsigned int` that `file_write` takes it through; a longer dump is cut, and then the
reader never comes to the end marker.  A table of the size that is cut is laid out in
pre-order at the end.
-/
import GpuReplay.Proofs.ConstructPgt

namespace GpuReplay.Replayer

open Stdio Driver ByteMem

/-! ### Reading the dump -/

/-- The read loop takes the words before the end marker, and the marker. -/
theorem readPgtValue_eq (rest : List UInt8) :
    ∀ (ws slots : List Nat), (∀ w ∈ ws, w < 2 ^ 64 ∧ w ≠ endMarker) → ws.length < slots.length →
      readPgtValue slots ⟨Bytes.words (ws ++ [endMarker]) ++ rest, false⟩
        = .ok (ws ++ endMarker :: slots.drop (ws.length + 1), ws.length, ⟨rest, false⟩) := by
  intro ws
  induction ws with
  | nil =>
      intro slots _ hlen
      obtain ⟨old, slots, rfl⟩ := List.exists_cons_of_length_pos hlen
      have hmarker : (endMarker : Nat) < 256 ^ 8 := by decide
      have hread := Stream.readWord_le hmarker old rest false
      have hwords : Bytes.words ([] ++ [endMarker]) ++ rest = Bytes.le 8 endMarker ++ rest := rfl
      rw [readPgtValue, hwords, if_neg Bool.false_ne_true, hread]
      exact if_pos rfl
  | cons w ws ih =>
      intro slots h hlen
      obtain ⟨old, slots, rfl⟩ := List.exists_cons_of_length_pos (Nat.zero_lt_of_lt hlen)
      obtain ⟨hlt, hne⟩ := h w List.mem_cons_self
      have hread := Stream.readWord_le (show w < 256 ^ 8 from hlt) old
        (Bytes.words (ws ++ [endMarker]) ++ rest) false
      have hwords : Bytes.words (w :: ws ++ [endMarker]) ++ rest
          = Bytes.le 8 w ++ (Bytes.words (ws ++ [endMarker]) ++ rest) := by
        rw [List.cons_append, Bytes.words_cons, List.append_assoc]
      have hne' : ¬ w = 0xFFFFFFFFFF := hne
      rw [readPgtValue, hwords, if_neg Bool.false_ne_true, hread]
      simp only
      rw [if_neg hne', ih slots (fun v hv => h v (List.mem_cons_of_mem _ hv))
        (Nat.lt_of_succ_lt_succ hlen)]
      rfl

/-- A read loop that has not come to the end of the file has read all it counted, and
one word more. -/
theorem readPgtValue_consumed {vals : List Nat} {f' : Stream} :
    ∀ (slots : List Nat) {cnt : Nat} {f : Stream}, readPgtValue slots f = .ok (vals, cnt, f') →
      f'.eof = false → f.eof = false ∧ f.rest.length = 8 * (cnt + 1) + f'.rest.length := by
  intro slots
  induction slots generalizing vals with
  | nil =>
      intro cnt f hrun heof
      rw [readPgtValue] at hrun
      by_cases hf : f.eof = true
      · rw [if_pos hf] at hrun
        cases hrun
        exact absurd hf (by rw [heof]; exact Bool.false_ne_true)
      · rw [if_neg hf] at hrun
        exact absurd hrun (by simp)
  | cons old slots ih =>
      intro cnt f hrun heof
      rw [readPgtValue] at hrun
      by_cases hf : f.eof = true
      · rw [if_pos hf] at hrun
        cases hrun
        exact absurd hf (by rw [heof]; exact Bool.false_ne_true)
      · rw [if_neg hf] at hrun
        simp only at hrun
        by_cases hmarker : (f.readWord 8 old).1 = 0xFFFFFFFFFF
        · rw [if_pos hmarker] at hrun
          cases hrun
          exact Stream.length_of_readWord_eof heof
        · rw [if_neg hmarker] at hrun
          obtain ⟨⟨vals', cnt', f''⟩, hrest, hdone⟩ := Except.bind_eq_ok.mp hrun
          cases hdone
          obtain ⟨heof₁, hlen₁⟩ := ih hrest heof
          obtain ⟨heof₀, hlen₀⟩ := Stream.length_of_readWord_eof heof₁
          refine ⟨heof₀, ?_⟩
          show f.rest.length = 8 * (cnt' + 1 + 1) + f''.rest.length
          have hrest' : (f.readWord 8 old).2.rest.length = 8 * (cnt' + 1) + f''.rest.length := hlen₁
          omega

/-- **No word of a dump is the end marker.** -/
theorem blocks_ok {mem : ByteMem} :
    ∀ (below pgd : Nat), WrittenTable mem below pgd →
      ∀ w ∈ blocks mem below pgd, w < 2 ^ 64 ∧ w ≠ endMarker := by
  have hheader : ∀ {pgd level : Nat}, pgd % 4096 = 0 → pgd < 2 ^ 48 → level ≤ 3 →
      pgd ||| level < 2 ^ 64 ∧ pgd ||| level ≠ endMarker := by
    intro pgd level haligned hlt hlevel
    refine ⟨Nat.or_lt_two_pow (by omega) (by omega), fun hmarker => ?_⟩
    have hbit : (pgd ||| level).testBit 5 = false := by
      rw [Nat.testBit_or, testBit_aligned haligned (by decide),
        Nat.testBit_lt_two_pow (by omega), Bool.or_false]
    rw [hmarker] at hbit
    exact absurd hbit (by decide)
  intro below
  induction below with
  | zero =>
      intro pgd h w hw
      obtain ⟨haligned, hlt, hwords⟩ := h
      rw [blocks] at hw
      rcases List.mem_cons.mp hw with rfl | hw
      · exact hheader haligned hlt (Nat.le_refl 3)
      · exact ⟨(hwords w hw).lt, (hwords w hw).ne_endMarker⟩
  | succ below ih =>
      intro pgd h w hw
      obtain ⟨haligned, hlt, hwords, htables⟩ := h
      rw [blocks] at hw
      rcases List.mem_cons.mp hw with rfl | hw
      · exact hheader haligned hlt (Nat.sub_le ..)
      · rcases List.mem_append.mp hw with hw | hw
        · exact ⟨(hwords w hw).lt, (hwords w hw).ne_endMarker⟩
        · obtain ⟨v, hv, hw⟩ := List.mem_flatMap.mp hw
          by_cases ht : isTable v = true
          · rw [if_pos ht] at hw
            exact ih (pageStart v) (htables v hv ht) w hw
          · rw [if_neg ht] at hw
            exact absurd hw (by simp)

/-! ### The round trip -/

/-- A recorded page table, a counter of its pages, and a pool to rebuild it from. -/
structure PgtInput (old : ByteMem) (setup : MmuSetup) (pgd pgtNrPages : Nat) (m : Machine) :
    Prop where
  written : WrittenTable old 3 pgd
  /-- The tables form a tree: none is visited twice. -/
  tree : (preorder old 3 pgd).Nodup
  counter : (preorder old 3 pgd).length ≤ pgtNrPages ∧ pgtNrPages < 2 ^ 22
  setup : setup.transtab < 2 ^ 64 ∧ setup.memattr < 2 ^ 64 ∧ setup.transcfg < 2 ^ 64
  pool : PoolOk m.pool
  room : (preorder old 3 pgd).length ≤ m.pool.length

/-- `gr_pgt_init` has rebuilt the recorded table, a frame and a node for each of its
tables in pre-order, and stopped at the end marker. -/
structure PgtRebuilt (old : ByteMem) (setup : MmuSetup) (pgd : Nat) (m : Machine) (r : PgtInit) :
    Prop where
  oldPgd : r.oldPgd = setup.transtab
  stopped : r.cnt = 513 * (preorder old 3 pgd).length ∧ r.eof = false
  offset : r.offset = 513 * ((preorder old 3 pgd).length - 1)
  pool : r.machine.pool = m.pool.drop (preorder old 3 pgd).length
  frames : preorder r.machine.mem 3 r.newPgd = m.pool.take (preorder old 3 pgd).length
  nodes : r.machine.heap.map UserPgtable.physPage
    = m.heap.map UserPgtable.physPage ++ m.pool.take (preorder old 3 pgd).length
  userPgt : r.userPgt = .node m.heap.length
  copied : Copied old r.machine.mem r.machine.heap m.heap.length 3 pgd r.newPgd m.heap.length

section RoundTrip

variable {old : ByteMem} {setup : MmuSetup} {pgd pgtNrPages : Nat} {m : Machine}
  (h : PgtInput old setup pgd pgtNrPages m) (junk : PgtJunk)

include h

/-- The complete dump is read and rebuilt. -/
theorem grPgtInit_complete :
    ∃ r, grPgtInit junk m (Bytes.words (pgtWords old setup pgd pgtNrPages)) = .ok r ∧
      PgtRebuilt old setup pgd m r := by
  have hcount := length_blocks old 3 pgd
  obtain ⟨hcounter, hbound⟩ := h.counter
  generalize hn : (preorder old 3 pgd).length = n at hcount hcounter
  have hremained : pgtRemained (40 + 4104 * pgtNrPages) = 513 * pgtNrPages + 1 := by
    unfold pgtRemained
    omega
  have hslots : ((List.range (pgtRemained (40 + 4104 * pgtNrPages))).map junk.word).length
      = 513 * pgtNrPages + 1 := by rw [List.length_map, List.length_range, hremained]
  have hread := readPgtValue_eq [] (blocks old 3 pgd)
    ((List.range (pgtRemained (40 + 4104 * pgtNrPages))).map junk.word)
    (blocks_ok 3 pgd h.written) (by rw [hslots, hcount]; omega)
  rw [List.append_nil] at hread
  have hsize : ((blocks old 3 pgd) ++ endMarker :: (((List.range (pgtRemained
      (40 + 4104 * pgtNrPages))).map junk.word).drop ((blocks old 3 pgd).length + 1))).length
      < 2 ^ 32 := by
    rw [List.length_append, List.length_cons, List.length_drop, hslots, hcount]
    omega
  generalize ((List.range (pgtRemained (40 + 4104 * pgtNrPages))).map junk.word).drop
    ((blocks old 3 pgd).length + 1) = unread at hread hsize
  obtain ⟨b, hbuild, hb⟩ := grConstructPgt_built junk.node hsize 3 pgd [] _ m h.written
    (List.nil_append _).symm h.pool h.room
  rw [List.length_nil] at hbuild
  have hheader : 40 + 4104 * pgtNrPages < 256 ^ 8 := by show _ < 2 ^ 64; omega
  have hfile : Bytes.words (pgtWords old setup pgd pgtNrPages)
      = Bytes.le 8 (40 + 4104 * pgtNrPages) ++ (Bytes.le 8 setup.transtab ++
          (Bytes.le 8 setup.memattr ++ (Bytes.le 8 setup.transcfg ++
            Bytes.words (blocks old 3 pgd ++ [endMarker])))) := by
    rw [pgtWords, List.cons_append, List.cons_append, List.cons_append, List.cons_append,
      List.nil_append, Bytes.words_cons, Bytes.words_cons, Bytes.words_cons, Bytes.words_cons]
  refine ⟨⟨setup.transtab, b.pgd, b.userPgd, b.machine, blocks old 3 pgd ++ endMarker :: unread,
    (blocks old 3 pgd).length, b.offset, false⟩, ?_, {
      oldPgd := rfl
      stopped := ⟨by rw [hcount, hn], rfl⟩
      offset := by
        have := hb.offset
        rw [List.length_nil, hn] at this
        rw [hn]
        show b.offset = _
        omega
      pool := hb.pool
      frames := hb.walk
      nodes := hb.nodes
      userPgt := hb.userPgd
      copied := hb.copied }⟩
  unfold grPgtInit Stream.open
  rw [hfile]
  simp only [Stream.readWord_le hheader,
    Stream.readWord_le (show setup.transtab < 256 ^ 8 from h.setup.1),
    Stream.readWord_le (show setup.memattr < 256 ^ 8 from h.setup.2.1),
    Stream.readWord_le (show setup.transcfg < 256 ^ 8 from h.setup.2.2), hread, Except.ok_bind,
    hbuild, Except.pure_eq_ok]

omit h in
/-- A run that stops at an end marker has read it, and everything before it. -/
theorem length_of_stopped {file : List UInt8} {r : PgtInit} (hrun : grPgtInit junk m file = .ok r)
    (heof : r.eof = false) : 40 + 8 * r.cnt ≤ file.length := by
  unfold grPgtInit at hrun
  simp only at hrun
  obtain ⟨⟨vals, cnt, f⟩, hread, hrun⟩ := Except.bind_eq_ok.mp hrun
  obtain ⟨b, -, hdone⟩ := Except.bind_eq_ok.mp hrun
  cases hdone
  obtain ⟨heof₄, hlen₄⟩ := readPgtValue_consumed _ hread heof
  obtain ⟨heof₃, hlen₃⟩ := Stream.length_of_readWord_eof heof₄
  obtain ⟨heof₂, hlen₂⟩ := Stream.length_of_readWord_eof heof₃
  obtain ⟨heof₁, hlen₁⟩ := Stream.length_of_readWord_eof heof₂
  obtain ⟨-, hlen₀⟩ := Stream.length_of_readWord_eof heof₁
  have hopen : (Stream.open file).rest.length = file.length := rfl
  show 40 + 8 * cnt ≤ file.length
  omega

/-- A dump that reads back whole was not cut. -/
theorem fits_of_rebuilt {file : List UInt8} {r : PgtInit}
    (hfile : grMmuDump old setup pgd pgtNrPages = .ok file) (hrun : grPgtInit junk m file = .ok r)
    (hr : PgtRebuilt old setup pgd m r) :
    40 + 4104 * (preorder old 3 pgd).length ≤ maxRwCount := by
  rw [grMmuDump_eq old setup h.written h.counter.1] at hfile
  have hread := length_of_stopped junk hrun hr.stopped.2
  rw [hr.stopped.1, ← Except.ok.inj hfile, List.length_take] at hread
  omega

/-- **A page table survives the dump and the rebuild exactly when one call stores the dump.** -/
theorem grPgtInit_iff :
    (∃ file r, grMmuDump old setup pgd pgtNrPages = .ok file ∧ grPgtInit junk m file = .ok r ∧
      PgtRebuilt old setup pgd m r)
      ↔ 40 + 4104 * (preorder old 3 pgd).length ≤ maxRwCount := by
  have hlen : (Bytes.words (pgtWords old setup pgd pgtNrPages)).length
      = 40 + 4104 * (preorder old 3 pgd).length := by
    rw [Bytes.length_words, length_pgtWords]
  constructor
  · rintro ⟨file, r, hfile, hrun, hr⟩
    exact fits_of_rebuilt h junk hfile hrun hr
  · intro hfits
    obtain ⟨r, hrun, hr⟩ := grPgtInit_complete h junk
    refine ⟨_, r, grMmuDump_eq old setup h.written h.counter.1, ?_, hr⟩
    rw [Nat.mod_eq_of_lt (Nat.lt_of_le_of_lt hfits (by decide)), Nat.min_eq_left hfits,
      List.take_of_length_le (Nat.le_of_eq hlen)]
    exact hrun

end RoundTrip

/-! ### Tables laid out in pre-order -/

section Layout

/-- The memory whose page `p` holds the words `f p 0`, `f p 1`, ... -/
def pageMem (f : Nat → Nat → Nat) : ByteMem := ofWords fun k => f (k / 512) (k % 512)

/-- `n` pages from page `q` on. -/
def frames (q n : Nat) : List Nat := (List.range' q n).map (4096 * ·)

/-- The word of a table whose first `c` children take `s` consecutive pages each, after
the table's own page. -/
def childWord (p c s i : Nat) : Nat :=
  if i < c then entrySetPte (4096 * (p + 1 + i * s)) else entryInvalidate

/-- The table in page `p` takes the pages from `p` on, `n` of them, in pre-order. -/
structure LaidOut (mem : ByteMem) (below p n : Nat) : Prop where
  written : WrittenTable mem below (4096 * p)
  pages : preorder mem below (4096 * p) = frames p n

variable {f : Nat → Nat → Nat} {p c s : Nat}

theorem nodup_frames (q n : Nat) : (frames q n).Nodup := by
  refine (List.nodup_range' (s := q) (n := n)).map fun a b hab => ?_
  have hab : 4096 * a = 4096 * b := hab
  omega

theorem writtenWord_childWord (level i : Nat) (hlt : p + 1 + c * s < 2 ^ 36) :
    WrittenWord level (childWord p c s i) := by
  unfold childWord
  by_cases hc : i < c
  · rw [if_pos hc]
    have hle : i * s ≤ c * s := Nat.mul_le_mul_right s (Nat.le_of_lt hc)
    exact .pte (by omega) (by omega)
  · rw [if_neg hc]
    exact .invalidate

theorem read64_pageMem {i : Nat} (hi : i < 512) (hlt : f p i < 2 ^ 64) :
    (pageMem f).read64 (4096 * p + 8 * i) = f p i := by
  have haddr : 4096 * p + 8 * i = 8 * (512 * p + i) := by omega
  have hdiv : (512 * p + i) / 512 = p := by omega
  have hmod : (512 * p + i) % 512 = i := by omega
  have hword : f ((512 * p + i) / 512) ((512 * p + i) % 512) = f p i := by rw [hdiv, hmod]
  rw [haddr, pageMem, read64_ofWords (by rw [hword]; exact hlt), hword]

theorem tableWords_pageMem (hlt : ∀ i, i < 512 → f p i < 2 ^ 64) :
    tableWords (pageMem f) (4096 * p) = (List.range 512).map (f p) := by
  unfold tableWords
  refine List.map_congr_left fun i hi => ?_
  have hi := List.mem_range.mp hi
  exact read64_pageMem hi (hlt i hi)

theorem tableWords_childWord (hwords : ∀ i, i < 512 → f p i = childWord p c s i)
    (hlt : p + 1 + c * s < 2 ^ 36) :
    tableWords (pageMem f) (4096 * p) = (List.range 512).map (childWord p c s) := by
  rw [tableWords_pageMem fun i hi => by rw [hwords i hi]; exact (writtenWord_childWord 0 i hlt).lt]
  exact List.map_congr_left fun i hi => hwords i (List.mem_range.mp hi)

/-- Consecutive runs of pages are one run. -/
theorem flatMap_range' (q s : Nat) :
    ∀ c, ((List.range c).flatMap fun i => List.range' (q + i * s) s) = List.range' q (c * s) := by
  intro c
  induction c with
  | zero => rw [Nat.zero_mul]; rfl
  | succ c ih =>
      rw [List.range_succ, List.flatMap_append, ih, List.flatMap_singleton, Nat.succ_mul,
        List.range'_append_1]

/-- A table of the lowest level. -/
theorem laidOut_zero (hwords : ∀ i, i < 512 → WrittenWord 3 (f p i)) (hlt : p < 2 ^ 36) :
    LaidOut (pageMem f) 0 p 1 where
  written := by
    refine ⟨by omega, by omega, fun w hw => ?_⟩
    rw [tableWords_pageMem fun i hi => (hwords i hi).lt] at hw
    obtain ⟨i, hi, rfl⟩ := List.mem_map.mp hw
    exact hwords i (List.mem_range.mp hi)
  pages := rfl

theorem isTable_childWord (p : Nat) {c : Nat} (s i : Nat) :
    isTable (childWord p c s i) = decide (i < c) := by
  rw [isTable_eq]
  unfold childWord
  by_cases hc : i < c
  · rw [if_pos hc, entrySetPte_eq (by omega), decide_eq_true hc, decide_eq_true (by omega)]
  · rw [if_neg hc, decide_eq_false hc]
    rfl

theorem pageStart_childWord (p s : Nat) {i : Nat} (hc : i < c) :
    pageStart (childWord p c s i) = 4096 * (p + 1 + i * s) := by
  unfold childWord
  rw [if_pos hc, entrySetPte_eq (by omega)]
  unfold pageStart
  omega

/-- A table whose children are laid out is laid out. -/
theorem laidOut_succ {below : Nat} (hwords : ∀ i, i < 512 → f p i = childWord p c s i)
    (hc : c ≤ 512) (hlt : p + 1 + c * s < 2 ^ 36)
    (hchildren : ∀ i, i < c → LaidOut (pageMem f) below (p + 1 + i * s) s) :
    LaidOut (pageMem f) (below + 1) p (1 + c * s) where
  written := by
    have hp : p + 1 ≤ p + 1 + c * s := Nat.le_add_right _ _
    refine ⟨by omega, by omega, fun w hw => ?_, fun w hw ht => ?_⟩
    all_goals
      rw [tableWords_childWord hwords hlt] at hw
      obtain ⟨i, -, rfl⟩ := List.mem_map.mp hw
    · exact writtenWord_childWord _ i hlt
    · rw [isTable_childWord] at ht
      have hchild := of_decide_eq_true ht
      rw [pageStart_childWord p s hchild]
      exact (hchildren i hchild).written
  pages := by
    have hsplit : List.range 512 = List.range c ++ (List.range (512 - c)).map (c + ·) := by
      rw [← List.range_add, Nat.add_sub_cancel' hc]
    have hfirst : ((List.range c).flatMap fun i => if isTable (childWord p c s i) then
          preorder (pageMem f) below (pageStart (childWord p c s i)) else [])
        = (List.range' (p + 1) (c * s)).map (4096 * ·) := by
      rw [← flatMap_range', List.map_flatMap]
      refine List.flatMap_congr fun i hi => ?_
      have hi := List.mem_range.mp hi
      rw [isTable_childWord, if_pos (decide_eq_true hi), pageStart_childWord p s hi,
        (hchildren i hi).pages, frames]
    have hrest : (((List.range (512 - c)).map (c + ·)).flatMap fun i =>
        if isTable (childWord p c s i) then
          preorder (pageMem f) below (pageStart (childWord p c s i)) else []) = [] := by
      refine List.flatMap_eq_nil_iff.mpr fun i hi => ?_
      obtain ⟨j, -, rfl⟩ := List.mem_map.mp hi
      rw [isTable_childWord, decide_eq_false (Nat.not_lt.mpr (Nat.le_add_right c j)),
        if_neg Bool.false_ne_true]
    rw [preorder, tableWords_childWord hwords hlt, List.flatMap_map, hsplit, List.flatMap_append,
      hfirst, hrest, List.append_nil, frames, Nat.add_comm 1, List.range'_succ, List.map_cons]

theorem LaidOut.length {mem : ByteMem} {below n : Nat} (h : LaidOut mem below p n) :
    (preorder mem below (4096 * p)).length = n := by
  rw [h.pages, frames, List.length_map, List.length_range']

theorem LaidOut.nodup {mem : ByteMem} {below n : Nat} (h : LaidOut mem below p n) :
    (preorder mem below (4096 * p)).Nodup := by
  rw [h.pages]
  exact nodup_frames p n

theorem length_frames_range (q n : Nat) : (frames q n).length = n := by
  unfold frames
  rw [List.length_map, List.length_range']

theorem poolOk_frames {q n : Nat} (h : q + n ≤ 2 ^ 52) : PoolOk (frames q n) where
  aligned := fun frame hf => by
    obtain ⟨k, -, rfl⟩ := List.mem_map.mp hf
    exact Nat.mul_mod_right 4096 k
  bounded := fun frame hf => by
    obtain ⟨k, hk, rfl⟩ := List.mem_map.mp hf
    have := (List.mem_range'_1.mp hk).2
    show 4096 * k < 2 ^ 64
    omega
  nodup := nodup_frames q n

/-- A laid out table, with its own pages counted and as many frames in the pool. -/
theorem LaidOut.pgtInput {mem : ByteMem} {n : Nat} (h : LaidOut mem 3 p n) (hn : n < 2 ^ 22) :
    PgtInput mem ⟨4096 * p, 0, 0⟩ (4096 * p) n ⟨fun _ => 0, frames 1 n, []⟩ where
  written := h.written
  tree := h.nodup
  counter := ⟨Nat.le_of_eq h.length, hn⟩
  setup := ⟨Nat.lt_of_lt_of_le h.written.aligned.2 (by decide), Nat.two_pow_pos 64, Nat.two_pow_pos 64⟩
  pool := poolOk_frames (by omega)
  room := by
    show _ ≤ (frames 1 n).length
    rw [h.length, frames, List.length_map, List.length_range']

end Layout

/-- Variables that happen to hold zeros, and nodes that happen to hold no pointers. -/
def zeroJunk : PgtJunk := ⟨0, 0, 0, 0, fun _ => 0, fun _ _ => .null⟩

/-- A root without children. -/
theorem laidOut_root : LaidOut (pageMem fun _ _ => entryInvalidate) 3 1 1 :=
  laidOut_succ (f := fun _ _ => entryInvalidate) (c := 0) (s := 0)
    (fun _ _ => rfl) (Nat.zero_le _) (by decide) (fun i hi => absurd hi (Nat.not_lt_zero i))

/-- The table of one page survives. -/
theorem root_rebuilt :
    40 + 4104 * (preorder (pageMem fun _ _ => entryInvalidate) 3 (4096 * 1)).length
      ≤ maxRwCount ∧
    ∃ file r, grMmuDump (pageMem fun _ _ => entryInvalidate) ⟨4096 * 1, 0, 0⟩ (4096 * 1) 1 = .ok file ∧
      grPgtInit zeroJunk ⟨fun _ => 0, frames 1 1, []⟩ file = .ok r ∧
      PgtRebuilt (pageMem fun _ _ => entryInvalidate) ⟨4096 * 1, 0, 0⟩ (4096 * 1)
        ⟨fun _ => 0, frames 1 1, []⟩ r := by
  have hfits : 40 + 4104 * (preorder (pageMem fun _ _ => entryInvalidate) 3 (4096 * 1)).length
      ≤ maxRwCount := by
    rw [laidOut_root.length]
    decide
  exact ⟨hfits, (grPgtInit_iff (laidOut_root.pgtInput (by decide)) zeroJunk).mpr hfits⟩

/-! ### A table too large for its dump -/

/-- The words of a table of 525315 pages, in pre-order from page 1 on: two full trees of three
levels, of 262657 pages each, below the root. -/
def wideWord (p i : Nat) : Nat :=
  if p = 1 then childWord p 2 262657 i
  else if (p - 2) % 262657 = 0 then childWord p 512 513 i
  else if ((p - 2) % 262657 - 1) % 513 = 0 then childWord p 512 1 i
  else entryInvalidate

theorem laidOut_wide : LaidOut (pageMem wideWord) 3 1 525315 := by
  refine laidOut_succ (c := 2) (s := 262657) (fun _ _ => if_pos rfl) (by decide) (by decide)
    fun j hj => ?_
  refine laidOut_succ (c := 512) (s := 513) (fun i _ => ?_) (by decide) (by omega) fun k hk => ?_
  · have hroot : 1 + 1 + j * 262657 ≠ 1 := by omega
    have hmod : (1 + 1 + j * 262657 - 2) % 262657 = 0 := by omega
    rw [wideWord, if_neg hroot, if_pos hmod]
  refine laidOut_succ (c := 512) (s := 1) (fun i _ => ?_) (by decide) (by omega) fun l hl => ?_
  · have hroot : 1 + 1 + j * 262657 + 1 + k * 513 ≠ 1 := by omega
    have hmod : (1 + 1 + j * 262657 + 1 + k * 513 - 2) % 262657 = 1 + k * 513 := by omega
    have hnot : ¬ 1 + k * 513 = 0 := by omega
    have hmod' : (1 + k * 513 - 1) % 513 = 0 := by omega
    rw [wideWord, if_neg hroot, hmod, if_neg hnot, if_pos hmod']
  refine laidOut_zero (fun i _ => ?_) (by omega)
  have hword : WrittenWord 3 entryInvalidate := .invalidate
  have hroot : 1 + 1 + j * 262657 + 1 + k * 513 + 1 + l * 1 ≠ 1 := by omega
  have hmod : (1 + 1 + j * 262657 + 1 + k * 513 + 1 + l * 1 - 2) % 262657 = 1 + k * 513 + 1 + l := by
    omega
  have hnot : ¬ 1 + k * 513 + 1 + l = 0 := by omega
  have hmod' : ¬ (1 + k * 513 + 1 + l - 1) % 513 = 0 := by omega
  rwa [wideWord, if_neg hroot, hmod, if_neg hnot, if_neg hmod']

/-- Its dump is cut 8413248 bytes before its end, and does not read back. -/
theorem wide_not_rebuilt :
    PgtInput (pageMem wideWord) ⟨4096 * 1, 0, 0⟩ (4096 * 1) 525315
      ⟨fun _ => 0, frames 1 525315, []⟩ ∧
    ¬ ∃ file r, grMmuDump (pageMem wideWord) ⟨4096 * 1, 0, 0⟩ (4096 * 1) 525315 = .ok file ∧
      grPgtInit zeroJunk ⟨fun _ => 0, frames 1 525315, []⟩ file = .ok r ∧
      PgtRebuilt (pageMem wideWord) ⟨4096 * 1, 0, 0⟩ (4096 * 1)
        ⟨fun _ => 0, frames 1 525315, []⟩ r := by
  have hinput := laidOut_wide.pgtInput (by decide)
  refine ⟨hinput, ?_⟩
  rintro ⟨file, r, hfile, hrun, hr⟩
  have hfits := fits_of_rebuilt hinput zeroJunk hfile hrun hr
  rw [laidOut_wide.length] at hfits
  exact absurd hfits (by decide)

end GpuReplay.Replayer
