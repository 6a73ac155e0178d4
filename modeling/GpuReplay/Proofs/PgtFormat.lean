/-
The page-table format, which the recorder writes and the replayer reads.

A walk over a page table visits its tables in pre-order; `preorder` is the list of their
addresses.  The dump is one block of 513 words for each of them, in that order, and
`kbasepMmuDumpLevel_eq` says that this is what the recorder puts into its buffer.

Two facts about the words make the format readable.  A word the driver writes has bit 5
clear, and a block header has bits 3 to 11 clear, so neither is the end marker, all of
whose low 40 bits are set.  And a word names a table below it, for the writer and the
reader alike, exactly when its two low bits are set.
-/
import GpuReplay.Driver.MmuDump
import Mathlib.Tactic.Common

namespace GpuReplay

open Driver Stdio

/-! ### The words a driver writes -/

/-- The words `entry_invalidate`, `entry_set_ate` and `entry_set_pte` write at a level,
for page-aligned addresses below `2 ^ 48`. -/
inductive WrittenWord (level : Nat) : Nat → Prop
  | invalidate : WrittenWord level entryInvalidate
  | ate {phy : Nat} (flags : Nat) (haligned : phy % 4096 = 0) (hlt : phy < 2 ^ 48) :
      WrittenWord level (entrySetAte phy flags level)
  | pte {phy : Nat} (haligned : phy % 4096 = 0) (hlt : phy < 2 ^ 48) :
      WrittenWord level (entrySetPte phy)

/-- The two low bits say table. -/
def isTable (w : Nat) : Bool := decide (w &&& 3 = 3)

theorem pteIsValid_eq {below : Nat} (w : Nat) :
    pteIsValid w (3 - (below + 1)) = isTable w := by
  have hlevel : 3 - (below + 1) ≠ midgardMmuBottomlevel := by
    unfold midgardMmuBottomlevel
    omega
  unfold pteIsValid isTable
  rw [if_neg hlevel]
  rfl

/-- The twelve low bits of an aligned address are clear. -/
theorem testBit_aligned {phy j : Nat} (h : phy % 4096 = 0) (hj : j < 12) :
    phy.testBit j = false := by
  have hphy : phy = 2 ^ 12 * (phy / 4096) := by omega
  rw [hphy, Nat.testBit_two_pow_mul, decide_eq_false (Nat.not_le_of_lt hj), Bool.false_and]

theorem testBit_getMmuFlags (flags : Nat) {j : Nat} (hj : j = 0 ∨ j = 1 ∨ j = 5) :
    (getMmuFlags flags).testBit j = false := by
  have hattr : (kbaseRegMemattrValue flags <<< 2).testBit j = false := by
    unfold kbaseRegMemattrValue kbaseRegMemattrMask
    rcases hj with rfl | rfl | rfl
    · simp
    · simp
    · have h19 : Nat.testBit (7 <<< 16) 19 = false := by decide
      rw [Nat.testBit_shiftLeft, Nat.testBit_shiftRight, Nat.testBit_and, h19, Bool.and_false,
        Bool.and_false]
  unfold getMmuFlags
  simp only
  rcases hj with rfl | rfl | rfl
  all_goals
    split_ifs
    all_goals simp only [Nat.testBit_or, hattr, Bool.false_or]
    all_goals decide

theorem kbaseRegMemattrValue_lt (flags : Nat) : kbaseRegMemattrValue flags <<< 2 < 32 := by
  have hvalue : kbaseRegMemattrValue flags < 8 := by
    unfold kbaseRegMemattrValue kbaseRegMemattrMask
    have := Nat.and_le_right (n := flags) (m := 7 <<< 16)
    rw [Nat.shiftRight_eq_div_pow]
    omega
  rw [Nat.shiftLeft_eq]
  omega

theorem getMmuFlags_lt (flags : Nat) : getMmuFlags flags < 2 ^ 55 := by
  have hattr : kbaseRegMemattrValue flags <<< 2 < 2 ^ 55 :=
    Nat.lt_trans (kbaseRegMemattrValue_lt flags) (by decide)
  unfold getMmuFlags
  simp only
  split_ifs
  all_goals
    repeat' apply Nat.or_lt_two_pow
    all_goals first | exact hattr | decide

/-- Above the twelve low bits there is only the one that says no execution. -/
theorem testBit_getMmuFlags_high (flags : Nat) {j : Nat} (hj : 12 ≤ j) (hne : j ≠ 54) :
    (getMmuFlags flags).testBit j = false := by
  have hlow : ∀ {c : Nat}, c < 2 ^ 12 → c.testBit j = false := fun hc =>
    Nat.testBit_lt_two_pow (Nat.lt_of_lt_of_le hc (Nat.pow_le_pow_right (by decide) hj))
  have hattr := hlow (Nat.lt_trans (kbaseRegMemattrValue_lt flags) (by decide))
  have hnx : entryNxBit.testBit j = false := by
    unfold entryNxBit
    rw [Nat.one_shiftLeft, Nat.testBit_two_pow, decide_eq_false (Ne.symm hne)]
  unfold getMmuFlags
  simp only
  split_ifs
  all_goals
    simp only [Nat.testBit_or, hattr, hnx, Nat.zero_testBit, Bool.or_false,
      hlow (show entryAccessRw < 2 ^ 12 by decide), hlow (show entryAccessRo < 2 ^ 12 by decide),
      hlow (show shareBothBits < 2 ^ 12 by decide), hlow (show shareInnerBits < 2 ^ 12 by decide)]

/-- A table entry keeps the address apart from its low bits. -/
theorem entrySetPte_eq {phy : Nat} (h : phy % 4096 = 0) : entrySetPte phy = phy + 1027 := by
  have hstart : pageStart phy = 2 ^ 12 * (phy / 4096) := by unfold pageStart; omega
  have hlow : entryAccessBit ||| entryIsPte = 1027 := by decide
  unfold entrySetPte
  rw [Nat.or_assoc, hlow, hstart, ← Nat.two_pow_add_eq_or_of_lt (by decide)]
  omega

namespace WrittenWord

variable {level w : Nat}

theorem lt (h : WrittenWord level w) : w < 2 ^ 64 := by
  cases h with
  | invalidate => decide
  | ate flags haligned hlt =>
      unfold entrySetAte
      split_ifs
      all_goals
        repeat' apply Nat.or_lt_two_pow
        all_goals first | exact Nat.lt_trans (getMmuFlags_lt flags) (by decide) | decide | omega
  | pte haligned hlt =>
      rw [entrySetPte_eq haligned]
      omega

theorem testBit_five (h : WrittenWord level w) : w.testBit 5 = false := by
  cases h with
  | invalidate => decide
  | ate flags haligned hlt =>
      have hphy := testBit_aligned haligned (show 5 < 12 by decide)
      have hflags := testBit_getMmuFlags flags (j := 5) (by decide)
      unfold entrySetAte
      split_ifs
      all_goals
        simp only [Nat.testBit_or, hphy, hflags, Bool.false_or]
        decide
  | @pte phy haligned hlt =>
      have hphy : (pageStart phy).testBit 5 = false :=
        testBit_aligned (by unfold pageStart; omega) (by decide)
      unfold entrySetPte
      simp only [Nat.testBit_or, hphy, Bool.false_or]
      decide

/-- **No word the driver writes is the end marker.** -/
theorem ne_endMarker (h : WrittenWord level w) : w ≠ endMarker := by
  intro hw
  have hbit := h.testBit_five
  rw [hw] at hbit
  exact absurd hbit (by decide)

/-- **Above the bottom level only `entry_set_pte` writes a table entry**, and the walk
gets its address back. -/
theorem table_eq {below : Nat} (h : WrittenWord (3 - (below + 1)) w) (ht : isTable w = true) :
    pageStart w % 4096 = 0 ∧ pageStart w < 2 ^ 48 ∧ pteToPhyAddr w = pageStart w ∧
      w = pageStart w + 1027 := by
  have hbits : w &&& 3 = 3 := of_decide_eq_true ht
  cases h with
  | invalidate => exact absurd hbits (by decide)
  | @ate phy flags haligned hlt =>
      -- a block entry has bit 1 clear
      exfalso
      have hlevel : 3 - (below + 1) ≠ midgardMmuBottomlevel := by
        unfold midgardMmuBottomlevel
        omega
      have hphy := testBit_aligned haligned (show 1 < 12 by decide)
      have hflags := testBit_getMmuFlags flags (j := 1) (by decide)
      have hone : (entrySetAte phy flags (3 - (below + 1)) &&& 3).testBit 1 = false := by
        unfold entrySetAte
        rw [if_neg hlevel]
        simp only [Nat.testBit_and, Nat.testBit_or, hphy, hflags, Bool.false_or]
        decide
      rw [hbits] at hone
      exact absurd hone (by decide)
  | @pte phy haligned hlt =>
      have hword := entrySetPte_eq haligned
      have hstart : pageStart (entrySetPte phy) = phy := by
        rw [hword]
        unfold pageStart
        omega
      have hodd : entrySetPte phy &&& 1 ≠ 0 := by
        rw [hword, Nat.and_one_is_mod]
        omega
      rw [hstart]
      refine ⟨haligned, hlt, ?_, hword⟩
      unfold pteToPhyAddr
      rw [if_neg hodd, hstart]

end WrittenWord

/-! ### The walk -/

/-- The tables a walk visits, the table at `pgd` first.  `below` levels are below it. -/
def preorder (mem : ByteMem) : Nat → Nat → List Nat
  | 0, pgd => [pgd]
  | below + 1, pgd =>
      pgd :: (tableWords mem pgd).flatMap fun w =>
        if isTable w then preorder mem below (pageStart w) else []

/-- The blocks of the tables a walk visits. -/
def blocks (mem : ByteMem) : Nat → Nat → List Nat
  | 0, pgd => (pgd ||| 3) :: tableWords mem pgd
  | below + 1, pgd =>
      (pgd ||| (3 - (below + 1))) :: (tableWords mem pgd ++
        (tableWords mem pgd).flatMap fun w =>
          if isTable w then blocks mem below (pageStart w) else [])

/-- Every word of every table the walk visits is one the driver writes at that level, and
the tables are page-aligned. -/
def WrittenTable (mem : ByteMem) : Nat → Nat → Prop
  | 0, pgd => pgd % 4096 = 0 ∧ pgd < 2 ^ 48 ∧ ∀ w ∈ tableWords mem pgd, WrittenWord 3 w
  | below + 1, pgd =>
      pgd % 4096 = 0 ∧ pgd < 2 ^ 48 ∧
        (∀ w ∈ tableWords mem pgd, WrittenWord (3 - (below + 1)) w) ∧
        ∀ w ∈ tableWords mem pgd, isTable w = true → WrittenTable mem below (pageStart w)

@[simp] theorem length_tableWords (mem : ByteMem) (pgd : Nat) :
    (tableWords mem pgd).length = 512 := by
  rw [tableWords, List.length_map, List.length_range]

theorem WrittenTable.aligned {mem : ByteMem} {below pgd : Nat} (h : WrittenTable mem below pgd) :
    pgd % 4096 = 0 ∧ pgd < 2 ^ 48 := by
  cases below with
  | zero => exact ⟨h.1, h.2.1⟩
  | succ below => exact ⟨h.1, h.2.1⟩

theorem length_blocks (mem : ByteMem) :
    ∀ below pgd, (blocks mem below pgd).length = 513 * (preorder mem below pgd).length := by
  intro below
  induction below with
  | zero => intro pgd; rw [blocks, preorder, List.length_cons, length_tableWords]; rfl
  | succ below ih =>
      intro pgd
      have hchildren : ∀ ws : List Nat,
          (ws.flatMap fun w => if isTable w then blocks mem below (pageStart w) else []).length
            = 513 * (ws.flatMap fun w =>
                if isTable w then preorder mem below (pageStart w) else []).length := by
        intro ws
        induction ws with
        | nil => rfl
        | cons w ws ihws =>
            rw [List.flatMap_cons, List.flatMap_cons, List.length_append, List.length_append, ihws]
            by_cases ht : isTable w = true
            · rw [if_pos ht, if_pos ht, ih, Nat.mul_add]
            · rw [if_neg ht, if_neg ht, List.length_nil, Nat.zero_add, Nat.zero_add]
      rw [blocks, preorder, List.length_cons, List.length_append, length_tableWords, hchildren,
        List.length_cons]
      omega

/-! ### What the recorder writes -/

section Writer

variable (mem : ByteMem)

theorem read_table (pgd : Nat) : mem.read pgd 4096 = Bytes.words (tableWords mem pgd) :=
  ByteMem.read_eq_words mem pgd 512

theorem dumpTable_eq {level pgd : Nat} (hpgd : pgd % 4096 = 0) {b : DumpBuffer}
    (hroom : 4104 ≤ b.sizeLeft) :
    dumpTable mem level pgd b
      = ⟨b.written ++ Bytes.words ((pgd ||| level) :: tableWords mem pgd),
          b.sizeLeft - 4104⟩ := by
  have hstart : pageStart pgd = pgd := by unfold pageStart; omega
  rw [dumpTable, if_pos hroom, hstart, read_table, Bytes.words_cons, List.append_assoc]

/-- The loop over the entries, for a `next` that dumps blocks. -/
theorem dumpEntries_eq (below : Nat) (sub : Nat → List Nat)
    (next : Nat → DumpBuffer → Nat × DumpBuffer) :
    ∀ (ws : List Nat) (size : Nat) (b : DumpBuffer),
      (∀ w ∈ ws, WrittenWord (3 - (below + 1)) w) →
      (∀ w ∈ ws, isTable w = true → ∀ b : DumpBuffer, 8 * (sub (pageStart w)).length ≤ b.sizeLeft →
        0 < (sub (pageStart w)).length ∧ next (pageStart w) b
          = (8 * (sub (pageStart w)).length,
            ⟨b.written ++ Bytes.words (sub (pageStart w)),
              b.sizeLeft - 8 * (sub (pageStart w)).length⟩)) →
      8 * (ws.flatMap fun w => if isTable w then sub (pageStart w) else []).length ≤ b.sizeLeft →
      dumpEntries next (3 - (below + 1)) ws size b
        = (size + 8 * (ws.flatMap fun w => if isTable w then sub (pageStart w) else []).length,
          ⟨b.written ++ Bytes.words
              (ws.flatMap fun w => if isTable w then sub (pageStart w) else []),
            b.sizeLeft -
              8 * (ws.flatMap fun w => if isTable w then sub (pageStart w) else []).length⟩) := by
  intro ws
  induction ws with
  | nil =>
      intro size b _ _ _
      show (size, b) = (size + 0, ⟨b.written ++ [], b.sizeLeft - 0⟩)
      rw [List.append_nil]
      rfl
  | cons w ws ih =>
      intro size b hwords hnext hroom
      have hrest : ∀ v ∈ ws, WrittenWord (3 - (below + 1)) v :=
        fun v hv => hwords v (List.mem_cons_of_mem _ hv)
      have hnext' := fun v hv => hnext v (List.mem_cons_of_mem _ hv)
      rw [List.flatMap_cons] at hroom ⊢
      rw [dumpEntries, pteIsValid_eq]
      by_cases ht : isTable w = true
      · obtain ⟨-, -, hphy, -⟩ := (hwords w List.mem_cons_self).table_eq ht
        rw [if_pos ht, List.length_append] at hroom
        obtain ⟨hpos, hrun⟩ := hnext w List.mem_cons_self ht b (by omega)
        have hne : ¬ 8 * (sub (pageStart w)).length = 0 := by omega
        rw [if_pos ht, if_pos ht, hphy, hrun]
        simp only
        rw [if_neg hne, ih _ _ hrest hnext' (by show _ ≤ b.sizeLeft - _; omega),
          List.length_append, Bytes.words_append, Nat.mul_add, ← Nat.add_assoc,
          ← List.append_assoc, ← Nat.sub_sub]
      · rw [if_neg ht] at hroom
        rw [if_neg ht, if_neg ht, ih size b hrest hnext' hroom]
        rfl

/-- **The recorder writes the blocks of the tables it visits**, when they fit. -/
theorem kbasepMmuDumpLevel_eq :
    ∀ (below pgd : Nat) (b : DumpBuffer), WrittenTable mem below pgd →
      8 * (blocks mem below pgd).length ≤ b.sizeLeft →
      kbasepMmuDumpLevel mem below pgd b
        = (8 * (blocks mem below pgd).length,
          ⟨b.written ++ Bytes.words (blocks mem below pgd),
            b.sizeLeft - 8 * (blocks mem below pgd).length⟩) := by
  intro below
  induction below with
  | zero =>
      intro pgd b hwritten hroom
      have hlen : (blocks mem 0 pgd).length = 513 := by
        rw [blocks, List.length_cons, length_tableWords]
      rw [hlen] at hroom ⊢
      rw [kbasepMmuDumpLevel, dumpTable_eq mem hwritten.1 hroom]
      rfl
  | succ below ih =>
      intro pgd b hwritten hroom
      obtain ⟨hpgd, -, hwords, htables⟩ := hwritten
      have hlen : (blocks mem (below + 1) pgd).length = 513 + ((tableWords mem pgd).flatMap
          fun w => if isTable w then blocks mem below (pageStart w) else []).length := by
        rw [blocks, List.length_cons, List.length_append, length_tableWords]
        omega
      rw [hlen] at hroom ⊢
      have hstart : pageStart pgd = pgd := by unfold pageStart; omega
      have hloop := dumpEntries_eq below (blocks mem below) (kbasepMmuDumpLevel mem below)
        (tableWords mem pgd) 4104 (dumpTable mem (3 - (below + 1)) pgd b) hwords
        (fun w hw ht b hroom => ⟨by rw [length_blocks]; cases below <;> simp [preorder],
          ih (pageStart w) b (htables w hw ht) hroom⟩)
        (by rw [dumpTable_eq mem hpgd (by omega)]; show _ ≤ b.sizeLeft - 4104; omega)
      rw [kbasepMmuDumpLevel, hstart, hloop, dumpTable_eq mem hpgd (by omega), blocks,
        ← List.cons_append, Bytes.words_append, List.append_assoc, Nat.mul_add]
      simp only [Nat.sub_sub]

/-- The words of a complete dump. -/
def pgtWords (setup : MmuSetup) (pgd pgtNrPages : Nat) : List Nat :=
  [40 + 4104 * pgtNrPages, setup.transtab, setup.memattr, setup.transcfg]
    ++ (blocks mem 3 pgd ++ [endMarker])

theorem length_pgtWords (setup : MmuSetup) (pgd pgtNrPages : Nat) :
    8 * (pgtWords mem setup pgd pgtNrPages).length = 40 + 4104 * (preorder mem 3 pgd).length := by
  rw [pgtWords, List.length_append, List.length_append, length_blocks]
  show 8 * (4 + (_ + 1)) = _
  omega

/-- **The recorder writes the complete dump**, as much of it as its size, cut to 32 bits, says
and one call stores. -/
theorem grMmuDump_eq (setup : MmuSetup) {pgd pgtNrPages : Nat} (hwritten : WrittenTable mem 3 pgd)
    (hcounter : (preorder mem 3 pgd).length ≤ pgtNrPages) :
    grMmuDump mem setup pgd pgtNrPages
      = .ok ((Bytes.words (pgtWords mem setup pgd pgtNrPages)).take
          (min ((40 + 4104 * (preorder mem 3 pgd).length) % 2 ^ 32) maxRwCount)) := by
  have hsize : 8 + 8 * 3 + 8 * pgtNrPages + pgtNrPages * 4096 + 8 = 40 + 4104 * pgtNrPages := by
    omega
  have hblocks := length_blocks mem 3 pgd
  have hroom : 8 * (blocks mem 3 pgd).length ≤ 40 + 4104 * pgtNrPages - 32 := by omega
  have hfull : Bytes.le 8 (40 + 4104 * pgtNrPages) ++ Bytes.le 8 setup.transtab
        ++ Bytes.le 8 setup.memattr ++ Bytes.le 8 setup.transcfg
        ++ Bytes.words (blocks mem 3 pgd) ++ Bytes.le 8 endMarker
      = Bytes.words (pgtWords mem setup pgd pgtNrPages) := by
    simp only [pgtWords, Bytes.words_append, Bytes.words_cons, List.cons_append, List.nil_append,
      List.append_assoc]
    rfl
  have hlen : (Bytes.words (pgtWords mem setup pgd pgtNrPages)).length
      = 40 + 4104 * (preorder mem 3 pgd).length := by
    rw [Bytes.length_words, length_pgtWords]
  have hdump : 32 + 8 * (blocks mem 3 pgd).length + 8
      = 40 + 4104 * (preorder mem 3 pgd).length := by omega
  have hcut : ∀ zeros : List UInt8,
      (Bytes.words (pgtWords mem setup pgd pgtNrPages) ++ zeros).take
        (40 + 4104 * (preorder mem 3 pgd).length)
      = Bytes.words (pgtWords mem setup pgd pgtNrPages) := fun zeros => List.take_left' hlen
  have hle : 40 + 4104 * (preorder mem 3 pgd).length ≤ 40 + 4104 * pgtNrPages := by omega
  have hwalk := kbasepMmuDumpLevel_eq mem 3 pgd
    ⟨Bytes.le 8 (40 + 4104 * pgtNrPages) ++ Bytes.le 8 setup.transtab ++ Bytes.le 8 setup.memattr
      ++ Bytes.le 8 setup.transcfg, 40 + 4104 * pgtNrPages - 32⟩ hwritten hroom
  unfold grMmuDump
  simp only [hsize, hwalk, hfull, hdump, hlen, hle, and_self, if_true, hcut]
  unfold fileWrite OutFile.write OutFile.reopen
  rw [hlen]
  simp [Bytes.splice]

end Writer

end GpuReplay
