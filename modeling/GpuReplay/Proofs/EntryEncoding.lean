/-
One encoding of page-table entries, written twice.

The replayer carries a copy of the driver's translation of region flags and composes its
entries with it; the page table it walks may hold entries of either origin.  For page-aligned
addresses of 48 bits the two copies agree at every level and on every word of flags: what is
set above the twelve low bits is the address, and bit 54 where the flags say no execution,
which is the bit the replayer's decoder takes off.
-/
import GpuReplay.Proofs.Isolation
import GpuReplay.Proofs.Walks

namespace GpuReplay

open Replayer

/-! ### The type of an entry -/

/-- The two low bits of an entry are those of its last constant. -/
theorem grEntryGetAte_and_type {paddr : Nat} (haligned : paddr % 4096 = 0) (flags level : Nat) :
    grEntryGetAte paddr flags level &&& 3
      = if level = midgardMmuBottomlevel then entryIsAteL3 else entryIsAteL02 := by
  have hpaddr : paddr &&& 3 = 0 := by
    rw [show 3 = 2 ^ 2 - 1 from rfl, Nat.and_two_pow_sub_one_eq_mod]
    omega
  have hflags : getMmuFlags flags &&& 3 = 0 := by
    refine Nat.eq_of_testBit_eq fun j => ?_
    rw [Nat.testBit_and, Nat.zero_testBit]
    match j with
    | 0 => rw [show getMmuFlags flags = Driver.getMmuFlags flags from rfl,
        testBit_getMmuFlags flags (by decide), Bool.false_and]
    | 1 => rw [show getMmuFlags flags = Driver.getMmuFlags flags from rfl,
        testBit_getMmuFlags flags (by decide), Bool.false_and]
    | j + 2 => rw [show Nat.testBit 3 (j + 2) = false from
        Nat.testBit_lt_two_pow (Nat.lt_of_lt_of_le (by decide)
          (Nat.pow_le_pow_right (by decide) (Nat.le_add_left 2 j))), Bool.and_false]
  unfold grEntryGetAte
  split_ifs
  all_goals
    rw [Nat.and_or_distrib_right, Nat.and_or_distrib_right, Nat.and_or_distrib_right, hpaddr,
      hflags]
    rfl

/-- **An entry is a valid leaf of the level it was made for.** -/
theorem ateIsValid_grEntryGetAte {paddr : Nat} (haligned : paddr % 4096 = 0) (flags level : Nat) :
    Driver.ateIsValid (grEntryGetAte paddr flags level) level = true := by
  have htype := grEntryGetAte_and_type haligned flags level
  unfold Driver.ateIsValid
  by_cases hlevel : level = midgardMmuBottomlevel
  · rw [if_pos hlevel] at htype
    rw [if_pos (show level = Driver.midgardMmuBottomlevel from hlevel)]
    exact decide_eq_true htype
  · rw [if_neg hlevel] at htype
    rw [if_neg (show level ≠ Driver.midgardMmuBottomlevel from hlevel)]
    exact decide_eq_true htype

/-! ### The driver's words and the replayer's -/

theorem pageStart_of_aligned {paddr : Nat} (haligned : paddr % 4096 = 0) :
    pageStart paddr = paddr := by
  unfold pageStart
  omega

/-- **A leaf entry is the one the driver writes.** -/
theorem grEntryGetAte_eq_entrySetAte {paddr : Nat} (haligned : paddr % 4096 = 0)
    (flags level : Nat) :
    grEntryGetAte paddr flags level = Driver.entrySetAte (Driver.asPhysAddr paddr) flags level := by
  rw [Driver.asPhysAddr, pageStart_of_aligned haligned]
  rfl

/-- **A table entry is the one the driver writes.** -/
theorem grEntryGetPte_eq_entrySetPte {paddr : Nat} (haligned : paddr % 4096 = 0) :
    grEntryGetPte paddr = Driver.entrySetPte paddr := by
  rw [Driver.entrySetPte, pageStart_of_aligned haligned]
  rfl

theorem grEntryGetPte_eq {paddr : Nat} (haligned : paddr % 4096 = 0) :
    grEntryGetPte paddr = paddr + 1027 := by
  rw [grEntryGetPte_eq_entrySetPte haligned, entrySetPte_eq haligned]

theorem pageStart_grEntryGetPte {paddr : Nat} (haligned : paddr % 4096 = 0) :
    pageStart (grEntryGetPte paddr) = paddr := by
  rw [grEntryGetPte_eq haligned, pageStart]
  omega

/-- The replayer's decoder takes a table entry back to the table. -/
theorem pteToPhysAddr_grEntryGetPte {paddr : Nat} (haligned : paddr % 4096 = 0)
    (hlt : paddr < 2 ^ 48) : pteToPhysAddr (grEntryGetPte paddr) = paddr := by
  have hbound : grEntryGetPte paddr < 2 ^ 54 := by
    rw [grEntryGetPte_eq haligned]
    omega
  rw [pteToPhysAddr_of_lt hbound, pageStart_grEntryGetPte haligned]

/-- And so does the driver's, since a table entry is odd. -/
theorem pteToPhyAddr_grEntryGetPte {paddr : Nat} (haligned : paddr % 4096 = 0) :
    Driver.pteToPhyAddr (grEntryGetPte paddr) = paddr := by
  have hodd : grEntryGetPte paddr &&& 1 ≠ 0 := by
    rw [grEntryGetPte_eq haligned, Nat.and_one_is_mod]
    omega
  rw [Driver.pteToPhyAddr, if_neg hodd, pageStart_grEntryGetPte haligned]

/-! ### Agreement -/

/-- **The replayer's entries are the driver's**, for every word of flags, every page-aligned
address of 48 bits and every level; they are of the level's type, decode to the address, and
no entry is made from two addresses. -/
theorem entry_encodings_agree {paddr : Nat} (haligned : paddr % 4096 = 0) (hlt : paddr < 2 ^ 48)
    (flags level : Nat) :
    grEntryGetAte paddr flags level = Driver.entrySetAte (Driver.asPhysAddr paddr) flags level
      ∧ Driver.ateIsValid (grEntryGetAte paddr flags level) level = true
      ∧ pteToPhysAddr (grEntryGetAte paddr flags level) = paddr
      ∧ grEntryGetPte paddr = Driver.entrySetPte paddr
      ∧ pteToPhysAddr (grEntryGetPte paddr) = paddr
      ∧ Driver.pteToPhyAddr (grEntryGetPte paddr) = paddr
      ∧ ∀ paddr' : Nat, paddr' % 4096 = 0 → paddr' < 2 ^ 48 → paddr' ≠ paddr →
          (∀ flags' level', grEntryGetAte paddr' flags' level' ≠ grEntryGetAte paddr flags level)
            ∧ grEntryGetPte paddr' ≠ grEntryGetPte paddr := by
  refine ⟨grEntryGetAte_eq_entrySetAte haligned flags level,
    ateIsValid_grEntryGetAte haligned flags level, pteToPhysAddr_grEntryGetAte haligned hlt flags,
    grEntryGetPte_eq_entrySetPte haligned, pteToPhysAddr_grEntryGetPte haligned hlt,
    pteToPhyAddr_grEntryGetPte haligned, fun paddr' haligned' hlt' hne => ⟨?_, ?_⟩⟩
  · -- equal entries would decode to equal addresses
    intro flags' level' heq
    refine hne ?_
    calc paddr' = pteToPhysAddr (grEntryGetAte paddr' flags' level') :=
          (pteToPhysAddr_grEntryGetAte haligned' hlt' flags').symm
      _ = pteToPhysAddr (grEntryGetAte paddr flags level) := by rw [heq]
      _ = paddr := pteToPhysAddr_grEntryGetAte haligned hlt flags
  · intro heq
    refine hne ?_
    calc paddr' = pteToPhysAddr (grEntryGetPte paddr') :=
          (pteToPhysAddr_grEntryGetPte haligned' hlt').symm
      _ = pteToPhysAddr (grEntryGetPte paddr) := by rw [heq]
      _ = paddr := pteToPhysAddr_grEntryGetPte haligned hlt

/-- An inner-shareable page that may be written and not executed, at the bottom level. -/
theorem entry_encodings_agree_page :
    grEntryGetAte 0x7f000 0x20c 3 = 0x4000000007f743 ∧ grEntryGetPte 0x7f000 = 0x7f403
      ∧ pteToPhysAddr (grEntryGetAte 0x7f000 0x20c 3) = 0x7f000
      ∧ Driver.entrySetAte (Driver.asPhysAddr 0x7f000) 0x20c 3 = 0x4000000007f743 := by
  have h := @entry_encodings_agree 0x7f000 (by decide) (by decide) 0x20c 3
  have hate : grEntryGetAte 0x7f000 0x20c 3 = 0x4000000007f743 := by decide
  exact ⟨hate, by decide, h.2.2.1, h.1 ▸ hate⟩

end GpuReplay
