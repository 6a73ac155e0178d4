/-
How the recorder writes a page table: `kbasep_mmu_dump_level` and `gr_mmu_dump`.

A table is written as one word that combines its address and level and then its 512
entries; the tables below it follow in the order of the entries that name them.  The
buffer is sized from a counter of table pages, and `size_left` keeps the walk inside it.
-/
import GpuReplay.Driver.MemDump
import GpuReplay.Driver.MmuMode

namespace GpuReplay.Driver

open Stdio

/-- The 512 entries of the table at `pgd`. -/
def tableWords (mem : ByteMem) (pgd : Nat) : List Nat :=
  (List.range 512).map fun i => mem.read64 (pgd + 8 * i)

/-- What has been put in the dump buffer, and `size_left`. -/
structure DumpBuffer where
  written : List UInt8
  sizeLeft : Nat

/-- The loop over the entries of a table at `level`, with the size so far.  `next` dumps
the table an entry names. -/
def dumpEntries (next : Nat → DumpBuffer → Nat × DumpBuffer) (level : Nat) :
    List Nat → Nat → DumpBuffer → Nat × DumpBuffer
  | [], size, b => (size, b)
  | w :: words, size, b =>
      if pteIsValid w level then
        let (dumpSize, b) := next (pteToPhyAddr w) b
        if dumpSize = 0 then (0, b) else dumpEntries next level words (size + dumpSize) b
      else
        dumpEntries next level words size b

/-- The block of one table, when there is room for it. -/
def dumpTable (mem : ByteMem) (level pgd : Nat) (b : DumpBuffer) : DumpBuffer :=
  if 4104 ≤ b.sizeLeft then
    ⟨b.written ++ Bytes.le 8 (pgd ||| level) ++ mem.read (pageStart pgd) 4096, b.sizeLeft - 4104⟩
  else
    b

/-- `kbasep_mmu_dump_level` at level `3 - below`. -/
def kbasepMmuDumpLevel (mem : ByteMem) : Nat → Nat → DumpBuffer → Nat × DumpBuffer
  | 0, pgd, b => (4104, dumpTable mem 3 pgd b)
  | below + 1, pgd, b =>
      dumpEntries (kbasepMmuDumpLevel mem below) (3 - (below + 1)) (tableWords mem (pageStart pgd))
        4104 (dumpTable mem (3 - (below + 1)) pgd b)

/-- `struct kbase_mmu_setup`. -/
structure MmuSetup where
  transtab : Nat
  memattr : Nat
  transcfg : Nat

/-- `end_marker`. -/
def endMarker : Nat := 0xFFFFFFFFFF

/-- The first `gr_mmu_dump`, to a file that did not exist.  `pgd` is `kctx->mmu.pgd`; the
walk starts at the top level. -/
def grMmuDump (mem : ByteMem) (setup : MmuSetup) (pgd pgtNrPages : Nat) :
    Except Stop (List UInt8) :=
  let sizeLeft := 8 + 8 * 3 + 8 * pgtNrPages + pgtNrPages * 4096 + 8
  let header := Bytes.le 8 sizeLeft ++ Bytes.le 8 setup.transtab ++ Bytes.le 8 setup.memattr
    ++ Bytes.le 8 setup.transcfg
  let (levelSize, b) := kbasepMmuDumpLevel mem 3 pgd ⟨header, sizeLeft - 32⟩
  let dumpSize := 32 + levelSize + 8
  let written := b.written ++ Bytes.le 8 endMarker
  -- the marker goes after the last block, and the file gets `dump_size` bytes of the buffer
  if written.length ≤ sizeLeft ∧ dumpSize ≤ sizeLeft then
    .ok (fileWrite ((written ++ List.replicate (sizeLeft - written.length) 0).take dumpSize)
      (OutFile.reopen [])).bytes
  else
    .error .undefined

end GpuReplay.Driver
