/-
The memory-contents format, which the recorder writes and the replayer reads.

Neither program states it.  A record is a header and, for a region the CPU touched,
a triple for each page; `McRecord.bytes` spells that out, `grDumpMc_eq` says it is
what the recorder appends for an address space, and `initRegion_record` that one turn
of the replayer's loop takes it apart again.
-/
import GpuReplay.Driver.MemDump
import GpuReplay.Replayer.MemInit

namespace GpuReplay

open Stdio Driver Replayer

/-- One region of a memory dump. -/
structure McRecord where
  gmStart : Nat
  gmEnd : Nat
  nents : Nat
  flags : Nat
  isValid : Bool
  /-- `(paddr, page)` for every page that was written. -/
  pages : List (Nat × List UInt8)

/-- The triples of consecutive pages from `vaddr` on. -/
def triples : Nat → List (Nat × List UInt8) → List UInt8
  | _, [] => []
  | vaddr, (paddr, page) :: rest =>
      Bytes.le 8 vaddr ++ (Bytes.le 8 paddr ++ (page ++ triples (vaddr + 4096) rest))

namespace McRecord

/-- The header and the triples. -/
def bytes (rec : McRecord) : List UInt8 :=
  Bytes.le 8 rec.gmStart ++ (Bytes.le 8 rec.gmEnd ++ (Bytes.le 8 rec.nents ++
    (Bytes.le 4 rec.flags ++ (Bytes.le 1 rec.isValid.toNat ++ triples rec.gmStart rec.pages))))

/-- A record as the recorder makes them: page-aligned bounds, no more pages than the
range has, and for a touched region a page of the right size for each of them. -/
structure WF (rec : McRecord) : Prop where
  start_aligned : rec.gmStart % 4096 = 0
  end_aligned : rec.gmEnd % 4096 = 0
  le : rec.gmStart ≤ rec.gmEnd
  bounded : rec.gmEnd < 2 ^ 64
  nents_le : rec.nents ≤ (rec.gmEnd - rec.gmStart) / 4096
  flags_lt : rec.flags < 2 ^ 32
  length_pages : rec.pages.length = if rec.isValid then rec.nents else 0
  page : ∀ q ∈ rec.pages, q.1 < 2 ^ 64 ∧ q.2.length = 4096

/-- The region a record describes, on given frames. -/
def region (rec : McRecord) (frames : List Nat) : Region :=
  ⟨rec.gmStart, rec.gmEnd, frames, rec.nents, rec.flags, rec.isValid.toNat, 0⟩

/-- What goes into each frame. -/
def contents (rec : McRecord) : List (Option (List UInt8)) :=
  if rec.isValid then rec.pages.map fun q => some q.2 else List.replicate rec.nents none

theorem length_contents {rec : McRecord} (hwf : rec.WF) : rec.contents.length = rec.nents := by
  have hpages := hwf.length_pages
  unfold contents
  by_cases hvalid : rec.isValid = true
  · rw [if_pos hvalid, List.length_map, hpages, if_pos hvalid]
  · rw [if_neg hvalid, List.length_replicate]

/-- What the turn after the last record puts into each frame: the page read last. -/
def again (rec : McRecord) (buf : List UInt8) : List (Option (List UInt8)) :=
  List.replicate rec.nents (if rec.isValid then some buf else none)

/-- The GPU addresses of its pages. -/
def Backed (rec : McRecord) (gaddr : Nat) : Prop :=
  rec.gmStart ≤ gaddr ∧ gaddr < rec.gmStart + 4096 * rec.nents

/-- What the page buffer holds after the record: its last page, where it has one. -/
def lastPage (rec : McRecord) (buf : List UInt8) : List UInt8 :=
  (rec.pages.map Prod.snd).getLastD buf

theorem WF.room {rec : McRecord} (hwf : rec.WF) : rec.gmStart + 4096 * rec.nents ≤ rec.gmEnd := by
  have h := hwf.nents_le
  have hle := hwf.le
  omega

/-- Every header field fits its variable. -/
theorem WF.header_lt {rec : McRecord} (hwf : rec.WF) :
    rec.gmStart < 256 ^ 8 ∧ rec.gmEnd < 256 ^ 8 ∧ rec.nents < 256 ^ 8 ∧
      rec.flags < 256 ^ 4 ∧ rec.isValid.toNat < 256 ^ 1 := by
  have hbounded := hwf.bounded
  have hle := hwf.le
  have hroom := hwf.room
  refine ⟨?_, hbounded, ?_, hwf.flags_lt, ?_⟩
  · show _ < 2 ^ 64
    omega
  · show _ < 2 ^ 64
    omega
  · cases rec.isValid <;> decide

end McRecord

/-! ### What the recorder writes -/

section Writer

variable {file : OutFile} (hfile : file.WF)

theorem fileWrite_eq (file : OutFile) {bs : List UInt8} (h : bs.length ≤ maxRwCount) :
    fileWrite bs file = file.write bs := by
  have hlt : bs.length < 2 ^ 32 := Nat.lt_of_le_of_lt h (by decide)
  unfold fileWrite
  rw [Nat.mod_eq_of_lt hlt, Nat.min_eq_left h, List.take_length]

theorem fileWrite_le (file : OutFile) {k : Nat} (hk : k ≤ 8) (v : Nat) :
    fileWrite (Bytes.le k v) file = file.write (Bytes.le k v) :=
  fileWrite_eq file (by rw [Bytes.length_le]; exact Nat.le_trans hk (by decide))

/-- The pages an allocation holds, from page `i` on. -/
def allocPages (mem : ByteMem) (pages : List Nat) : List (Nat × List UInt8) :=
  pages.map fun paddr => (paddr, mem.read (pageStart paddr) 4096)

theorem allocPages_cons (mem : ByteMem) (paddr : Nat) (pages : List Nat) :
    allocPages mem (paddr :: pages)
      = (paddr, mem.read (pageStart paddr) 4096) :: allocPages mem pages := rfl

/-- **The page loop writes the triples of the pages it is about.** -/
theorem dumpPhysPages_eq (mem : ByteMem) (pages : List Nat) (vmStart : Nat) :
    ∀ (n i : Nat) {file : OutFile}, file.WF → i + n ≤ pages.length →
      dumpPhysPages mem pages vmStart n i file
        = .ok (file.write (triples (vmStart + 4096 * i)
            (allocPages mem ((pages.drop i).take n)))) := by
  intro n
  induction n with
  | zero =>
      intro i file _ _
      rw [List.take_zero]
      exact congrArg Except.ok file.write_nil.symm
  | succ n ih =>
      intro i file hfile hlen
      have hi : i < pages.length := by omega
      have hrest : i + 1 + n ≤ pages.length := by omega
      have hsplit : (pages.drop i).take (n + 1) = pages[i] :: (pages.drop (i + 1)).take n := by
        rw [List.drop_eq_getElem_cons hi, List.take_succ_cons]
      rw [dumpPhysPages, List.getElem?_eq_getElem hi, hsplit]
      generalize pages[i] = paddr
      have hpage : (mem.read (pageStart paddr) 4096).length ≤ maxRwCount := by
        rw [ByteMem.length_read]
        decide
      have hnext : vmStart + 4096 * i + 4096 = vmStart + 4096 * (i + 1) := by
        rw [Nat.mul_succ, Nat.add_assoc]
      have hwf := OutFile.wf_write hfile (Bytes.le 8 (vmStart + 4096 * i))
      have hwf' := OutFile.wf_write hwf (Bytes.le 8 paddr)
      simp only [fileWrite_le _ (Nat.le_refl 8), fileWrite_eq _ hpage]
      rw [ih (i + 1) (OutFile.wf_write hwf' _) hrest, allocPages_cons,
        triples, hnext, OutFile.write_write hfile, OutFile.write_write hfile,
        OutFile.write_write hfile, List.append_assoc, List.append_assoc]

/-- The record an address space is written as. -/
def recordOf (mem : ByteMem) (cpuAlloc : Nat → List Nat) (tas : GrAs) : McRecord where
  gmStart := tas.vmStart
  gmEnd := tas.vmEnd
  nents := tas.nents
  flags := tas.flags
  isValid := tas.isValid
  pages := if tas.isValid then allocPages mem ((cpuAlloc tas.reg).take tas.nents) else []

include hfile in
/-- **The recorder writes the record**, as long as the allocation holds the pages it
counts. -/
theorem grDumpMc_eq (mem : ByteMem) (cpuAlloc : Nat → List Nat) {tas : GrAs}
    (hnents : tas.isValid = true → tas.nents ≤ (cpuAlloc tas.reg).length) :
    grDumpMc mem cpuAlloc tas file
      = .ok ({ tas with isDumped := true }, file.write (recordOf mem cpuAlloc tas).bytes) := by
  have hheader : fileWrite (Bytes.le 1 tas.isValid.toNat) (fileWrite (Bytes.le 4 tas.flags)
        (fileWrite (Bytes.le 8 tas.nents) (fileWrite (Bytes.le 8 tas.vmEnd)
          (fileWrite (Bytes.le 8 tas.vmStart) file))))
      = file.write (Bytes.le 8 tas.vmStart ++ (Bytes.le 8 tas.vmEnd ++ (Bytes.le 8 tas.nents ++
          (Bytes.le 4 tas.flags ++ Bytes.le 1 tas.isValid.toNat)))) := by
    simp only [fileWrite_le _ (show 8 ≤ 8 by decide), fileWrite_le _ (show 4 ≤ 8 by decide),
      fileWrite_le _ (show 1 ≤ 8 by decide), OutFile.write_write hfile, List.append_assoc]
  unfold grDumpMc
  simp only [hheader]
  cases hvalid : tas.isValid with
  | false =>
      simp only [Bool.false_eq_true, if_false, Except.pure_eq_ok, Except.ok_bind, recordOf,
        McRecord.bytes, hvalid, triples, List.append_nil]
  | true =>
      have hpages := dumpPhysPages_eq mem (cpuAlloc tas.reg) tas.vmStart tas.nents 0
        (OutFile.wf_write hfile (Bytes.le 8 tas.vmStart ++ (Bytes.le 8 tas.vmEnd ++
          (Bytes.le 8 tas.nents ++ (Bytes.le 4 tas.flags ++ Bytes.le 1 tas.isValid.toNat)))))
        (by rw [Nat.zero_add]; exact hnents hvalid)
      rw [List.drop_zero, Nat.mul_zero, Nat.add_zero, OutFile.write_write hfile, hvalid] at hpages
      simp only [if_true, grDumpPhysPages, hpages, Except.pure_eq_ok, Except.ok_bind, recordOf,
        McRecord.bytes, hvalid, List.append_assoc]

end Writer

end GpuReplay
