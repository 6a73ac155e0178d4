/-
How the recorder writes one address space: `gr_dump_phys_pages` and `_gr_dump_mc` of
`gr_as.c`.

Every `file_write` goes to the file's cursor.  The pages written are those of the
region's allocation, from its first page on, as many as `nents` says.
-/
import GpuReplay.Lib.ByteMem
import GpuReplay.Lib.Except
import GpuReplay.Lib.Stdio
import GpuReplay.Replayer.Defs

namespace GpuReplay.Driver

open Stdio

/-- `enum gr_as_type`. -/
inductive GrAsType
  | unknown
  | gpuBinary
  | inout
  | allWoComputeJob
  | computeJob
  | all
  deriving Repr, DecidableEq

/-- `struct gr_as`, as far as the recorder reads it.  `reg` identifies the region, whose
allocation the dump goes through. -/
structure GrAs where
  vmStart : Nat
  vmEnd : Nat
  nrPages : Nat
  nents : Nat
  flags : Nat
  isValid : Bool
  asNum : Nat
  isDumped : Bool
  reg : Nat
  asType : GrAsType
  deriving Repr, DecidableEq

/-- `MAX_RW_COUNT`: the kernel's `kernel_write` stores no more than this in one call. -/
def maxRwCount : Nat := 0x7ffff000

/-- `file_write`; its size parameter is an `unsigned int`, and how much was stored is not looked
at. -/
def fileWrite (data : List UInt8) (file : OutFile) : OutFile :=
  file.write (data.take (min (data.length % 2 ^ 32) maxRwCount))

/-- The page loop of `gr_dump_phys_pages`, with `n` pages to go from page `i` on.
`pages` are the backed pages of `cpu_alloc`. -/
def dumpPhysPages (mem : ByteMem) (pages : List Nat) (vmStart : Nat) :
    Nat → Nat → OutFile → Except Stop OutFile
  | 0, _, file => .ok file
  | n + 1, i, file =>
      match pages[i]? with
      | none => .error .undefined
      | some paddr =>
          dumpPhysPages mem pages vmStart n (i + 1)
            (fileWrite (mem.read (pageStart paddr) 4096)
              (fileWrite (Bytes.le 8 paddr) (fileWrite (Bytes.le 8 (vmStart + 4096 * i)) file)))

/-- `gr_dump_phys_pages`. -/
def grDumpPhysPages (mem : ByteMem) (cpuAlloc : Nat → List Nat) (tas : GrAs) (file : OutFile) :
    Except Stop OutFile :=
  dumpPhysPages mem (cpuAlloc tas.reg) tas.vmStart tas.nents 0 file

/-- `_gr_dump_mc`: the header, the pages of a touched region, and the mark that the
address space has been dumped. -/
def grDumpMc (mem : ByteMem) (cpuAlloc : Nat → List Nat) (tas : GrAs) (file : OutFile) :
    Except Stop (GrAs × OutFile) := do
  let file := fileWrite (Bytes.le 8 tas.vmStart) file
  let file := fileWrite (Bytes.le 8 tas.vmEnd) file
  let file := fileWrite (Bytes.le 8 tas.nents) file
  let file := fileWrite (Bytes.le 4 tas.flags) file
  let file := fileWrite (Bytes.le 1 tas.isValid.toNat) file
  let file ← if tas.isValid then grDumpPhysPages mem cpuAlloc tas file else pure file
  return ({ tas with isDumped := true }, file)

end GpuReplay.Driver
