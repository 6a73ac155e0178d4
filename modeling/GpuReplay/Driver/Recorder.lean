/-
What the recorder keeps of a context and when it dumps memory: the hooks of `gr_as.c`,
`kbase_api_job_submit` and `kbase_api_post_term`.

The list of address spaces is walked three times, each time for the entries of some types
and of one validity that have not been dumped yet.  `calls` is for the reader of the model:
the dumps made so far, with the memory as it was.
-/
import GpuReplay.Driver.MemDump
import GpuReplay.Driver.MmuMode

namespace GpuReplay.Driver

open Stdio

/-- `struct kbase_va_region`, as far as `gr_as_add` reads it; `nents` is that of its allocation. -/
structure VaRegion where
  id : Nat
  nrPages : Nat
  flags : Nat
  nents : Nat
  deriving Repr, DecidableEq

/-- A call of `_gr_dump_mc`: the entry and its place in the list, and the memory. -/
structure DumpCall where
  index : Nat
  tas : GrAs
  mem : ByteMem
  cpuAlloc : Nat → List Nat

/-- `struct gr_context` -/
structure GrContext where
  asList : List GrAs
  asCnt : Nat
  memDumpFile : OutFile
  calls : List DumpCall

/-- The type `gr_as_add` gives to a region. -/
def grAsType (asCnt : Nat) (region : VaRegion) : GrAsType :=
  if region.flags &&& kbaseRegGpuNx = 0 then .gpuBinary
  else if 5 < asCnt ∧ region.nrPages = 1 ∧ region.flags &&& kbaseRegCpuCached = 0 then .computeJob
  else if region.flags &&& kbaseRegCpuCached ≠ 0 ∧ region.flags &&& kbaseRegGpuCached ≠ 0 then .inout
  else .unknown

def grAsAdd (s : GrContext) (vmStart vmEnd : Nat) (region : VaRegion) : GrContext :=
  let tas : GrAs := {
    vmStart := vmStart
    vmEnd := vmEnd
    nrPages := region.nrPages
    nents := region.nents
    flags := region.flags
    isValid := false
    asNum := s.asCnt
    isDumped := false
    reg := region.id
    asType := grAsType s.asCnt region }
  { s with asList := s.asList ++ [tas], asCnt := (s.asCnt + 1) % 2 ^ 32 }

/-- `gr_as_add_valid`: the first entry with the bounds of the mapping. -/
def grAsAddValid (vmStart vmEnd nents : Nat) : List GrAs → List GrAs
  | [] => []
  | tas :: rest =>
      if tas.vmStart = vmStart ∧ tas.vmEnd = vmEnd then
        { tas with isValid := true, nents := nents } :: rest
      else tas :: grAsAddValid vmStart vmEnd nents rest

/-- An entry of a job or of a binary. -/
def GrAs.isJob (tas : GrAs) : Bool := tas.asType == .computeJob || tas.asType == .gpuBinary

/-- `gr_dump_mc_type`: whether it dumps the entry. -/
def grDumpMcType (asType : GrAsType) (tas : GrAs) : Bool :=
  match asType with
  | .computeJob => tas.isJob
  | .gpuBinary => tas.isJob
  | .allWoComputeJob => !tas.isJob
  | .unknown => !tas.isJob
  | .inout => !tas.isJob
  | .all => true

/-- A walk over the list, from the place `i` on, which dumps the entries of `sel`. -/
def dumpMcLoop (mem : ByteMem) (cpuAlloc : Nat → List Nat) (sel : GrAs → Bool) :
    Nat → List GrAs → OutFile × List DumpCall → Except Stop (List GrAs × OutFile × List DumpCall)
  | _, [], (file, calls) => .ok ([], file, calls)
  | i, tas :: rest, (file, calls) =>
      if sel tas then do
        let (dumped, file) ← grDumpMc mem cpuAlloc tas file
        let (rest, out) ← dumpMcLoop mem cpuAlloc sel (i + 1) rest
          (file, calls ++ [⟨i, tas, mem, cpuAlloc⟩])
        return (dumped :: rest, out)
      else do
        let (rest, out) ← dumpMcLoop mem cpuAlloc sel (i + 1) rest (file, calls)
        return (tas :: rest, out)

def dumpMc (mem : ByteMem) (cpuAlloc : Nat → List Nat) (sel : GrAs → Bool) (s : GrContext) :
    Except Stop GrContext := do
  let (asList, file, calls) ← dumpMcLoop mem cpuAlloc sel 0 s.asList (s.memDumpFile, s.calls)
  return { s with asList := asList, memDumpFile := file, calls := calls }

/-- `gr_dump_mc_valid` -/
def grDumpMcValid (mem : ByteMem) (cpuAlloc : Nat → List Nat) (asType : GrAsType) (s : GrContext) :
    Except Stop GrContext :=
  dumpMc mem cpuAlloc (fun tas => !tas.isDumped && tas.isValid && grDumpMcType asType tas) s

/-- `gr_dump_mc_invalid` -/
def grDumpMcInvalid (mem : ByteMem) (cpuAlloc : Nat → List Nat) (asType : GrAsType) (s : GrContext) :
    Except Stop GrContext :=
  dumpMc mem cpuAlloc (fun tas => !tas.isDumped && !tas.isValid && grDumpMcType asType tas) s

/-- What reaches the recorder before the end: a mapping, a CPU fault, a submit. -/
inductive RecorderEvent
  | mmap (vmStart vmEnd : Nat) (region : VaRegion)
  | fault (vmStart vmEnd nents : Nat)
  | submit (mem : ByteMem) (cpuAlloc : Nat → List Nat)

def recorderStep (s : GrContext) : RecorderEvent → Option GrContext
  | .mmap vmStart vmEnd region => some (grAsAdd s vmStart vmEnd region)
  | .fault vmStart vmEnd nents =>
      some { s with asList := grAsAddValid vmStart vmEnd nents s.asList }
  | .submit mem cpuAlloc => (grDumpMcValid mem cpuAlloc .allWoComputeJob s).toOption

/-- What `kbase_api_post_term` adds to the memory contents. -/
def postTerm (mem : ByteMem) (cpuAlloc : Nat → List Nat) (s : GrContext) : Except Stop GrContext := do
  let s ← grDumpMcValid mem cpuAlloc .computeJob s
  grDumpMcInvalid mem cpuAlloc .all s

/-- `gr_context_init`: the file opened keeps what is in it. -/
def grContextInit (file : List UInt8) : GrContext := ⟨[], 0, OutFile.reopen file, []⟩

end GpuReplay.Driver
