/-
Where the recorder's entries come from: `kbase_context_mmap` and `kbase_cpu_vm_fault`.

A process may map any stretch of a region.  What is mapped is the allocation's page at the
same distance from the region's start, or, where the region is an alias, the page of the
allocation it stands for there; what is recorded is the mapping's own bounds and, at the
first fault, the number of pages of that allocation.
-/
import GpuReplay.Driver.Recorder

namespace GpuReplay.Driver

/-- `struct vm_area_struct`: a stretch of whole pages. -/
structure Vma where
  vmStart : Nat
  vmEnd : Nat
  vmPgoff : Nat
  start_aligned : vmStart % 4096 = 0
  end_aligned : vmEnd % 4096 = 0
  le : vmStart ≤ vmEnd
  bounded : vmEnd < 2 ^ 64

/-- The length of the mapping in pages. -/
def Vma.nrPages (vma : Vma) : Nat := (vma.vmEnd - vma.vmStart) / 4096

/-- `struct kbase_aliased`: `length` pages of another allocation from `offset` on, as
`kbase_mem_alias` has checked; without an allocation it stands for the sink page. -/
structure Aliased where
  alloc : Option (List Nat)
  offset : Nat
  length : Nat
  fits : ∀ pages ∈ alloc, offset + length ≤ pages.length

/-- The type of an allocation, with what an alias is made of. -/
inductive KbaseMemType
  | native
  | importedUmm
  | alias (stride : Nat) (aliased : List Aliased)

/-- A region with its place in GPU space and the type of its allocation. -/
structure PlacedRegion extends VaRegion where
  startPfn : Nat
  memType : KbaseMemType

/-! ### `kbase_context_mmap` -/

/-- What the default case checks, for the region that encloses the offset. -/
def mmapAccepts (vma : Vma) (reg : PlacedRegion) : Bool :=
  if vma.nrPages = 0 then false
  else if reg.startPfn ≤ vma.vmPgoff ∧ vma.vmPgoff < reg.startPfn + reg.nrPages then
    if reg.nrPages - (vma.vmPgoff - reg.startPfn) < vma.nrPages then false
    else
      match reg.memType with
      | .native => true
      -- `dma_buf_mmap`, and out
      | .importedUmm => false
      | .alias stride _ => !(decide (stride < vma.nrPages) || stride == 0)
  else false

/-- The default case of `kbase_context_mmap`. -/
def kbaseContextMmap (s : GrContext) (vma : Vma) (reg : PlacedRegion) : Option GrContext :=
  if mmapAccepts vma reg then some (grAsAdd s vma.vmStart vma.vmEnd reg.toVaRegion) else none

/-! ### `kbase_cpu_vm_fault` -/

/-- The loop of `get_aliased_alloc`: the part the page is in, and where in it. -/
def aliasedAt (stride : Nat) : List Aliased → Nat → Option (Aliased × Nat)
  | [], _ => none
  | aliased :: rest, startOff =>
      if stride ≤ startOff then aliasedAt stride rest (startOff - stride)
      else some (aliased, startOff)

/-- `get_aliased_alloc`: the pages of the part, and where in them the page is. -/
def getAliasedAlloc (reg : PlacedRegion) (stride : Nat) (aliased : List Aliased)
    (startOff nrPages : Nat) : Option (List Nat × Nat) :=
  if stride = 0 ∨ reg.nrPages < startOff + nrPages then none
  else
    match aliasedAt stride aliased startOff with
    | none => none
    | some (part, startOff) =>
        match part.alloc with
        | none => none
        | some pages =>
            if part.length < startOff + nrPages then none
            else some ((pages.drop part.offset).take part.length, startOff)

/-- A fault that is served: the mapping, `map_start_pgoff`, and the pages it is counted in. -/
structure CpuFault where
  vma : Vma
  mapStartPgoff : Nat
  pages : List Nat

def kbaseRegDontNeed : Nat := 1 <<< 20

/-- The checks of `kbase_cpu_vm_fault` at a page of the mapping; `pages` are those of the
region's own allocation at that time. -/
def cpuFault (vma : Vma) (reg : PlacedRegion) (pgoff : Nat) (pages : List Nat) : Option CpuFault :=
  let mapStartPgoff := vma.vmPgoff - reg.startPfn
  let found :=
    match reg.memType with
    | .alias stride aliased => getAliasedAlloc reg stride aliased mapStartPgoff 1
    | _ => some (pages, mapStartPgoff)
  match found with
  | none => none
  | some (pages, mapStartPgoff) =>
      if pages.length ≤ mapStartPgoff + (pgoff - vma.vmPgoff) then none
      else if reg.flags &&& kbaseRegDontNeed ≠ 0 then none
      else some ⟨vma, mapStartPgoff, pages⟩

/-- `kbase_cpu_vm_fault`, as far as the recorder sees it. -/
def kbaseCpuVmFault (s : GrContext) (vma : Vma) (reg : PlacedRegion) (pgoff : Nat)
    (pages : List Nat) : GrContext :=
  match cpuFault vma reg pgoff pages with
  | none => s
  | some fault =>
      { s with asList := grAsAddValid vma.vmStart vma.vmEnd fault.pages.length s.asList }

/-- The page the fault handler inserts at page `i` of the mapping, if it inserts one. -/
def CpuFault.insertedPage (fault : CpuFault) (i : Nat) : Option Nat :=
  if i < fault.vma.nrPages then fault.pages[fault.mapStartPgoff + i]? else none

/-! ### Both -/

/-- What reaches the two. -/
inductive HookEvent
  | mmap (vma : Vma) (reg : PlacedRegion)
  | fault (vma : Vma) (reg : PlacedRegion) (pgoff : Nat) (pages : List Nat)

def HookEvent.run (s : GrContext) : HookEvent → GrContext
  | .mmap vma reg => (kbaseContextMmap s vma reg).getD s
  | .fault vma reg pgoff pages => kbaseCpuVmFault s vma reg pgoff pages

/-- A recorder after some of them. -/
def hookEvents (events : List HookEvent) : GrContext := events.foldl HookEvent.run (grContextInit [])

end GpuReplay.Driver
