/-
The life of the mappings behind `as_list`: `mmap`, `munmap` and the CPU fault.

An entry is added when a mapping is made, whether or not `kbase_cpu_mmap` has failed, and
none is ever removed: place `k` of the list is for the `k`-th mapping of the process.  What
`munmap` leaves of a mapping are areas with other bounds, and a fault is on an area.
-/
import GpuReplay.Driver.Recorder

namespace GpuReplay.Driver

/-- A mapping as it was made.  `faulted` is for the reader of the model: the page count of its
allocation at the last fault on it. -/
structure Mapping where
  vmStart : Nat
  vmEnd : Nat
  region : VaRegion
  faulted : Option Nat
  deriving Repr, DecidableEq

def Mapping.range (m : Mapping) : Nat × Nat := (m.vmStart, m.vmEnd)

def GrAs.range (tas : GrAs) : Nat × Nat := (tas.vmStart, tas.vmEnd)

/-- What is there of a mapping: its `vm_area_struct`, or a piece of it. -/
structure VmArea where
  vmStart : Nat
  vmEnd : Nat
  /-- the number of the mapping -/
  mapping : Nat
  deriving Repr, DecidableEq

def VmArea.range (vma : VmArea) : Nat × Nat := (vma.vmStart, vma.vmEnd)

/-- What is left of an area without the addresses from `first` to `last`. -/
def VmArea.unmap (first last : Nat) (vma : VmArea) : List VmArea :=
  let before := { vma with vmEnd := min vma.vmEnd first }
  let behind := { vma with vmStart := max vma.vmStart last }
  [before, behind].filter fun v => v.vmStart < v.vmEnd

structure MapState where
  ctx : GrContext
  /-- every mapping there has been, the first one first -/
  mappings : List Mapping
  areas : List VmArea

def MapState.init (file : List UInt8) : MapState := ⟨grContextInit file, [], []⟩

inductive MapEvent
  /-- `kbase_context_mmap`, and whether `kbase_cpu_mmap` failed -/
  | mmap (vmStart vmEnd : Nat) (region : VaRegion) (err : Bool)
  | munmap (first last : Nat)
  /-- `kbase_cpu_vm_fault` on the `i`-th area, the allocation having `nents` pages by then -/
  | fault (i nents : Nat)
  deriving Repr, DecidableEq

/-- No area has an address of the range. -/
def MapState.Free (s : MapState) (vmStart vmEnd : Nat) : Prop :=
  ∀ vma ∈ s.areas, vmEnd ≤ vma.vmStart ∨ vma.vmEnd ≤ vmStart

instance (s : MapState) (vmStart vmEnd : Nat) : Decidable (s.Free vmStart vmEnd) :=
  inferInstanceAs (Decidable (∀ vma ∈ s.areas, vmEnd ≤ vma.vmStart ∨ vma.vmEnd ≤ vmStart))

/-- After a fault on the area, which is of mapping `m`. -/
def MapState.afterFault (s : MapState) (vma : VmArea) (m : Mapping) (nents : Nat) : MapState :=
  { s with
    ctx := { s.ctx with asList := grAsAddValid vma.vmStart vma.vmEnd nents s.ctx.asList }
    mappings := s.mappings.set vma.mapping { m with faulted := some nents } }

def mapStep (s : MapState) : MapEvent → Option MapState
  | .mmap vmStart vmEnd region err =>
      if vmStart < vmEnd ∧ s.Free vmStart vmEnd then
        some {
          ctx := grAsAdd s.ctx vmStart vmEnd region
          mappings := s.mappings ++ [⟨vmStart, vmEnd, region, none⟩]
          areas := if err then s.areas else s.areas ++ [⟨vmStart, vmEnd, s.mappings.length⟩] }
      else none
  | .munmap first last =>
      if first < last then some { s with areas := s.areas.flatMap (VmArea.unmap first last) }
      else none
  | .fault i nents => do
      let vma ← s.areas[i]?
      let m ← s.mappings[vma.mapping]?
      return s.afterFault vma m nents

end GpuReplay.Driver
