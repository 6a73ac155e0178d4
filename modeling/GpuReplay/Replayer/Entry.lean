/-
Page-table entries as the replayer writes them: the encoding half of `gr_mem.c`.

An entry is a 64-bit word.  Its two low bits say what it is: `3` a table (or, at the
bottom level, a page), `1` a block, `2` nothing.  The replayer composes leaf entries
itself, from a frame and the region's flags, so that they do not depend on what the
recording machine's MMU last wrote.
-/
import GpuReplay.Replayer.Defs

namespace GpuReplay.Replayer

/-! ### Bits of an entry -/

def entryTypeMask : Nat := 3
def entryIsAteL3 : Nat := 3
def entryIsAteL02 : Nat := 1
def entryIsInval : Nat := 2
def entryIsPte : Nat := 3
def entryAccessRw : Nat := 1 <<< 6
def entryAccessRo : Nat := 3 <<< 6
def entryAccessBit : Nat := 1 <<< 10
def entryNxBit : Nat := 1 <<< 54
def shareBothBits : Nat := 2 <<< 8
def shareInnerBits : Nat := 3 <<< 8

/-! ### Bits of a region's flags -/

def kbaseRegGpuWr : Nat := 1 <<< 2
def kbaseRegGpuNx : Nat := 1 <<< 3
def kbaseRegShareIn : Nat := 1 <<< 9
def kbaseRegShareBoth : Nat := 1 <<< 10
def kbaseRegGpuRd : Nat := 1 <<< 13
def kbaseRegMemattrMask : Nat := 7 <<< 16

/-- `KBASE_REG_MEMATTR_VALUE`. -/
def kbaseRegMemattrValue (flags : Nat) : Nat := (flags &&& kbaseRegMemattrMask) >>> 16

/-- `MIDGARD_MMU_BOTTOMLEVEL`; the top level is `0`. -/
def midgardMmuBottomlevel : Nat := 3

/-- `get_mmu_flags`: the attribute bits of an entry for a region's flags. -/
def getMmuFlags (flags : Nat) : Nat :=
  let mmuFlags := kbaseRegMemattrValue flags <<< 2
  let mmuFlags :=
    if flags &&& kbaseRegGpuWr ≠ 0 then mmuFlags ||| entryAccessRw
    else if flags &&& kbaseRegGpuRd ≠ 0 then mmuFlags ||| entryAccessRo
    else mmuFlags
  let mmuFlags := mmuFlags ||| (if flags &&& kbaseRegGpuNx ≠ 0 then entryNxBit else 0)
  if flags &&& kbaseRegShareBoth ≠ 0 then mmuFlags ||| shareBothBits
  else if flags &&& kbaseRegShareIn ≠ 0 then mmuFlags ||| shareInnerBits
  else mmuFlags

/-- `gr_entry_get_ate`. -/
def grEntryGetAte (paddr flags level : Nat) : Nat :=
  if level = midgardMmuBottomlevel then
    paddr ||| getMmuFlags flags ||| entryAccessBit ||| entryIsAteL3
  else
    paddr ||| getMmuFlags flags ||| entryAccessBit ||| entryIsAteL02

/-- `gr_entry_get_pte`. -/
def grEntryGetPte (paddr : Nat) : Nat := paddr ||| entryAccessBit ||| entryIsPte

/-- `pte_is_valid`: a table entry, which the bottom level has none of. -/
def pteIsValid (pte level : Nat) : Bool :=
  if level = midgardMmuBottomlevel then false
  else decide (pte &&& entryTypeMask = entryIsPte)

/-- `pte_to_phys_addr`.  `~0xFFF` is an `int`, which sign-extends to 64 bits. -/
def pteToPhysAddr (entry : Nat) : Nat :=
  let entry := if entry &&& entryNxBit ≠ 0 then entry - entryNxBit else entry
  pageStart entry

end GpuReplay.Replayer
