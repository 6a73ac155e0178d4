/-
Page-table entries as the driver writes them: `mali_kbase_mmu_mode_aarch64.c`.

The replayer has its own copy of these bits; the two are kept apart here because they
are compiled apart.
-/
import GpuReplay.Replayer.Defs

namespace GpuReplay.Driver

/-! ### Bits of an entry -/

def entryTypeMask : Nat := 3
def entryIsAteL3 : Nat := 3
def entryIsAteL02 : Nat := 1
def entryIsInval : Nat := 2
def entryIsPte : Nat := 3
def entryAccessRw : Nat := 1 <<< 6
def entryAccessRo : Nat := 3 <<< 6
def entryAccessBit : Nat := 1 <<< 10
def entryNxBit : Nat := 1 <<< 54
def shareBothBits : Nat := 2 <<< 8
def shareInnerBits : Nat := 3 <<< 8

/-! ### Bits of a region's flags -/

def kbaseRegGpuWr : Nat := 1 <<< 2
def kbaseRegGpuNx : Nat := 1 <<< 3
def kbaseRegCpuCached : Nat := 1 <<< 4
def kbaseRegGpuCached : Nat := 1 <<< 5
def kbaseRegShareIn : Nat := 1 <<< 9
def kbaseRegShareBoth : Nat := 1 <<< 10
def kbaseRegGpuRd : Nat := 1 <<< 13
def kbaseRegMemattrMask : Nat := 7 <<< 16

/-- `KBASE_REG_MEMATTR_VALUE`. -/
def kbaseRegMemattrValue (flags : Nat) : Nat := (flags &&& kbaseRegMemattrMask) >>> 16

/-- `MIDGARD_MMU_BOTTOMLEVEL`; the top level is `0`. -/
def midgardMmuBottomlevel : Nat := 3

/-- `pte_to_phy_addr`. -/
def pteToPhyAddr (entry : Nat) : Nat :=
  if entry &&& 1 = 0 then 0 else pageStart entry

/-- `ate_is_valid`: the type bits are those of a page, or of a block above the bottom level. -/
def ateIsValid (ate level : Nat) : Bool :=
  if level = midgardMmuBottomlevel then decide (ate &&& entryTypeMask = entryIsAteL3)
  else decide (ate &&& entryTypeMask = entryIsAteL02)

/-- `pte_is_valid`. -/
def pteIsValid (pte level : Nat) : Bool :=
  if level = midgardMmuBottomlevel then false
  else decide (pte &&& entryTypeMask = entryIsPte)

/-- `get_mmu_flags`. -/
def getMmuFlags (flags : Nat) : Nat :=
  let mmuFlags := kbaseRegMemattrValue flags <<< 2
  let mmuFlags :=
    if flags &&& kbaseRegGpuWr ≠ 0 then mmuFlags ||| entryAccessRw
    else if flags &&& kbaseRegGpuRd ≠ 0 then mmuFlags ||| entryAccessRo
    else mmuFlags
  let mmuFlags := mmuFlags ||| (if flags &&& kbaseRegGpuNx ≠ 0 then entryNxBit else 0)
  if flags &&& kbaseRegShareBoth ≠ 0 then mmuFlags ||| shareBothBits
  else if flags &&& kbaseRegShareIn ≠ 0 then mmuFlags ||| shareInnerBits
  else mmuFlags

/-- `as_phys_addr_t`: the address of a page, without the tag in its low bits. -/
def asPhysAddr (taggedAddr : Nat) : Nat := pageStart taggedAddr

/-- The word `entry_set_ate` stores. -/
def entrySetAte (phy flags level : Nat) : Nat :=
  if level = midgardMmuBottomlevel then
    phy ||| getMmuFlags flags ||| entryAccessBit ||| entryIsAteL3
  else
    phy ||| getMmuFlags flags ||| entryAccessBit ||| entryIsAteL02

/-- The word `entry_set_pte` stores. -/
def entrySetPte (phy : Nat) : Nat := pageStart phy ||| entryAccessBit ||| entryIsPte

/-- The word `entry_invalidate` stores. -/
def entryInvalidate : Nat := entryIsInval

end GpuReplay.Driver
