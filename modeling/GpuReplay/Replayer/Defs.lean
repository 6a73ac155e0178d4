/-
The replayer's data: `include/gr_defs.h` and the constants of `include/gr_mem.h`.

Machine integers are natural numbers here, with an explicit modulus wherever C
wraps.  `PAGE_SIZE` is written `4096` and `KBASE_MMU_PAGE_ENTRIES` `512`, so that
linear arithmetic sees them; `x & OFFSET_MASK`, `x & ~OFFSET_MASK` and
`x >> PAGE_SHIFT` are accordingly `x % 4096`, `pageStart x` and `x / 4096`.

A function of the replayer either returns, ends the program, or does something C
gives no meaning to.  `Stop` names the last two, and the functions live in
`Except Stop`.
-/
import GpuReplay.Lib.ByteMem

namespace GpuReplay

/-- How a run ends when it does not return. -/
inductive Stop
  /-- `xzl_bug_on_msg` or `exit`: the program reports and ends. -/
  | abort (msg : String)
  /-- A step C leaves undefined: an index outside an array, a null or wild
  pointer, an access past a mapped page, a signed overflow. -/
  | undefined
  deriving Repr, DecidableEq

/-- `x & ~OFFSET_MASK`. -/
def pageStart (x : Nat) : Nat := x / 4096 * 4096

/-- `INT_MAX`. -/
def intMax : Nat := 2147483647

/-- `NR_VA_REGION`, the number of entries of `gm_region`. -/
def nrVaRegion : Nat := 128

namespace Replayer

/-- `struct gpu_mem_region`.  `pages` is the array `malloc`ed for the region. -/
structure Region where
  gmStart : Nat
  gmEnd : Nat
  pages : List Nat
  nrPages : Nat
  flags : Nat
  isValid : Nat
  isSynced : Nat
  deriving Repr, DecidableEq, Inhabited

/-- The region's GPU addresses are `[gm_start, gm_end)`. -/
def Region.Encloses (r : Region) (gaddr : Nat) : Prop := r.gmStart ≤ gaddr ∧ gaddr < r.gmEnd

instance (r : Region) (gaddr : Nat) : Decidable (r.Encloses gaddr) :=
  inferInstanceAs (Decidable (_ ∧ _))

/-- A pointer to a `user_pgtable` node: null, one of the nodes allocated so far, or
whatever else the memory it was read from happened to hold. -/
inductive UserPtr
  | null
  | node (k : Nat)
  | wild
  deriving Repr, DecidableEq

/-- `struct user_pgtable`.  `mapped_page` is a mapping of `phys_page`, so accesses
through it are accesses to that physical page. -/
structure UserPgtable where
  physPage : Nat
  pgd : Nat → UserPtr

/-- The part of the machine the replayer changes: physical memory, reached through
`/dev/mem`; the frames the driver's pool is going to hand out, in that order; and
the `user_pgtable` nodes `malloc`ed so far. -/
structure Machine where
  mem : ByteMem
  pool : List Nat
  heap : List UserPgtable

end Replayer

end GpuReplay
