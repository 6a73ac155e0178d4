/-
`gr_mempool_grow` with the calls it makes on pages.

`alloc_pages` answers with a page or with null, and either is passed to `dma_map_page`.  What a
null page comes to there is not defined, and the pool is not heard of again.
-/
import GpuReplay.Lib.Logged
import GpuReplay.NanoDriver.Mempool

namespace GpuReplay.NanoDriver

open Function

/-- A call on a page, `none` for a null one. -/
inductive PoolCall
  /-- with the address, `none` where `dma_mapping_error` says so -/
  | dmaMapPage (p : Option Nat) (dmaAddr : Option Nat)
  | setPagePrivate (p : Option Nat)
  | dmaUnmapPage (p : Option Nat)
  | freePages (p : Option Nat)
  /-- `gr_mempool_add` -/
  | add (p : Option Nat)
  deriving Repr, DecidableEq

def PoolCall.page : PoolCall → Option Nat
  | .dmaMapPage p _ => p
  | .setPagePrivate p => p
  | .dmaUnmapPage p => p
  | .freePages p => p
  | .add p => p

/-- Runs with the calls they make. -/
abbrev PoolRun := Logged PoolCall Stop

def grMempoolFreePageLog (pool : Mempool) (pfn : Nat) : PoolRun Mempool := do
  .call (.dmaUnmapPage (some pfn)) (.ok ())
  .call (.freePages (some pfn)) (.ok (grMempoolFreePage pool (.page pfn)))

def grMempoolGrowLog : List AllocResult → Mempool → PoolRun (Int × Mempool)
  | [], pool => pure (0, pool)
  | .null :: _, _ => .call (.dmaMapPage none none) (.error .undefined)
  | .page pfn none :: _, pool => do
      let pool := { pool with live := pfn :: pool.live }
      .call (.dmaMapPage (some pfn) none) (.ok ())
      let pool ← grMempoolFreePageLog pool pfn
      return (-1, pool)
  | .page pfn (some dmaAddr) :: results, pool => do
      let pool := { pool with live := pfn :: pool.live }
      .call (.dmaMapPage (some pfn) (some dmaAddr)) (.ok ())
      let pool := { pool with private_ := update pool.private_ (.page pfn) dmaAddr }
      .call (.setPagePrivate (some pfn)) (.ok ())
      let pool ← .call (.add (some pfn)) (.ok (grMempoolAdd pool (.page pfn)))
      grMempoolGrowLog results pool

end GpuReplay.NanoDriver
