/-
How the replayer comes by its pages: the calls of `gr_manager.c` that `gr_mem.c` makes.

A table of the page table is one page, for which the driver grows the pool itself.  For a region
`gr_mem_contents_init` first has the pool grown by as many pages as it then takes from it.  No
call is looked at for whether it succeeded.
-/
import GpuReplay.NanoDriver.Mempool

namespace GpuReplay.NanoDriver

/-- What is asked for, with the answers of the kernel to the pool. -/
inductive PageRequest
  /-- `gr_manager_alloc_get_single_page` -/
  | single (result : AllocResult)
  /-- `gr_manager_alloc_pages` and `gr_manager_get_pages` -/
  | region (results : List AllocResult)
  deriving Repr, DecidableEq

namespace PageRequest

def results : PageRequest → List AllocResult
  | .single result => [result]
  | .region results => results

/-- Its ioctls. -/
def ops : PageRequest → List MempoolOp
  | .single result => [.getPage result]
  | .region results => [.grow results, .getPages results.length]

end PageRequest

/-- Ioctls one after the other: the addresses they store. -/
def ioctls (wild : Option Node → Nat) : List MempoolOp → Mempool → Except Stop (List Nat × Mempool)
  | [], pool => .ok ([], pool)
  | op :: ops, pool => do
      let (result, pool) ← grIoctl wild pool op
      let (pas, pool) ← ioctls wild ops pool
      return (result.pa ++ pas, pool)

/-- Requests one after the other: the addresses each of them gets. -/
def serve (wild : Option Node → Nat) :
    List PageRequest → Mempool → Except Stop (List (List Nat) × Mempool)
  | [], pool => .ok ([], pool)
  | r :: rs, pool => do
      let (pas, pool) ← ioctls wild r.ops pool
      let (replies, pool) ← serve wild rs pool
      return (pas :: replies, pool)

end GpuReplay.NanoDriver
