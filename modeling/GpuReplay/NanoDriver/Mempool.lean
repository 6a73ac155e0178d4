/-
The page pool of the nano driver, from `gr_mempool.c`, and its ioctls, from `gr_main.c`.

A `struct page *` is the node that the page is linked by, or null.  The pages are those of
order 0, in lowmem, and the kernel is built with `GR_DMA`; a `dma_addr_t` fits into
`page->private`.  The pool has no lock, its ioctls are one at a time.
-/
import GpuReplay.Lib.Except
import GpuReplay.Lib.LinkedList
import GpuReplay.Replayer.Defs

namespace GpuReplay.NanoDriver

open LinkedList Function

/-- The heads of the pool's lists and of the one that `gr_mempool_term` has on its stack, and
the `lru` of the page with a frame number. -/
inductive Node
  | pageList
  | usedList
  | freeList
  | page (pfn : Nat)
  deriving Repr, DecidableEq

/-- The pool, and what the kernel knows of its pages. -/
structure Mempool where
  links : Links Node
  curSize : Nat
  totSize : Nat
  /-- `page_private` -/
  private_ : Node → Nat
  /-- frames that `alloc_pages` returned and `__free_pages` did not get back -/
  live : List Nat
  /-- the pages added, with their DMA addresses, the last one first -/
  added : List (Node × Nat)
  /-- the pages unmapped and freed, with the addresses unmapped, the last one first -/
  freed : List (Node × Nat)
  /-- the addresses stored for user space, the last one first -/
  stored : List Nat

def grMempoolIsEmpty (pool : Mempool) : Bool := pool.curSize == 0

def grMempoolAdd (pool : Mempool) (p : Node) : Mempool :=
  { pool with links := listAdd pool.links p .pageList, curSize := pool.curSize + 1,
              totSize := pool.totSize + 1, added := (p, pool.private_ p) :: pool.added }

/-- `dma_unmap_page` and `__free_pages`. -/
def grMempoolFreePage (pool : Mempool) (p : Node) : Mempool :=
  { pool with freed := (p, pool.private_ p) :: pool.freed,
              live := pool.live.filter fun pfn => Node.page pfn ≠ p }

def grMempoolRemove (pool : Mempool) : Option Node × Mempool :=
  if grMempoolIsEmpty pool then (none, pool)
  else
    let p := pool.links.next .pageList
    let pool := { pool with links := listDelInit pool.links p }
    let pool := { pool with curSize := pool.curSize - 1 }
    (some p, { pool with links := listAdd pool.links p .usedList })

def grMempoolAlloc (pool : Mempool) : Option Node × Mempool := grMempoolRemove pool

/-- What the kernel answers to `alloc_pages` and, for a page, to `dma_map_page`. -/
inductive AllocResult
  | null
  | page (pfn : Nat) (dmaAddr : Option Nat)
  deriving Repr, DecidableEq

/-- One turn for each answer.  A null page is only looked for after `page_private` has been set,
or read to unmap it. -/
def grMempoolGrow : List AllocResult → Mempool → Except Stop (Int × Mempool)
  | [], pool => .ok (0, pool)
  | .null :: _, _ => .error .undefined
  | .page pfn none :: _, pool =>
      let pool := { pool with live := pfn :: pool.live }
      .ok (-1, grMempoolFreePage pool (.page pfn))
  | .page pfn (some dmaAddr) :: results, pool =>
      let pool := { pool with live := pfn :: pool.live }
      let pool := { pool with private_ := update pool.private_ (.page pfn) dmaAddr }
      grMempoolGrow results (grMempoolAdd pool (.page pfn))

/-- A pool in memory that `kmalloc` has not cleared. -/
def grMempoolInit (junk : Links Node) (private_ : Node → Nat) : Mempool :=
  ⟨initListHead (initListHead junk .pageList) .usedList, 0, 0, private_, [], [], [], []⟩

/-- `while (!gr_mempool_is_empty(pool))`: the pages are added to the list to free. -/
def drainLoop : Nat → Mempool → Option Mempool
  | 0, _ => none
  | fuel + 1, pool =>
      if grMempoolIsEmpty pool then some pool
      else
        match grMempoolRemove pool with
        | (some p, pool) => drainLoop fuel { pool with links := listAdd pool.links p .freeList }
        | (none, _) => none

/-- `list_for_each_entry_safe(p, tmp, head, lru)`, with the page taken out and freed. -/
def freeLoop (head : Node) : Nat → Node → Node → Mempool → Option Mempool
  | 0, _, _, _ => none
  | fuel + 1, p, tmp, pool =>
      if p = head then some pool
      else
        let pool := { pool with links := listDelInit pool.links p }
        let pool := grMempoolFreePage pool p
        freeLoop head fuel tmp (pool.links.next tmp) pool

/-- The whole loop over a list. -/
def freeEntries (fuel : Nat) (head : Node) (pool : Mempool) : Option Mempool :=
  let p := pool.links.next head
  freeLoop head fuel p (pool.links.next p) pool

/-- Nothing where the fuel does not last. -/
def grMempoolTerm (fuel : Nat) (pool : Mempool) : Option Mempool := do
  let pool := { pool with links := initListHead pool.links .freeList }
  let pool ← drainLoop fuel pool
  let pool ← freeEntries fuel .freeList pool
  freeEntries fuel .usedList pool

/-! ### The ioctls -/

/-- `page_to_phys`, with what it makes of anything that is not a page. -/
def pageToPhys (wild : Option Node → Nat) : Option Node → Nat
  | some (.page pfn) => pfn * 4096
  | p => wild p

/-- What the pool is asked for, with the answers of the kernel. -/
inductive MempoolOp
  | getPage (result : AllocResult)
  | grow (results : List AllocResult)
  | getPages (nrPages : Nat)
  deriving Repr, DecidableEq

/-- The turns of `for (i = 0; i < param.nr_pages; i++)`: `i` is an `int` that wraps, and as a
`__u64` it passes most numbers of pages when it has become negative. -/
def getPagesTurns (nrPages : Nat) : Nat :=
  if nrPages ≤ 2 ^ 31 then nrPages
  else if nrPages ≤ 2 ^ 64 - 2 ^ 31 then 2 ^ 31
  else 2 ^ 32 - (2 ^ 64 - nrPages)

/-- Takes pages and stores their addresses. -/
def getPagesLoop (wild : Option Node → Nat) : Nat → Mempool → List Nat × Mempool
  | 0, pool => ([], pool)
  | n + 1, pool =>
      let (p, pool) := grMempoolAlloc pool
      let (pas, pool) := getPagesLoop wild n { pool with stored := pageToPhys wild p :: pool.stored }
      (pageToPhys wild p :: pas, pool)

structure IoctlResult where
  retval : Int
  /-- the addresses stored by this call, in order -/
  pa : List Nat

/-- `GR_MEMPOOL_GET_PAGE`, `GR_MEMPOOL_GROW` and `GR_MEMPOOL_GET_PAGES`. -/
def grIoctl (wild : Option Node → Nat) (pool : Mempool) :
    MempoolOp → Except Stop (IoctlResult × Mempool)
  | .getPage result => do
      let (_, pool) ← grMempoolGrow [result] pool
      let (pas, pool) := getPagesLoop wild 1 pool
      pure (⟨0, pas⟩, pool)
  | .grow results => do
      let (_, pool) ← grMempoolGrow results pool
      pure (⟨0, []⟩, pool)
  | .getPages nrPages =>
      let (pas, pool) := getPagesLoop wild (getPagesTurns nrPages) pool
      pure (⟨0, pas⟩, pool)

/-- `gr_manager_alloc_get_single_page` of the replayer: `param.pa`, whatever `ioctl` returned. -/
def grManagerAllocGetSinglePage (junk : Nat) (result : IoctlResult) : Nat := result.pa.headD junk

/-- `gr_manager_get_pages`, likewise. -/
def grManagerGetPages (_ : IoctlResult) : Nat := 1

/-- The pool after an ioctl that returns. -/
def mempoolStep (wild : Option Node → Nat) (pool : Mempool) (op : MempoolOp) : Option Mempool :=
  match grIoctl wild pool op with
  | .ok (_, pool) => some pool
  | .error _ => none

end GpuReplay.NanoDriver
