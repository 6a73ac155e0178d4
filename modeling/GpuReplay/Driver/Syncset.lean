/-
The sync call of the driver, `kbase_do_syncset`, with the recorder's hook at its end.

Pages are handed to the cache maintenance one by one: the first, then those between as long as
there are pages, then the last.  The hook maps a page, to print what has been synced.  It takes
the page's index from the counter that the loop over the pages between has left behind.
-/
import GpuReplay.Driver.MmuMode
import GpuReplay.Driver.SyncList

namespace GpuReplay.Driver

def einval : Int := -22

/-- `as_page`: a page is known by its frame's number. -/
def asPage (taggedAddr : Nat) : Nat := asPhysAddr taggedAddr / 4096

/-- What `kbase_do_syncset` reads of a region.  The two arrays are given by what stands at an
index, also past their end. -/
structure SyncRegion where
  nrPages : Nat
  flags : Nat
  /-- `kbase_is_region_invalid_or_free` -/
  invalidOrFree : Bool
  /-- for imported memory, what `kbase_mem_do_sync_imported` returns -/
  imported : Option Int
  /-- `cpu_alloc == gpu_alloc` -/
  sharedAlloc : Bool
  cpuPa : Nat → Nat
  gpuPa : Nat → Nat

/-- What the call does, in the order in which it does it. -/
inductive SyncEvent
  | syncSingle (cpuPa gpuPa offset size : Nat)
  | kmap (index page : Nat)
  | asAddSync (offset : Nat)
  | hexDump (page offset size : Nat)
  | kunmap (page : Nat)
  deriving Repr, DecidableEq

/-- `page_off`, for the offset of the user's address in the region. -/
def syncPageOff (offset : Nat) : Nat := offset / 4096

/-- `page_count`, of 64 bits as its operands are. -/
def syncPageCount (offset size : Nat) : Nat := (size + offset % 4096 + 4095) % 2 ^ 64 / 4096

/-- The loop over the pages between, of which `n` are left, with the counter it ends with. -/
def syncMiddle (reg : SyncRegion) (pageOff : Nat) : Nat → Nat → List SyncEvent × Nat
  | 0, i => ([], i)
  | n + 1, i =>
      if asPhysAddr (reg.cpuPa (pageOff + i)) = 0 then ([], i)
      else
        let (events, last) := syncMiddle reg pageOff n (i + 1)
        (.syncSingle (reg.cpuPa (pageOff + i)) (reg.gpuPa (pageOff + i)) 0 4096 :: events, last)

/-- The hook under `CONFIG_GR`. -/
def grSyncHook (reg : SyncRegion) (sset : Syncset) (pageOff offset i : Nat) : List SyncEvent :=
  if reg.sharedAlloc then
    [.kmap (pageOff + i) (asPage (reg.cpuPa (pageOff + i))),
      .asAddSync (pageOff * 4096 + offset),
      .hexDump (asPage (reg.cpuPa (pageOff + i))) offset (min sset.size 128),
      .kunmap (asPage (reg.cpuPa pageOff))]
  else []

/-- `kbase_do_syncset` once the mapping is found, at `offset` in the region. -/
def syncMapping (reg : SyncRegion) (sset : Syncset) (offset : Nat) : Int × List SyncEvent :=
  let pageOff := syncPageOff offset
  let pageCount := syncPageCount offset sset.size
  let offset := offset % 4096
  if pageOff > reg.nrPages ∨ pageOff + pageCount > reg.nrPages then (einval, [])
  else
    let first :=
      if asPhysAddr (reg.cpuPa pageOff) ≠ 0 then
        [.syncSingle (reg.cpuPa pageOff) (reg.gpuPa pageOff) offset (min (4096 - offset) sset.size)]
      else []
    let (middle, i) := syncMiddle reg pageOff (pageCount - 2) 1
    let last :=
      if pageCount > 1 ∧ asPhysAddr (reg.cpuPa (pageOff + pageCount - 1)) ≠ 0 then
        [.syncSingle (reg.cpuPa (pageOff + pageCount - 1)) (reg.gpuPa (pageOff + pageCount - 1)) 0
          ((sset.userAddr + sset.size + (2 ^ 64 - 1)) % 4096 + 1)]
      else []
    (0, first ++ middle ++ last ++ grSyncHook reg sset pageOff offset i)

/-- `kbase_do_syncset`, for the region found at the handle, and the offset at which the mapping
that encloses the user's range begins, if there is one. -/
def kbaseDoSyncset (reg : Option SyncRegion) (map : Option Nat) (sset : Syncset) :
    Int × List SyncEvent :=
  match reg with
  | none => (einval, [])
  | some reg =>
      if reg.invalidOrFree then (einval, [])
      else
        match reg.imported with
        | some err => (err, [])
        | none =>
            if reg.flags &&& kbaseRegCpuCached = 0 then (0, [])
            else
              match map with
              | none => (einval, [])
              | some offset => syncMapping reg sset offset

end GpuReplay.Driver
