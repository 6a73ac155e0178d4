/-
The device `/dev/gr` of the nano driver, from `gr_main.c`: what it does with its pool.

The pool is a global pointer.  `GR_MEMPOOL_INIT` sets it to memory from `kmalloc`,
`GR_MEMPOOL_TERM` frees that memory and leaves the pointer, and the other ioctls of the pool
follow the pointer without looking at it.  The device is one to open for anybody, so the ioctls
come in any order.
-/
import GpuReplay.NanoDriver.Mempool

namespace GpuReplay.NanoDriver

open LinkedList

/-- A pool in memory that `kmalloc` has returned, until `kfree`. -/
structure PoolMemory where
  pool : Mempool
  live : Bool

structure Device where
  /-- what `gr_mempool_init` has allocated, in order -/
  pools : List PoolMemory
  /-- the global `pool`: null, or which one it points to -/
  pool : Option Nat

/-- The module once it is loaded. -/
def Device.loaded : Device := ⟨[], none⟩

/-- What user space does to the device, with the answers of the kernel. -/
inductive DeviceCall
  /-- `GR_MEMPOOL_INIT`, where `kmalloc` returns null or memory that it has not cleared -/
  | init (memory : Option (Links Node × (Node → Nat)))
  /-- `GR_MEMPOOL_GET_PAGE`, `GR_MEMPOOL_GROW`, `GR_MEMPOOL_GET_PAGES` -/
  | pool (op : MempoolOp)
  /-- `GR_MEMPOOL_TERM` -/
  | term
  /-- anything else: the other command words, known or not, and `gr_release` and `gr_open` -/
  | other

/-- How a call ends: it returns, it follows a pointer to no pool, it runs into what a null page
comes to, or it does not end within the fuel. -/
inductive CallOutcome
  | returned (result : IoctlResult) (d : Device)
  | noPool
  | undefined
  | running

/-- The pool that the global pointer points to. -/
def Device.current (d : Device) : Option Mempool :=
  match d.pool.bind (d.pools[·]?) with
  | some ⟨pool, true⟩ => some pool
  | _ => none

/-- The current pool changed, or freed. -/
def Device.put (d : Device) (memory : PoolMemory) : Device :=
  match d.pool with
  | some i => { d with pools := d.pools.set i memory }
  | none => d

/-- `gr_ioctl`.  `access_ok` is never below `0`, so `-EINVAL` is never returned. -/
def grIoctlDevice (wild : Option Node → Nat) (fuel : Nat) (d : Device) : DeviceCall → CallOutcome
  | .init none => .noPool
  | .init (some (junk, private_)) =>
      .returned ⟨0, []⟩
        ⟨d.pools ++ [⟨grMempoolInit junk private_, true⟩], some d.pools.length⟩
  | .pool op =>
      match d.current with
      | none => .noPool
      | some pool =>
          match grIoctl wild pool op with
          | .ok (result, pool) => .returned result (d.put ⟨pool, true⟩)
          | .error _ => .undefined
  | .term =>
      match d.current with
      | none => .noPool
      | some pool =>
          match grMempoolTerm fuel pool with
          | some pool => .returned ⟨0, []⟩ (d.put ⟨pool, false⟩)
          | none => .running
  | .other => .returned ⟨0, []⟩ d

/-- The next call is made once this one has returned. -/
def deviceStep (wild : Option Node → Nat) (fuel : Nat) (d : Device) (c : DeviceCall) :
    Option Device :=
  match grIoctlDevice wild fuel d c with
  | .returned _ d => some d
  | _ => none

end GpuReplay.NanoDriver
