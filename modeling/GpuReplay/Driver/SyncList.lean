/-
The ranges that a process has synced: `gr_as_add_sync` and `gr_dump_sync_as`.

A range is put at the end of the list when it is synced for the first time, if there is memory
for its entry, and stays where it is when it is synced again.  The count is kept beside the list
and is what the file starts with.
-/
import GpuReplay.Driver.MemDump

namespace GpuReplay.Driver

open Stdio

def grFail : Int := 0
def grSuccess : Int := 1

def baseSyncsetOpMsync : Nat := 1 <<< 0
def baseSyncsetOpCsync : Nat := 1 <<< 1

/-- `struct basep_syncset`, without its handle. -/
structure Syncset where
  userAddr : Nat
  size : Nat
  type : Nat
  addr_lt : userAddr < 2 ^ 64
  size_lt : size < 2 ^ 64
  deriving Repr, DecidableEq

/-- `struct gr_sync_as`, as far as it is dumped. -/
structure GrSyncAs where
  vmStart : Nat
  vmEnd : Nat
  size : Nat
  deriving Repr, DecidableEq

/-- `struct gr_sync_as` with its counters. -/
structure SyncEntry extends GrSyncAs where
  cpuToGpu : Nat
  gpuToCpu : Nat

/-- The fields of `struct gr_context` that are about syncs. -/
structure SyncContext where
  syncAsList : List SyncEntry
  syncAsCnt : Nat

def SyncContext.init : SyncContext := ⟨[], 0⟩

def Syncset.vmEnd (sset : Syncset) : Nat := (sset.userAddr + sset.size) % 2 ^ 64

/-- The `switch` of `gr_as_add_sync`, on the entry at place `i`. -/
def countSync (s : SyncContext) (type i : Nat) : Int × SyncContext :=
  if type = baseSyncsetOpMsync then
    (grSuccess, { s with syncAsList := s.syncAsList.modify i fun e =>
      { e with cpuToGpu := (e.cpuToGpu + 1) % 2 ^ 8 } })
  else if type = baseSyncsetOpCsync then
    (grSuccess, { s with syncAsList := s.syncAsList.modify i fun e =>
      { e with gpuToCpu := (e.gpuToCpu + 1) % 2 ^ 8 } })
  else (grFail, s)

/-- `gr_as_add_sync`.  `alloc` says whether `kzalloc` succeeds, should it be called. -/
def SyncContext.grAsAddSync (s : SyncContext) (sset : Syncset) (alloc : Bool) : Int × SyncContext :=
  match s.syncAsList.findIdx? fun e => e.vmStart = sset.userAddr ∧ e.vmEnd = sset.vmEnd with
  | some i => countSync s sset.type i
  | none =>
      if alloc then
        countSync {
          syncAsList := s.syncAsList ++ [⟨⟨sset.userAddr, sset.vmEnd, sset.size⟩, 0, 0⟩]
          syncAsCnt := (s.syncAsCnt + 1) % 2 ^ 32 } sset.type s.syncAsList.length
      else (grFail, s)

/-- `gr_dump_sync_as`, to the file of the context. -/
def SyncContext.grDumpSyncAs (s : SyncContext) (file : OutFile) : OutFile :=
  s.syncAsList.foldl
    (fun file a => fileWrite (Bytes.le 8 a.size) (fileWrite (Bytes.le 8 a.vmEnd)
      (fileWrite (Bytes.le 8 a.vmStart) file)))
    (fileWrite (Bytes.le 4 s.syncAsCnt) file)

/-! ### Many syncs -/

/-- A call of `gr_as_add_sync`. -/
structure SyncCall where
  sset : Syncset
  alloc : Bool
  deriving Repr, DecidableEq

/-- What a session of calls leaves. -/
def syncAll (calls : List SyncCall) : SyncContext :=
  calls.foldl (fun s call => (s.grAsAddSync call.sset call.alloc).2) SyncContext.init

end GpuReplay.Driver
