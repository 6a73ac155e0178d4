/-
Recording sessions under one loaded driver, and the files they leave.

`gr_context_init` opens the two files of a context without truncating them and starts to write
at offset 0.  The page table is dumped once for the life of the driver: `is_done` is a static
variable of `gr_mmu_dump`.
-/
import GpuReplay.Driver.MmuDump
import GpuReplay.Driver.Recorder
import GpuReplay.Driver.SyncList

namespace GpuReplay.Driver

open Stdio

/-- The files, and the static variable of `gr_mmu_dump`. -/
structure DriverState where
  pgt : List UInt8
  memContents : List UInt8
  syncAs : List UInt8
  isDone : Bool
  deriving DecidableEq

/-- A driver just loaded, with no files. -/
def freshDriver : DriverState := ⟨[], [], [], false⟩

/-- The recorder's context with its synced address spaces. -/
structure SessionContext where
  ctx : GrContext
  sync : SyncContext
  syncAsFile : OutFile

/-- What happens to a context; of a sync also whether there is memory for an entry. -/
inductive SessionEvent
  | recorder (e : RecorderEvent)
  | sync (sset : Syncset) (alloc : Bool)

def sessionStep (s : SessionContext) : SessionEvent → Option SessionContext
  | .recorder e => (recorderStep s.ctx e).map fun ctx => { s with ctx := ctx }
  | .sync sset alloc => some { s with sync := (s.sync.grAsAddSync sset alloc).2 }

/-- A context's life: what happens to it, and the memory and the page table at its end. -/
structure Session where
  events : List SessionEvent
  mem : ByteMem
  cpuAlloc : Nat → List Nat
  setup : MmuSetup
  pgd : Nat
  pgtNrPages : Nat

/-- `gr_mmu_dump`, with the test of `is_done`. -/
def mmuDumpOnce (d : DriverState) (session : Session) : Option (List UInt8) :=
  if d.isDone then some d.pgt
  else
    match grMmuDump session.mem session.setup session.pgd session.pgtNrPages with
    | .ok bytes => some ((OutFile.reopen d.pgt).write bytes).bytes
    | .error _ => none

/-- `gr_context_init`, the events, `kbase_api_post_term` and `gr_context_term`. -/
def runSession (d : DriverState) (session : Session) : Option DriverState := do
  let s ← session.events.foldlM sessionStep
    ⟨grContextInit d.memContents, SyncContext.init, OutFile.reopen d.syncAs⟩
  let pgt ← mmuDumpOnce d session
  let ctx ← (postTerm session.mem session.cpuAlloc s.ctx).toOption
  let syncAsFile := s.sync.grDumpSyncAs s.syncAsFile
  return ⟨pgt, ctx.memDumpFile.bytes, syncAsFile.bytes, true⟩

/-- One session after the other. -/
def runSessions (d : DriverState) (sessions : List Session) : Option DriverState :=
  sessions.foldlM runSession d

end GpuReplay.Driver
