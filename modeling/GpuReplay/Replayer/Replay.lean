/-
The replay itself: `gr_replay.c`, with the checkpoint and the validation it calls.

A replay reads and writes GPU registers, and nothing else of the GPU is visible to it.
What the registers answer, what the clock says and whether `poll` fails come from an
environment; what the program does is a trace of events, each access with the place in
the program it is made from.  `latest_flush_id`, `jc_lo` and the checkpoint count are a
global and two statics, so they are state that a run starts with.

A run that aborts has done something by then, so errors carry the state.
-/
import GpuReplay.Lib.Post
import GpuReplay.Replayer.Context

namespace GpuReplay.Replayer

open Stdio

/-! ### Registers -/

/-- `GPU_REG_PA_SIZE`. -/
def gpuRegPaSize : Nat := 0x4000

def gpuIrqRawstat : Nat := 0x20
def gpuIrqClear : Nat := 0x24
def gpuIrqMask : Nat := 0x28
def gpuCommand : Nat := 0x30
def latestFlush : Nat := 0x38
def jobIrqStatus : Nat := 0x100C
def jsHeadNextLo : Nat := 0x18C0
def jsHeadNextHi : Nat := 0x18C4
def jsConfigNext : Nat := 0x18D8
def jsCommandNext : Nat := 0x18E0
def jsFlushIdNext : Nat := 0x18F0
def asTranstabLo : Nat := 0x2400
def asTranstabHi : Nat := 0x2404
def asLockaddrLo : Nat := 0x2410
def asLockaddrHi : Nat := 0x2414
def asCommand : Nat := 0x2418
def asStatus : Nat := 0x2428

def asStatusAsInactive : Nat := 0
def asStatusAsActive : Nat := 1
def asCommandLock : Nat := 2
def asCommandFlushPt : Nat := 4
def asCommandFlushMem : Nat := 5
def gpuCommandSoftReset : Nat := 1
def gpuCommandCleanInvCaches : Nat := 8
def jsConfigStartFlushNoAction : Nat := 0
def resetCompleted : Nat := 1 <<< 8
def cleanCachesCompleted : Nat := 1 <<< 17

/-- `KBASE_AS_INACTIVE_MAX_LOOPS`. -/
def kbaseAsInactiveMaxLoops : Nat := 100000000

/-! ### The log, the configuration and the environment -/

/-- `struct reg_io`, without its link. -/
structure RegIo where
  ts : Nat
  isRead : Char
  offset : Nat
  value : Nat
  deriving Repr, DecidableEq

/-- `gr_config` with its job counts. -/
structure ReplayConfig extends GrConfig where
  nrPrepJobs : Nat
  nrTotJobs : Nat

/-- What a replay cannot choose: the answer to the `n`-th register read, the `n`-th time
`k2_measure` returns, and whether the `n`-th `poll` succeeds. -/
structure Env where
  hw : Nat → Nat
  clock : Nat → Nat
  poll : Nat → Bool

/-- The place in the program an access is made from. -/
inductive Site
  | entry
  | wait
  | cacheInvalidate
  | asFlush
  | softReset
  | validate
  deriving Repr, DecidableEq

/-- What a replay does that can be seen. -/
inductive Event
  | read (site : Site) (offset value : Nat)
  | write (site : Site) (offset value : Nat)
  | waitJobIrq
  | notMatched (offset value recorded : Nat)
  | givenCmd (i offset value : Nat)
  | validationFailed
  deriving Repr, DecidableEq

/-- The state of a replay. -/
structure ReplayState where
  mem : ByteMem
  reads : Nat
  clocks : Nat
  waits : Nat
  latestFlushId : Nat
  jcLo : Nat
  checkpoints : Nat
  provision : Option (List UInt8)
  nrWrittenPages : Nat
  jobSubmitCnt : Nat
  compTime : Nat
  tsPrepStart : Nat
  tsPrepEnd : Nat
  tsCompStart : Nat
  tsCompEnd : Nat
  totPrepTime : Nat
  totCompTime : Nat
  regFp : Stream
  regmap : List UInt8
  trace : List Event

abbrev Replay := EStateM Stop ReplayState

/-! ### Single accesses -/

def ReplayState.emit (s : ReplayState) (e : Event) : ReplayState :=
  { s with trace := s.trace ++ [e] }

def emit (e : Event) : Replay Unit := fun s => .ok () (s.emit e)

/-- The value the next read returns. -/
def ReplayState.answer (s : ReplayState) (env : Env) : Nat := env.hw s.reads % 2 ^ 32

/-- The state after a read. -/
def ReplayState.afterRead (s : ReplayState) (env : Env) (site : Site) (offset : Nat) :
    ReplayState :=
  { s with reads := s.reads + 1, trace := s.trace ++ [.read site offset (s.answer env)] }

/-- `gr_reg_read`.  The registers are a mapping of `GPU_REG_PA_SIZE` bytes. -/
def grRegRead (env : Env) (site : Site) (offset : Nat) : Replay Nat := fun s =>
  if offset + 4 ≤ gpuRegPaSize then .ok (s.answer env) (s.afterRead env site offset)
  else .error .undefined s

/-- `gr_reg_write`. -/
def grRegWrite (site : Site) (offset value : Nat) : Replay Unit := fun s =>
  if offset + 4 ≤ gpuRegPaSize then .ok () (s.emit (.write site offset value))
  else .error .undefined s

/-- `k2_measure`. -/
def k2Measure (env : Env) : Replay Nat := fun s =>
  .ok (env.clock s.clocks % 2 ^ 32) { s with clocks := s.clocks + 1 }

/-- `gr_wait_job_irq`, which returns when `poll` reports the completion. -/
def grWaitJobIrq (env : Env) : Replay Unit := fun s =>
  let s' := { s with waits := s.waits + 1, trace := s.trace ++ [.waitJobIrq] }
  if env.poll s.waits then .ok () s' else .error (.abort "poll : ") s'

/-- A step on memory, which throws into the state it started in. -/
def onMem (f : ByteMem → Except Stop ByteMem) : Replay Unit := fun s =>
  match f s.mem with
  | .ok mem => .ok () { s with mem := mem }
  | .error e => .error e s

/-- `if (c) x;` -/
def onlyIf (c : Prop) [Decidable c] (x : Replay Unit) : Replay Unit := if c then x else pure ()

/-! ### Waiting and flushing -/

/-- The loop of `reg_read_wait`, with `max_loops` before its decrement: `max_loops` after
the loop.  It starts above `0`. -/
def waitLoop (env : Env) (offset value : Nat) : Nat → Nat → Replay Nat
  | 0, _ => throw .undefined
  | n + 1, newValue =>
      if n ≠ 0 ∧ newValue ≠ value then do
        let newValue ← grRegRead env .wait offset
        waitLoop env offset value n newValue
      else
        return n

/-- `reg_read_wait`. -/
def regReadWait (env : Env) (offset value : Nat) : Replay Unit := do
  let newValue ← grRegRead env .wait offset
  let maxLoops ← waitLoop env offset value kbaseAsInactiveMaxLoops newValue
  onlyIf (maxLoops = 0) (throw (.abort "AS_ACTIVE bit stuck"))

/-- The loop of `gr_cache_invalidate`: the last value read.  `loops` starts above `0`. -/
def cacheLoop (env : Env) : Nat → Nat → Replay Nat
  | 0, _ => throw .undefined
  | n + 1, val =>
      if val &&& (cleanCachesCompleted ||| resetCompleted) = 0 ∧ n ≠ 0 then do
        let val ← grRegRead env .cacheInvalidate gpuIrqRawstat
        cacheLoop env n val
      else
        return val

/-- `gr_cache_invalidate`. -/
def grCacheInvalidate (env : Env) : Replay Unit := do
  let irqMask ← grRegRead env .cacheInvalidate gpuIrqMask
  grRegWrite .cacheInvalidate gpuIrqMask (irqMask ||| cleanCachesCompleted)
  grRegWrite .cacheInvalidate gpuCommand gpuCommandCleanInvCaches
  let val ← grRegRead env .cacheInvalidate gpuIrqRawstat
  let val ← cacheLoop env 100000 val
  let irqMask ← grRegRead env .cacheInvalidate gpuIrqMask
  -- `irq_mask & ~CLEAN_CACHES_COMPLETED`
  grRegWrite .cacheInvalidate gpuIrqMask (irqMask &&& (2 ^ 32 - 1 - cleanCachesCompleted))
  grRegWrite .cacheInvalidate gpuIrqClear val

/-- The loop of `gr_as_flush`.  `max_loops` starts above `0`. -/
def flushLoop (env : Env) : Nat → Nat → Replay Unit
  | 0, _ => throw .undefined
  | n + 1, val =>
      if n ≠ 0 ∧ val &&& asStatusAsActive ≠ 0 then do
        let val ← grRegRead env .asFlush asStatus
        flushLoop env n val
      else
        return ()

/-- `gr_as_flush`. -/
def grAsFlush (env : Env) (lockAddr : Nat) : Replay Unit := do
  grRegWrite .asFlush asLockaddrLo (lockAddr % 2 ^ 32)
  grRegWrite .asFlush asLockaddrHi (lockAddr / 2 ^ 32 % 2 ^ 32)
  grRegWrite .asFlush asCommand asCommandLock
  grRegWrite .asFlush asCommand asCommandFlushMem
  let val ← grRegRead env .asFlush asStatus
  flushLoop env kbaseAsInactiveMaxLoops val

/-! ### The job's head and the checkpoint -/

/-- `gr_js_tune`: the low word is kept, and with the high word the eight bytes at the head
of the job are cleared. -/
def grJsTune (rctx : ReplayContext) (type val : Nat) : Replay Unit :=
  if type = jsHeadNextLo then modify fun s => { s with jcLo := val }
  else do
    let s ← get
    onMem fun mem => (grCopyToGpu rctx.regions mem (val * 2 ^ 32 ||| s.jcLo)
      (List.replicate 8 0) 8).map Prod.fst

/-- A page copied to the next place in the provisioned space. -/
def checkpointPage (page : Except Stop Nat) : Replay Unit := fun s =>
  match page >>= grMapPage with
  | .ok page => .ok () { s with
      provision := s.provision.map fun space =>
        Bytes.splice space (s.nrWrittenPages * 4096) (s.mem.read page 4096)
      nrWrittenPages := (s.nrWrittenPages + 1) % 2 ^ 32 }
  | .error e => .error e s

/-- The loop over the pages of all regions. -/
def checkpointPages (totNrPages : Nat) : List (Except Stop Nat) → Replay Unit
  | [] => return ()
  | page :: pages => do
      let s ← get
      onlyIf (totNrPages ≤ s.nrWrittenPages) (throw (.abort "no available mem for checkpoint"))
      checkpointPage page
      checkpointPages totNrPages pages

/-- `gr_write_checkpoint`, which does something the first two times. -/
def grWriteCheckpoint (cfg : ReplayConfig) (rctx : ReplayContext) : Replay Unit := do
  let s ← get
  set { s with checkpoints := (s.checkpoints + 1) % 2 ^ 32 }
  onlyIf (s.checkpoints < 2) do
    onlyIf (cfg.testCheckpoint = false) (throw (.abort "no checkpoint is configured"))
    onlyIf s.provision.isNone (throw (.abort "no mem allocated for provisioning"))
    modify fun s => { s with nrWrittenPages := 0 }
    checkpointPages rctx.totNrPages
      (rctx.regions.flatMap fun r => (List.range r.nrPages).map (pageAt r.pages))

/-! ### Validation -/

/-- The word of the recorded register map at `offset`. -/
def regmapWord (regmap : List UInt8) (offset : Nat) : Nat :=
  Bytes.val ((regmap.drop offset).take 4)

/-- The loop over the registers; `ret` is `1` until one does not match. -/
def compareRegs (env : Env) : List Nat → Nat → Replay Nat
  | [], ret => return ret
  | offset :: offsets, ret => do
      let value ← grRegRead env .validate offset
      if offset = asTranstabLo ∨ offset = asTranstabHi then compareRegs env offsets ret
      else do
        let s ← get
        let recorded := regmapWord s.regmap offset
        if recorded ≠ value then do
          emit (.notMatched offset value recorded)
          compareRegs env offsets 0
        else
          compareRegs env offsets ret

/-- `gr_is_same_regmap`. -/
def grIsSameRegmap (env : Env) (curIo : RegIo) (ioOffset : Nat) : Replay Nat := do
  modify fun s =>
    let (regmap, f) := s.regFp.read gpuRegPaSize s.regmap
    { s with regmap := regmap, regFp := f }
  if curIo.offset = jobIrqStatus ∨ curIo.offset = jsCommandNext then return 1
  else if curIo.offset = asCommand ∧ (curIo.value = asCommandLock ∨
      curIo.value = asCommandFlushPt ∨ curIo.value = asCommandFlushMem) then return 1
  else do
    let ret ← compareRegs env ((List.range (gpuRegPaSize / 4)).map (4 * ·)) 1
    onlyIf (ret = 0) (emit (.givenCmd ioOffset curIo.offset curIo.value))
    return 1

/-! ### One entry of the log -/

/-- A read entry.  The case of `AS_STATUS` falls through to that of `LATEST_FLUSH`. -/
def replayRead (env : Env) (curIo : RegIo) : Replay Unit := do
  let newValue ← grRegRead env .entry curIo.offset
  onlyIf (curIo.offset = asStatus ∧ curIo.value = asStatusAsActive)
    (regReadWait env curIo.offset asStatusAsInactive)
  onlyIf (curIo.offset = asStatus ∨ curIo.offset = latestFlush)
    (modify fun s => { s with latestFlushId := newValue })

/-- What a job submission does first when `test_checkpoint` is set. -/
def checkpointJob (cfg : ReplayConfig) (rctx : ReplayContext) (env : Env) : Replay Unit := do
  let _ ← k2Measure env
  grCacheInvalidate env
  grAsFlush env rctx.newTranstab
  let _ ← k2Measure env
  grWriteCheckpoint cfg rctx

/-- A write entry up to the write: the value to be written. -/
def prepareWrite (cfg : ReplayConfig) (rctx : ReplayContext) (env : Env) (curIo : RegIo) :
    Replay Nat :=
  if curIo.offset = jsHeadNextLo ∨ curIo.offset = jsHeadNextHi then do
    grJsTune rctx curIo.offset curIo.value
    return curIo.value
  else if curIo.offset = jsCommandNext then do
    onlyIf cfg.testCheckpoint (checkpointJob cfg rctx env)
    return curIo.value
  else if curIo.offset = jsFlushIdNext then do
    let s ← get
    return s.latestFlushId
  else if curIo.offset = jsConfigNext then
    return if cfg.testCheckpoint then jsConfigStartFlushNoAction else curIo.value
  else if curIo.offset = asTranstabLo then return rctx.newTranstab % 2 ^ 32
  else if curIo.offset = asTranstabHi then return rctx.newTranstab / 2 ^ 32 % 2 ^ 32
  else return curIo.value

/-- A time taken and kept. -/
def stamp (env : Env) (keep : Nat → ReplayState → ReplayState) : Replay Unit := do
  let ts ← k2Measure env
  modify (keep ts)

/-- The accounts after a job.  Where the last job counted is done, the `break` leaves
`job_submit_cnt` as it is. -/
def jobAccounts (cfg : ReplayConfig) (env : Env) (cnt : Nat) : Replay Unit :=
  if cnt = cfg.nrPrepJobs then
    stamp env fun ts s => { s with tsPrepEnd := ts, jobSubmitCnt := (cnt + 1) % 2 ^ 32 }
  else if cnt = cfg.nrTotJobs then do
    stamp env fun ts s => { s with tsCompEnd := ts }
    stamp env fun _ s => s
  else do
    onlyIf (cfg.nrPrepJobs < cnt ∧ (cnt - cfg.nrPrepJobs) % 32 = 0) (stamp env fun _ s => s)
    modify fun s => { s with jobSubmitCnt := (cnt + 1) % 2 ^ 32 }

/-- After `JS_COMMAND_NEXT`: the wait for the job, and the accounts. -/
def jobSubmitted (cfg : ReplayConfig) (env : Env) : Replay Unit := do
  let tsJobStart ← k2Measure env
  let s ← get
  let cnt := s.jobSubmitCnt
  onlyIf (cnt = 1) (stamp env fun ts s => { s with tsPrepStart := ts })
  onlyIf (cnt = (cfg.nrPrepJobs + 1) % 2 ^ 32) (stamp env fun ts s => { s with tsCompStart := ts })
  grWaitJobIrq env
  let tsJobEnd ← k2Measure env
  onlyIf (cfg.nrPrepJobs < cnt ∧ cnt ≤ cfg.nrTotJobs) (modify fun s => { s with
    compTime := (s.compTime + (tsJobEnd + 2 ^ 32 - tsJobStart)) % 2 ^ 32 })
  jobAccounts cfg env cnt

/-- A write entry. -/
def replayWrite (cfg : ReplayConfig) (rctx : ReplayContext) (env : Env) (curIo : RegIo) :
    Replay Unit := do
  let value ← prepareWrite cfg rctx env curIo
  grRegWrite .entry curIo.offset value
  onlyIf (curIo.offset = jsCommandNext) (jobSubmitted cfg env)
  onlyIf (curIo.offset = gpuCommand ∧ value = gpuCommandSoftReset)
    (grRegWrite .softReset gpuIrqMask 0x100)

/-- The check after an entry. -/
def validateEntry (env : Env) (curIo : RegIo) (i : Nat) : Replay Unit := do
  let same ← grIsSameRegmap env curIo i
  onlyIf (same = 0) (emit .validationFailed)

/-- One turn of the loop of `gr_replay_run`. -/
def replayEntry (cfg : ReplayConfig) (rctx : ReplayContext) (env : Env) (i : Nat) (curIo : RegIo) :
    Replay Unit := do
  (if curIo.isRead = 'R' then replayRead env curIo else replayWrite cfg rctx env curIo)
  onlyIf cfg.isValidate (validateEntry env curIo i)

/-- The loop of `gr_replay_run`, from entry `i` on. -/
def replayEntries (cfg : ReplayConfig) (rctx : ReplayContext) (env : Env) :
    Nat → List RegIo → Replay Unit
  | _, [] => return ()
  | i, curIo :: log => do
      replayEntry cfg rctx env i curIo
      replayEntries cfg rctx env (i + 1) log

/-- `gr_replay_run`. -/
def grReplayRun (cfg : ReplayConfig) (rctx : ReplayContext) (env : Env) (log : List RegIo) :
    Replay Unit := do
  modify fun s => { s with jobSubmitCnt := 1, compTime := 0 }
  let tsReplayStart ← k2Measure env
  replayEntries cfg rctx env 0 log
  modify fun s => { s with
    totPrepTime := (s.totPrepTime + (s.tsPrepEnd + 2 ^ 32 - tsReplayStart)) % 2 ^ 32
    totCompTime := (s.totCompTime + (s.tsCompEnd + 2 ^ 32 - s.tsCompStart)) % 2 ^ 32 }

end GpuReplay.Replayer
