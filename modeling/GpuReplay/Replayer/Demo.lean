/-
What the test programs do with a context: the loop of their `main`.

Every turn cleans up after the one before, puts the input and an output of all ones in place,
replays the log and reads the output.  The input and the output are the last two synced address
spaces.

The GPU works beside the replay: after each entry of the log, the wait for a job included, memory
may be another one.  What it makes of it is a parameter, so what holds for every `gpu` holds
whatever the GPU does.
-/
import GpuReplay.Replayer.MemCheck
import GpuReplay.Replayer.Replay

namespace GpuReplay.Replayer

/-! ### A replay beside the GPU -/

/-- What the GPU does to memory after the `i`-th entry of a log. -/
abbrev Gpu := Nat → ByteMem → ByteMem

/-- The loop of `gr_replay_run`, from entry `i` on. -/
def replayEntriesBeside (gpu : Gpu) (cfg : ReplayConfig) (rctx : ReplayContext) (env : Env) :
    Nat → List RegIo → Replay Unit
  | _, [] => return ()
  | i, curIo :: log => do
      replayEntry cfg rctx env i curIo
      modify fun s => { s with mem := gpu i s.mem }
      replayEntriesBeside gpu cfg rctx env (i + 1) log

/-- `gr_replay_run`. -/
def grReplayRunBeside (gpu : Gpu) (cfg : ReplayConfig) (rctx : ReplayContext) (env : Env)
    (log : List RegIo) : Replay Unit := do
  modify fun s => { s with jobSubmitCnt := 1, compTime := 0 }
  let tsReplayStart ← k2Measure env
  replayEntriesBeside gpu cfg rctx env 0 log
  modify fun s => { s with
    totPrepTime := (s.totPrepTime + (s.tsPrepEnd + 2 ^ 32 - tsReplayStart)) % 2 ^ 32
    totCompTime := (s.totCompTime + (s.tsCompEnd + 2 ^ 32 - s.tsCompStart)) % 2 ^ 32 }

/-- Beside a GPU that does nothing to memory it is the replay of `Replay`. -/
theorem replayEntriesBeside_id (cfg : ReplayConfig) (rctx : ReplayContext) (env : Env)
    (log : List RegIo) : ∀ i,
      replayEntriesBeside (fun _ mem => mem) cfg rctx env i log = replayEntries cfg rctx env i log := by
  induction log with
  | nil => exact fun _ => rfl
  | cons curIo log ih =>
      intro i
      unfold replayEntriesBeside replayEntries
      rw [ih]
      rfl

theorem grReplayRunBeside_id (cfg : ReplayConfig) (rctx : ReplayContext) (env : Env)
    (log : List RegIo) :
    grReplayRunBeside (fun _ mem => mem) cfg rctx env log = grReplayRun cfg rctx env log := by
  unfold grReplayRunBeside grReplayRun
  rw [replayEntriesBeside_id]

/-! ### The loop of `main` -/

/-- A computation that does not change the state. -/
def ofExcept (x : Except Stop α) : Replay α := fun s =>
  match x with
  | .ok a => .ok a s
  | .error e => .error e s

/-- "Cleaning before replaying", the input, and an output of all ones. -/
def prepareReplay (regions : List Region) (inputAs outputAs : SyncAs) (inputBuf : List UInt8) :
    Replay Unit := do
  onMem fun mem => (grCleanUsedAtom regions mem).map Prod.snd
  onMem fun mem => (grCopyToGpu regions mem inputAs.gmStart inputBuf inputAs.size).map Prod.fst
  onMem fun mem => (grCopyToGpu regions mem outputAs.gmStart (List.replicate outputAs.size 0xFF)
    outputAs.size).map Prod.fst

/-- One turn of the loop: what ends up in `output_buf`. -/
def replayTurn (gpu : Gpu) (cfg : ReplayConfig) (rctx : ReplayContext) (env : Env)
    (log : List RegIo) (inputAs outputAs : SyncAs) (inputBuf : List UInt8) :
    Replay (List UInt8) := do
  prepareReplay rctx.regions inputAs outputAs inputBuf
  grReplayRunBeside gpu cfg rctx env log
  let s ← get
  let (_, outputBuf) ← ofExcept (grCopyFromGpu rctx.regions s.mem outputAs.gmStart
    (List.replicate outputAs.size 0xFF) outputAs.size)
  return outputBuf

/-- The turns from number `i` on, of which `n` are left. -/
def replayTurns (gpu : Nat → Gpu) (cfg : ReplayConfig) (rctx : ReplayContext) (env : Env)
    (log : List RegIo) (inputAs outputAs : SyncAs) (inputBuf : List UInt8) :
    Nat → Nat → Replay (List (List UInt8))
  | 0, _ => return []
  | n + 1, i => do
      let outputBuf ← replayTurn (gpu i) cfg rctx env log inputAs outputAs inputBuf
      let outputBufs ← replayTurns gpu cfg rctx env log inputAs outputAs inputBuf n (i + 1)
      return outputBuf :: outputBufs

/-- The run of `main`: its `num_iter` turns, with an input as long as its address space.  With
fewer than two synced address spaces it reads outside `rctx->sas`. -/
def demoRun (gpu : Nat → Gpu) (cfg : ReplayConfig) (rctx : ReplayContext) (env : Env)
    (log : List RegIo) (inputBuf : List UInt8) (numIter : Nat) : Replay (List (List UInt8)) :=
  match rctx.sas.reverse with
  | outputAs :: inputAs :: _ =>
      replayTurns gpu cfg rctx env log inputAs outputAs inputBuf numIter 0
  | _ => throw .undefined

end GpuReplay.Replayer
