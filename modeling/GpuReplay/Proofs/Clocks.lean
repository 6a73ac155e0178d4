/-
What a replay does not learn from its clock.

The times it takes go into the accounts and nowhere else.  So with another clock it makes the
same accesses, gets the same answers and ends the same way, in a state that differs in the
accounts only (`SameButTimes`), and takes its times at the same places.
-/
import GpuReplay.Lib.Twins
import GpuReplay.Proofs.Replay

namespace GpuReplay.Replayer

open Stdio

/-- The same environment with another clock. -/
def Env.withClock (env : Env) (clock : Nat → Nat) : Env := { env with clock := clock }

/-- What is kept of the times taken. -/
structure TimesKept where
  compTime : Nat
  tsPrepStart : Nat
  tsPrepEnd : Nat
  tsCompStart : Nat
  tsCompEnd : Nat
  totPrepTime : Nat
  totCompTime : Nat

/-- The state with other times. -/
def ReplayState.withTimes (s : ReplayState) (kept : TimesKept) : ReplayState :=
  { s with
    compTime := kept.compTime, tsPrepStart := kept.tsPrepStart, tsPrepEnd := kept.tsPrepEnd
    tsCompStart := kept.tsCompStart, tsCompEnd := kept.tsCompEnd
    totPrepTime := kept.totPrepTime, totCompTime := kept.totCompTime }

/-- The states differ in nothing but the times kept. -/
def SameButTimes (s t : ReplayState) : Prop := ∃ kept, t = s.withTimes kept

theorem SameButTimes.refl (s : ReplayState) : SameButTimes s s :=
  ⟨⟨s.compTime, s.tsPrepStart, s.tsPrepEnd, s.tsCompStart, s.tsCompEnd, s.totPrepTime,
    s.totCompTime⟩, rfl⟩

/-! ### A submission, up to the wait and after it -/

/-- The submission of a job up to the end of the wait for it: the time it was started at, and
which job it was counted as. -/
def jobWaited (cfg : ReplayConfig) (env : Env) : Replay (Nat × Nat) := do
  let tsJobStart ← k2Measure env
  let s ← get
  onlyIf (s.jobSubmitCnt = 1) (stamp env fun ts s => { s with tsPrepStart := ts })
  onlyIf (s.jobSubmitCnt = (cfg.nrPrepJobs + 1) % 2 ^ 32)
    (stamp env fun ts s => { s with tsCompStart := ts })
  grWaitJobIrq env
  return (tsJobStart, s.jobSubmitCnt)

/-- What follows. -/
def jobCompleted (cfg : ReplayConfig) (env : Env) (tsJobStart cnt : Nat) : Replay Unit := do
  let tsJobEnd ← k2Measure env
  onlyIf (cfg.nrPrepJobs < cnt ∧ cnt ≤ cfg.nrTotJobs) (modify fun s => { s with
    compTime := (s.compTime + (tsJobEnd + 2 ^ 32 - tsJobStart)) % 2 ^ 32 })
  jobAccounts cfg env cnt

theorem jobSubmitted_eq (cfg : ReplayConfig) (env : Env) :
    jobSubmitted cfg env = jobWaited cfg env >>= fun job => jobCompleted cfg env job.1 job.2 := by
  unfold jobSubmitted jobWaited
  simp only [bind_assoc, pure_bind]
  rfl

/-- A write entry up to the write. -/
def entryWritten (cfg : ReplayConfig) (rctx : ReplayContext) (env : Env) (curIo : RegIo) :
    Replay Nat := do
  let value ← prepareWrite cfg rctx env curIo
  grRegWrite .entry curIo.offset value
  return value

theorem replayWrite_eq (cfg : ReplayConfig) (rctx : ReplayContext) (env : Env) (curIo : RegIo) :
    replayWrite cfg rctx env curIo = (do
      let value ← entryWritten cfg rctx env curIo
      onlyIf (curIo.offset = jsCommandNext) (jobSubmitted cfg env)
      onlyIf (curIo.offset = gpuCommand ∧ value = gpuCommandSoftReset)
        (grRegWrite .softReset gpuIrqMask 0x100)) := by
  unfold replayWrite entryWritten
  simp only [bind_assoc, pure_bind]

/-! ### Twins -/

/-- Two computations that end the same way up to the times kept. -/
abbrev Clockless (x y : Replay α) : Prop := Twins SameButTimes Eq x y

section Clockless

variable {cfg : ReplayConfig} {rctx : ReplayContext} {env : Env} {clock : Nat → Nat}

/-- A change of the state that does not look at the times. -/
theorem clockless_modify {g : ReplayState → ReplayState}
    (h : ∀ s kept, g (s.withTimes kept) = (g s).withTimes kept) :
    Clockless (modify g : Replay Unit) (modify g) := by
  refine Twins.modifyGet fun s t => ?_
  rintro ⟨kept, rfl⟩
  exact ⟨rfl, kept, h s kept⟩

theorem clockless_onlyIf {c : Prop} [Decidable c] {x y : Replay Unit} (h : c → Clockless x y) :
    Clockless (onlyIf c x) (onlyIf c y) :=
  Twins.ite h fun _ => Twins.pure rfl

theorem clockless_onMem (f : ByteMem → Except Stop ByteMem) : Clockless (onMem f) (onMem f) := by
  rintro s _ ⟨kept, rfl⟩
  unfold onMem
  cases hf : f s.mem with
  | ok mem =>
      have hf' : f (s.withTimes kept).mem = .ok mem := hf
      rw [hf']
      exact .ok rfl ⟨kept, rfl⟩
  | error e =>
      have hf' : f (s.withTimes kept).mem = .error e := hf
      rw [hf']
      exact .error ⟨kept, rfl⟩

/-! ### Accesses -/

theorem clockless_read (site : Site) (offset : Nat) :
    Clockless (grRegRead env site offset) (grRegRead (env.withClock clock) site offset) := by
  rintro s _ ⟨kept, rfl⟩
  unfold grRegRead
  by_cases hoffset : offset + 4 ≤ gpuRegPaSize
  · rw [if_pos hoffset, if_pos hoffset]
    exact .ok rfl ⟨kept, rfl⟩
  · rw [if_neg hoffset, if_neg hoffset]
    exact .error ⟨kept, rfl⟩

theorem clockless_write (site : Site) (offset value : Nat) :
    Clockless (grRegWrite site offset value) (grRegWrite site offset value) := by
  rintro s _ ⟨kept, rfl⟩
  unfold grRegWrite
  by_cases hoffset : offset + 4 ≤ gpuRegPaSize
  · rw [if_pos hoffset, if_pos hoffset]
    exact .ok rfl ⟨kept, rfl⟩
  · rw [if_neg hoffset, if_neg hoffset]
    exact .error ⟨kept, rfl⟩

theorem clockless_emit (e : Event) : Clockless (emit e) (emit e) := by
  rintro s _ ⟨kept, rfl⟩
  exact .ok rfl ⟨kept, rfl⟩

theorem clockless_waitJobIrq :
    Clockless (grWaitJobIrq env) (grWaitJobIrq (env.withClock clock)) := by
  rintro s _ ⟨kept, rfl⟩
  unfold grWaitJobIrq
  by_cases hpoll : env.poll s.waits = true
  · have hpoll' : (env.withClock clock).poll (s.withTimes kept).waits = true := hpoll
    dsimp only
    rw [if_pos hpoll, if_pos hpoll']
    exact .ok rfl ⟨kept, rfl⟩
  · have hpoll' : ¬(env.withClock clock).poll (s.withTimes kept).waits = true := hpoll
    dsimp only
    rw [if_neg hpoll, if_neg hpoll']
    exact .error ⟨kept, rfl⟩

theorem clockless_waitLoop (offset value : Nat) : ∀ n newValue,
    Clockless (waitLoop env offset value n newValue)
      (waitLoop (env.withClock clock) offset value n newValue) := by
  intro n
  induction n with
  | zero => exact fun _ => Twins.throw _
  | succ n ih =>
      intro newValue
      exact Twins.ite (fun _ => (clockless_read .wait offset).bind_eq ih) fun _ => Twins.pure rfl

theorem clockless_regReadWait (offset value : Nat) :
    Clockless (regReadWait env offset value) (regReadWait (env.withClock clock) offset value) := by
  refine (clockless_read .wait offset).bind_eq fun newValue => ?_
  refine (clockless_waitLoop offset value _ newValue).bind_eq fun maxLoops => ?_
  exact clockless_onlyIf fun _ => Twins.throw _

theorem clockless_cacheLoop : ∀ n val,
    Clockless (cacheLoop env n val) (cacheLoop (env.withClock clock) n val) := by
  intro n
  induction n with
  | zero => exact fun _ => Twins.throw _
  | succ n ih =>
      intro val
      exact Twins.ite (fun _ => (clockless_read .cacheInvalidate gpuIrqRawstat).bind_eq ih)
        fun _ => Twins.pure rfl

theorem clockless_cacheInvalidate :
    Clockless (grCacheInvalidate env) (grCacheInvalidate (env.withClock clock)) := by
  refine (clockless_read _ _).bind_eq fun _ => (clockless_write _ _ _).bind_eq fun _ => ?_
  refine (clockless_write _ _ _).bind_eq fun _ => (clockless_read _ _).bind_eq fun val => ?_
  refine (clockless_cacheLoop _ val).bind_eq fun _ => (clockless_read _ _).bind_eq fun _ => ?_
  exact (clockless_write _ _ _).bind_eq fun _ => clockless_write _ _ _

theorem clockless_flushLoop : ∀ n val,
    Clockless (flushLoop env n val) (flushLoop (env.withClock clock) n val) := by
  intro n
  induction n with
  | zero => exact fun _ => Twins.throw _
  | succ n ih =>
      intro val
      exact Twins.ite (fun _ => (clockless_read .asFlush asStatus).bind_eq ih) fun _ =>
        Twins.pure rfl

theorem clockless_asFlush (lockAddr : Nat) :
    Clockless (grAsFlush env lockAddr) (grAsFlush (env.withClock clock) lockAddr) := by
  refine (clockless_write _ _ _).bind_eq fun _ => (clockless_write _ _ _).bind_eq fun _ => ?_
  refine (clockless_write _ _ _).bind_eq fun _ => (clockless_write _ _ _).bind_eq fun _ => ?_
  exact (clockless_read _ _).bind_eq fun val => clockless_flushLoop _ val

theorem clockless_replayRead (curIo : RegIo) :
    Clockless (replayRead env curIo) (replayRead (env.withClock clock) curIo) := by
  refine (clockless_read _ _).bind_eq fun newValue => ?_
  refine (clockless_onlyIf fun _ => clockless_regReadWait _ _).bind_eq fun _ => ?_
  exact clockless_onlyIf fun _ => clockless_modify fun _ _ => rfl

/-! ### Times -/

/-- A time is taken at the same place, and is not the same. -/
theorem twins_measure : Twins SameButTimes (fun _ _ => True) (k2Measure env)
    (k2Measure (env.withClock clock)) := by
  rintro s _ ⟨kept, rfl⟩
  exact .ok trivial ⟨kept, rfl⟩

/-- What is done with it does not show. -/
theorem clockless_keep {g g' : ReplayState → ReplayState}
    (h : ∀ s kept, SameButTimes (g s) (g' (s.withTimes kept))) :
    Clockless (modify g : Replay Unit) (modify g') := by
  refine Twins.modifyGet fun s t => ?_
  rintro ⟨kept, rfl⟩
  exact ⟨rfl, h s kept⟩

theorem clockless_stamp {keep : Nat → ReplayState → ReplayState}
    (h : ∀ ts ts' s kept, SameButTimes (keep ts s) (keep ts' (s.withTimes kept))) :
    Clockless (stamp env keep) (stamp (env.withClock clock) keep) :=
  twins_measure.bind fun ts ts' _ => clockless_keep (h ts ts')

theorem clockless_jobAccounts (cnt : Nat) :
    Clockless (jobAccounts cfg env cnt) (jobAccounts cfg (env.withClock clock) cnt) := by
  have hlook : Clockless (stamp env fun _ s => s) (stamp (env.withClock clock) fun _ s => s) :=
    clockless_stamp fun _ _ _ kept => ⟨kept, rfl⟩
  refine Twins.ite (fun _ => clockless_stamp fun ts ts' s kept => ?_) fun _ => ?_
  · exact ⟨{ kept with tsPrepEnd := ts' }, rfl⟩
  refine Twins.ite (fun _ => ?_) fun _ => ?_
  · refine (clockless_stamp fun ts ts' s kept => ?_).bind_eq fun _ => hlook
    exact ⟨{ kept with tsCompEnd := ts' }, rfl⟩
  · exact (clockless_onlyIf fun _ => hlook).bind_eq fun _ => clockless_modify fun _ _ => rfl

theorem twins_jobWaited : Twins SameButTimes (fun job job' => job.2 = job'.2) (jobWaited cfg env)
    (jobWaited cfg (env.withClock clock)) := by
  refine twins_measure.bind fun ts ts' _ => Twins.get.bind fun s t => ?_
  rintro ⟨kept, rfl⟩
  refine (clockless_onlyIf fun _ => clockless_stamp fun _ ts' _ kept => ?_).bind_eq fun _ => ?_
  · exact ⟨{ kept with tsPrepStart := ts' }, rfl⟩
  refine (clockless_onlyIf fun _ => clockless_stamp fun _ ts' _ kept => ?_).bind_eq fun _ => ?_
  · exact ⟨{ kept with tsCompStart := ts' }, rfl⟩
  exact clockless_waitJobIrq.bind_eq fun _ => Twins.pure rfl

theorem clockless_jobSubmitted :
    Clockless (jobSubmitted cfg env) (jobSubmitted cfg (env.withClock clock)) := by
  rw [jobSubmitted_eq, jobSubmitted_eq]
  refine twins_jobWaited.bind ?_
  rintro ⟨ts, cnt⟩ ⟨ts', _⟩ rfl
  refine twins_measure.bind fun tsEnd tsEnd' _ => ?_
  refine Twins.bind_eq ?_ fun _ => clockless_jobAccounts cnt
  refine clockless_onlyIf fun _ => clockless_keep fun s kept => ?_
  exact ⟨{ kept with compTime := (kept.compTime + (tsEnd' + 2 ^ 32 - ts')) % 2 ^ 32 }, rfl⟩

/-! ### Checkpoints and checks -/

theorem clockless_checkpointPage (page : Except Stop Nat) :
    Clockless (checkpointPage page) (checkpointPage page) := by
  rintro s _ ⟨kept, rfl⟩
  unfold checkpointPage
  cases page >>= grMapPage with
  | ok page => exact .ok rfl ⟨kept, rfl⟩
  | error e => exact .error ⟨kept, rfl⟩

theorem clockless_checkpointPages (tot : Nat) (pages : List (Except Stop Nat)) :
    Clockless (checkpointPages tot pages) (checkpointPages tot pages) := by
  induction pages with
  | nil => exact Twins.pure rfl
  | cons page pages ih =>
      refine Twins.get.bind fun s t => ?_
      rintro ⟨kept, rfl⟩
      refine (clockless_onlyIf fun _ => Twins.throw _).bind_eq fun _ => ?_
      exact (clockless_checkpointPage page).bind_eq fun _ => ih

theorem clockless_writeCheckpoint :
    Clockless (grWriteCheckpoint cfg rctx) (grWriteCheckpoint cfg rctx) := by
  refine Twins.get.bind fun s t => ?_
  rintro ⟨kept, rfl⟩
  refine Twins.bind_eq (Twins.set ⟨kept, rfl⟩) fun _ => ?_
  refine clockless_onlyIf fun _ => (clockless_onlyIf fun _ => Twins.throw _).bind_eq fun _ => ?_
  refine (clockless_onlyIf fun _ => Twins.throw _).bind_eq fun _ => ?_
  refine (clockless_modify fun _ _ => rfl).bind_eq fun _ => ?_
  exact clockless_checkpointPages _ _

theorem clockless_checkpointJob :
    Clockless (checkpointJob cfg rctx env) (checkpointJob cfg rctx (env.withClock clock)) := by
  refine twins_measure.bind fun _ _ _ => clockless_cacheInvalidate.bind_eq fun _ => ?_
  refine (clockless_asFlush _).bind_eq fun _ => twins_measure.bind fun _ _ _ => ?_
  exact clockless_writeCheckpoint

theorem clockless_compareRegs : ∀ offsets ret,
    Clockless (compareRegs env offsets ret) (compareRegs (env.withClock clock) offsets ret) := by
  intro offsets
  induction offsets with
  | nil => exact fun ret => Twins.pure rfl
  | cons offset offsets ih =>
      intro ret
      refine (clockless_read .validate offset).bind_eq fun value => ?_
      refine Twins.ite (fun _ => ih ret) fun _ => Twins.get.bind fun s t => ?_
      rintro ⟨kept, rfl⟩
      exact Twins.ite (fun _ => (clockless_emit _).bind_eq fun _ => ih 0) fun _ => ih ret

theorem clockless_validateEntry (curIo : RegIo) (i : Nat) :
    Clockless (validateEntry env curIo i) (validateEntry (env.withClock clock) curIo i) := by
  have hsame : Clockless (grIsSameRegmap env curIo i)
      (grIsSameRegmap (env.withClock clock) curIo i) := by
    refine (clockless_modify fun _ _ => rfl).bind_eq fun _ => ?_
    refine Twins.ite (fun _ => Twins.pure rfl) fun _ => ?_
    refine Twins.ite (fun _ => Twins.pure rfl) fun _ => ?_
    generalize (List.range (gpuRegPaSize / 4)).map (4 * ·) = offsets
    refine (clockless_compareRegs offsets 1).bind_eq fun ret => ?_
    exact (clockless_onlyIf fun _ => clockless_emit _).bind_eq fun _ => Twins.pure rfl
  exact hsame.bind_eq fun same => clockless_onlyIf fun _ => clockless_emit _

/-! ### Entries, and runs -/

theorem clockless_grJsTune (type val : Nat) :
    Clockless (grJsTune rctx type val) (grJsTune rctx type val) := by
  refine Twins.ite (fun _ => clockless_modify fun _ _ => rfl) fun _ => ?_
  refine Twins.get.bind fun s t => ?_
  rintro ⟨kept, rfl⟩
  exact clockless_onMem _

theorem clockless_prepareWrite (curIo : RegIo) :
    Clockless (prepareWrite cfg rctx env curIo)
      (prepareWrite cfg rctx (env.withClock clock) curIo) := by
  refine Twins.ite (fun _ => ?_) fun _ => ?_
  · exact (clockless_grJsTune _ _).bind_eq fun _ => Twins.pure rfl
  refine Twins.ite (fun _ => ?_) fun _ => ?_
  · exact (clockless_onlyIf fun _ => clockless_checkpointJob).bind_eq fun _ => Twins.pure rfl
  refine Twins.ite (fun _ => ?_) fun _ => ?_
  · refine Twins.get.bind fun s t => ?_
    rintro ⟨kept, rfl⟩
    exact Twins.pure rfl
  refine Twins.ite (fun _ => Twins.pure rfl) fun _ => ?_
  refine Twins.ite (fun _ => Twins.pure rfl) fun _ => ?_
  exact Twins.ite (fun _ => Twins.pure rfl) fun _ => Twins.pure rfl

theorem clockless_entryWritten (curIo : RegIo) :
    Clockless (entryWritten cfg rctx env curIo)
      (entryWritten cfg rctx (env.withClock clock) curIo) :=
  (clockless_prepareWrite curIo).bind_eq fun _ => (clockless_write _ _ _).bind_eq fun _ =>
    Twins.pure rfl

theorem clockless_replayEntry (i : Nat) (curIo : RegIo) :
    Clockless (replayEntry cfg rctx env i curIo)
      (replayEntry cfg rctx (env.withClock clock) i curIo) := by
  refine Twins.bind_eq (Twins.ite (fun _ => clockless_replayRead curIo) fun _ => ?_) fun _ =>
    clockless_onlyIf fun _ => clockless_validateEntry curIo i
  rw [replayWrite_eq, replayWrite_eq]
  refine (clockless_entryWritten curIo).bind_eq fun value => ?_
  refine (clockless_onlyIf fun _ => clockless_jobSubmitted).bind_eq fun _ => ?_
  exact clockless_onlyIf fun _ => clockless_write _ _ _

theorem clockless_replayEntries (log : List RegIo) :
    ∀ i, Clockless (replayEntries cfg rctx env i log)
      (replayEntries cfg rctx (env.withClock clock) i log) := by
  induction log with
  | nil => exact fun _ => Twins.pure rfl
  | cons curIo log ih =>
      exact fun i => (clockless_replayEntry i curIo).bind_eq fun _ => ih (i + 1)

/-- **A run ends the same way with every clock.** -/
theorem clockless_grReplayRun (log : List RegIo) :
    Clockless (grReplayRun cfg rctx env log) (grReplayRun cfg rctx (env.withClock clock) log) := by
  refine (clockless_keep fun s kept => ?_).bind_eq fun _ => ?_
  · exact ⟨{ kept with compTime := 0 }, rfl⟩
  refine twins_measure.bind fun ts ts' _ => ?_
  refine (clockless_replayEntries log 0).bind_eq fun _ => clockless_keep fun s kept => ?_
  exact ⟨{ kept with
    totPrepTime := (kept.totPrepTime + (kept.tsPrepEnd + 2 ^ 32 - ts')) % 2 ^ 32
    totCompTime := (kept.totCompTime + (kept.tsCompEnd + 2 ^ 32 - kept.tsCompStart)) % 2 ^ 32 },
    rfl⟩

end Clockless

end GpuReplay.Replayer
