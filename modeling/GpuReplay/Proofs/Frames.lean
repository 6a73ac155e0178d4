/-
What a replay changes between the things one looks at.

An argument about some part of the state, a cursor, a memory, an account, has to go past all
the accesses, waits and measurements that do not touch it.  What they leave alone is a relation
between the states before and after, and it does not matter which, as long as it is blind to
what they do change: the trace and the counts of the environment (`AccessBlind`), the clock
(`ClockBlind`) and the job accounts (`TimeBlind`), the checkpoints (`SpaceBlind`), the snapshot
file (`CheckBlind`).  Each function of `gr_replay.c` moves along every relation that is blind to
it.
-/
import GpuReplay.Proofs.Replay

namespace GpuReplay.Replayer

open Stdio

/-- How many answers of the hardware an event takes. -/
def Event.answers : Event → Nat
  | .read .. => 1
  | _ => 0

/-- `R` does not see accesses, other than those of a check, and what they bring into
`latest_flush_id`. -/
class AccessBlind (R : ReplayState → ReplayState → Prop) : Prop
    extends Std.Refl R, IsTrans ReplayState R where
  event : ∀ (s : ReplayState) (waits : Nat) (e : Event), ¬e.Validating →
    R s { s with reads := s.reads + e.answers, waits := waits, trace := s.trace ++ [e] }
  latest : ∀ (s : ReplayState) (v : Nat), R s { s with latestFlushId := v }

/-- `R` does not see the clock, which only goes on. -/
class ClockBlind (R : ReplayState → ReplayState → Prop) : Prop where
  clock : ∀ s : ReplayState, R s { s with clocks := s.clocks + 1 }

/-- `R` does not see the clock and the job accounts. -/
class TimeBlind (R : ReplayState → ReplayState → Prop) : Prop extends ClockBlind R where
  accounts : ∀ (s : ReplayState) (cnt compTime prepStart prepEnd compStart compEnd : Nat),
    R s { s with
      jobSubmitCnt := cnt, compTime := compTime, tsPrepStart := prepStart, tsPrepEnd := prepEnd
      tsCompStart := compStart, tsCompEnd := compEnd }

/-- `R` does not see the checkpoints. -/
class SpaceBlind (R : ReplayState → ReplayState → Prop) : Prop where
  checkpoint : ∀ (s : ReplayState) (n : Nat) (provision : Option (List UInt8)) (written : Nat),
    R s { s with checkpoints := n, provision := provision, nrWrittenPages := written }

/-- `R` does not see a check. -/
class CheckBlind (R : ReplayState → ReplayState → Prop) : Prop where
  snapshot : ∀ (s : ReplayState) (f : Stream) (regmap : List UInt8),
    R s { s with regFp := f, regmap := regmap }
  checked : ∀ (s : ReplayState) (e : Event), e.Validating →
    R s { s with reads := s.reads + e.answers, trace := s.trace ++ [e] }

/-- The entry writes to the register at `offset`. -/
def RegIo.Writes (io : RegIo) (offset : Nat) : Prop := io.isRead ≠ 'R' ∧ io.offset = offset

instance (io : RegIo) (offset : Nat) : Decidable (io.Writes offset) :=
  inferInstanceAs (Decidable (_ ∧ _))

section Moves

variable {R : ReplayState → ReplayState → Prop} [AccessBlind R]

theorem moves_onlyIf {c : Prop} [Decidable c] {x : Replay Unit} (h : c → Moves R x) :
    Moves R (onlyIf c x) :=
  Moves.ite h fun _ => Moves.pure ()

theorem moves_onMem {f : ByteMem → Except Stop ByteMem}
    (hmem : ∀ (s : ReplayState) (mem : ByteMem), R s { s with mem := mem }) :
    Moves R (onMem f) := by
  intro s
  unfold Post onMem
  cases f s.mem with
  | ok mem => exact hmem s mem
  | error e => exact Std.Refl.refl s

/-! ### Accesses -/

theorem moves_read (env : Env) {site : Site} (hsite : site ≠ .validate) (offset : Nat) :
    Moves R (grRegRead env site offset) :=
  fun s => post_read
    (AccessBlind.event s s.waits (.read site offset (s.answer env)) hsite)
    (Std.Refl.refl s)

theorem moves_write (site : Site) (offset value : Nat) : Moves R (grRegWrite site offset value) :=
  fun s => post_write (AccessBlind.event s s.waits (.write site offset value) id)
    (Std.Refl.refl s)

theorem moves_waitJobIrq (env : Env) : Moves R (grWaitJobIrq env) := by
  intro s
  have hwait := AccessBlind.event (R := R) s (s.waits + 1) .waitJobIrq id
  by_cases hpoll : env.poll s.waits = true
  · exact Post.of_eq_ok (if_pos hpoll) hwait
  · exact Post.of_eq_error (if_neg hpoll) hwait

theorem moves_waitLoop (env : Env) (offset value : Nat) :
    ∀ n newValue, Moves R (waitLoop env offset value n newValue) := by
  intro n
  induction n with
  | zero => exact fun _ => Moves.throw _
  | succ n ih =>
      intro newValue
      exact Moves.ite (fun _ => (moves_read env (by decide) offset).bind ih) fun _ => Moves.pure n

theorem moves_regReadWait (env : Env) (offset value : Nat) :
    Moves R (regReadWait env offset value) :=
  (moves_read env (by decide) offset).bind fun newValue =>
    (moves_waitLoop env offset value _ newValue).bind fun _ => moves_onlyIf fun _ => Moves.throw _

theorem moves_cacheLoop (env : Env) : ∀ n val, Moves R (cacheLoop env n val) := by
  intro n
  induction n with
  | zero => exact fun _ => Moves.throw _
  | succ n ih =>
      intro val
      exact Moves.ite (fun _ => (moves_read env (by decide) gpuIrqRawstat).bind ih) fun _ =>
        Moves.pure val

theorem moves_cacheInvalidate (env : Env) : Moves R (grCacheInvalidate env) := by
  have hread : ∀ offset, Moves R (grRegRead env .cacheInvalidate offset) :=
    moves_read env (by decide)
  refine (hread _).bind fun _ => (moves_write _ _ _).bind fun _ => ?_
  refine (moves_write _ _ _).bind fun _ => (hread _).bind fun val => ?_
  refine (moves_cacheLoop env _ val).bind fun _ => (hread _).bind fun _ => ?_
  exact (moves_write _ _ _).bind fun _ => moves_write _ _ _

theorem moves_flushLoop (env : Env) : ∀ n val, Moves R (flushLoop env n val) := by
  intro n
  induction n with
  | zero => exact fun _ => Moves.throw _
  | succ n ih =>
      intro val
      exact Moves.ite (fun _ => (moves_read env (by decide) asStatus).bind ih) fun _ =>
        Moves.pure ()

theorem moves_asFlush (env : Env) (lockAddr : Nat) : Moves R (grAsFlush env lockAddr) := by
  refine (moves_write _ _ _).bind fun _ => (moves_write _ _ _).bind fun _ => ?_
  refine (moves_write _ _ _).bind fun _ => (moves_write _ _ _).bind fun _ => ?_
  exact (moves_read env (by decide) asStatus).bind fun val => moves_flushLoop env _ val

theorem moves_replayRead (env : Env) (curIo : RegIo) : Moves R (replayRead env curIo) := by
  refine (moves_read env (by decide) _).bind fun _ => ?_
  refine (moves_onlyIf fun _ => moves_regReadWait env _ _).bind fun _ => ?_
  exact moves_onlyIf fun _ => Moves.modifyGet fun s => AccessBlind.latest s _

/-! ### Time and accounts -/

omit [AccessBlind R] in
theorem moves_measure [ClockBlind R] (env : Env) : Moves R (k2Measure env) :=
  fun s => ClockBlind.clock s

section Time

variable [TimeBlind R]

theorem moves_stamp (env : Env) {keep : Nat → ReplayState → ReplayState}
    (hkeep : ∀ ts s, R s (keep ts s)) : Moves R (stamp env keep) :=
  (moves_measure env).bind fun ts => Moves.modifyGet (hkeep ts)

theorem moves_jobAccounts (cfg : ReplayConfig) (env : Env) (cnt : Nat) :
    Moves R (jobAccounts cfg env cnt) := by
  have hstamp : Moves R (stamp env fun _ s => s) := moves_stamp env fun _ s => Std.Refl.refl s
  refine Moves.ite (fun _ => moves_stamp env fun ts s => ?_) fun _ => ?_
  · exact TimeBlind.accounts s ((cnt + 1) % 2 ^ 32) s.compTime s.tsPrepStart ts s.tsCompStart
      s.tsCompEnd
  refine Moves.ite (fun _ => ?_) fun _ => ?_
  · refine Moves.bind (moves_stamp env fun ts s => ?_) fun _ => hstamp
    exact TimeBlind.accounts s s.jobSubmitCnt s.compTime s.tsPrepStart s.tsPrepEnd s.tsCompStart ts
  · refine (moves_onlyIf fun _ => hstamp).bind fun _ => Moves.modifyGet fun s => ?_
    exact TimeBlind.accounts s ((cnt + 1) % 2 ^ 32) s.compTime s.tsPrepStart s.tsPrepEnd
      s.tsCompStart s.tsCompEnd

theorem moves_jobSubmitted (cfg : ReplayConfig) (env : Env) : Moves R (jobSubmitted cfg env) := by
  refine (moves_measure env).bind fun _ => Moves.get.bind fun _ => ?_
  refine Moves.bind (moves_onlyIf fun _ => moves_stamp env fun ts s => ?_) fun _ => ?_
  · exact TimeBlind.accounts s s.jobSubmitCnt s.compTime ts s.tsPrepEnd s.tsCompStart s.tsCompEnd
  refine Moves.bind (moves_onlyIf fun _ => moves_stamp env fun ts s => ?_) fun _ => ?_
  · exact TimeBlind.accounts s s.jobSubmitCnt s.compTime s.tsPrepStart s.tsPrepEnd ts s.tsCompEnd
  refine (moves_waitJobIrq env).bind fun _ => (moves_measure env).bind fun _ => ?_
  refine Moves.bind (moves_onlyIf fun _ => Moves.modifyGet fun s => ?_) fun _ =>
    moves_jobAccounts cfg env _
  exact TimeBlind.accounts s s.jobSubmitCnt _ s.tsPrepStart s.tsPrepEnd s.tsCompStart s.tsCompEnd

end Time

/-! ### Checkpoints -/

section Space

variable [SpaceBlind R]

theorem moves_checkpointPage (page : Except Stop Nat) : Moves R (checkpointPage page) := by
  intro s
  unfold Post checkpointPage
  cases page >>= grMapPage with
  | ok page => exact SpaceBlind.checkpoint s s.checkpoints _ _
  | error e => exact Std.Refl.refl s

theorem moves_checkpointPages (tot : Nat) (pages : List (Except Stop Nat)) :
    Moves R (checkpointPages tot pages) := by
  induction pages with
  | nil => exact Moves.pure ()
  | cons page pages ih =>
      exact Moves.get.bind fun _ => (moves_onlyIf fun _ => Moves.throw _).bind fun _ =>
        (moves_checkpointPage page).bind fun _ => ih

theorem moves_writeCheckpoint (cfg : ReplayConfig) (rctx : ReplayContext) :
    Moves R (grWriteCheckpoint cfg rctx) := by
  intro s
  -- the state set is that before with one count changed
  refine Post.bind (Post.get (Post.bind (Post.set ?_)))
  have hrest : Moves R (onlyIf (s.checkpoints < 2) do
      onlyIf (cfg.testCheckpoint = false) (throw (.abort "no checkpoint is configured"))
      onlyIf s.provision.isNone (throw (.abort "no mem allocated for provisioning"))
      modify fun s => { s with nrWrittenPages := 0 }
      checkpointPages rctx.totNrPages
        (rctx.regions.flatMap fun r => (List.range r.nrPages).map (pageAt r.pages))) := by
    refine moves_onlyIf fun _ => (moves_onlyIf fun _ => Moves.throw _).bind fun _ => ?_
    refine (moves_onlyIf fun _ => Moves.throw _).bind fun _ => Moves.bind ?_ fun _ => ?_
    · exact Moves.modifyGet fun s => SpaceBlind.checkpoint s s.checkpoints s.provision 0
    · exact moves_checkpointPages _ _
  have hset : R s { s with checkpoints := (s.checkpoints + 1) % 2 ^ 32 } :=
    SpaceBlind.checkpoint s _ s.provision s.nrWrittenPages
  exact (hrest _).mono (fun _ _ h => IsTrans.trans _ _ _ hset h) fun _ _ h =>
    IsTrans.trans _ _ _ hset h

theorem moves_checkpointJob [ClockBlind R] (cfg : ReplayConfig) (rctx : ReplayContext) (env : Env) :
    Moves R (checkpointJob cfg rctx env) := by
  refine (moves_measure env).bind fun _ => (moves_cacheInvalidate env).bind fun _ => ?_
  refine (moves_asFlush env rctx.newTranstab).bind fun _ => (moves_measure env).bind fun _ => ?_
  exact moves_writeCheckpoint cfg rctx

end Space

/-! ### Checks -/

section Check

variable [CheckBlind R]

omit [AccessBlind R] in
theorem moves_emit {e : Event} (he : e.Validating) (hread : e.answers = 0) : Moves R (emit e) := by
  intro s
  have hchecked := CheckBlind.checked (R := R) s e he
  rw [hread] at hchecked
  exact hchecked

theorem moves_compareRegs (env : Env) :
    ∀ offsets ret, Moves R (compareRegs env offsets ret) := by
  intro offsets
  induction offsets with
  | nil => exact fun ret => Moves.pure ret
  | cons offset offsets ih =>
      intro ret
      have hread : Moves R (grRegRead env .validate offset) := fun s =>
        post_read (CheckBlind.checked s (.read .validate offset (s.answer env)) rfl)
          (Std.Refl.refl s)
      refine hread.bind fun value => Moves.ite (fun _ => ih ret) fun _ => ?_
      refine Moves.get.bind fun s => Moves.ite (fun _ => ?_) fun _ => ih ret
      exact (moves_emit (show Event.Validating (.notMatched _ _ _) from trivial) rfl).bind fun _ => ih 0

theorem moves_validateEntry (env : Env) (curIo : RegIo) (i : Nat) :
    Moves R (validateEntry env curIo i) := by
  have hsame : Moves R (grIsSameRegmap env curIo i) := by
    refine Moves.bind (Moves.modifyGet fun s => CheckBlind.snapshot s _ _) fun _ => ?_
    split
    · exact Moves.pure 1
    split
    · exact Moves.pure 1
    · generalize (List.range (gpuRegPaSize / 4)).map (4 * ·) = offsets
      refine (moves_compareRegs env offsets 1).bind fun ret => ?_
      refine Moves.bind (moves_onlyIf fun _ => ?_) fun _ => Moves.pure 1
      exact moves_emit (show Event.Validating (.givenCmd _ _ _) from trivial) rfl
  exact hsame.bind fun same => moves_onlyIf fun _ =>
    moves_emit (show Event.Validating .validationFailed from trivial) rfl

end Check

/-! ### Writes, up to what they do to a job -/

theorem moves_grJsTune {rctx : ReplayContext} {type val : Nat}
    (hlo : ∀ (s : ReplayState) (v : Nat), R s { s with jcLo := v })
    (hmem : ∀ (s : ReplayState) (mem : ByteMem), R s { s with mem := mem }) :
    Moves R (grJsTune rctx type val) :=
  Moves.ite (fun _ => Moves.modifyGet fun s => hlo s val) fun _ =>
    Moves.get.bind fun _ => moves_onMem hmem

theorem moves_prepareWrite {cfg : ReplayConfig} {rctx : ReplayContext} {env : Env} {curIo : RegIo}
    (hhead : curIo.offset = jsHeadNextLo ∨ curIo.offset = jsHeadNextHi →
      Moves R (grJsTune rctx curIo.offset curIo.value))
    (hjob : curIo.offset = jsCommandNext → Moves R (checkpointJob cfg rctx env)) :
    Moves R (prepareWrite cfg rctx env curIo) := by
  refine Moves.ite (fun h => (hhead h).bind fun _ => Moves.pure _) fun _ => ?_
  refine Moves.ite (fun h => ?_) fun _ => ?_
  · exact (moves_onlyIf fun _ => hjob h).bind fun _ => Moves.pure _
  refine Moves.ite (fun _ => Moves.get.bind fun _ => Moves.pure _) fun _ => ?_
  refine Moves.ite (fun _ => Moves.pure _) fun _ => ?_
  refine Moves.ite (fun _ => Moves.pure _) fun _ => ?_
  exact Moves.ite (fun _ => Moves.pure _) fun _ => Moves.pure _

/-- What follows the preparation of a write. -/
theorem moves_afterPrepare {cfg : ReplayConfig} {env : Env} {curIo : RegIo} {value : Nat}
    (hjob : curIo.offset = jsCommandNext → Moves R (jobSubmitted cfg env)) :
    Moves R (do
      grRegWrite .entry curIo.offset value
      onlyIf (curIo.offset = jsCommandNext) (jobSubmitted cfg env)
      onlyIf (curIo.offset = gpuCommand ∧ value = gpuCommandSoftReset)
        (grRegWrite .softReset gpuIrqMask 0x100)) :=
  (moves_write _ _ _).bind fun _ => (moves_onlyIf hjob).bind fun _ =>
    moves_onlyIf fun _ => moves_write _ _ _

theorem moves_replayWrite {cfg : ReplayConfig} {rctx : ReplayContext} {env : Env} {curIo : RegIo}
    (hhead : curIo.offset = jsHeadNextLo ∨ curIo.offset = jsHeadNextHi →
      Moves R (grJsTune rctx curIo.offset curIo.value))
    (hprepare : curIo.offset = jsCommandNext → Moves R (checkpointJob cfg rctx env))
    (hjob : curIo.offset = jsCommandNext → Moves R (jobSubmitted cfg env)) :
    Moves R (replayWrite cfg rctx env curIo) :=
  (moves_prepareWrite hhead hprepare).bind fun _ => moves_afterPrepare hjob

/-! ### Entries -/

/-- One turn of the loop, for a relation that is blind to all but the heads of jobs. -/
theorem moves_replayEntry [TimeBlind R] [SpaceBlind R] [CheckBlind R] {cfg : ReplayConfig}
    {rctx : ReplayContext} {env : Env} (i : Nat) {curIo : RegIo}
    (hhead : curIo.isRead ≠ 'R' → curIo.offset = jsHeadNextLo ∨ curIo.offset = jsHeadNextHi →
      Moves R (grJsTune rctx curIo.offset curIo.value)) :
    Moves R (replayEntry cfg rctx env i curIo) := by
  refine Moves.bind (Moves.ite (fun _ => moves_replayRead env curIo) fun hwrite => ?_) fun _ =>
    moves_onlyIf fun _ => moves_validateEntry env curIo i
  exact moves_replayWrite (hhead hwrite) (fun _ => moves_checkpointJob cfg rctx env)
    fun _ => moves_jobSubmitted cfg env

theorem moves_replayEntries {cfg : ReplayConfig} {rctx : ReplayContext} {env : Env}
    {log : List RegIo}
    (hentry : ∀ i, ∀ curIo ∈ log, Moves R (replayEntry cfg rctx env i curIo)) :
    ∀ i, Moves R (replayEntries cfg rctx env i log) := by
  induction log with
  | nil => exact fun _ => Moves.pure ()
  | cons curIo log ih =>
      intro i
      refine (hentry i curIo List.mem_cons_self).bind fun _ => ?_
      exact ih (fun i io hio => hentry i io (List.mem_cons_of_mem _ hio)) (i + 1)

end Moves

/-- A log replayed in two parts. -/
theorem replayEntries_append (cfg : ReplayConfig) (rctx : ReplayContext) (env : Env)
    (log log' : List RegIo) :
    ∀ i, replayEntries cfg rctx env i (log ++ log') = (do
      replayEntries cfg rctx env i log
      replayEntries cfg rctx env (i + log.length) log') := by
  induction log with
  | nil => exact fun i => rfl
  | cons curIo log ih =>
      intro i
      rw [List.cons_append, replayEntries, replayEntries, ih, bind_assoc, List.length_cons,
        Nat.add_assoc, Nat.add_comm 1]

end GpuReplay.Replayer
