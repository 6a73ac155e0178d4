/-
The accounts of a run: what the times it keeps are the times of.

A job is timed by readings of the clock before and after the wait for it, so its times are
places in the sequence of readings (`JobTimes`), which the log and the hardware determine
without the clock.  `job_submit_cnt` is the number of the job as long as no more jobs are
submitted than are configured; from then on the `break` keeps it at `nr_tot_jobs`.
-/
import GpuReplay.Proofs.Clocks
import GpuReplay.Proofs.Frames

namespace GpuReplay.Replayer

/-- The `n`-th time `k2_measure` returns. -/
def Env.reading (env : Env) (n : Nat) : Nat := env.clock n % 2 ^ 32

/-! ### The times of the jobs -/

/-- The readings of a job: the first after its submission, the first after the wait for it, and
the first that is not its own any more. -/
structure JobTimes where
  submitted : Nat
  completed : Nat
  finished : Nat
  deriving Repr, DecidableEq

/-- The state a step ends in. -/
def after (x : Replay α) (s : ReplayState) : ReplayState :=
  match x s with
  | .ok _ s' => s'
  | .error _ s' => s'

theorem after_eq {x : Replay α} {s s' : ReplayState} {a : α} (h : x s = .ok a s') :
    after x s = s' := by
  unfold after
  rw [h]

section Jobs

variable (cfg : ReplayConfig) (rctx : ReplayContext) (env : Env)

/-- The times of the job that entry `i` submits. -/
def jobTimes (i : Nat) (curIo : RegIo) (s : ReplayState) : JobTimes where
  submitted := (after (entryWritten cfg rctx env curIo) s).clocks
  completed := (after (entryWritten cfg rctx env curIo >>= fun _ => jobWaited cfg env) s).clocks
  finished := (after (replayEntry cfg rctx env i curIo) s).clocks

/-- The job of one entry, if it submits one. -/
def entryJobs (i : Nat) (curIo : RegIo) (s : ReplayState) : List JobTimes :=
  if curIo.Writes jsCommandNext then [jobTimes cfg rctx env i curIo s] else []

/-- The jobs of the entries from `i` on. -/
def jobsFrom : Nat → List RegIo → ReplayState → List JobTimes
  | _, [], _ => []
  | i, curIo :: log, s => entryJobs cfg rctx env i curIo s ++
      jobsFrom (i + 1) log (after (replayEntry cfg rctx env i curIo) s)

/-- The state a run's loop starts in. -/
def runStart (s : ReplayState) : ReplayState :=
  { s with jobSubmitCnt := 1, compTime := 0, clocks := s.clocks + 1 }

/-- The jobs of a run. -/
def runJobs (log : List RegIo) (s : ReplayState) : List JobTimes :=
  jobsFrom cfg rctx env 0 log (runStart s)

end Jobs

/-! ### What the accounts should say -/

/-- `ts` is a reading from `first` up to, but not including, `last`. -/
def ReadWithin (env : Env) (first last ts : Nat) : Prop :=
  ∃ n, first ≤ n ∧ n < last ∧ ts = env.reading n

/-- The time between the submission of a job and its completion. -/
def duration (env : Env) (job : JobTimes) : Nat :=
  (env.reading job.completed + 2 ^ 32 - env.reading job.submitted) % 2 ^ 32

/-- The readings before the `last` never go back. -/
def NeverBack (env : Env) (last : Nat) : Prop :=
  ∀ m n, m ≤ n → n < last → env.reading m ≤ env.reading n

/-- The times kept from `s`, the state before a run, to `s'` are those of the right jobs. -/
structure Accounted (cfg : ReplayConfig) (env : Env) (jobs : List JobTimes)
    (s s' : ReplayState) : Prop where
  prepEnd : if cfg.nrPrepJobs = 0 then s'.tsPrepEnd = env.reading s.clocks else
    ∃ job, jobs[cfg.nrPrepJobs - 1]? = some job ∧
      ReadWithin env job.completed job.finished s'.tsPrepEnd
  compStart : ∃ job, jobs[cfg.nrPrepJobs]? = some job ∧
    ReadWithin env job.submitted job.completed s'.tsCompStart
  compEnd : ∃ job, jobs[cfg.nrTotJobs - 1]? = some job ∧
    ReadWithin env job.completed job.finished s'.tsCompEnd
  compTime : s'.compTime =
    (((jobs.take cfg.nrTotJobs).drop cfg.nrPrepJobs).map (duration env)).sum % 2 ^ 32
  totPrepTime : NeverBack env s'.clocks → env.reading s.clocks ≤ s'.tsPrepEnd ∧
    s'.totPrepTime = (s.totPrepTime + (s'.tsPrepEnd - env.reading s.clocks)) % 2 ^ 32
  totCompTime : NeverBack env s'.clocks → s'.tsCompStart ≤ s'.tsCompEnd ∧
    s'.totCompTime = (s.totCompTime + (s'.tsCompEnd - s'.tsCompStart)) % 2 ^ 32

/-! ### Jobs and clocks -/

theorem SameButTimes.clocks {s t : ReplayState} (h : SameButTimes s t) : t.clocks = s.clocks := by
  obtain ⟨kept, rfl⟩ := h
  rfl

theorem after_twins {V : α → β → Prop} {x : Replay α} {y : Replay β} {s t : ReplayState}
    (h : Twins SameButTimes V x y) (hst : SameButTimes s t) :
    SameButTimes (after x s) (after y t) := by
  have htogether := h s t hst
  unfold after
  cases hx : x s <;> cases hy : y t <;> rw [hx, hy] at htogether <;> cases htogether <;> assumption

section Jobs

variable {cfg : ReplayConfig} {rctx : ReplayContext} {env : Env} {clock : Nat → Nat}

/-- **The jobs are at the same places with every clock.** -/
theorem jobsFrom_withClock (log : List RegIo) :
    ∀ {i : Nat} {s t : ReplayState}, SameButTimes s t →
      jobsFrom cfg rctx (env.withClock clock) i log t = jobsFrom cfg rctx env i log s := by
  induction log with
  | nil => exact fun _ => rfl
  | cons curIo log ih =>
      intro i s t hst
      have hentry := after_twins (@clockless_replayEntry cfg rctx env clock i curIo) hst
      have hwritten := after_twins (@clockless_entryWritten cfg rctx env clock curIo) hst
      have hwaited := after_twins ((@clockless_entryWritten cfg rctx env clock curIo).bind_eq
        fun _ => @twins_jobWaited cfg env clock) hst
      have htimes : jobTimes cfg rctx (env.withClock clock) i curIo t
          = jobTimes cfg rctx env i curIo s := by
        unfold jobTimes
        rw [hentry.clocks, hwritten.clocks, hwaited.clocks]
      rw [jobsFrom, jobsFrom, entryJobs, entryJobs, htimes, ih hentry]

theorem runJobs_withClock (log : List RegIo) (s : ReplayState) :
    runJobs cfg rctx (env.withClock clock) log s = runJobs cfg rctx env log s :=
  jobsFrom_withClock log (SameButTimes.refl _)

end Jobs

/-! ### What leaves the accounts alone -/

/-- The accounts of the run are as they were, and the clock has not gone back. -/
structure SameBooks (s s' : ReplayState) : Prop where
  cnt : s'.jobSubmitCnt = s.jobSubmitCnt
  compTime : s'.compTime = s.compTime
  prepEnd : s'.tsPrepEnd = s.tsPrepEnd
  compStart : s'.tsCompStart = s.tsCompStart
  compEnd : s'.tsCompEnd = s.tsCompEnd
  clocks : s.clocks ≤ s'.clocks

theorem SameBooks.refl (s : ReplayState) : SameBooks s s := ⟨rfl, rfl, rfl, rfl, rfl, le_rfl⟩

theorem SameBooks.trans {s s' s'' : ReplayState} (h : SameBooks s s') (h' : SameBooks s' s'') :
    SameBooks s s'' :=
  ⟨h'.cnt.trans h.cnt, h'.compTime.trans h.compTime, h'.prepEnd.trans h.prepEnd,
    h'.compStart.trans h.compStart, h'.compEnd.trans h.compEnd, h.clocks.trans h'.clocks⟩

instance : AccessBlind SameBooks where
  refl := SameBooks.refl
  trans _ _ _ := SameBooks.trans
  event _ _ _ _ := ⟨rfl, rfl, rfl, rfl, rfl, le_rfl⟩
  latest _ _ := ⟨rfl, rfl, rfl, rfl, rfl, le_rfl⟩

instance : ClockBlind SameBooks where
  clock s := ⟨rfl, rfl, rfl, rfl, rfl, Nat.le_succ s.clocks⟩

instance : SpaceBlind SameBooks where
  checkpoint _ _ _ _ := ⟨rfl, rfl, rfl, rfl, rfl, le_rfl⟩

instance : CheckBlind SameBooks where
  snapshot _ _ _ := ⟨rfl, rfl, rfl, rfl, rfl, le_rfl⟩
  checked _ _ _ := ⟨rfl, rfl, rfl, rfl, rfl, le_rfl⟩

section Entry

variable {cfg : ReplayConfig} {rctx : ReplayContext} {env : Env}

theorem sameBooks_grJsTune (type val : Nat) : Moves SameBooks (grJsTune rctx type val) :=
  moves_grJsTune (fun _ _ => ⟨rfl, rfl, rfl, rfl, rfl, le_rfl⟩) fun _ _ =>
    ⟨rfl, rfl, rfl, rfl, rfl, le_rfl⟩

theorem sameBooks_entryWritten (curIo : RegIo) :
    Moves SameBooks (entryWritten cfg rctx env curIo) := by
  refine Moves.bind (moves_prepareWrite (fun _ => sameBooks_grJsTune _ _) fun _ => ?_) fun _ => ?_
  · exact moves_checkpointJob cfg rctx env
  · exact (moves_write _ _ _).bind fun _ => Moves.pure _

/-- An entry that submits no job. -/
theorem sameBooks_entry (i : Nat) {curIo : RegIo} (h : ¬curIo.Writes jsCommandNext) :
    Moves SameBooks (replayEntry cfg rctx env i curIo) := by
  refine Moves.bind (Moves.ite (fun _ => moves_replayRead env curIo) fun hwrite => ?_) fun _ =>
    moves_onlyIf fun _ => moves_validateEntry env curIo i
  exact moves_replayWrite (fun _ => sameBooks_grJsTune _ _)
    (fun _ => moves_checkpointJob cfg rctx env) fun hoffset => absurd ⟨hwrite, hoffset⟩ h

/-! ### One job -/

/-- A stamp is the next reading. -/
theorem stampIf_eq_ok {c : Prop} [Decidable c] {keep : Nat → ReplayState → ReplayState}
    {s s' : ReplayState} (h : onlyIf c (stamp env keep) s = .ok () s') :
    s' = if c then keep (env.reading s.clocks) { s with clocks := s.clocks + 1 } else s := by
  unfold onlyIf at h
  split at h
  next hc =>
    rw [if_pos hc]
    exact (EStateM.Result.ok.inj h).2.symm
  next hc =>
    rw [if_neg hc]
    exact (EStateM.Result.ok.inj h).2.symm

/-- The accounts after the wait for a job. -/
structure BooksWaited (cfg : ReplayConfig) (env : Env) (s : ReplayState) (job : Nat × Nat)
    (s' : ReplayState) : Prop where
  job : job = (env.reading s.clocks, s.jobSubmitCnt)
  cnt : s'.jobSubmitCnt = s.jobSubmitCnt
  compTime : s'.compTime = s.compTime
  prepEnd : s'.tsPrepEnd = s.tsPrepEnd
  compStart : if s.jobSubmitCnt = (cfg.nrPrepJobs + 1) % 2 ^ 32 then
    ReadWithin env s.clocks s'.clocks s'.tsCompStart else s'.tsCompStart = s.tsCompStart
  compEnd : s'.tsCompEnd = s.tsCompEnd
  clocks : s.clocks < s'.clocks

theorem jobWaited_books {s s' : ReplayState} {job : Nat × Nat}
    (h : jobWaited cfg env s = .ok job s') : BooksWaited cfg env s job s' := by
  obtain ⟨ts, s₁, hstart, h⟩ := EStateM.bind_eq_ok.mp h
  obtain ⟨rfl, rfl⟩ := EStateM.Result.ok.inj hstart
  obtain ⟨t, s₁, hget, h⟩ := EStateM.bind_eq_ok.mp h
  obtain ⟨rfl, rfl⟩ := EStateM.Result.ok.inj hget
  obtain ⟨u, s₂, hprep, h⟩ := EStateM.bind_eq_ok.mp h
  obtain ⟨v, s₃, hcomp, h⟩ := EStateM.bind_eq_ok.mp h
  obtain ⟨w, s₄, hwait, h⟩ := EStateM.bind_eq_ok.mp h
  obtain ⟨rfl, rfl⟩ := EStateM.Result.ok.inj h
  have hsame : SameBooks s₃ s₄ := (moves_waitJobIrq env s₃).ok hwait
  have hfirst : SameBooks { s with clocks := s.clocks + 1 } s₂ := by
    rw [stampIf_eq_ok hprep]
    split
    · exact ⟨rfl, rfl, rfl, rfl, rfl, Nat.le_succ _⟩
    · exact SameBooks.refl _
  have hlater : s.clocks + 1 ≤ s₂.clocks := hfirst.clocks
  have hthird := stampIf_eq_ok hcomp
  dsimp only at hthird
  split at hthird
  next hc =>
    subst hthird
    have hover : s₂.clocks + 1 ≤ s₄.clocks := hsame.clocks
    refine ⟨rfl, hsame.cnt.trans hfirst.cnt, hsame.compTime.trans hfirst.compTime,
      hsame.prepEnd.trans hfirst.prepEnd, ?_, hsame.compEnd.trans hfirst.compEnd, by omega⟩
    rw [if_pos hc]
    exact ⟨s₂.clocks, by omega, by omega, hsame.compStart⟩
  next hc =>
    subst hthird
    have hover : s₃.clocks ≤ s₄.clocks := hsame.clocks
    refine ⟨rfl, hsame.cnt.trans hfirst.cnt, hsame.compTime.trans hfirst.compTime,
      hsame.prepEnd.trans hfirst.prepEnd, ?_, hsame.compEnd.trans hfirst.compEnd, by omega⟩
    rw [if_neg hc]
    exact hsame.compStart.trans hfirst.compStart

/-- The accounts after a job, from those after the wait for it. -/
structure BooksOver (cfg : ReplayConfig) (env : Env) (s : ReplayState) (ts nr : Nat)
    (s' : ReplayState) : Prop where
  cnt : s'.jobSubmitCnt =
    if nr ≠ cfg.nrPrepJobs ∧ nr = cfg.nrTotJobs then s.jobSubmitCnt else (nr + 1) % 2 ^ 32
  compTime : s'.compTime = if cfg.nrPrepJobs < nr ∧ nr ≤ cfg.nrTotJobs then
    (s.compTime + (env.reading s.clocks + 2 ^ 32 - ts)) % 2 ^ 32 else s.compTime
  prepEnd : if nr = cfg.nrPrepJobs then ReadWithin env s.clocks s'.clocks s'.tsPrepEnd else
    s'.tsPrepEnd = s.tsPrepEnd
  compStart : s'.tsCompStart = s.tsCompStart
  compEnd : if nr ≠ cfg.nrPrepJobs ∧ nr = cfg.nrTotJobs then
    ReadWithin env s.clocks s'.clocks s'.tsCompEnd else s'.tsCompEnd = s.tsCompEnd
  clocks : s.clocks < s'.clocks

theorem jobCompleted_books {s s' : ReplayState} {ts nr : Nat}
    (h : jobCompleted cfg env ts nr s = .ok () s') : BooksOver cfg env s ts nr s' := by
  obtain ⟨tsJobEnd, s₁, hend, h⟩ := EStateM.bind_eq_ok.mp h
  obtain ⟨rfl, rfl⟩ := EStateM.Result.ok.inj hend
  obtain ⟨u, s₂, htime, h⟩ := EStateM.bind_eq_ok.mp h
  obtain rfl : { s with
      clocks := s.clocks + 1
      compTime := if cfg.nrPrepJobs < nr ∧ nr ≤ cfg.nrTotJobs then
        (s.compTime + (env.reading s.clocks + 2 ^ 32 - ts)) % 2 ^ 32 else s.compTime } = s₂ := by
    unfold onlyIf at htime
    split at htime
    next hc =>
      rw [if_pos hc]
      exact (EStateM.Result.ok.inj htime).2
    next hc =>
      rw [if_neg hc]
      exact (EStateM.Result.ok.inj htime).2
  unfold jobAccounts at h
  split at h
  next hprep =>
    obtain ⟨-, rfl⟩ := EStateM.Result.ok.inj h
    refine ⟨(if_neg fun hc => hc.1 hprep).symm, rfl, ?_, rfl, ?_, by dsimp only; omega⟩
    · rw [if_pos hprep]
      exact ⟨s.clocks + 1, by omega, by dsimp only; omega, rfl⟩
    · rw [if_neg fun hc => hc.1 hprep]
  next hprep =>
    split at h
    next htot =>
      obtain ⟨v, s₃, hcomp, h⟩ := EStateM.bind_eq_ok.mp h
      obtain ⟨-, rfl⟩ := EStateM.Result.ok.inj hcomp
      obtain ⟨-, rfl⟩ := EStateM.Result.ok.inj h
      refine ⟨(if_pos ⟨hprep, htot⟩).symm, rfl, ?_, rfl, ?_, by dsimp only; omega⟩
      · rw [if_neg hprep]
      · rw [if_pos ⟨hprep, htot⟩]
        exact ⟨s.clocks + 1, by omega, by dsimp only; omega, rfl⟩
    next htot =>
      obtain ⟨v, s₃, hresume, h⟩ := EStateM.bind_eq_ok.mp h
      obtain ⟨-, rfl⟩ := EStateM.Result.ok.inj h
      have hother : ¬(nr ≠ cfg.nrPrepJobs ∧ nr = cfg.nrTotJobs) := fun hc => htot hc.2
      rw [stampIf_eq_ok hresume]
      refine ⟨(if_neg hother).symm, ?_, ?_, ?_, ?_, ?_⟩
      · split <;> rfl
      · rw [if_neg hprep]
        split <;> rfl
      · split <;> rfl
      · rw [if_neg hother]
        split <;> rfl
      · split <;> dsimp only <;> omega

/-- What an entry that submits a job does to the accounts. -/
structure JobBooked (cfg : ReplayConfig) (env : Env) (s : ReplayState) (job : JobTimes)
    (s' : ReplayState) : Prop where
  cnt : s'.jobSubmitCnt =
    if s.jobSubmitCnt ≠ cfg.nrPrepJobs ∧ s.jobSubmitCnt = cfg.nrTotJobs then s.jobSubmitCnt
    else (s.jobSubmitCnt + 1) % 2 ^ 32
  compTime : s'.compTime =
    if cfg.nrPrepJobs < s.jobSubmitCnt ∧ s.jobSubmitCnt ≤ cfg.nrTotJobs then
      (s.compTime + duration env job) % 2 ^ 32 else s.compTime
  prepEnd : if s.jobSubmitCnt = cfg.nrPrepJobs then
    ReadWithin env job.completed job.finished s'.tsPrepEnd else s'.tsPrepEnd = s.tsPrepEnd
  compStart : if s.jobSubmitCnt = (cfg.nrPrepJobs + 1) % 2 ^ 32 then
    ReadWithin env job.submitted job.completed s'.tsCompStart else s'.tsCompStart = s.tsCompStart
  compEnd : if s.jobSubmitCnt ≠ cfg.nrPrepJobs ∧ s.jobSubmitCnt = cfg.nrTotJobs then
    ReadWithin env job.completed job.finished s'.tsCompEnd else s'.tsCompEnd = s.tsCompEnd
  submitted : s.clocks ≤ job.submitted
  completed : job.submitted < job.completed
  finished : job.completed < job.finished
  clocks : s'.clocks = job.finished

theorem ReadWithin.mono {first last last' ts : Nat} (h : ReadWithin env first last ts)
    (hlast : last ≤ last') : ReadWithin env first last' ts := by
  obtain ⟨n, hfirst, hn, rfl⟩ := h
  exact ⟨n, hfirst, by omega, rfl⟩

/-- A job is booked by what its wait and the accounts after it book. -/
theorem JobBooked.of_parts {s s₁ s₂ s₃ s' : ReplayState} {job : Nat × Nat}
    (hbefore : SameBooks s s₁) (hwait : BooksWaited cfg env s₁ job s₂)
    (hover : BooksOver cfg env s₂ job.1 job.2 s₃) (hafter : SameBooks s₃ s') :
    JobBooked cfg env s ⟨s₁.clocks, s₂.clocks, s'.clocks⟩ s' := by
  obtain rfl := hwait.job
  have hcnt := hover.cnt
  have htime := hover.compTime
  have hprep := hover.prepEnd
  have hstart := hwait.compStart
  have hend := hover.compEnd
  dsimp only at hcnt htime hprep hend
  rw [hwait.cnt, hbefore.cnt] at hcnt
  rw [hwait.compTime, hbefore.cnt, hbefore.compTime] at htime
  rw [hbefore.cnt, hwait.prepEnd, hbefore.prepEnd] at hprep
  rw [hbefore.cnt, hbefore.compStart] at hstart
  rw [hbefore.cnt, hwait.compEnd, hbefore.compEnd] at hend
  refine ⟨hafter.cnt.trans hcnt, ?_, ?_, ?_, ?_, hbefore.clocks, hwait.clocks,
    lt_of_lt_of_le hover.clocks hafter.clocks, rfl⟩
  · rw [hafter.compTime, htime, duration, Nat.add_mod_mod]
  · rw [hafter.prepEnd]
    split at hprep
    next hc =>
      rw [if_pos hc]
      exact hprep.mono hafter.clocks
    next hc =>
      rwa [if_neg hc]
  · rw [hafter.compStart, hover.compStart]
    exact hstart
  · rw [hafter.compEnd]
    split at hend
    next hc =>
      rw [if_pos hc]
      exact hend.mono hafter.clocks
    next hc =>
      rwa [if_neg hc]

/-- **One job is booked.** -/
theorem jobBooked {i : Nat} {curIo : RegIo} {s s' : ReplayState}
    (hjob : curIo.Writes jsCommandNext) (h : replayEntry cfg rctx env i curIo s = .ok () s') :
    JobBooked cfg env s (jobTimes cfg rctx env i curIo s) s' := by
  have hentry := h
  unfold replayEntry at h
  rw [if_neg hjob.1, replayWrite_eq] at h
  obtain ⟨u, t, hwrite, hvalidate⟩ := EStateM.bind_eq_ok.mp h
  obtain ⟨value, s₁, hwritten, hrest⟩ := EStateM.bind_eq_ok.mp hwrite
  obtain ⟨v, s₃, hsubmit, hreset⟩ := EStateM.bind_eq_ok.mp hrest
  rw [onlyIf, if_pos hjob.2, jobSubmitted_eq] at hsubmit
  obtain ⟨job, s₂, hwaited, hcompleted⟩ := EStateM.bind_eq_ok.mp hsubmit
  -- before the job, and after it, nothing is booked
  have hbefore : SameBooks s s₁ := (sameBooks_entryWritten curIo s).ok hwritten
  have hafter : SameBooks s₃ s' := by
    have hsoft : Moves SameBooks (onlyIf (curIo.offset = gpuCommand ∧ value = gpuCommandSoftReset)
        (grRegWrite .softReset gpuIrqMask 0x100)) := moves_onlyIf fun _ => moves_write _ _ _
    have hcheck : Moves SameBooks (onlyIf cfg.isValidate (validateEntry env curIo i)) :=
      moves_onlyIf fun _ => moves_validateEntry env curIo i
    exact ((hsoft s₃).ok hreset).trans ((hcheck t).ok hvalidate)
  have htimes : jobTimes cfg rctx env i curIo s = ⟨s₁.clocks, s₂.clocks, s'.clocks⟩ := by
    unfold jobTimes
    rw [after_eq hwritten, after_eq (EStateM.bind_eq_ok.mpr ⟨value, s₁, hwritten, hwaited⟩),
      after_eq hentry]
  rw [htimes]
  exact .of_parts hbefore (jobWaited_books hwaited) (jobCompleted_books hcompleted) hafter

end Entry

/-! ### The books of a run -/

/-- The accounts after some jobs of a run that started in `s₀`. -/
structure Booked (cfg : ReplayConfig) (env : Env) (s₀ : ReplayState) (jobs : List JobTimes)
    (s : ReplayState) : Prop where
  cnt : s.jobSubmitCnt = min (jobs.length + 1) cfg.nrTotJobs
  ordered : jobs.Pairwise fun job job' => job.finished ≤ job'.submitted
  spans : ∀ job ∈ jobs, s₀.clocks ≤ job.submitted ∧ job.submitted < job.completed ∧
    job.completed < job.finished ∧ job.finished ≤ s.clocks
  clocks : s₀.clocks ≤ s.clocks
  prepEnd : ∀ job, 0 < cfg.nrPrepJobs → jobs[cfg.nrPrepJobs - 1]? = some job →
    ReadWithin env job.completed job.finished s.tsPrepEnd
  unprepared : cfg.nrPrepJobs = 0 → s.tsPrepEnd = s₀.tsPrepEnd
  compStart : jobs.length ≤ cfg.nrTotJobs → ∀ job, jobs[cfg.nrPrepJobs]? = some job →
    ReadWithin env job.submitted job.completed s.tsCompStart
  -- once they are complete, each job is taken for the last
  compEnd : cfg.nrTotJobs ≤ jobs.length → ∀ job, jobs.getLast? = some job →
    ReadWithin env job.completed job.finished s.tsCompEnd
  compTime : jobs.length ≤ cfg.nrTotJobs →
    s.compTime = ((jobs.drop cfg.nrPrepJobs).map (duration env)).sum % 2 ^ 32

section Books

variable {cfg : ReplayConfig} {rctx : ReplayContext} {env : Env} {s₀ s s' : ReplayState}
  {jobs : List JobTimes} {job : JobTimes}

theorem Booked.same (h : Booked cfg env s₀ jobs s) (hsame : SameBooks s s') :
    Booked cfg env s₀ jobs s' where
  cnt := hsame.cnt.trans h.cnt
  ordered := h.ordered
  spans j hj := by
    obtain ⟨hstart, hwait, hover, hlast⟩ := h.spans j hj
    exact ⟨hstart, hwait, hover, hlast.trans hsame.clocks⟩
  clocks := h.clocks.trans hsame.clocks
  prepEnd j hpos hj := hsame.prepEnd ▸ h.prepEnd j hpos hj
  unprepared hzero := hsame.prepEnd.trans (h.unprepared hzero)
  compStart hle j hj := hsame.compStart ▸ h.compStart hle j hj
  compEnd hle j hj := hsame.compEnd ▸ h.compEnd hle j hj
  compTime hle := hsame.compTime.trans (h.compTime hle)

/-- An element of a list with one more. -/
theorem getElem?_snoc {l : List α} {a b : α} {i : Nat} :
    (l ++ [a])[i]? = some b ↔ l[i]? = some b ∨ i = l.length ∧ b = a := by
  rcases lt_trichotomy i l.length with hi | rfl | hi
  · rw [List.getElem?_append_left hi]
    simp [hi.ne]
  · rw [List.getElem?_concat_length]
    simp [eq_comm]
  · rw [List.getElem?_eq_none (by rw [List.length_append, List.length_singleton]; omega),
      List.getElem?_eq_none hi.le]
    simp [hi.ne']

/-- **One more job.** -/
theorem Booked.snoc (hprep : cfg.nrPrepJobs < cfg.nrTotJobs) (htot : cfg.nrTotJobs < 2 ^ 32)
    (h : Booked cfg env s₀ jobs s) (hjob : JobBooked cfg env s job s') :
    Booked cfg env s₀ (jobs ++ [job]) s' := by
  have hcnt := h.cnt
  have hlength : (jobs ++ [job]).length = jobs.length + 1 := List.length_append
  have hclocks : s.clocks ≤ s'.clocks := by
    have hsubmitted := hjob.submitted
    have hcompleted := hjob.completed
    have hover := hjob.finished
    rw [hjob.clocks]
    omega
  refine ⟨?_, ?_, ?_, h.clocks.trans hclocks, ?_, ?_, ?_, ?_, ?_⟩
  · rw [hjob.cnt, hlength, hcnt]
    split <;> omega
  · refine List.pairwise_append.mpr ⟨h.ordered, List.pairwise_singleton _ _, fun j hj j' hj' => ?_⟩
    rw [List.mem_singleton.mp hj']
    exact (h.spans j hj).2.2.2.trans hjob.submitted
  · intro j hj
    rcases List.mem_append.mp hj with hj | hj
    · obtain ⟨hstart, hwait, hover, hlast⟩ := h.spans j hj
      exact ⟨hstart, hwait, hover, hlast.trans hclocks⟩
    · rw [List.mem_singleton.mp hj]
      exact ⟨h.clocks.trans hjob.submitted, hjob.completed, hjob.finished, hjob.clocks.ge⟩
  · intro j hpos hj
    have hbooked := hjob.prepEnd
    rcases getElem?_snoc.mp hj with hold | ⟨hnew, rfl⟩
    · have hlt := (List.getElem?_eq_some_iff.mp hold).1
      rw [if_neg (by omega)] at hbooked
      rw [hbooked]
      exact h.prepEnd j hpos hold
    · rwa [if_pos (by omega)] at hbooked
  · intro hzero
    have hbooked := hjob.prepEnd
    rw [if_neg (by omega)] at hbooked
    exact hbooked.trans (h.unprepared hzero)
  · intro hle j hj
    rw [hlength] at hle
    have hbooked := hjob.compStart
    rcases getElem?_snoc.mp hj with hold | ⟨hnew, rfl⟩
    · have hlt := (List.getElem?_eq_some_iff.mp hold).1
      rw [if_neg (by omega)] at hbooked
      rw [hbooked]
      exact h.compStart (by omega) j hold
    · rwa [if_pos (by omega)] at hbooked
  · intro hle j hj
    rw [hlength] at hle
    have hbooked := hjob.compEnd
    rw [List.getLast?_concat] at hj
    obtain rfl := Option.some.inj hj
    rwa [if_pos (by omega)] at hbooked
  · intro hle
    rw [hlength] at hle
    rw [hjob.compTime, h.compTime (by omega)]
    by_cases hcounted : cfg.nrPrepJobs ≤ jobs.length
    · rw [if_pos (by omega), List.drop_append_of_le_length hcounted, List.map_append,
        List.sum_append, List.map_singleton, List.sum_singleton, Nat.mod_add_mod]
    · rw [if_neg (by omega), List.drop_of_length_le (by omega),
        List.drop_of_length_le (by rw [hlength]; omega)]

/-- **A run keeps its books.** -/
theorem booked_of_run (hprep : cfg.nrPrepJobs < cfg.nrTotJobs) (htot : cfg.nrTotJobs < 2 ^ 32)
    {log : List RegIo} : ∀ {i : Nat} {jobs : List JobTimes} {s s' : ReplayState},
      Booked cfg env s₀ jobs s → replayEntries cfg rctx env i log s = .ok () s' →
      Booked cfg env s₀ (jobs ++ jobsFrom cfg rctx env i log s) s' := by
  induction log with
  | nil =>
      intro i jobs s s' h hrun
      obtain ⟨-, rfl⟩ := EStateM.Result.ok.inj hrun
      rwa [jobsFrom, List.append_nil]
  | cons curIo log ih =>
      intro i jobs s s' h hrun
      obtain ⟨u, s₁, hentry, hrest⟩ := EStateM.bind_eq_ok.mp hrun
      have hnext : Booked cfg env s₀ (jobs ++ entryJobs cfg rctx env i curIo s) s₁ := by
        unfold entryJobs
        split
        next hjob => exact h.snoc hprep htot (jobBooked hjob hentry)
        next hother =>
          rw [List.append_nil]
          exact h.same ((sameBooks_entry i hother s).ok hentry)
      rw [jobsFrom, after_eq hentry, ← List.append_assoc]
      exact ih hnext hrest

/-- A job is finished before a later one is submitted. -/
theorem Booked.in_order (h : Booked cfg env s₀ jobs s) {i j : Nat} {job' : JobTimes}
    (hi : jobs[i]? = some job) (hj : jobs[j]? = some job') (hij : i < j) :
    job.finished ≤ job'.submitted := by
  obtain ⟨hi', rfl⟩ := List.getElem?_eq_some_iff.mp hi
  obtain ⟨hj', rfl⟩ := List.getElem?_eq_some_iff.mp hj
  exact List.pairwise_iff_getElem.mp h.ordered i j hi' hj' hij

theorem length_jobsFrom (cfg : ReplayConfig) (rctx : ReplayContext) (env : Env)
    (log : List RegIo) : ∀ i s,
      (jobsFrom cfg rctx env i log s).length = log.countP (·.Writes jsCommandNext) := by
  induction log with
  | nil => exact fun _ _ => rfl
  | cons curIo log ih =>
      intro i s
      rw [jobsFrom, List.length_append, ih, List.countP_cons, entryJobs, Nat.add_comm]
      by_cases hjob : curIo.Writes jsCommandNext
      · rw [if_pos hjob, if_pos (decide_eq_true hjob)]
        rfl
      · rw [if_neg hjob, if_neg (by simpa using hjob)]
        rfl

end Books

/-! ### The totals -/

/-- The totals are added to at the end of a run. -/
def SameTotals (s s' : ReplayState) : Prop :=
  s'.totPrepTime = s.totPrepTime ∧ s'.totCompTime = s.totCompTime

instance : AccessBlind SameTotals where
  refl _ := ⟨rfl, rfl⟩
  trans _ _ _ h h' := ⟨h'.1.trans h.1, h'.2.trans h.2⟩
  event _ _ _ _ := ⟨rfl, rfl⟩
  latest _ _ := ⟨rfl, rfl⟩

instance : TimeBlind SameTotals where
  clock _ := ⟨rfl, rfl⟩
  accounts _ _ _ _ _ _ _ := ⟨rfl, rfl⟩

instance : SpaceBlind SameTotals where
  checkpoint _ _ _ _ := ⟨rfl, rfl⟩

instance : CheckBlind SameTotals where
  snapshot _ _ _ := ⟨rfl, rfl⟩
  checked _ _ _ := ⟨rfl, rfl⟩

section Run

variable {cfg : ReplayConfig} {rctx : ReplayContext} {env : Env} {log : List RegIo}
  {s s' : ReplayState}

theorem sameTotals_entries (i : Nat) : Moves SameTotals (replayEntries cfg rctx env i log) :=
  moves_replayEntries (fun i _ _ => moves_replayEntry i fun _ _ =>
    moves_grJsTune (fun _ _ => ⟨rfl, rfl⟩) fun _ _ => ⟨rfl, rfl⟩) i

/-- What a run adds to the totals. -/
theorem grReplayRun_totals (hrun : grReplayRun cfg rctx env log s = .ok () s') :
    ∃ s₁, replayEntries cfg rctx env 0 log (runStart s) = .ok () s₁ ∧ SameBooks s₁ s' ∧
      s'.totPrepTime =
        (s.totPrepTime + (s'.tsPrepEnd + 2 ^ 32 - env.reading s.clocks)) % 2 ^ 32 ∧
      s'.totCompTime = (s.totCompTime + (s'.tsCompEnd + 2 ^ 32 - s'.tsCompStart)) % 2 ^ 32 := by
  obtain ⟨u, t, hset, hrun⟩ := EStateM.bind_eq_ok.mp hrun
  obtain ⟨-, rfl⟩ := EStateM.Result.ok.inj hset
  obtain ⟨ts, t, hstart, hrun⟩ := EStateM.bind_eq_ok.mp hrun
  obtain ⟨rfl, rfl⟩ := EStateM.Result.ok.inj hstart
  obtain ⟨v, s₁, hentries, hend⟩ := EStateM.bind_eq_ok.mp hrun
  obtain ⟨-, rfl⟩ := EStateM.Result.ok.inj hend
  obtain ⟨hprep, hcomp⟩ : SameTotals (runStart s) s₁ :=
    (sameTotals_entries 0 (runStart s)).ok hentries
  refine ⟨s₁, hentries, ⟨rfl, rfl, rfl, rfl, rfl, le_rfl⟩, ?_, ?_⟩
  · dsimp only
    rw [hprep]
    rfl
  · dsimp only
    rw [hcomp]
    rfl

/-- The books of a whole run. -/
theorem booked_grReplayRun (hprep : cfg.nrPrepJobs < cfg.nrTotJobs)
    (htot : cfg.nrTotJobs < 2 ^ 32) (hrun : grReplayRun cfg rctx env log s = .ok () s') :
    Booked cfg env s (runJobs cfg rctx env log s) s' := by
  obtain ⟨s₁, hentries, hsame, -, -⟩ := grReplayRun_totals hrun
  have hstart : Booked cfg env s [] (runStart s) := by
    refine ⟨?_, List.Pairwise.nil, fun _ h => absurd h List.not_mem_nil, Nat.le_succ _, ?_,
      fun _ => rfl, ?_, ?_, fun _ => ?_⟩
    · show 1 = min (0 + 1) cfg.nrTotJobs
      omega
    · intro _ _ h
      rw [List.getElem?_nil] at h
      cases h
    · intro _ _ h
      rw [List.getElem?_nil] at h
      cases h
    · intro _ _ h
      cases h
    · rw [List.drop_nil]
      rfl
  exact (booked_of_run hprep htot hstart hentries).same hsame

/-- **The accounts are right** where the jobs submitted are those configured, and one of them is
for the preparation. -/
theorem accounted_of_run (hpos : 0 < cfg.nrPrepJobs) (hprep : cfg.nrPrepJobs < cfg.nrTotJobs)
    (htot : cfg.nrTotJobs < 2 ^ 32) (hjobs : log.countP (·.Writes jsCommandNext) = cfg.nrTotJobs)
    (hrun : grReplayRun cfg rctx env log s = .ok () s') :
    Accounted cfg env (runJobs cfg rctx env log s) s s' := by
  have hbooked := booked_grReplayRun hprep htot hrun
  obtain ⟨-, -, -, htotPrep, htotComp⟩ := grReplayRun_totals hrun
  have hlength : (runJobs cfg rctx env log s).length = cfg.nrTotJobs :=
    (length_jobsFrom cfg rctx env log 0 _).trans hjobs
  generalize runJobs cfg rctx env log s = jobs at hbooked hlength
  obtain ⟨prepared, hp⟩ : ∃ job, jobs[cfg.nrPrepJobs - 1]? = some job :=
    ⟨_, List.getElem?_eq_getElem (by omega)⟩
  obtain ⟨first, hf⟩ : ∃ job, jobs[cfg.nrPrepJobs]? = some job :=
    ⟨_, List.getElem?_eq_getElem (by omega)⟩
  obtain ⟨last, hl⟩ : ∃ job, jobs[cfg.nrTotJobs - 1]? = some job :=
    ⟨_, List.getElem?_eq_getElem (by omega)⟩
  have hprepared := hbooked.prepEnd prepared hpos hp
  have hstarted := hbooked.compStart hlength.le first hf
  have hdone := hbooked.compEnd hlength.ge last (by
    rw [List.getLast?_eq_getElem?, hlength]
    exact hl)
  refine ⟨?_, ⟨first, hf, hstarted⟩, ⟨last, hl, hdone⟩, ?_, fun hclock => ?_, fun hclock => ?_⟩
  · rw [if_neg (by omega)]
    exact ⟨prepared, hp, hprepared⟩
  · rw [List.take_of_length_le hlength.le]
    exact hbooked.compTime hlength.le
  · have hspan := hbooked.spans prepared (List.mem_of_getElem? hp)
    obtain ⟨n, hn, hn', hts⟩ := hprepared
    have hle : env.reading s.clocks ≤ s'.tsPrepEnd := by
      rw [hts]
      exact hclock s.clocks n (by omega) (by omega)
    refine ⟨hle, ?_⟩
    rw [htotPrep, Nat.sub_add_comm hle, ← Nat.add_assoc, Nat.add_mod_right]
  · have hspan := hbooked.spans first (List.mem_of_getElem? hf)
    have hspan' := hbooked.spans last (List.mem_of_getElem? hl)
    obtain ⟨n, hn, hn', hts⟩ := hstarted
    obtain ⟨n', hm, hm', hts'⟩ := hdone
    have hle : s'.tsCompStart ≤ s'.tsCompEnd := by
      rw [hts, hts']
      refine hclock n n' ?_ (by omega)
      rcases Nat.lt_or_eq_of_le (Nat.le_sub_one_of_lt hprep) with hlt | heq
      · have horder := hbooked.in_order hf hl hlt
        omega
      · obtain rfl : first = last := Option.some.inj (hf.symm.trans (heq ▸ hl))
        omega
    refine ⟨hle, ?_⟩
    rw [htotComp, Nat.sub_add_comm hle, ← Nat.add_assoc, Nat.add_mod_right]

/-- **When the accounts are right.**  Whatever the clock reads, a run that returns keeps the times
of the right jobs, exactly when a job is configured for the preparation and no more jobs are
submitted than are configured. -/
theorem accounted_iff (hfresh : s.tsPrepEnd = 0) (hprep : cfg.nrPrepJobs < cfg.nrTotJobs)
    (htot : cfg.nrTotJobs < 2 ^ 32) (hjobs : cfg.nrTotJobs ≤ log.countP (·.Writes jsCommandNext))
    (hrun : grReplayRun cfg rctx env log s = .ok () s') :
    (∀ clock s'', grReplayRun cfg rctx (env.withClock clock) log s = .ok () s'' →
      Accounted cfg (env.withClock clock) (runJobs cfg rctx (env.withClock clock) log s) s s'') ↔
      0 < cfg.nrPrepJobs ∧ log.countP (·.Writes jsCommandNext) = cfg.nrTotJobs := by
  refine ⟨fun h => ?_, fun h clock s'' hrun' => accounted_of_run h.1 hprep htot h.2 hrun'⟩
  have hlength := length_jobsFrom cfg rctx env log 0 (runStart s)
  have hreturns : ∀ clock, ∃ s'', grReplayRun cfg rctx (env.withClock clock) log s = .ok () s'' ∧
      Booked cfg (env.withClock clock) s (runJobs cfg rctx env log s) s'' ∧
      Accounted cfg (env.withClock clock) (runJobs cfg rctx env log s) s s'' := by
    intro clock
    obtain ⟨u, s'', hrun', -, -⟩ := (clockless_grReplayRun log).exists_ok (SameButTimes.refl s) hrun
    have hbooked := booked_grReplayRun hprep htot hrun'
    have haccounted := h clock s'' hrun'
    rw [runJobs_withClock] at hbooked haccounted
    exact ⟨s'', hrun', hbooked, haccounted⟩
  constructor
  · -- with a clock that never reads `0`, the start of the run is not what `ts_prep_end` is
    refine Nat.pos_of_ne_zero fun hzero => ?_
    obtain ⟨s'', -, hbooked, haccounted⟩ := hreturns fun _ => 1
    have hstart := haccounted.prepEnd
    rw [if_pos hzero, hbooked.unprepared hzero, hfresh] at hstart
    exact Nat.zero_ne_one hstart
  · -- a clock that goes on when the last job configured is finished
    refine le_antisymm (Nat.le_of_not_lt fun hmore => ?_) hjobs
    change (runJobs cfg rctx env log s).length = _ at hlength
    obtain ⟨done, hdone⟩ : ∃ job, (runJobs cfg rctx env log s)[cfg.nrTotJobs - 1]? = some job :=
      ⟨_, List.getElem?_eq_getElem (by omega)⟩
    obtain ⟨last, hlast⟩ : ∃ job, (runJobs cfg rctx env log s)[log.countP
        (·.Writes jsCommandNext) - 1]? = some job := ⟨_, List.getElem?_eq_getElem (by omega)⟩
    obtain ⟨s'', -, hbooked, haccounted⟩ := hreturns fun n => if n < done.finished then 0 else 1
    obtain ⟨job, hjob, n, -, hn, hts⟩ := haccounted.compEnd
    obtain rfl : done = job := Option.some.inj (hdone.symm.trans hjob)
    obtain ⟨n', hm, -, hts'⟩ := hbooked.compEnd (by omega) last (by
      rw [List.getLast?_eq_getElem?, hlength]
      exact hlast)
    have horder := hbooked.in_order hdone hlast (by omega)
    have hspan := hbooked.spans last (List.mem_of_getElem? hlast)
    have hold : s''.tsCompEnd = 0 := by
      rw [hts]
      exact congrArg (· % 2 ^ 32) (if_pos hn)
    have hnew : s''.tsCompEnd = 1 := by
      rw [hts']
      exact congrArg (· % 2 ^ 32) (if_neg (by omega))
    omega

end Run

/-! ### Two jobs, one and three -/

/-- An environment of which the clock goes on by one. -/
def ticking : Env := ⟨fun _ => 0, fun n => n + 1, fun _ => true⟩

/-- A log of nothing but submissions. -/
def jobLog (n : Nat) : List RegIo := List.replicate n ⟨0, 'W', jsCommandNext, 1⟩

theorem twoJobs_accounted :
    ∃ s', grReplayRun plainConfig blankContext ticking (jobLog 2) blankState = .ok () s' ∧
      s'.tsPrepEnd = 5 ∧ s'.compTime = 2 ∧
      Accounted plainConfig ticking (runJobs plainConfig blankContext ticking (jobLog 2) blankState)
        blankState s' := by
  obtain ⟨s', hrun, hs'⟩ := @exists_of_returns
    (grReplayRun plainConfig blankContext ticking (jobLog 2)) blankState
    (fun s => s.tsPrepEnd == 5 && s.compTime == 2) (by decide +kernel)
  obtain ⟨hprep, hcomp⟩ := Bool.and_eq_true_iff.mp hs'
  refine ⟨s', hrun, eq_of_beq hprep, eq_of_beq hcomp, ?_⟩
  exact (accounted_iff rfl (by decide) (by decide) (by decide) hrun).mpr ⟨by decide, by decide⟩
    ticking.clock s' hrun


/-- With no job for the preparation, and with a job more than are configured. -/
theorem accounts_wrong :
    (∃ s', grReplayRun { plainConfig with nrPrepJobs := 0, nrTotJobs := 1 } blankContext ticking
          (jobLog 1) blankState = .ok () s' ∧
        s'.tsPrepEnd = 0 ∧ s'.totPrepTime = 2 ^ 32 - 1 ∧
        ¬Accounted { plainConfig with nrPrepJobs := 0, nrTotJobs := 1 } ticking
          (runJobs { plainConfig with nrPrepJobs := 0, nrTotJobs := 1 } blankContext ticking
            (jobLog 1) blankState) blankState s') ∧
      ∃ s', grReplayRun plainConfig blankContext ticking (jobLog 3) blankState = .ok () s' ∧
        s'.compTime = 4 ∧
        ¬Accounted plainConfig ticking
          (runJobs plainConfig blankContext ticking (jobLog 3) blankState) blankState s' := by
  constructor
  · obtain ⟨s', hrun, hs'⟩ := @exists_of_returns
      (grReplayRun { plainConfig with nrPrepJobs := 0, nrTotJobs := 1 } blankContext ticking
        (jobLog 1)) blankState (fun s => s.tsPrepEnd == 0 && s.totPrepTime == 2 ^ 32 - 1)
      (by decide +kernel)
    obtain ⟨hprep, htot⟩ := Bool.and_eq_true_iff.mp hs'
    refine ⟨s', hrun, eq_of_beq hprep, eq_of_beq htot, fun haccounted => ?_⟩
    have hstart := haccounted.prepEnd
    rw [if_pos rfl, eq_of_beq hprep] at hstart
    exact absurd hstart (by decide)
  · obtain ⟨s', hrun, hs'⟩ := @exists_of_returns
      (grReplayRun plainConfig blankContext ticking (jobLog 3)) blankState
      (fun s => s.compTime == 4) (by decide +kernel)
    refine ⟨s', hrun, eq_of_beq hs', fun haccounted => ?_⟩
    have hsum := haccounted.compTime
    rw [eq_of_beq hs'] at hsum
    exact absurd hsum (by decide +kernel)

end GpuReplay.Replayer
