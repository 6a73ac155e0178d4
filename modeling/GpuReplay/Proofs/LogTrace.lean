/-
A replay is the log, with its side sequences.

`EntryTrace` says what one entry of the log may do: a read entry reads its register
first, and then only waits and checks; a write entry writes once, a checkpoint before a
job submission, the wait for the job right after it, and the interrupt mask after a soft
reset.  `LogTrace` strings the entries together, with the flush id held from one to the
next, and `grReplayRun_logTrace` says that a replay that returns has done just this.
-/
import GpuReplay.Proofs.Replay

namespace GpuReplay.Replayer

/-! ### What an entry stands for -/

/-- The flush id held, after one more event. -/
def heldAfter (held : Nat) : Event → Nat
  | .read .entry offset value => if offset = asStatus ∨ offset = latestFlush then value else held
  | _ => held

/-- The sequence of `gr_cache_invalidate`. -/
def CacheInvalidated (seg : List Event) : Prop :=
  ∃ mask values val mask', values.getLast? = some val ∧ seg =
    [.read .cacheInvalidate gpuIrqMask mask,
      .write .cacheInvalidate gpuIrqMask (mask ||| cleanCachesCompleted),
      .write .cacheInvalidate gpuCommand gpuCommandCleanInvCaches] ++
    (polls .cacheInvalidate gpuIrqRawstat values ++
      [.read .cacheInvalidate gpuIrqMask mask',
        .write .cacheInvalidate gpuIrqMask (mask' &&& (2 ^ 32 - 1 - cleanCachesCompleted)),
        .write .cacheInvalidate gpuIrqClear val])

/-- The sequence of `gr_as_flush`. -/
def AsFlushed (lockAddr : Nat) (seg : List Event) : Prop :=
  ∃ values, seg =
    [.write .asFlush asLockaddrLo (lockAddr % 2 ^ 32),
      .write .asFlush asLockaddrHi (lockAddr / 2 ^ 32 % 2 ^ 32),
      .write .asFlush asCommand asCommandLock, .write .asFlush asCommand asCommandFlushMem] ++
    polls .asFlush asStatus values

/-- What comes before the write of an entry. -/
def BeforeWrite (cfg : ReplayConfig) (newTranstab : Nat) (io : RegIo) (seg : List Event) : Prop :=
  if cfg.testCheckpoint = true ∧ io.offset = jsCommandNext then
    ∃ inval flush, CacheInvalidated inval ∧ AsFlushed newTranstab flush ∧ seg = inval ++ flush
  else seg = []

theorem beforeWrite_nil {cfg : ReplayConfig} {newTranstab : Nat} {io : RegIo}
    (h : ¬(cfg.testCheckpoint = true ∧ io.offset = jsCommandNext)) :
    BeforeWrite cfg newTranstab io [] := by
  unfold BeforeWrite
  rw [if_neg h]

theorem beforeWrite_job {cfg : ReplayConfig} {newTranstab : Nat} {io : RegIo}
    {inval flush : List Event} (h : cfg.testCheckpoint = true ∧ io.offset = jsCommandNext)
    (hinval : CacheInvalidated inval) (hflush : AsFlushed newTranstab flush) :
    BeforeWrite cfg newTranstab io (inval ++ flush) := by
  unfold BeforeWrite
  rw [if_pos h]
  exact ⟨inval, flush, hinval, hflush, rfl⟩

/-- The value an entry writes. -/
def writtenValue (cfg : ReplayConfig) (newTranstab held : Nat) (io : RegIo) : Nat :=
  if io.offset = asTranstabLo then newTranstab % 2 ^ 32
  else if io.offset = asTranstabHi then newTranstab / 2 ^ 32 % 2 ^ 32
  else if io.offset = jsConfigNext ∧ cfg.testCheckpoint = true then jsConfigStartFlushNoAction
  else if io.offset = jsFlushIdNext then held
  else io.value

/-- What comes after the write of an entry. -/
def afterWrite (io : RegIo) (value : Nat) : List Event :=
  (if io.offset = jsCommandNext then [.waitJobIrq] else []) ++
    (if io.offset = gpuCommand ∧ value = gpuCommandSoftReset then
      [.write .softReset gpuIrqMask 0x100] else [])

/-- Reads that stand for no entry, and reports. -/
def Event.Side : Event → Prop
  | .read site _ _ => site = .wait ∨ site = .validate
  | .write .. => False
  | .waitJobIrq => False
  | _ => True

/-- **What one entry does**, in a run that holds the flush id `held`. -/
inductive EntryTrace (cfg : ReplayConfig) (newTranstab held : Nat) (io : RegIo) :
    List Event → Prop
  | read (value : Nat) (rest : List Event) (hread : io.isRead = 'R') (hrest : ∀ e ∈ rest, e.Side) :
      EntryTrace cfg newTranstab held io (.read .entry io.offset value :: rest)
  | write (before rest : List Event) (hwrite : io.isRead ≠ 'R')
      (hbefore : BeforeWrite cfg newTranstab io before) (hrest : ∀ e ∈ rest, e.Side) :
      EntryTrace cfg newTranstab held io (before ++
        .write .entry io.offset (writtenValue cfg newTranstab held io) ::
          (afterWrite io (writtenValue cfg newTranstab held io) ++ rest))

/-- **What a log does**, in a run that holds the flush id `held`. -/
inductive LogTrace (cfg : ReplayConfig) (newTranstab : Nat) :
    Nat → List RegIo → List Event → Prop
  | nil (held : Nat) : LogTrace cfg newTranstab held [] []
  | cons {held : Nat} {io : RegIo} {log : List RegIo} {seg events : List Event}
      (hentry : EntryTrace cfg newTranstab held io seg)
      (hlog : LogTrace cfg newTranstab (seg.foldl heldAfter held) log events) :
      LogTrace cfg newTranstab held (io :: log) (seg ++ events)

/-! ### The side sequences -/

section Sequences

variable {env : Env} {s s' : ReplayState}

theorem adds_of_read {site : Site} {offset v : Nat}
    (h : grRegRead env site offset s = .ok v s') : Adds s s' [.read site offset v] :=
  (post_read (Q := fun v s' => Adds s s' [.read site offset v]) (E := fun _ _ => True)
    Adds.read trivial).ok h

theorem adds_of_write {site : Site} {offset value : Nat} {u : Unit}
    (h : grRegWrite site offset value s = .ok u s') : Adds s s' [.write site offset value] :=
  (post_write (Q := fun _ s' => Adds s s' [.write site offset value]) (E := fun _ _ => True)
    ⟨rfl, rfl⟩ trivial).ok h

theorem cacheLoop_ok : ∀ {n val v : Nat} {s : ReplayState}, cacheLoop env n val s = .ok v s' →
    ∃ values, Adds s s' (polls .cacheInvalidate gpuIrqRawstat values) ∧
      (val :: values).getLast? = some v := by
  intro n
  induction n with
  | zero => exact fun h => by cases h
  | succ n ih =>
      intro val v s h
      unfold cacheLoop at h
      split at h
      · obtain ⟨w, s₁, hread, hloop⟩ := EStateM.bind_eq_ok.mp h
        obtain ⟨values, hadds, hlast⟩ := ih hloop
        refine ⟨w :: values, (adds_of_read hread).trans hadds, ?_⟩
        rw [List.getLast?_cons_cons]
        exact hlast
      · obtain ⟨rfl, rfl⟩ := EStateM.Result.ok.inj h
        exact ⟨[], Adds.refl s, rfl⟩

theorem grCacheInvalidate_ok {u : Unit} (h : grCacheInvalidate env s = .ok u s') :
    ∃ seg, CacheInvalidated seg ∧ Adds s s' seg := by
  obtain ⟨mask, s₁, h₁, h⟩ := EStateM.bind_eq_ok.mp h
  obtain ⟨_, s₂, h₂, h⟩ := EStateM.bind_eq_ok.mp h
  obtain ⟨_, s₃, h₃, h⟩ := EStateM.bind_eq_ok.mp h
  obtain ⟨val, s₄, h₄, h⟩ := EStateM.bind_eq_ok.mp h
  obtain ⟨val', s₅, h₅, h⟩ := EStateM.bind_eq_ok.mp h
  obtain ⟨mask', s₆, h₆, h⟩ := EStateM.bind_eq_ok.mp h
  obtain ⟨_, s₇, h₇, h₈⟩ := EStateM.bind_eq_ok.mp h
  obtain ⟨values, hloop, hlast⟩ := cacheLoop_ok h₅
  have hstart := ((adds_of_read h₁).trans (adds_of_write h₂)).trans (adds_of_write h₃)
  have hend := ((adds_of_read h₆).trans (adds_of_write h₇)).trans (adds_of_write h₈)
  have hpolls : Adds s₃ s₅ (polls .cacheInvalidate gpuIrqRawstat (val :: values)) :=
    (adds_of_read h₄).trans hloop
  exact ⟨_, ⟨mask, val :: values, val', mask', hlast, rfl⟩, hstart.trans (hpolls.trans hend)⟩

theorem flushLoop_ok : ∀ {n val : Nat} {s : ReplayState} {u : Unit},
    flushLoop env n val s = .ok u s' → ∃ values, Adds s s' (polls .asFlush asStatus values) := by
  intro n
  induction n with
  | zero => exact fun h => by cases h
  | succ n ih =>
      intro val s u h
      unfold flushLoop at h
      split at h
      · obtain ⟨w, s₁, hread, hloop⟩ := EStateM.bind_eq_ok.mp h
        obtain ⟨values, hadds⟩ := ih hloop
        exact ⟨w :: values, (adds_of_read hread).trans hadds⟩
      · obtain ⟨-, rfl⟩ := EStateM.Result.ok.inj h
        exact ⟨[], Adds.refl s⟩

theorem grAsFlush_ok {lockAddr : Nat} {u : Unit} (h : grAsFlush env lockAddr s = .ok u s') :
    ∃ seg, AsFlushed lockAddr seg ∧ Adds s s' seg := by
  obtain ⟨_, s₁, h₁, h⟩ := EStateM.bind_eq_ok.mp h
  obtain ⟨_, s₂, h₂, h⟩ := EStateM.bind_eq_ok.mp h
  obtain ⟨_, s₃, h₃, h⟩ := EStateM.bind_eq_ok.mp h
  obtain ⟨_, s₄, h₄, h⟩ := EStateM.bind_eq_ok.mp h
  obtain ⟨val, s₅, h₅, h⟩ := EStateM.bind_eq_ok.mp h
  obtain ⟨values, hloop⟩ := flushLoop_ok h
  have hstart := (((adds_of_write h₁).trans (adds_of_write h₂)).trans (adds_of_write h₃)).trans
    (adds_of_write h₄)
  have hpolls : Adds s₄ s' (polls .asFlush asStatus (val :: values)) :=
    (adds_of_read h₅).trans hloop
  exact ⟨_, ⟨val :: values, rfl⟩, hstart.trans hpolls⟩

theorem checkpointJob_ok {cfg : ReplayConfig} {rctx : ReplayContext} {u : Unit}
    (h : checkpointJob cfg rctx env s = .ok u s') :
    ∃ inval flush, CacheInvalidated inval ∧ AsFlushed rctx.newTranstab flush ∧
      Adds s s' (inval ++ flush) := by
  obtain ⟨_, s₁, h₁, h⟩ := EStateM.bind_eq_ok.mp h
  obtain ⟨_, s₂, h₂, h⟩ := EStateM.bind_eq_ok.mp h
  obtain ⟨_, s₃, h₃, h⟩ := EStateM.bind_eq_ok.mp h
  obtain ⟨_, s₄, h₄, h₅⟩ := EStateM.bind_eq_ok.mp h
  obtain ⟨inval, hinval, hadds⟩ := grCacheInvalidate_ok h₂
  obtain ⟨flush, hflush, hadds'⟩ := grAsFlush_ok h₃
  refine ⟨inval, flush, hinval, hflush, ?_⟩
  have hquiet := ((quiet_measure env).ok h₄).trans ((quiet_writeCheckpoint cfg rctx).ok h₅)
  have hall := (((quiet_measure env).ok h₁).trans (hadds.trans hadds')).trans hquiet
  rwa [List.append_nil, List.append_nil] at hall

/-- **Up to its write, an entry only checkpoints**, and the value is the one to write. -/
theorem prepareWrite_ok {cfg : ReplayConfig} {rctx : ReplayContext} {io : RegIo} {value : Nat}
    (h : prepareWrite cfg rctx env io s = .ok value s') :
    value = writtenValue cfg rctx.newTranstab s.latestFlushId io ∧
      ∃ seg, BeforeWrite cfg rctx.newTranstab io seg ∧ Adds s s' seg := by
  have hnone : io.offset ≠ jsCommandNext → BeforeWrite cfg rctx.newTranstab io [] :=
    fun hne => beforeWrite_nil fun h => hne h.2
  unfold prepareWrite at h
  unfold writtenValue
  by_cases hhead : io.offset = jsHeadNextLo ∨ io.offset = jsHeadNextHi
  · rw [if_pos hhead] at h
    obtain ⟨_, s₁, htune, hret⟩ := EStateM.bind_eq_ok.mp h
    obtain ⟨rfl, rfl⟩ := EStateM.Result.ok.inj hret
    have hne : ∀ o, o ≠ jsHeadNextLo → o ≠ jsHeadNextHi → io.offset ≠ o := by
      rintro o hlo hhi rfl
      exact hhead.elim hlo hhi
    rw [if_neg (hne _ (by decide) (by decide)), if_neg (hne _ (by decide) (by decide)),
      if_neg fun h => hne _ (by decide) (by decide) h.1, if_neg (hne _ (by decide) (by decide))]
    exact ⟨rfl, [], hnone (hne _ (by decide) (by decide)), (quiet_jsTune rctx _ _).ok htune⟩
  rw [if_neg hhead] at h
  by_cases hcommand : io.offset = jsCommandNext
  · rw [if_pos hcommand] at h
    obtain ⟨_, s₁, hjob, hret⟩ := EStateM.bind_eq_ok.mp h
    obtain ⟨rfl, rfl⟩ := EStateM.Result.ok.inj hret
    have hne : ∀ o, o ≠ jsCommandNext → io.offset ≠ o := by
      rintro o ho rfl
      exact ho hcommand
    rw [if_neg (hne _ (by decide)), if_neg (hne _ (by decide)),
      if_neg fun h => hne _ (by decide) h.1, if_neg (hne _ (by decide))]
    refine ⟨rfl, ?_⟩
    by_cases htest : cfg.testCheckpoint = true
    · rw [onlyIf_true htest] at hjob
      obtain ⟨inval, flush, hinval, hflush, hadds⟩ := checkpointJob_ok hjob
      exact ⟨_, beforeWrite_job ⟨htest, hcommand⟩ hinval hflush, hadds⟩
    · rw [onlyIf_false htest] at hjob
      obtain ⟨-, rfl⟩ := EStateM.Result.ok.inj hjob
      exact ⟨[], beforeWrite_nil fun h => htest h.1, Adds.refl s⟩
  rw [if_neg hcommand] at h
  by_cases hflush : io.offset = jsFlushIdNext
  · rw [if_pos hflush] at h
    obtain ⟨s₁, s₂, hget, hret⟩ := EStateM.bind_eq_ok.mp h
    obtain ⟨rfl, rfl⟩ := EStateM.Result.ok.inj hget
    obtain ⟨rfl, rfl⟩ := EStateM.Result.ok.inj hret
    rw [hflush, if_neg (by decide), if_neg (by decide), if_neg fun h => absurd h.1 (by decide),
      if_pos rfl]
    exact ⟨rfl, [], hnone hcommand, Adds.refl s⟩
  rw [if_neg hflush] at h
  by_cases hconfig : io.offset = jsConfigNext
  · rw [if_pos hconfig] at h
    obtain ⟨rfl, rfl⟩ := EStateM.Result.ok.inj h
    rw [hconfig, if_neg (by decide : ¬jsConfigNext = asTranstabLo),
      if_neg (by decide : ¬jsConfigNext = asTranstabHi),
      if_neg (by decide : ¬jsConfigNext = jsFlushIdNext)]
    refine ⟨?_, [], hnone hcommand, Adds.refl s⟩
    by_cases htest : cfg.testCheckpoint = true
    · rw [if_pos htest, if_pos ⟨rfl, htest⟩]
    · rw [if_neg htest, if_neg fun h => htest h.2]
  rw [if_neg hconfig] at h
  have hplain : ¬(io.offset = jsConfigNext ∧ cfg.testCheckpoint = true) := fun h => hconfig h.1
  rw [if_neg hplain, if_neg hflush]
  by_cases hlo : io.offset = asTranstabLo
  · rw [if_pos hlo] at h ⊢
    obtain ⟨rfl, rfl⟩ := EStateM.Result.ok.inj h
    exact ⟨rfl, [], hnone hcommand, Adds.refl s⟩
  rw [if_neg hlo] at h ⊢
  by_cases hhi : io.offset = asTranstabHi
  · rw [if_pos hhi] at h ⊢
    obtain ⟨rfl, rfl⟩ := EStateM.Result.ok.inj h
    exact ⟨rfl, [], hnone hcommand, Adds.refl s⟩
  · rw [if_neg hhi] at h ⊢
    obtain ⟨rfl, rfl⟩ := EStateM.Result.ok.inj h
    exact ⟨rfl, [], hnone hcommand, Adds.refl s⟩

/-- The accounts after a job add nothing to the wait for it. -/
theorem jobSubmitted_ok {cfg : ReplayConfig} {u : Unit} (h : jobSubmitted cfg env s = .ok u s') :
    Adds s s' [.waitJobIrq] := by
  obtain ⟨_, s₁, h₁, h⟩ := EStateM.bind_eq_ok.mp h
  obtain ⟨t, s₂, h₂, h⟩ := EStateM.bind_eq_ok.mp h
  obtain ⟨_, s₃, h₃, h⟩ := EStateM.bind_eq_ok.mp h
  obtain ⟨_, s₄, h₄, h⟩ := EStateM.bind_eq_ok.mp h
  obtain ⟨_, s₅, h₅, h⟩ := EStateM.bind_eq_ok.mp h
  obtain ⟨_, s₆, h₆, h⟩ := EStateM.bind_eq_ok.mp h
  obtain ⟨_, s₇, h₇, h₈⟩ := EStateM.bind_eq_ok.mp h
  have hstamp : ∀ (c : Prop) [Decidable c] (keep : Nat → ReplayState → ReplayState),
      (∀ ts s, (keep ts s).trace = s.trace ∧ (keep ts s).latestFlushId = s.latestFlushId) →
      Quiet (onlyIf c (stamp env keep)) := fun c _ keep hkeep =>
    emits_onlyIf fun _ => quiet_stamp env hkeep
  have hbefore : Adds s s₄ [] := by
    have hget : Adds s₁ s₂ [] := Quiet.ok emits_get h₂
    have hprep : Adds s₂ s₃ [] := by
      refine Quiet.ok (hstamp _ _ ?_) h₃
      exact fun ts s => ⟨rfl, rfl⟩
    have hcomp : Adds s₃ s₄ [] := by
      refine Quiet.ok (hstamp _ _ ?_) h₄
      exact fun ts s => ⟨rfl, rfl⟩
    exact ((((quiet_measure env).ok h₁).trans hget).trans hprep).trans hcomp
  have hwait : Adds s₄ s₅ [.waitJobIrq] := by
    unfold grWaitJobIrq at h₅
    split at h₅
    · obtain ⟨-, rfl⟩ := EStateM.Result.ok.inj h₅
      exact ⟨rfl, rfl⟩
    · cases h₅
  have hafter : Adds s₅ s' [] := by
    have hcomp : Adds s₆ s₇ [] := by
      refine Quiet.ok (emits_onlyIf fun _ => ?_) h₇
      exact emits_modify fun s => ⟨rfl, rfl⟩
    exact (((quiet_measure env).ok h₆).trans hcomp).trans ((quiet_jobAccounts cfg env _).ok h₈)
  exact (hbefore.trans hwait).trans hafter

end Sequences

/-! ### One entry -/

theorem foldl_heldAfter {held : Nat} {seg : List Event}
    (h : ∀ e ∈ seg, ∀ offset value, e ≠ .read .entry offset value) :
    seg.foldl heldAfter held = held := by
  induction seg with
  | nil => rfl
  | cons e seg ih =>
      have hkeep : heldAfter held e = held := by
        have hne := h e List.mem_cons_self
        unfold heldAfter
        split
        · exact absurd rfl (hne _ _)
        · rfl
      rw [List.foldl_cons, hkeep]
      exact ih fun e' he' => h e' (List.mem_cons_of_mem e he')

variable {cfg : ReplayConfig} {rctx : ReplayContext} {env : Env} {io : RegIo} {s s' : ReplayState}

theorem side_of_validating {e : Event} (h : e.Validating) : e.Side := by
  cases e with
  | read => exact Or.inr h
  | write => exact h
  | waitJobIrq => exact h
  | notMatched => trivial
  | givenCmd => trivial
  | validationFailed => trivial

theorem Event.Side.not_entry {e : Event} (h : e.Side) (offset value : Nat) :
    e ≠ .read .entry offset value := by
  rintro rfl
  exact h.elim (fun h => Site.noConfusion h) fun h => Site.noConfusion h

/-- The check after an entry. -/
theorem validate_ok {i : Nat} {u : Unit}
    (h : onlyIf cfg.isValidate (validateEntry env io i) s = .ok u s') :
    ∃ rest, (∀ e ∈ rest, e.Side) ∧ Adds s s' rest := by
  obtain ⟨rest, hrest, hadds⟩ := (emits_onlyIf (c := cfg.isValidate = true)
    fun _ => emits_validateEntry env io i).ok h
  exact ⟨rest, fun e he => side_of_validating (hrest e he), hadds⟩

theorem replayRead_ok {u : Unit} (h : replayRead env io s = .ok u s') :
    ∃ value rest, (∀ e ∈ rest, e.Side) ∧
      s'.trace = s.trace ++ .read .entry io.offset value :: rest ∧
      s'.latestFlushId = heldAfter s.latestFlushId (.read .entry io.offset value) := by
  obtain ⟨value, s₁, hread, h⟩ := EStateM.bind_eq_ok.mp h
  obtain ⟨_, s₂, hwait, hset⟩ := EStateM.bind_eq_ok.mp h
  have hfirst := adds_of_read hread
  obtain ⟨rest, hrest, hadds⟩ : ∃ rest, (∀ e ∈ rest, e.Side) ∧ Adds s₁ s₂ rest := by
    by_cases hactive : io.offset = asStatus ∧ io.value = asStatusAsActive
    · rw [onlyIf_true hactive] at hwait
      obtain ⟨values, hwaited, -⟩ := (post_regReadWait env io.offset asStatusAsInactive s₁).ok hwait
      refine ⟨_, fun e he => ?_, hwaited.toAdds⟩
      obtain ⟨v, -, rfl⟩ := List.mem_map.mp he
      exact Or.inl rfl
    · rw [onlyIf_false hactive] at hwait
      obtain ⟨-, rfl⟩ := EStateM.Result.ok.inj hwait
      exact ⟨[], fun e he => absurd he List.not_mem_nil, Adds.refl s₁⟩
  have htrans := hfirst.trans hadds
  refine ⟨value, rest, hrest, ?_⟩
  by_cases hhold : io.offset = asStatus ∨ io.offset = latestFlush
  · rw [onlyIf_true hhold] at hset
    obtain ⟨-, rfl⟩ := EStateM.Result.ok.inj hset
    exact ⟨htrans.trace, (if_pos hhold).symm⟩
  · rw [onlyIf_false hhold] at hset
    obtain ⟨-, rfl⟩ := EStateM.Result.ok.inj hset
    exact ⟨htrans.trace, htrans.flushId.trans (if_neg hhold).symm⟩

theorem replayWrite_ok {u : Unit} (h : replayWrite cfg rctx env io s = .ok u s') :
    ∃ before, BeforeWrite cfg rctx.newTranstab io before ∧ Adds s s' (before ++
      .write .entry io.offset (writtenValue cfg rctx.newTranstab s.latestFlushId io) ::
        afterWrite io (writtenValue cfg rctx.newTranstab s.latestFlushId io)) := by
  obtain ⟨value, s₁, hprepare, h⟩ := EStateM.bind_eq_ok.mp h
  obtain ⟨_, s₂, hwrite, h⟩ := EStateM.bind_eq_ok.mp h
  obtain ⟨_, s₃, hjob, hreset⟩ := EStateM.bind_eq_ok.mp h
  obtain ⟨rfl, before, hbefore, hadds⟩ := prepareWrite_ok hprepare
  have hwait : Adds s₂ s₃ (if io.offset = jsCommandNext then [.waitJobIrq] else []) := by
    by_cases hcommand : io.offset = jsCommandNext
    · rw [onlyIf_true hcommand] at hjob
      rw [if_pos hcommand]
      exact jobSubmitted_ok hjob
    · rw [onlyIf_false hcommand] at hjob
      obtain ⟨-, rfl⟩ := EStateM.Result.ok.inj hjob
      rw [if_neg hcommand]
      exact Adds.refl s₂
  refine ⟨before, hbefore, hadds.trans ((adds_of_write hwrite).trans (hwait.trans ?_))⟩
  by_cases hsoft : io.offset = gpuCommand ∧
      writtenValue cfg rctx.newTranstab s.latestFlushId io = gpuCommandSoftReset
  · rw [onlyIf_true hsoft] at hreset
    rw [if_pos hsoft]
    exact adds_of_write hreset
  · rw [onlyIf_false hsoft] at hreset
    obtain ⟨-, rfl⟩ := EStateM.Result.ok.inj hreset
    rw [if_neg hsoft]
    exact Adds.refl s₃

/-- The events of a write entry that hold no flush id. -/
theorem writeEvents_not_entry {before rest : List Event} {newTranstab value : Nat}
    (hbefore : BeforeWrite cfg newTranstab io before) (hrest : ∀ e ∈ rest, e.Side) :
    ∀ e ∈ before ++ .write .entry io.offset value :: (afterWrite io value ++ rest),
      ∀ offset v, e ≠ .read .entry offset v := by
  have hpolls : ∀ {site : Site} {o : Nat} {values : List Nat}, site ≠ .entry →
      ∀ e ∈ polls site o values, ∀ offset v, e ≠ Event.read .entry offset v := by
    intro site o values hsite e he offset v heq
    obtain ⟨w, -, rfl⟩ := List.mem_map.mp he
    exact hsite (Event.read.inj heq).1
  intro e he offset v heq
  rw [heq] at he
  rcases List.mem_append.mp he with he | he
  · unfold BeforeWrite at hbefore
    split at hbefore
    · obtain ⟨inval, flush, ⟨mask, values, val, mask', -, rfl⟩, ⟨values', rfl⟩, rfl⟩ := hbefore
      simp only [List.mem_append, List.mem_cons, List.not_mem_nil, or_false, reduceCtorEq,
        Event.read.injEq, false_and, false_or] at he
      rcases he with he | he
      · exact hpolls (by decide) _ he offset v rfl
      · exact hpolls (by decide) _ he offset v rfl
    · rw [hbefore] at he
      exact absurd he List.not_mem_nil
  · rcases List.mem_cons.mp he with he | he
    · exact Event.noConfusion he
    rcases List.mem_append.mp he with he | he
    · unfold afterWrite at he
      rcases List.mem_append.mp he with he | he
      · split at he
        · exact Event.noConfusion (List.mem_singleton.mp he)
        · exact absurd he List.not_mem_nil
      · split at he
        · exact Event.noConfusion (List.mem_singleton.mp he)
        · exact absurd he List.not_mem_nil
    · exact (hrest _ he).not_entry offset v rfl

/-- **One entry.** -/
theorem replayEntry_ok {i : Nat} {u : Unit} (h : replayEntry cfg rctx env i io s = .ok u s') :
    ∃ seg, EntryTrace cfg rctx.newTranstab s.latestFlushId io seg ∧
      s'.trace = s.trace ++ seg ∧ s'.latestFlushId = seg.foldl heldAfter s.latestFlushId := by
  obtain ⟨_, s₁, hmain, hvalidate⟩ := EStateM.bind_eq_ok.mp h
  obtain ⟨checks, hchecks, hadds⟩ := validate_ok hvalidate
  by_cases hread : io.isRead = 'R'
  · rw [if_pos hread] at hmain
    obtain ⟨value, rest, hrest, htrace, hheld⟩ := replayRead_ok hmain
    have hside : ∀ e ∈ rest ++ checks, e.Side := fun e he =>
      (List.mem_append.mp he).elim (hrest e) (hchecks e)
    refine ⟨_, .read value (rest ++ checks) hread hside, ?_, ?_⟩
    · rw [hadds.trace, htrace, List.append_assoc]
      rfl
    · rw [List.foldl_cons, foldl_heldAfter fun e he => (hside e he).not_entry]
      exact hadds.flushId.trans hheld
  · rw [if_neg hread] at hmain
    obtain ⟨before, hbefore, hwritten⟩ := replayWrite_ok hmain
    refine ⟨_, .write before checks hread hbefore hchecks, ?_, ?_⟩
    · rw [hadds.trace, hwritten.trace, List.append_assoc, List.append_assoc]
      rfl
    · rw [foldl_heldAfter (writeEvents_not_entry hbefore hchecks)]
      exact hadds.flushId.trans hwritten.flushId

/-! ### The run -/

theorem replayEntries_ok : ∀ {log : List RegIo} {i : Nat} {s : ReplayState} {u : Unit},
    replayEntries cfg rctx env i log s = .ok u s' →
    ∃ events, LogTrace cfg rctx.newTranstab s.latestFlushId log events ∧
      s'.trace = s.trace ++ events := by
  intro log
  induction log with
  | nil =>
      intro i s u h
      obtain ⟨-, rfl⟩ := EStateM.Result.ok.inj h
      exact ⟨[], .nil _, (List.append_nil _).symm⟩
  | cons io log ih =>
      intro i s u h
      obtain ⟨_, s₁, hentry, hrest⟩ := EStateM.bind_eq_ok.mp h
      obtain ⟨seg, hseg, htrace, hheld⟩ := replayEntry_ok hentry
      obtain ⟨events, hevents, htrace'⟩ := ih hrest
      rw [hheld] at hevents
      exact ⟨seg ++ events, .cons hseg hevents, by rw [htrace', htrace, List.append_assoc]⟩

/-- **A replay that returns has done what its log stands for**, entry by entry and nothing
else, with the flush id it held when it started. -/
theorem grReplayRun_logTrace (cfg : ReplayConfig) (rctx : ReplayContext) (env : Env)
    (log : List RegIo) (s : ReplayState) :
    Post (grReplayRun cfg rctx env log) s
      (fun _ s' => LogTrace cfg rctx.newTranstab s.latestFlushId log (s.ran s'))
      (fun _ _ => True) := by
  refine post_replayRun cfg rctx env (fun s₁ hadds => ?_) fun s' s'' hadds h => ?_
  · unfold Post
    cases hrun : replayEntries cfg rctx env 0 log s₁ with
    | ok u s' =>
        obtain ⟨events, hevents, htrace⟩ := replayEntries_ok hrun
        rw [hadds.flushId] at hevents
        have hran : s.ran s' = events := by
          refine ReplayState.ran_eq ?_
          rw [htrace, hadds.trace, List.append_nil]
        dsimp only
        rw [hran]
        exact hevents
    | error e s' => trivial
  · have hran : s.ran s'' = s.ran s' := by
      unfold ReplayState.ran
      rw [hadds.trace, List.append_nil]
    rw [hran]
    exact h

end GpuReplay.Replayer
