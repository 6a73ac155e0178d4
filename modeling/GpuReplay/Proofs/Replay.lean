/-
What the parts of a replay do to its trace.

The trace only grows, so a step is described by the events it adds.  `Emits x p` is the
coarse description, that all of them satisfy `p`, and it holds whether `x` returns or
throws; it is enough for everything but the accesses an entry of the log stands for.
`Quiet x` is the case of no events at all.

The flush id is the only other thing later steps depend on, and only a read entry
changes it, so everything described by `Emits` keeps it.
-/
import GpuReplay.Lib.History
import GpuReplay.Replayer.Replay

namespace GpuReplay.Replayer

theorem onlyIf_true {c : Prop} [Decidable c] {x : Replay Unit} (h : c) : onlyIf c x = x := if_pos h

theorem onlyIf_false {c : Prop} [Decidable c] {x : Replay Unit} (h : ¬c) :
    onlyIf c x = pure () := if_neg h

/-! ### Events added -/

/-- From `s` to `s'` the events `seg` were added, and the flush id was kept. -/
structure Adds (s s' : ReplayState) (seg : List Event) : Prop where
  trace : s'.trace = s.trace ++ seg
  flushId : s'.latestFlushId = s.latestFlushId

theorem Adds.refl (s : ReplayState) : Adds s s [] := ⟨(List.append_nil _).symm, rfl⟩

theorem Adds.trans {s s' s'' : ReplayState} {seg seg' : List Event} (h : Adds s s' seg)
    (h' : Adds s' s'' seg') : Adds s s'' (seg ++ seg') :=
  ⟨by rw [h'.trace, h.trace, List.append_assoc], h'.flushId.trans h.flushId⟩

/-- How `reg_read_wait` gives up. -/
def asActiveStuck : Stop := .abort "AS_ACTIVE bit stuck"

/-- Whether it returns or throws, `x` adds events in `p` only, and it does not give up
waiting for the address space. -/
def Emits {α : Type} (x : Replay α) (p : Event → Prop) : Prop :=
  ∀ s, Post x s (fun _ s' => ∃ seg, (∀ e ∈ seg, p e) ∧ Adds s s' seg)
    (fun e s' => e ≠ asActiveStuck ∧ ∃ seg, (∀ e ∈ seg, p e) ∧ Adds s s' seg)

/-- `x` adds no events. -/
def Quiet {α : Type} (x : Replay α) : Prop := Emits x fun _ => False

section Rules

variable {α β : Type} {x : Replay α} {f : α → Replay β} {p q : Event → Prop}

theorem Emits.mono (h : Emits x p) (hpq : ∀ e, p e → q e) : Emits x q := by
  intro s
  refine (h s).mono (fun _ s' hs' => ?_) (fun _ s' hs' => ?_)
  · obtain ⟨seg, hseg, hadds⟩ := hs'
    exact ⟨seg, fun e he => hpq e (hseg e he), hadds⟩
  · obtain ⟨hne, seg, hseg, hadds⟩ := hs'
    exact ⟨hne, seg, fun e he => hpq e (hseg e he), hadds⟩

theorem Quiet.emits (h : Quiet x) : Emits x p := h.mono fun _ => False.elim

/-- What a run that returns has added. -/
theorem Emits.ok (h : Emits x p) {s s' : ReplayState} {a : α} (hrun : x s = .ok a s') :
    ∃ seg, (∀ e ∈ seg, p e) ∧ Adds s s' seg :=
  (h s).ok hrun

theorem Quiet.ok (h : Quiet x) {s s' : ReplayState} {a : α} (hrun : x s = .ok a s') :
    Adds s s' [] := by
  obtain ⟨seg, hseg, hadds⟩ := Emits.ok h hrun
  rwa [List.eq_nil_iff_forall_not_mem.mpr hseg] at hadds

theorem emits_nil {s : ReplayState} : ∃ seg, (∀ e ∈ seg, p e) ∧ Adds s s seg :=
  ⟨[], fun _ he => absurd he List.not_mem_nil, Adds.refl s⟩

theorem emits_one {s s' : ReplayState} {e : Event} (he : p e) (hadds : Adds s s' [e]) :
    ∃ seg, (∀ e ∈ seg, p e) ∧ Adds s s' seg :=
  ⟨[e], fun e' he' => by rwa [List.mem_singleton.mp he'], hadds⟩

theorem emits_pure (a : α) : Emits (pure a : Replay α) p := fun _ => emits_nil

theorem emits_throw {e : Stop} (he : e ≠ asActiveStuck) : Emits (throw e : Replay α) p :=
  fun _ => ⟨he, emits_nil⟩

theorem emits_get : Emits (get : Replay ReplayState) p := fun _ => emits_nil

theorem Emits.bind (h : Emits x p) (hf : ∀ a, Emits (f a) p) : Emits (x >>= f) p := by
  intro s
  refine Post.bind ((h s).mono (fun a s' hs' => ?_) fun _ _ hs' => hs')
  obtain ⟨seg, hseg, hadds⟩ := hs'
  have hboth : ∀ seg', (∀ e ∈ seg', p e) → ∀ e ∈ seg ++ seg', p e :=
    fun seg' hseg' e he => (List.mem_append.mp he).elim (hseg e) (hseg' e)
  refine (hf a s').mono (fun _ s'' hs'' => ?_) (fun _ s'' hs'' => ?_)
  · obtain ⟨seg', hseg', hadds'⟩ := hs''
    exact ⟨seg ++ seg', hboth seg' hseg', hadds.trans hadds'⟩
  · obtain ⟨hne, seg', hseg', hadds'⟩ := hs''
    exact ⟨hne, seg ++ seg', hboth seg' hseg', hadds.trans hadds'⟩

/-- `x` run after something that added nothing. -/
theorem Emits.after (h : Emits x p) {s s₁ : ReplayState} (hadds : Adds s s₁ []) :
    Post x s₁ (fun _ s' => ∃ seg, (∀ e ∈ seg, p e) ∧ Adds s s' seg)
      (fun e s' => e ≠ asActiveStuck ∧ ∃ seg, (∀ e ∈ seg, p e) ∧ Adds s s' seg) := by
  refine (h s₁).mono (fun _ s' hs' => ?_) (fun _ s' hs' => ?_)
  · obtain ⟨seg, hseg, hadds'⟩ := hs'
    exact ⟨seg, hseg, hadds.trans hadds'⟩
  · obtain ⟨hne, seg, hseg, hadds'⟩ := hs'
    exact ⟨hne, seg, hseg, hadds.trans hadds'⟩

theorem emits_modify {g : ReplayState → ReplayState}
    (hg : ∀ s, (g s).trace = s.trace ∧ (g s).latestFlushId = s.latestFlushId) :
    Emits (modify g : Replay Unit) p := by
  intro s
  refine ⟨[], fun _ he => absurd he List.not_mem_nil, ?_, (hg s).2⟩
  rw [List.append_nil]
  exact (hg s).1

theorem emits_onlyIf {c : Prop} [Decidable c] {y : Replay Unit} (h : c → Emits y p) :
    Emits (onlyIf c y) p := by
  unfold onlyIf
  by_cases hc : c
  · rw [if_pos hc]
    exact h hc
  · rw [if_neg hc]
    exact emits_pure ()

theorem emits_emit {e : Event} (he : p e) : Emits (emit e) p :=
  fun _ => emits_one he ⟨rfl, rfl⟩

theorem undefined_ne_stuck : Stop.undefined ≠ asActiveStuck := Stop.noConfusion

theorem post_read {env : Env} {site : Site} {offset : Nat} {s : ReplayState}
    {Q : Nat → ReplayState → Prop} {E : Stop → ReplayState → Prop}
    (hQ : Q (s.answer env) (s.afterRead env site offset)) (hE : E .undefined s) :
    Post (grRegRead env site offset) s Q E := by
  by_cases hin : offset + 4 ≤ gpuRegPaSize
  · exact Post.of_eq_ok (if_pos hin) hQ
  · exact Post.of_eq_error (if_neg hin) hE

theorem post_write {site : Site} {offset value : Nat} {s : ReplayState}
    {Q : Unit → ReplayState → Prop} {E : Stop → ReplayState → Prop}
    (hQ : Q () (s.emit (.write site offset value))) (hE : E .undefined s) :
    Post (grRegWrite site offset value) s Q E := by
  by_cases hin : offset + 4 ≤ gpuRegPaSize
  · exact Post.of_eq_ok (if_pos hin) hQ
  · exact Post.of_eq_error (if_neg hin) hE

theorem emits_read (env : Env) {site : Site} {offset : Nat}
    (hp : ∀ v, p (.read site offset v)) : Emits (grRegRead env site offset) p := by
  exact fun s => post_read (emits_one (hp (s.answer env)) ⟨rfl, rfl⟩) ⟨undefined_ne_stuck, emits_nil⟩

theorem emits_write {site : Site} {offset value : Nat} (hp : p (.write site offset value)) :
    Emits (grRegWrite site offset value) p := by
  exact fun s => post_write (emits_one hp ⟨rfl, rfl⟩) ⟨undefined_ne_stuck, emits_nil⟩

end Rules

theorem quiet_measure (env : Env) : Quiet (k2Measure env) :=
  fun _ => ⟨[], fun _ he => absurd he List.not_mem_nil, (List.append_nil _).symm, rfl⟩

theorem quiet_onMem {g : ByteMem → Except Stop ByteMem}
    (hg : ∀ mem, g mem ≠ .error asActiveStuck) : Quiet (onMem g) := by
  intro s
  have hne := hg s.mem
  unfold Post onMem
  cases hmem : g s.mem with
  | ok mem => exact ⟨[], fun _ he => absurd he List.not_mem_nil, (List.append_nil _).symm, rfl⟩
  | error e =>
      rw [hmem] at hne
      exact ⟨fun h => hne (congrArg Except.error h), emits_nil⟩

theorem quiet_stamp (env : Env) {keep : Nat → ReplayState → ReplayState}
    (hkeep : ∀ ts s, (keep ts s).trace = s.trace ∧ (keep ts s).latestFlushId = s.latestFlushId) :
    Quiet (stamp env keep) :=
  (quiet_measure env).bind fun ts => emits_modify (hkeep ts)

/-! ### What the accesses to memory do not report -/

theorem grMapPage_ne_stuck (paddr : Nat) : grMapPage paddr ≠ .error asActiveStuck := by
  unfold grMapPage asActiveStuck
  split <;> simp

theorem pageAt_ne_stuck (pages : List Nat) (i : Nat) : pageAt pages i ≠ .error asActiveStuck := by
  unfold pageAt
  cases pages[i]? with
  | some page => exact Except.ok_ne_error _ _
  | none => exact fun h => undefined_ne_stuck (Except.error.inj h)

theorem gpuMemIo_ne_stuck (isRead : Bool) (paddr sz : Nat) (s : IoState) :
    gpuMemIo isRead paddr sz s ≠ .error asActiveStuck := by
  have hthrow : ∀ {α : Type}, (throw Stop.undefined : Except Stop α) ≠ .error asActiveStuck :=
    fun h => undefined_ne_stuck (Except.error.inj h)
  have hpure : ∀ {α : Type} (a : α), (pure a : Except Stop α) ≠ .error asActiveStuck :=
    fun a => Except.ok_ne_error a _
  unfold gpuMemIo
  cases isRead with
  | true =>
      refine Except.bind_ne_error (Except.bind_ne_error (grMapPage_ne_stuck _) fun page => ?_)
        fun bs => hpure _
      split
      · exact hpure _
      · exact hthrow
  | false =>
      refine Except.bind_ne_error (Except.bind_ne_error (grMapPage_ne_stuck _) fun page => ?_)
        fun mem => hpure _
      split
      · exact hpure _
      · exact hthrow

theorem middlePages_ne_stuck (isRead : Bool) (pages : List Nat) (pageOffset : Nat) :
    ∀ (n i : Nat) (s : IoState),
      middlePages isRead pages pageOffset n i s ≠ .error asActiveStuck := by
  intro n
  induction n with
  | zero => exact fun i s => Except.ok_ne_error s _
  | succ n ih =>
      intro i s
      refine Except.bind_ne_error (pageAt_ne_stuck _ _) fun paddr => ?_
      refine Except.bind_ne_error (gpuMemIo_ne_stuck _ _ _ _) fun s => ?_
      by_cases hi : i = intMax
      · rw [if_pos hi]
        exact fun h => undefined_ne_stuck (Except.error.inj h)
      · rw [if_neg hi]
        exact ih _ _

theorem lastPage_ne_stuck (isRead : Bool) (pages : List Nat) (pageOffset pageCount : Nat)
    (s : IoState) : lastPage isRead pages pageOffset pageCount s ≠ .error asActiveStuck := by
  unfold lastPage
  by_cases hlast : 2 < pageCount ∧ s.size ≠ 0
  · rw [if_pos hlast]
    by_cases hsize : 4096 < s.size
    · rw [if_pos hsize]
      simp [asActiveStuck]
    · rw [if_neg hsize]
      exact Except.bind_ne_error (pageAt_ne_stuck _ _) fun paddr => gpuMemIo_ne_stuck _ _ _ _
  · rw [if_neg hlast]
    exact Except.ok_ne_error s _

theorem grCopyToGpu_ne_stuck (regions : List Region) (mem : ByteMem) (gaddr : Nat)
    (buf : List UInt8) (size : Nat) :
    grCopyToGpu regions mem gaddr buf size ≠ .error asActiveStuck := by
  unfold grCopyToGpu grGpuMemIo
  cases (grFindRegionEnclosingAddress regions gaddr).bind (regions[·]?) with
  | none => exact fun h => undefined_ne_stuck (Except.error.inj h)
  | some gmRegion =>
      by_cases hend : gmRegion.gmEnd < (gaddr + size) % 2 ^ 64
      · simp only [if_pos hend]
        simp [asActiveStuck]
      · simp only [if_neg hend]
        refine Except.bind_ne_error (pageAt_ne_stuck _ _) fun page => ?_
        refine Except.bind_ne_error (gpuMemIo_ne_stuck _ _ _ _) fun s => ?_
        refine Except.bind_ne_error (middlePages_ne_stuck _ _ _ _ _ _) fun s => ?_
        exact Except.bind_ne_error (lastPage_ne_stuck _ _ _ _ _) fun s => Except.ok_ne_error _ _

/-- The events of a run from `s` to `s'`. -/
def ReplayState.ran (s s' : ReplayState) : List Event := s'.trace.drop s.trace.length

theorem ReplayState.ran_eq {s s' : ReplayState} {events : List Event}
    (h : s'.trace = s.trace ++ events) : s.ran s' = events := by
  unfold ReplayState.ran
  rw [h]
  exact List.drop_left

/-! ### The parts of an entry -/

theorem quiet_jsTune (rctx : ReplayContext) (type val : Nat) : Quiet (grJsTune rctx type val) := by
  unfold grJsTune
  by_cases htype : type = jsHeadNextLo
  · rw [if_pos htype]
    exact emits_modify fun s => ⟨rfl, rfl⟩
  · rw [if_neg htype]
    refine emits_get.bind fun s => quiet_onMem fun mem => ?_
    exact Except.bind_ne_error (f := fun a => pure a.1) (grCopyToGpu_ne_stuck _ _ _ _ _)
      fun _ => Except.ok_ne_error _ _

theorem quiet_checkpointPage {page : Except Stop Nat} (hpage : page ≠ .error asActiveStuck) :
    Quiet (checkpointPage page) := by
  intro s
  have hne := Except.bind_ne_error hpage grMapPage_ne_stuck
  unfold Post checkpointPage
  cases hmap : page >>= grMapPage with
  | ok page => exact ⟨[], fun _ he => absurd he List.not_mem_nil, (List.append_nil _).symm, rfl⟩
  | error e =>
      rw [hmap] at hne
      exact ⟨fun h => hne (congrArg Except.error h), emits_nil⟩

theorem quiet_checkpointPages (tot : Nat) {pages : List (Except Stop Nat)}
    (hpages : ∀ page ∈ pages, page ≠ .error asActiveStuck) :
    Quiet (checkpointPages tot pages) := by
  induction pages with
  | nil => exact emits_pure ()
  | cons page pages ih =>
      refine emits_get.bind fun s => (emits_onlyIf fun _ => emits_throw ?_).bind fun _ => ?_
      · simp [asActiveStuck]
      · exact (quiet_checkpointPage (hpages page List.mem_cons_self)).bind fun _ =>
          ih fun page' h => hpages page' (List.mem_cons_of_mem page h)

theorem quiet_writeCheckpoint (cfg : ReplayConfig) (rctx : ReplayContext) :
    Quiet (grWriteCheckpoint cfg rctx) := by
  have habort : ∀ msg, msg ≠ "AS_ACTIVE bit stuck" → Quiet (throw (Stop.abort msg) : Replay Unit) :=
    fun msg hmsg => emits_throw fun h => hmsg (Stop.abort.inj h)
  have hpages : ∀ page ∈ rctx.regions.flatMap fun r => (List.range r.nrPages).map (pageAt r.pages),
      page ≠ Except.error asActiveStuck := by
    intro page hpage
    obtain ⟨r, -, hpage⟩ := List.mem_flatMap.mp hpage
    obtain ⟨i, -, rfl⟩ := List.mem_map.mp hpage
    exact pageAt_ne_stuck r.pages i
  intro s
  -- the state set is that before with one count changed
  refine Post.bind (Post.get (Post.bind (Post.set ?_)))
  have hrest : Quiet (onlyIf (s.checkpoints < 2) do
      onlyIf (cfg.testCheckpoint = false) (throw (.abort "no checkpoint is configured"))
      onlyIf s.provision.isNone (throw (.abort "no mem allocated for provisioning"))
      modify fun s => { s with nrWrittenPages := 0 }
      checkpointPages rctx.totNrPages
        (rctx.regions.flatMap fun r => (List.range r.nrPages).map (pageAt r.pages))) := by
    refine emits_onlyIf fun _ => ?_
    refine (emits_onlyIf fun _ => habort _ (by decide)).bind fun _ => ?_
    refine (emits_onlyIf fun _ => habort _ (by decide)).bind fun _ => ?_
    refine Emits.bind ?_ fun _ => quiet_checkpointPages rctx.totNrPages hpages
    exact emits_modify fun s => ⟨rfl, rfl⟩
  exact hrest.after ⟨(List.append_nil _).symm, rfl⟩

/-- What a checkpoint does: it reads none of the registers an entry's value depends on. -/
def Event.Checkpointing : Event → Prop
  | .read site offset _ => (site = .cacheInvalidate ∧ (offset = gpuIrqMask ∨ offset = gpuIrqRawstat)) ∨
      (site = .asFlush ∧ offset = asStatus)
  | .write site _ _ => site = .cacheInvalidate ∨ site = .asFlush
  | _ => False

/-- What the check after an entry does. -/
def Event.Validating : Event → Prop
  | .read site _ _ => site = .validate
  | .write .. => False
  | .waitJobIrq => False
  | _ => True

theorem emits_cacheLoop (env : Env) :
    ∀ n val, Emits (cacheLoop env n val) Event.Checkpointing := by
  intro n
  induction n with
  | zero => exact fun val => emits_throw undefined_ne_stuck
  | succ n ih =>
      intro val
      unfold cacheLoop
      split
      · exact (emits_read env fun v => Or.inl ⟨rfl, Or.inr rfl⟩).bind fun val => ih val
      · exact emits_pure val

theorem emits_cacheInvalidate (env : Env) : Emits (grCacheInvalidate env) Event.Checkpointing := by
  have hmask : Emits (grRegRead env .cacheInvalidate gpuIrqMask) Event.Checkpointing :=
    emits_read env fun v => Or.inl ⟨rfl, Or.inl rfl⟩
  have hwrite : ∀ offset value,
      Emits (grRegWrite .cacheInvalidate offset value) Event.Checkpointing :=
    fun offset value => emits_write (Or.inl rfl)
  refine hmask.bind fun irqMask => (hwrite _ _).bind fun _ => (hwrite _ _).bind fun _ => ?_
  refine (emits_read env fun v => Or.inl ⟨rfl, Or.inr rfl⟩).bind fun val => ?_
  refine (emits_cacheLoop env _ val).bind fun val => hmask.bind fun irqMask => ?_
  exact (hwrite _ _).bind fun _ => hwrite _ _

theorem emits_flushLoop (env : Env) : ∀ n val, Emits (flushLoop env n val) Event.Checkpointing := by
  intro n
  induction n with
  | zero => exact fun val => emits_throw undefined_ne_stuck
  | succ n ih =>
      intro val
      unfold flushLoop
      split
      · exact (emits_read env fun v => Or.inr ⟨rfl, rfl⟩).bind fun val => ih val
      · exact emits_pure ()

theorem emits_asFlush (env : Env) (lockAddr : Nat) :
    Emits (grAsFlush env lockAddr) Event.Checkpointing := by
  have hwrite : ∀ offset value, Emits (grRegWrite .asFlush offset value) Event.Checkpointing :=
    fun offset value => emits_write (Or.inr rfl)
  refine (hwrite _ _).bind fun _ => (hwrite _ _).bind fun _ => ?_
  refine (hwrite _ _).bind fun _ => (hwrite _ _).bind fun _ => ?_
  exact (emits_read env fun v => Or.inr ⟨rfl, rfl⟩).bind fun val => emits_flushLoop env _ val

theorem emits_checkpointJob (cfg : ReplayConfig) (rctx : ReplayContext) (env : Env) :
    Emits (checkpointJob cfg rctx env) Event.Checkpointing := by
  refine (quiet_measure env).emits.bind fun _ => (emits_cacheInvalidate env).bind fun _ => ?_
  refine (emits_asFlush env rctx.newTranstab).bind fun _ => ?_
  exact (quiet_measure env).emits.bind fun _ => (quiet_writeCheckpoint cfg rctx).emits

/-- **Before the write of an entry only a checkpoint touches registers.** -/
theorem emits_prepareWrite (cfg : ReplayConfig) (rctx : ReplayContext) (env : Env) (curIo : RegIo) :
    Emits (prepareWrite cfg rctx env curIo) Event.Checkpointing := by
  unfold prepareWrite
  split
  · exact (quiet_jsTune rctx _ _).emits.bind fun _ => emits_pure _
  split
  · exact (emits_onlyIf fun _ => emits_checkpointJob cfg rctx env).bind fun _ => emits_pure _
  split
  · exact emits_get.bind fun s => emits_pure _
  split
  · exact emits_pure _
  split
  · exact emits_pure _
  split
  · exact emits_pure _
  · exact emits_pure _

theorem quiet_jobAccounts (cfg : ReplayConfig) (env : Env) (cnt : Nat) :
    Quiet (jobAccounts cfg env cnt) := by
  unfold jobAccounts
  split
  · exact quiet_stamp env fun ts s => ⟨rfl, rfl⟩
  split
  · exact Emits.bind (quiet_stamp env fun ts s => ⟨rfl, rfl⟩) fun _ =>
      quiet_stamp env fun ts s => ⟨rfl, rfl⟩
  · exact Emits.bind (emits_onlyIf fun _ => quiet_stamp env fun ts s => ⟨rfl, rfl⟩) fun _ =>
      emits_modify fun s => ⟨rfl, rfl⟩

theorem emits_waitJobIrq (env : Env) : Emits (grWaitJobIrq env) (· = .waitJobIrq) := by
  intro s
  by_cases hpoll : env.poll s.waits = true
  · exact Post.of_eq_ok (if_pos hpoll) (emits_one rfl ⟨rfl, rfl⟩)
  · refine Post.of_eq_error (if_neg hpoll) ⟨?_, emits_one rfl ⟨rfl, rfl⟩⟩
    simp [asActiveStuck]

theorem emits_jobSubmitted (cfg : ReplayConfig) (env : Env) :
    Emits (jobSubmitted cfg env) (· = .waitJobIrq) := by
  refine (quiet_measure env).emits.bind fun tsJobStart => emits_get.bind fun s => ?_
  refine Emits.bind (emits_onlyIf fun _ => Quiet.emits ?_) fun _ => ?_
  · exact quiet_stamp env fun ts s => ⟨rfl, rfl⟩
  refine Emits.bind (emits_onlyIf fun _ => Quiet.emits ?_) fun _ => ?_
  · exact quiet_stamp env fun ts s => ⟨rfl, rfl⟩
  refine (emits_waitJobIrq env).bind fun _ => (quiet_measure env).emits.bind fun tsJobEnd => ?_
  refine Emits.bind (emits_onlyIf fun _ => ?_) fun _ => (quiet_jobAccounts cfg env _).emits
  exact emits_modify fun s => ⟨rfl, rfl⟩

theorem emits_compareRegs (env : Env) :
    ∀ offsets ret, Emits (compareRegs env offsets ret) Event.Validating := by
  intro offsets
  induction offsets with
  | nil => exact fun ret => emits_pure ret
  | cons offset offsets ih =>
      intro ret
      refine (emits_read env fun v => rfl).bind fun value => ?_
      split
      · exact ih ret
      · refine emits_get.bind fun s => ?_
        dsimp only
        split
        · exact (emits_emit trivial).bind fun _ => ih 0
        · exact ih ret

theorem emits_validateEntry (env : Env) (curIo : RegIo) (i : Nat) :
    Emits (validateEntry env curIo i) Event.Validating := by
  refine Emits.bind (Emits.bind (emits_modify fun s => ?_) fun _ => ?_) fun same =>
    emits_onlyIf fun _ => emits_emit trivial
  · dsimp only
    cases s.regFp.read gpuRegPaSize s.regmap
    exact ⟨rfl, rfl⟩
  split
  · exact emits_pure 1
  split
  · exact emits_pure 1
  · generalize (List.range (gpuRegPaSize / 4)).map (4 * ·) = offsets
    refine (emits_compareRegs env offsets 1).bind fun ret => ?_
    exact Emits.bind (emits_onlyIf fun _ => emits_emit trivial) fun _ => emits_pure 1

/-- Where the registers are not compared, the check does nothing that can be seen. -/
def RegIo.NotCompared (io : RegIo) : Prop :=
  (io.offset = jobIrqStatus ∨ io.offset = jsCommandNext) ∨
    (io.offset = asCommand ∧ (io.value = asCommandLock ∨ io.value = asCommandFlushPt ∨
      io.value = asCommandFlushMem))

instance (io : RegIo) : Decidable io.NotCompared := inferInstanceAs (Decidable (_ ∨ _))

theorem quiet_validateEntry (env : Env) {curIo : RegIo} (i : Nat) (h : curIo.NotCompared) :
    Quiet (validateEntry env curIo i) := by
  obtain ⟨g, hg, hsame⟩ : ∃ g : ReplayState → ReplayState,
      (∀ s, (g s).trace = s.trace ∧ (g s).latestFlushId = s.latestFlushId) ∧
      grIsSameRegmap env curIo i = (do modify g; return 1) := by
    unfold grIsSameRegmap
    rcases h with h | h
    · rw [if_pos h]
      refine ⟨_, fun s => ?_, rfl⟩
      dsimp only
      cases s.regFp.read gpuRegPaSize s.regmap
      exact ⟨rfl, rfl⟩
    · rw [if_pos h, ite_self]
      refine ⟨_, fun s => ?_, rfl⟩
      dsimp only
      cases s.regFp.read gpuRegPaSize s.regmap
      exact ⟨rfl, rfl⟩
  unfold validateEntry
  rw [hsame, bind_assoc]
  refine (emits_modify hg).bind fun _ => ?_
  rw [pure_bind]
  exact emits_onlyIf fun h => absurd h (Nat.one_ne_zero)

/-! ### Waiting for the address space -/

/-- Reads of one register from one place. -/
def polls (site : Site) (offset : Nat) (values : List Nat) : List Event :=
  values.map (.read site offset)

theorem Adds.read {env : Env} {site : Site} {offset : Nat} {s : ReplayState} :
    Adds s (s.afterRead env site offset) [.read site offset (s.answer env)] := ⟨rfl, rfl⟩

/-- The answer to the `n`-th read. -/
def Env.answer (env : Env) (n : Nat) : Nat := env.hw n % 2 ^ 32

/-- From `s` to `s'` a register was waited for: it answered `values`. -/
structure Waited (env : Env) (offset : Nat) (s s' : ReplayState) (values : List Nat) : Prop extends
    Adds s s' (polls .wait offset values) where
  reads : s'.reads = s.reads + values.length
  answers : ∀ i (h : i < values.length), values[i] = env.answer (s.reads + i)

theorem Waited.refl (env : Env) (offset : Nat) (s : ReplayState) : Waited env offset s s [] :=
  { Adds.refl s with
    reads := rfl
    answers := fun _ h => absurd h (Nat.not_lt_zero _) }

theorem Waited.read {env : Env} {offset : Nat} {s s' : ReplayState} {values : List Nat}
    (h : Waited env offset (s.afterRead env .wait offset) s' values) :
    Waited env offset s s' (s.answer env :: values) where
  toAdds := Adds.read.trans h.toAdds
  reads := by
    rw [h.reads, List.length_cons, Nat.add_comm values.length, ← Nat.add_assoc]
    rfl
  answers i hi := by
    cases i with
    | zero => rfl
    | succ i =>
        rw [List.getElem_cons_succ, h.answers i (Nat.lt_of_succ_lt_succ hi), Nat.add_comm i,
          ← Nat.add_assoc]
        rfl

/-- The loop with `newValue` read before: it ends on `value`, or after `n` further reads,
of which the last is not looked at. -/
theorem post_waitLoop (env : Env) (offset value : Nat) :
    ∀ n newValue s, Post (waitLoop env offset value (n + 1) newValue) s
      (fun m s' => ∃ values, Waited env offset s s' values ∧
        (m ≠ 0 → values.length < n ∧ (newValue :: values).getLast? = some value) ∧
        (m = 0 → values.length = n ∧ ∀ v ∈ (newValue :: values).dropLast, v ≠ value))
      (fun e s' => e ≠ asActiveStuck ∧ ∃ values, Waited env offset s s' values) := by
  intro n
  induction n with
  | zero =>
      intro newValue s
      have hend : waitLoop env offset value (0 + 1) newValue s = .ok 0 s := by
        unfold waitLoop
        rw [if_neg fun h => h.1 rfl]
        rfl
      refine Post.of_eq_ok hend ⟨[], .refl env offset s, fun h => absurd rfl h, fun _ => ?_⟩
      exact ⟨rfl, fun v hv => absurd hv List.not_mem_nil⟩
  | succ n ih =>
      intro newValue s
      unfold waitLoop
      by_cases hmore : newValue = value
      · rw [if_neg fun h => h.2 hmore]
        refine Post.pure ⟨[], .refl env offset s, fun _ => ⟨n.succ_pos, ?_⟩,
          fun h => absurd h n.succ_ne_zero⟩
        rw [hmore]
        rfl
      · rw [if_pos ⟨n.succ_ne_zero, hmore⟩]
        refine Post.bind (post_read ?_ ⟨undefined_ne_stuck, [], .refl env offset s⟩)
        refine (ih (s.answer env) (s.afterRead env .wait offset)).mono (fun m s' hs' => ?_)
          (fun e s' hs' => ?_)
        · obtain ⟨values, hwaited, hlast, hstuck⟩ := hs'
          refine ⟨s.answer env :: values, hwaited.read, fun hm => ?_, fun hm => ?_⟩
          · rw [List.getLast?_cons_cons]
            exact ⟨Nat.succ_lt_succ (hlast hm).1, (hlast hm).2⟩
          · refine ⟨congrArg (· + 1) (hstuck hm).1, fun v hv => ?_⟩
            rw [List.dropLast_cons_cons] at hv
            rcases List.mem_cons.mp hv with rfl | hv
            · exact hmore
            · exact (hstuck hm).2 v hv
        · obtain ⟨hne, values, hwaited⟩ := hs'
          exact ⟨hne, s.answer env :: values, hwaited.read⟩

/-- **`reg_read_wait` returns once it has read `value`.**  It gives up after
`KBASE_AS_INACTIVE_MAX_LOOPS` reads, all but the last of which were of something else. -/
theorem post_regReadWait (env : Env) (offset value : Nat) (s : ReplayState) :
    Post (regReadWait env offset value) s
      (fun _ s' => ∃ values, Waited env offset s s' values ∧
        values.length < kbaseAsInactiveMaxLoops ∧ values.getLast? = some value)
      (fun e s' => ∃ values, Waited env offset s s' values ∧
        (e = asActiveStuck → values.length = kbaseAsInactiveMaxLoops ∧
          ∀ v ∈ values.dropLast, v ≠ value)) := by
  unfold regReadWait
  refine Post.bind (post_read ?_ ⟨[], .refl env offset s, fun h => absurd h undefined_ne_stuck⟩)
  refine Post.bind ((post_waitLoop env offset value (kbaseAsInactiveMaxLoops - 1) _ _).mono
    (fun m s' hs' => ?_) (fun e s' hs' => ?_))
  · obtain ⟨values, hwaited, hlast, hstuck⟩ := hs'
    unfold onlyIf
    by_cases hm : m = 0
    · rw [if_pos hm]
      refine Post.throw ⟨s.answer env :: values, hwaited.read, fun _ => ?_⟩
      exact ⟨congrArg (· + 1) (hstuck hm).1, (hstuck hm).2⟩
    · rw [if_neg hm]
      exact Post.pure ⟨s.answer env :: values, hwaited.read, Nat.succ_lt_succ (hlast hm).1,
        (hlast hm).2⟩
  · obtain ⟨hne, values, hwaited⟩ := hs'
    exact ⟨s.answer env :: values, hwaited.read, fun h => absurd h hne⟩

/-- A run is its loop: before and after it nothing is done that can be seen. -/
theorem post_replayRun (cfg : ReplayConfig) (rctx : ReplayContext) (env : Env) {log : List RegIo}
    {s : ReplayState} {Q : Unit → ReplayState → Prop} {E : Stop → ReplayState → Prop}
    (hloop : ∀ s₁, Adds s s₁ [] → Post (replayEntries cfg rctx env 0 log) s₁ Q E)
    (hQ : ∀ s' s'', Adds s' s'' [] → Q () s' → Q () s'') :
    Post (grReplayRun cfg rctx env log) s Q E := by
  have hnil : ∀ s : ReplayState, s.trace = s.trace ++ [] := fun s => (List.append_nil _).symm
  refine Post.bind (Post.of_eq_ok rfl (Post.bind (Post.of_eq_ok rfl ?_)))
  refine Post.bind (Post.mono (hloop _ ?_) (fun _ s' hs' => ?_) fun _ _ h => h)
  · exact ⟨hnil s, rfl⟩
  · refine Post.of_eq_ok rfl (hQ s' _ ?_ hs')
    exact ⟨hnil s', rfl⟩

/-! ### A replay with no memory

Logs that touch only registers can be replayed in an empty context.
-/

def blankState : ReplayState :=
  { mem := fun _ => 0, reads := 0, clocks := 0, waits := 0, latestFlushId := 0, jcLo := 0
    checkpoints := 0, provision := none, nrWrittenPages := 0, jobSubmitCnt := 0, compTime := 0
    tsPrepStart := 0, tsPrepEnd := 0, tsCompStart := 0, tsCompEnd := 0, totPrepTime := 0
    totCompTime := 0, regFp := Stdio.Stream.open [], regmap := [], trace := [] }

def blankContext : ReplayContext :=
  { machine := ⟨fun _ => 0, [], []⟩, userPgt := .null, oldTranstab := 0, newTranstab := 0
    regions := [], totNrPages := 0, sas := [], provision := none, regFp := none }

def plainConfig : ReplayConfig :=
  { testCheckpoint := false, isValidate := false, nrPrepJobs := 1, nrTotJobs := 2 }

/-- Hardware that answers `hw n` to the `n`-th read. -/
def answering (hw : Nat → Nat) : Env := ⟨hw, fun _ => 0, fun _ => true⟩

/-- Whether a step returns into a state with `p`, which a concrete one shows by being run. -/
def returns (x : Replay Unit) (s : ReplayState) (p : ReplayState → Bool) : Bool :=
  match x s with
  | .ok _ s' => p s'
  | .error _ _ => false

theorem exists_of_returns {x : Replay Unit} {s : ReplayState} {p : ReplayState → Bool}
    (h : returns x s p = true) : ∃ s', x s = .ok () s' ∧ p s' = true := by
  unfold returns at h
  cases hx : x s with
  | ok u s' =>
      rw [hx] at h
      exact ⟨s', rfl, h⟩
  | error e s' =>
      rw [hx] at h
      exact absurd h Bool.false_ne_true

end GpuReplay.Replayer
