/-
Where the flush ids written to the GPU come from.

Each job is submitted with the id of the latest cache flush, read from `LATEST_FLUSH`.
The replay holds the id in a global, and the case of `AS_STATUS` falls through to the
assignment: whatever a poll of the address space answers is held as a flush id until
`LATEST_FLUSH` is read again.  Nor is the global reset when a run starts.

`flushKnown` follows the log and says when the id held is the one last read, and
`grReplayRun_flush_id` that a run writes the right ids if each write of the log stands
where it is.
-/
import GpuReplay.Proofs.Replay

namespace GpuReplay.Replayer

/-! ### What the log promises -/

/-- The id read last, after one more event. -/
def flushAfter (last : Nat) : Event → Nat
  | .read _ offset value => if offset = latestFlush then value else last
  | _ => last

/-- The value of the most recent read of `LATEST_FLUSH`, or `0` where there is none. -/
def readFlushId (events : List Event) : Nat := events.foldl flushAfter 0

/-- Every id written to `JS_FLUSH_ID_NEXT` is the one read last. -/
def FlushIdsRight (events : List Event) : Prop :=
  EachAfter (fun before e => ∀ value, e = .write .entry jsFlushIdNext value →
    value = readFlushId before) events

/-- Whether the id held is the one read last, after one more entry: yes after a read of
`LATEST_FLUSH`, no after one of `AS_STATUS`, nor after a check, which reads every register. -/
def knownAfter (isValidate : Bool) (known : Prop) (io : RegIo) : Prop :=
  (if io.isRead = 'R' ∧ io.offset = latestFlush then True
    else if io.isRead = 'R' ∧ io.offset = asStatus then False else known) ∧
  (isValidate = true → io.NotCompared)

/-- Whether the id held is the one read last, after a log, in a run that starts holding `held`. -/
def flushKnown (isValidate : Bool) (held : Nat) (log : List RegIo) : Prop :=
  log.foldl (knownAfter isValidate) (held = 0)

/-- Each entry that writes a flush id stands where the id held is the one read last. -/
def FlushIdsKnown (isValidate : Bool) (held : Nat) (log : List RegIo) : Prop :=
  EachAfter (fun before io => io.isRead ≠ 'R' → io.offset = jsFlushIdNext →
    flushKnown isValidate held before) log

/-! ### One step -/

/-- In a run from `s₀` the ids written so far are right, and where `known` the id held is
the one read last. -/
def FlushInv (s₀ : ReplayState) (known : Prop) (s : ReplayState) : Prop :=
  ∃ events, s.trace = s₀.trace ++ events ∧ FlushIdsRight events ∧
    (known → s.latestFlushId = readFlushId events)

variable {s₀ s s' : ReplayState} {known known' : Prop}

theorem FlushInv.weaken (h : FlushInv s₀ known s) (hk : known' → known) :
    FlushInv s₀ known' s := by
  obtain ⟨events, htrace, hright, hheld⟩ := h
  exact ⟨events, htrace, hright, fun h => hheld (hk h)⟩

/-- Events that neither write an id nor read one. -/
def Event.NoFlush (e : Event) : Prop :=
  (∀ value, e ≠ .write .entry jsFlushIdNext value) ∧ ∀ last, flushAfter last e = last

/-- Events that write no id. -/
def Event.NoFlushWrite (e : Event) : Prop := ∀ value, e ≠ .write .entry jsFlushIdNext value

theorem FlushIdsRight.append {events seg : List Event} (h : FlushIdsRight events)
    (hseg : ∀ e ∈ seg, e.NoFlushWrite) : FlushIdsRight (events ++ seg) :=
  EachAfter.append h seg fun e he _ value heq => absurd heq (hseg e he value)

theorem readFlushId_append {events seg : List Event} (hseg : ∀ e ∈ seg, e.NoFlush) :
    readFlushId (events ++ seg) = readFlushId events := by
  unfold readFlushId
  rw [List.foldl_append]
  generalize events.foldl flushAfter 0 = last
  induction seg with
  | nil => rfl
  | cons e seg ih =>
      rw [List.foldl_cons, (hseg e List.mem_cons_self).2 last]
      exact ih fun e' he' => hseg e' (List.mem_cons_of_mem e he')

/-- What adds such events and keeps the id keeps the invariant. -/
theorem FlushInv.adds {l : List Event} (h : FlushInv s₀ known s) (hadds : Adds s s' l)
    (hseg : ∀ e ∈ l, e.NoFlush) : FlushInv s₀ known s' := by
  obtain ⟨events, htrace, hright, hheld⟩ := h
  refine ⟨events ++ l, ?_, hright.append fun e he => (hseg e he).1, fun hk => ?_⟩
  · rw [hadds.trace, htrace, List.append_assoc]
  · rw [hadds.flushId, readFlushId_append hseg]
    exact hheld hk

/-- **What touches no flush id keeps the invariant.** -/
theorem FlushInv.emits {α : Type} {x : Replay α} (hx : Emits x Event.NoFlush)
    (h : FlushInv s₀ known s) :
    Post x s (fun _ s' => FlushInv s₀ known s') (fun _ s' => FlushInv s₀ False s') := by
  refine (hx s).mono (fun _ s' hs' => ?_) (fun _ s' hs' => ?_)
  · obtain ⟨seg, hseg, hadds⟩ := hs'
    exact h.adds hadds hseg
  · obtain ⟨-, seg, hseg, hadds⟩ := hs'
    exact (h.adds hadds hseg).weaken False.elim

/-- What writes no flush id keeps those written right. -/
theorem FlushInv.emitsReads {α : Type} {x : Replay α} (hx : Emits x Event.NoFlushWrite)
    (h : FlushInv s₀ known s) :
    Post x s (fun _ s' => FlushInv s₀ False s') (fun _ s' => FlushInv s₀ False s') := by
  obtain ⟨events, htrace, hright, -⟩ := h
  have hafter : ∀ {s' seg}, (∀ e ∈ seg, Event.NoFlushWrite e) → Adds s s' seg →
      FlushInv s₀ False s' := fun {s' seg} hseg hadds =>
    ⟨events ++ seg, by rw [hadds.trace, htrace, List.append_assoc], hright.append hseg, False.elim⟩
  refine (hx s).mono (fun _ s' hs' => ?_) (fun _ s' hs' => ?_)
  · obtain ⟨seg, hseg, hadds⟩ := hs'
    exact hafter hseg hadds
  · obtain ⟨-, seg, hseg, hadds⟩ := hs'
    exact hafter hseg hadds

theorem noFlush_read {site : Site} {offset value : Nat} (h : offset ≠ latestFlush) :
    Event.NoFlush (.read site offset value) :=
  ⟨fun _ heq => Event.noConfusion heq, fun _ => if_neg h⟩

theorem noFlush_checkpointing {e : Event} (h : e.Checkpointing) : e.NoFlush := by
  cases e with
  | read site offset value =>
      refine noFlush_read ?_
      rcases h with ⟨-, rfl | rfl⟩ | ⟨-, rfl⟩
      · decide
      · decide
      · decide
  | write site offset value =>
      refine ⟨fun v heq => ?_, fun last => rfl⟩
      injection heq with hsite
      rw [hsite] at h
      exact h.elim (fun h => Site.noConfusion h) fun h => Site.noConfusion h
  | waitJobIrq => exact h.elim
  | notMatched => exact h.elim
  | givenCmd => exact h.elim
  | validationFailed => exact h.elim

theorem noFlush_wait {e : Event} (h : e = .waitJobIrq) : e.NoFlush := by
  rw [h]
  exact ⟨fun v heq => Event.noConfusion heq, fun last => rfl⟩

theorem noFlushWrite_validating {e : Event} (h : e.Validating) : e.NoFlushWrite := by
  intro value heq
  rw [heq] at h
  exact h

theorem noFlush_polls {offset : Nat} (h : offset ≠ latestFlush) {values : List Nat} {e : Event}
    (he : e ∈ polls .wait offset values) : e.NoFlush := by
  obtain ⟨v, -, rfl⟩ := List.mem_map.mp he
  exact noFlush_read h

/-- Holding another id. -/
theorem FlushInv.hold (h : FlushInv s₀ known s) (value : Nat) :
    FlushInv s₀ False { s with latestFlushId := value } := by
  obtain ⟨events, htrace, hright, -⟩ := h
  exact ⟨events, htrace, hright, False.elim⟩

/-- One read of an entry. -/
theorem FlushInv.afterRead (env : Env) (h : FlushInv s₀ known s) {offset : Nat}
    (hoffset : offset ≠ latestFlush) : FlushInv s₀ known (s.afterRead env .entry offset) :=
  h.adds Adds.read fun e he => by
    rw [List.mem_singleton.mp he]
    exact noFlush_read hoffset

/-- A read of the address space's status: it is held in place of the flush id. -/
theorem FlushInv.readStatus (env : Env) {curIo : RegIo} (hstatus : curIo.offset = asStatus)
    (h : FlushInv s₀ known s) :
    Post (replayRead env curIo) s (fun _ s' => FlushInv s₀ False s')
      (fun _ s' => FlushInv s₀ False s') := by
  have hfalse : FlushInv s₀ False s := h.weaken False.elim
  have hne : curIo.offset ≠ latestFlush := by
    rw [hstatus]
    decide
  unfold replayRead
  refine Post.bind (post_read ?_ hfalse)
  have hread := hfalse.afterRead env hne
  refine Post.bind (Post.mono (Q := fun _ s' => FlushInv s₀ False s')
    (E := fun _ s' => FlushInv s₀ False s') ?_ (fun _ s' hs' => ?_) fun _ _ hs' => hs')
  · by_cases hactive : curIo.offset = asStatus ∧ curIo.value = asStatusAsActive
    · rw [onlyIf_true hactive]
      refine (post_regReadWait env curIo.offset asStatusAsInactive _).mono (fun _ s' hs' => ?_)
        (fun e s' hs' => ?_)
      · obtain ⟨values, hwaited, -⟩ := hs'
        exact hread.adds hwaited.toAdds fun e he => noFlush_polls hne he
      · obtain ⟨values, hwaited, -⟩ := hs'
        exact hread.adds hwaited.toAdds fun e he => noFlush_polls hne he
    · rw [onlyIf_false hactive]
      exact Post.pure hread
  · rw [onlyIf_true (Or.inl hstatus)]
    exact hs'.hold _

/-- A read of `LATEST_FLUSH`. -/
theorem FlushInv.readFlush (env : Env) {curIo : RegIo} (hflush : curIo.offset = latestFlush)
    (h : FlushInv s₀ known s) :
    Post (replayRead env curIo) s (fun _ s' => FlushInv s₀ True s')
      (fun _ s' => FlushInv s₀ False s') := by
  have hne : ¬(curIo.offset = asStatus ∧ curIo.value = asStatusAsActive) :=
    fun h => absurd (hflush.symm.trans h.1) (by decide)
  unfold replayRead
  refine Post.bind (post_read ?_ (h.weaken False.elim))
  rw [onlyIf_false hne, onlyIf_true (Or.inr hflush)]
  refine Post.bind (Post.pure ?_)
  obtain ⟨events, htrace, hright, -⟩ := h
  refine ⟨events ++ [.read .entry curIo.offset (s.answer env)], ?_, ?_, fun _ => ?_⟩
  · rw [← List.append_assoc, ← htrace]
    rfl
  · refine hright.append fun e he value heq => ?_
    rw [List.mem_singleton.mp he] at heq
    exact Event.noConfusion heq
  · unfold readFlushId
    rw [List.foldl_append]
    exact (if_pos hflush).symm

/-- A read of anything else. -/
theorem FlushInv.readOther (env : Env) {curIo : RegIo}
    (hother : ¬(curIo.offset = asStatus ∨ curIo.offset = latestFlush)) (h : FlushInv s₀ known s) :
    Post (replayRead env curIo) s (fun _ s' => FlushInv s₀ known s')
      (fun _ s' => FlushInv s₀ False s') := by
  unfold replayRead
  refine Post.bind (post_read ?_ (h.weaken False.elim))
  rw [onlyIf_false fun h => hother (Or.inl h.1), onlyIf_false hother]
  refine Post.bind (Post.pure ?_)
  exact h.afterRead env fun h => hother (Or.inr h)

theorem prepareWrite_flushId (cfg : ReplayConfig) (rctx : ReplayContext) (env : Env)
    {curIo : RegIo} (hflush : curIo.offset = jsFlushIdNext) :
    prepareWrite cfg rctx env curIo = (do return (← get).latestFlushId) := by
  unfold prepareWrite
  rw [hflush]
  rfl

/-- **A write entry.** -/
theorem FlushInv.write (cfg : ReplayConfig) (rctx : ReplayContext) (env : Env) {curIo : RegIo}
    (h : FlushInv s₀ known s) (hknown : curIo.offset = jsFlushIdNext → known) :
    Post (replayWrite cfg rctx env curIo) s (fun _ s' => FlushInv s₀ known s')
      (fun _ s' => FlushInv s₀ False s') := by
  -- after the write nothing touches a flush id
  have hafter : ∀ value s', FlushInv s₀ known (s'.emit (.write .entry curIo.offset value)) →
      FlushInv s₀ known s' →
      Post (do
        grRegWrite .entry curIo.offset value
        onlyIf (curIo.offset = jsCommandNext) (jobSubmitted cfg env)
        onlyIf (curIo.offset = gpuCommand ∧ value = gpuCommandSoftReset)
          (grRegWrite .softReset gpuIrqMask 0x100)) s'
        (fun _ s' => FlushInv s₀ known s') (fun _ s' => FlushInv s₀ False s') := by
    intro value s' hwritten hs'
    refine Post.bind (post_write ?_ (hs'.weaken False.elim))
    have hreset : Emits (grRegWrite .softReset gpuIrqMask 0x100) Event.NoFlush :=
      emits_write ⟨fun v heq => by injection heq with hsite; exact Site.noConfusion hsite,
        fun last => rfl⟩
    exact hwritten.emits (Emits.bind
      (emits_onlyIf fun _ => (emits_jobSubmitted cfg env).mono fun e he => noFlush_wait he)
      fun _ => emits_onlyIf fun _ => hreset)
  unfold replayWrite
  by_cases hflush : curIo.offset = jsFlushIdNext
  · rw [prepareWrite_flushId cfg rctx env hflush]
    refine Post.bind (Post.bind (Post.get (Post.pure (hafter _ s ?_ h))))
    obtain ⟨events, htrace, hright, hheld⟩ := h
    refine ⟨events ++ [.write .entry curIo.offset s.latestFlushId], ?_, hright.snoc ?_, ?_⟩
    · rw [← List.append_assoc, ← htrace]
      rfl
    · intro value heq
      injection heq with _ _ hvalue
      rw [← hvalue]
      exact hheld (hknown hflush)
    · intro hk
      unfold readFlushId
      rw [List.foldl_append]
      exact hheld hk
  · refine Post.bind ((h.emits ((emits_prepareWrite cfg rctx env curIo).mono
      fun e he => noFlush_checkpointing he)).mono (fun value s' hs' => ?_) fun _ _ hs' => hs')
    refine hafter value s' (hs'.adds (l := [.write .entry curIo.offset value]) ⟨rfl, rfl⟩ ?_) hs'
    intro e he
    rw [List.mem_singleton.mp he]
    refine ⟨fun v heq => ?_, fun last => rfl⟩
    injection heq with _ hoffset
    exact hflush hoffset

/-! ### The run -/

/-- **One entry of the log.** -/
theorem FlushInv.entry (cfg : ReplayConfig) (rctx : ReplayContext) (env : Env) (i : Nat)
    {curIo : RegIo} (h : FlushInv s₀ known s)
    (hknown : curIo.isRead ≠ 'R' → curIo.offset = jsFlushIdNext → known) :
    Post (replayEntry cfg rctx env i curIo) s
      (fun _ s' => FlushInv s₀ (knownAfter cfg.isValidate known curIo) s')
      (fun _ s' => FlushInv s₀ False s') := by
  unfold replayEntry
  -- the accesses of the entry, then the check
  have hmain : Post (if curIo.isRead = 'R' then replayRead env curIo
      else replayWrite cfg rctx env curIo) s
      (fun _ s' => FlushInv s₀ (if curIo.isRead = 'R' ∧ curIo.offset = latestFlush then True
        else if curIo.isRead = 'R' ∧ curIo.offset = asStatus then False else known) s')
      (fun _ s' => FlushInv s₀ False s') := by
    by_cases hread : curIo.isRead = 'R'
    · rw [if_pos hread]
      by_cases hflush : curIo.offset = latestFlush
      · rw [if_pos ⟨hread, hflush⟩]
        exact h.readFlush env hflush
      · rw [if_neg fun h => hflush h.2]
        by_cases hstatus : curIo.offset = asStatus
        · rw [if_pos ⟨hread, hstatus⟩]
          exact h.readStatus env hstatus
        · rw [if_neg fun h => hstatus h.2]
          exact h.readOther env fun h => h.elim hstatus hflush
    · rw [if_neg hread, if_neg fun h => hread h.1, if_neg fun h => hread h.1]
      exact h.write cfg rctx env (hknown hread)
  refine Post.bind (hmain.mono (fun _ s' hs' => ?_) fun _ _ hs' => hs')
  by_cases hvalidate : cfg.isValidate = true
  · rw [onlyIf_true hvalidate]
    by_cases hskip : curIo.NotCompared
    · refine (hs'.emits (quiet_validateEntry env i hskip).emits).mono (fun _ s'' hs'' => ?_)
        fun _ _ hs'' => hs''
      exact hs''.weaken And.left
    · refine (hs'.emitsReads ((emits_validateEntry env curIo i).mono
        fun e he => noFlushWrite_validating he)).mono (fun _ s'' hs'' => ?_) fun _ _ hs'' => hs''
      exact hs''.weaken fun h => hskip (h.2 hvalidate)
  · rw [onlyIf_false hvalidate]
    exact Post.pure (hs'.weaken And.left)

/-- **The loop over the log.** -/
theorem FlushInv.entries (cfg : ReplayConfig) (rctx : ReplayContext) (env : Env) {held : Nat}
    {log : List RegIo} (hlog : FlushIdsKnown cfg.isValidate held log) :
    ∀ (done rest : List RegIo) (i : Nat) (s : ReplayState), log = done ++ rest →
      FlushInv s₀ (flushKnown cfg.isValidate held done) s →
      Post (replayEntries cfg rctx env i rest) s (fun _ s' => FlushInv s₀ False s')
        (fun _ s' => FlushInv s₀ False s') := by
  intro done rest
  induction rest generalizing done with
  | nil => exact fun i s _ h => Post.pure (h.weaken False.elim)
  | cons curIo rest ih =>
      intro i s hsplit h
      refine Post.bind ((h.entry cfg rctx env i (hlog done curIo rest hsplit)).mono
        (fun _ s' hs' => ?_) fun _ _ hs' => hs')
      refine ih (done ++ [curIo]) (i + 1) s' ?_ ?_
      · rw [hsplit, List.append_assoc]
        rfl
      · unfold flushKnown
        rw [List.foldl_append]
        exact hs'

/-- **Where each write of a flush id stands after a read of `LATEST_FLUSH`, with neither a
read of `AS_STATUS` nor a check in between, every id a run writes is the one read last.**
Before the first such read this takes that the run starts holding `0`. -/
theorem grReplayRun_flush_id (cfg : ReplayConfig) (rctx : ReplayContext) (env : Env)
    (log : List RegIo) (s : ReplayState)
    (hlog : FlushIdsKnown cfg.isValidate s.latestFlushId log) :
    Post (grReplayRun cfg rctx env log) s (fun _ s' => FlushIdsRight (s.ran s'))
      (fun _ s' => FlushIdsRight (s.ran s')) := by
  have hright : ∀ {s'}, FlushInv s False s' → FlushIdsRight (s.ran s') := by
    rintro s' ⟨events, htrace, hright, -⟩
    rw [ReplayState.ran_eq htrace]
    exact hright
  have hstart : FlushInv s (s.latestFlushId = 0) s :=
    ⟨[], (List.append_nil _).symm, EachAfter.nil, id⟩
  refine Post.mono (Q := fun _ s' => FlushInv s False s') (E := fun _ s' => FlushInv s False s')
    ?_ (fun _ _ => hright) fun _ _ => hright
  refine post_replayRun cfg rctx env (fun s₁ hadds => ?_) fun s' s'' hadds h => ?_
  · refine FlushInv.entries cfg rctx env hlog [] log 0 s₁ rfl (hstart.adds hadds ?_)
    exact fun e he => absurd he List.not_mem_nil
  · exact h.adds hadds fun e he => absurd he List.not_mem_nil

/-- A log that reads the id and then writes it. -/
theorem grReplayRun_flush_id_read :
    FlushIdsKnown false 0 [⟨0, 'R', latestFlush, 7⟩, ⟨1, 'W', jsFlushIdNext, 7⟩] ∧
    FlushIdsRight (blankState.ran
      { blankState with
        reads := 1, clocks := 1, latestFlushId := 7, jobSubmitCnt := 1, totPrepTime := 0
        totCompTime := 0
        trace := [.read .entry latestFlush 7, .write .entry jsFlushIdNext 7] }) := by
  have hknown : FlushIdsKnown false 0
      [⟨0, 'R', latestFlush, 7⟩, ⟨1, 'W', jsFlushIdNext, 7⟩] := by
    refine (EachAfter.nil.snoc fun hwrite => absurd rfl hwrite).snoc fun _ _ => ⟨?_, ?_⟩
    · rw [if_pos ⟨rfl, rfl⟩]
      trivial
    · exact fun h => absurd h Bool.false_ne_true
  exact ⟨hknown, (grReplayRun_flush_id plainConfig blankContext (answering fun _ => 7) _ blankState
    hknown).ok rfl⟩

/-- The log of a job after a poll of the address space: the status is submitted as the id. -/
theorem flush_id_from_status :
    ¬Post (grReplayRun plainConfig blankContext (answering fun n => if n = 0 then 7 else 0)
      [⟨0, 'R', latestFlush, 7⟩, ⟨1, 'R', asStatus, 0⟩, ⟨2, 'W', jsFlushIdNext, 7⟩]) blankState
      (fun _ s' => FlushIdsRight (blankState.ran s'))
      (fun _ s' => FlushIdsRight (blankState.ran s')) := by
  intro h
  have hran := h.ok rfl
  have hvalue := hran [.read .entry latestFlush 7, .read .entry asStatus 0]
    (.write .entry jsFlushIdNext 0) [] rfl 0 rfl
  exact absurd hvalue (by decide)

end GpuReplay.Replayer
