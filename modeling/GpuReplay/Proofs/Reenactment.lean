/-
From the recorder's hardware to the replayer's: a replay re-enacts the recording.

Four things lie between an access of the driver and the access of the replayer that stands for
it: the ring it is added to, the text the ring is dumped as, the list the text is loaded into and
the loop that goes over the list.  Each has a theorem of its own.  Here they are put together: what
a replay does at the entries of its log is, one for one and in the order of the recording's
hardware, what the recorder's driver did.
-/
import GpuReplay.Proofs.LogTrace
import GpuReplay.Proofs.RegOrder

namespace GpuReplay

open Driver Replayer

/-! ### Recordings -/

/-- The step's arguments fit their types, and registers are words. -/
def Driver.RegStep.Words : RegStep → Prop
  | .access _ op => op.offset % 4 = 0 ∧ op.offset < 2 ^ 32 ∧ op.value < 2 ^ 32
  | .add _ now _ => now < 2 ^ 64

/-- The states of runs of any number of threads and interrupt handlers in which nobody is overtaken
between its access and its place in the history. -/
inductive WordRun (junk : Nat → IoAccess) : RegState → Prop
  | init : WordRun junk (RegState.init junk)
  | step {s s' : RegState} {e : RegStep} (h : WordRun junk s) (hstep : regStep s e = some s')
      (holdest : Oldest s e) (hwords : e.Words) : WordRun junk s'

/-- What has reached the hardware, and what of it has been added. -/
structure Recorded (s : RegState) (added : List RegAccess) : Prop where
  order : OrderInv s added
  hw : ∀ op ∈ s.hw, op.offset % 4 = 0 ∧ op.offset < 2 ^ 32 ∧ op.value < 2 ^ 32
  wf : ∀ a ∈ added, a.WF

variable {s s' : RegState} {added : List RegAccess}

theorem Recorded.access (h : Recorded s added) {actor : Nat} {op : RegOp}
    (hstep : regStep s (.access actor op) = some s') (hwords : (RegStep.access actor op).Words) :
    Recorded s' added := by
  have hhw : s'.hw = s.hw ++ [op] := by
    unfold regStep at hstep
    dsimp only at hstep
    split at hstep
    · cases hstep
    · obtain rfl := Option.some.inj hstep
      rfl
  refine ⟨h.order.access hstep, fun op' hop' => ?_, h.wf⟩
  rw [hhw] at hop'
  rcases List.mem_append.mp hop' with hop' | hop'
  · exact h.hw op' hop'
  · rw [List.mem_singleton.mp hop']
    exact hwords

theorem Recorded.add (h : Recorded s added) {actor now current : Nat}
    (hstep : regStep s (.add actor now current) = some s')
    (holdest : Oldest s (.add actor now current)) (hnow : now < 2 ^ 64) :
    ∃ a, Recorded s' (added ++ [a]) := by
  obtain ⟨a, horder⟩ := h.order.add hstep holdest
  have hlength : (added ++ [a]).length = added.length + 1 := List.length_append
  -- the slot written last holds `a`, and it was written at `now`
  have hslot := horder.ring.slots added.length a List.getElem?_concat_length (by
    rw [hlength]
    have := horder.ring.size_pos
    omega)
  unfold regStep at hstep
  dsimp only at hstep
  split at hstep
  · cases hstep
  · obtain rfl := Option.some.inj hstep
    have htime : a.now = now := by
      have hplace := h.order.ring.place
      dsimp only [grIoHistoryAdd, grIoHistoryAddSized] at hslot
      rw [if_pos hplace.symm] at hslot
      exact (congrArg IoAccess.timestamp hslot).symm
    have hop : a.toRegOp ∈ s.hw := by
      have hfirst := horder.first_hw
      refine List.mem_of_mem_take (i := (added ++ [a]).length) ?_
      rw [show s.hw.take _ = _ from hfirst]
      exact List.mem_map_of_mem List.mem_concat_self
    refine ⟨a, horder, h.hw, fun b hb => ?_⟩
    rcases List.mem_append.mp hb with hb | hb
    · exact h.wf b hb
    · rw [List.mem_singleton.mp hb]
      obtain ⟨hword, hoffset, hvalue⟩ := h.hw _ hop
      exact ⟨hword, hoffset, hvalue, by rw [htime]; exact hnow⟩

theorem WordRun.recorded {junk : Nat → IoAccess} (h : WordRun junk s) :
    ∃ added, Recorded s added := by
  induction h with
  | init =>
      refine ⟨[], orderInv_init junk, fun op hop => ?_, fun a ha => ?_⟩
      · exact absurd hop List.not_mem_nil
      · exact absurd ha List.not_mem_nil
  | @step s s' e _ hstep holdest hwords ih =>
      obtain ⟨added, hadded⟩ := ih
      cases e with
      | access actor op => exact ⟨added, hadded.access hstep hwords⟩
      | add actor now current =>
          obtain ⟨a, ha⟩ := hadded.add hstep holdest hwords
          exact ⟨added ++ [a], ha⟩

/-! ### The log of a recording -/

theorem map_replayedFrom {β : Type} {f : RegIo → β} {g : RegAccess → β}
    (hfg : ∀ a delta, f (a.replayed delta) = g a) (prevTs : Nat) (accesses : List RegAccess) :
    (replayedFrom prevTs accesses).map f = accesses.map g := by
  induction accesses generalizing prevTs with
  | nil => rfl
  | cons a accesses ih => rw [replayedFrom, List.map_cons, List.map_cons, hfg, ih]

/-- The access an entry of the log stands for. -/
def Replayer.RegIo.op (io : RegIo) : RegOp := ⟨io.offset, io.value, decide (io.isRead ≠ 'R')⟩

theorem op_replayed (a : RegAccess) (delta : Nat) : (a.replayed delta).op = a.toRegOp := by
  obtain ⟨⟨offset, value, write⟩, now, current⟩ := a
  cases write <;> rfl

/-- **What is dumped is loaded**: the entries of the log are the accesses the ring holds. -/
theorem Recorded.loaded (h : Recorded s added) (hsome : 0 < s.history.iters) (junk : Nat → RegIo)
    (list : RegList) {fuel : Nat} (hfuel : s.history.iters < fuel) :
    ∃ list' prevTs, grRegInitList junk fuel list (grIoHistoryDump s.history) = some list' ∧
      Linked list' (replayedFrom prevTs (added.drop (added.length - s.history.iters))) := by
  have hentries := h.order.ring.entries
  have hiters := h.order.ring.iters_eq
  generalize hlast : added.drop (added.length - s.history.iters) = last at hentries ⊢
  have hlength : last.length = s.history.iters := by
    rw [← hlast, List.length_drop]
    omega
  cases last with
  | nil =>
      rw [List.length_nil] at hlength
      omega
  | cons a rest =>
      have hdump : grIoHistoryDump s.history =
          dumpLoop (s.history.entry 0).timestamp ((a :: rest).map RegAccess.io) := by
        unfold grIoHistoryDump
        rw [hentries]
      have hwf : ∀ b ∈ a :: rest, b.WF := fun b hb =>
        h.wf b (List.mem_of_mem_drop (hlast ▸ hb))
      obtain ⟨list', hloop, hlinked⟩ := regInitLoop_dump junk rest a
        (s.history.entry 0).timestamp fuel _ [] hwf (linked_empty list) (by
          rw [List.length_cons] at hlength
          omega)
      refine ⟨list', (s.history.entry 0).timestamp, ?_, hlinked⟩
      rw [hdump]
      exact hloop

/-! ### What a replay does at the entries -/

/-- An access made at an entry of the log. -/
def Replayer.Event.isEntry : Event → Bool
  | .read .entry _ _ => true
  | .write .entry _ _ => true
  | _ => false

/-- The replayer's access for one of the driver: a read of the register read, or a write to the
register written, with the value recorded unless it is one that `gr_replay_run` replaces. -/
inductive Reenacts (cfg : ReplayConfig) (newTranstab : Nat) : RegOp → Event → Prop
  | read {op : RegOp} (value : Nat) (hread : op.write = false) :
      Reenacts cfg newTranstab op (.read .entry op.offset value)
  | write {op : RegOp} (held : Nat) (hwrite : op.write = true) :
      Reenacts cfg newTranstab op (.write .entry op.offset
        (writtenValue cfg newTranstab held ⟨0, 'W', op.offset, op.value⟩))

variable {cfg : ReplayConfig} {newTranstab : Nat}

theorem filter_isEntry_side {events : List Event} (h : ∀ e ∈ events, e.Side) :
    events.filter Event.isEntry = [] := by
  refine List.filter_eq_nil_iff.mpr fun e he => ?_
  have hside := h e he
  cases e with
  | read site offset value =>
      rcases hside with rfl | rfl
      · exact Bool.false_ne_true
      · exact Bool.false_ne_true
  | write => exact hside.elim
  | waitJobIrq => exact hside.elim
  | notMatched => exact Bool.false_ne_true
  | givenCmd => exact Bool.false_ne_true
  | validationFailed => exact Bool.false_ne_true

theorem filter_isEntry_polls {site : Site} (hsite : site ≠ .entry) (offset : Nat)
    (values : List Nat) : (polls site offset values).filter Event.isEntry = [] := by
  refine List.filter_eq_nil_iff.mpr fun e he => ?_
  obtain ⟨w, -, rfl⟩ := List.mem_map.mp he
  cases site with
  | entry => exact absurd rfl hsite
  | wait => exact Bool.false_ne_true
  | cacheInvalidate => exact Bool.false_ne_true
  | asFlush => exact Bool.false_ne_true
  | softReset => exact Bool.false_ne_true
  | validate => exact Bool.false_ne_true

theorem filter_isEntry_before {io : RegIo} {before : List Event}
    (h : BeforeWrite cfg newTranstab io before) : before.filter Event.isEntry = [] := by
  unfold BeforeWrite at h
  split at h
  · obtain ⟨inval, flush, ⟨mask, values, val, mask', -, rfl⟩, ⟨values', rfl⟩, rfl⟩ := h
    simp [List.filter_append, filter_isEntry_polls, Event.isEntry]
  · rw [h]
    rfl

/-- **One entry, one access.** -/
theorem Replayer.EntryTrace.reenacts {held : Nat} {io : RegIo} {seg : List Event}
    (h : EntryTrace cfg newTranstab held io seg) :
    ∃ e, seg.filter Event.isEntry = [e] ∧ Reenacts cfg newTranstab io.op e := by
  cases h with
  | read value rest hread hrest =>
      refine ⟨.read .entry io.offset value, ?_, ?_⟩
      · rw [List.filter_cons_of_pos rfl, filter_isEntry_side hrest]
      · exact @Reenacts.read cfg newTranstab io.op value (decide_eq_false (not_not.mpr hread))
  | write before rest hwrite hbefore hrest =>
      refine ⟨.write .entry io.offset (writtenValue cfg newTranstab held io), ?_, ?_⟩
      · have hafter : (afterWrite io (writtenValue cfg newTranstab held io)).filter Event.isEntry
            = [] := by
          unfold afterWrite
          split_ifs
          all_goals rfl
        rw [List.filter_append, filter_isEntry_before hbefore, List.nil_append,
          List.filter_cons_of_pos rfl, List.filter_append, hafter, filter_isEntry_side hrest]
        rfl
      · exact @Reenacts.write cfg newTranstab io.op held (decide_eq_true hwrite)

theorem Replayer.LogTrace.reenacts {held : Nat} {log : List RegIo} {events : List Event}
    (h : LogTrace cfg newTranstab held log events) :
    List.Forall₂ (Reenacts cfg newTranstab) (log.map RegIo.op) (events.filter Event.isEntry) := by
  induction h with
  | nil => exact .nil
  | cons hentry _ ih =>
      obtain ⟨e, hfilter, he⟩ := hentry.reenacts
      rw [List.map_cons, List.filter_append, hfilter]
      exact .cons he ih

/-- The accesses a replay that returns makes at the entries of its log. -/
theorem post_replayRun_reenacts (cfg : ReplayConfig) (rctx : ReplayContext) (env : Env)
    (log : List RegIo) (rs : ReplayState) :
    Post (grReplayRun cfg rctx env log) rs
      (fun _ rs' => List.Forall₂ (Reenacts cfg rctx.newTranstab) (log.map RegIo.op)
        ((rs.ran rs').filter Event.isEntry)) (fun _ _ => True) := by
  refine post_replayRun cfg rctx env (fun rs₁ hadds => ?_) fun rs' rs'' hadds h => ?_
  · unfold Post
    cases hrun : replayEntries cfg rctx env 0 log rs₁ with
    | error e rs' => trivial
    | ok u rs' =>
        obtain ⟨events, hevents, htrace⟩ := replayEntries_ok hrun
        have hran : rs.ran rs' = events := by
          refine ReplayState.ran_eq ?_
          rw [htrace, hadds.trace, List.append_nil]
        dsimp only
        rw [hran]
        exact hevents.reenacts
  · have hran : rs.ran rs'' = rs.ran rs' := by
      unfold ReplayState.ran
      rw [hadds.trace, List.append_nil]
    rw [hran]
    exact h

/-! ### All of it -/

/-- **A replay re-enacts the recording.**  After any run of the driver, however many threads and
interrupt handlers took part, the dump of its history can be loaded, and a replay of what has been
loaded that returns makes one access for each of a stretch of the accesses that reached the
driver's hardware, in their order.  Only if the ring has overflowed are there any before the
stretch, and those after it had not been added yet. -/
theorem replay_reenacts {junkBuf : Nat → IoAccess} (h : WordRun junkBuf s)
    (hsome : 0 < s.history.iters) (junk : Nat → RegIo) (list : RegList) {fuel : Nat}
    (hfuel : s.history.iters < fuel) (cfg : ReplayConfig) (rctx : ReplayContext) (env : Env)
    (rs : ReplayState) :
    ∃ list' before stretch after,
      grRegInitList junk fuel list (grIoHistoryDump s.history) = some list' ∧
      s.hw = before ++ (stretch ++ after) ∧ stretch.length = s.history.iters ∧
      (before = [] ∨ stretch.length = s.history.size) ∧
      Post (grReplayRun cfg rctx env (list'.nodes.map Prod.fst)) rs
        (fun _ rs' => List.Forall₂ (Reenacts cfg rctx.newTranstab) stretch
          ((rs.ran rs').filter Event.isEntry)) (fun _ _ => True) := by
  obtain ⟨added, hadded⟩ := h.recorded
  obtain ⟨list', prevTs, hload, hlinked⟩ := hadded.loaded hsome junk list hfuel
  have hiters := hadded.order.ring.iters_eq
  have hlength := hadded.order.length_le
  have hfirst : s.hw.take added.length = added.map fun a => a.toRegOp := hadded.order.first_hw
  refine ⟨list', (added.take (added.length - s.history.iters)).map fun a => a.toRegOp,
    (added.drop (added.length - s.history.iters)).map fun a => a.toRegOp,
    s.hw.drop added.length, hload, ?_, ?_, ?_, ?_⟩
  · rw [← List.append_assoc, ← List.map_append, List.take_append_drop, ← hfirst,
      List.take_append_drop]
  · rw [List.length_map, List.length_drop]
    omega
  · by_cases hfull : added.length ≤ s.history.size
    · left
      rw [show added.length - s.history.iters = 0 by omega]
      rfl
    · right
      rw [List.length_map, List.length_drop]
      omega
  · have hops : (list'.nodes.map Prod.fst).map RegIo.op =
        (added.drop (added.length - s.history.iters)).map fun a => a.toRegOp := by
      rw [hlinked.entries]
      exact map_replayedFrom op_replayed _ _
    rw [← hops]
    exact post_replayRun_reenacts cfg rctx env _ rs

/-- The mask of one thread and the command of another, recorded, dumped, loaded and replayed. -/
theorem replay_reenacts_mask :
    ∃ s, inTurn.foldlM regStep (RegState.init emptyBuf) = some s ∧
      s.history.iters = 2 ∧ s.hw = [maskWrite, commandWrite] ∧
      ∃ list' before stretch after,
        grRegInitList (fun _ => ⟨0, 'W', 0, 0⟩) 3 ⟨0, 0, 0, 0, []⟩ (grIoHistoryDump s.history) =
          some list' ∧
        s.hw = before ++ (stretch ++ after) ∧ stretch.length = s.history.iters ∧
        (before = [] ∨ stretch.length = s.history.size) ∧
        Post (grReplayRun ⟨⟨false, false⟩, 0, 0⟩ blankContext (answering fun _ => 0)
            (list'.nodes.map Prod.fst)) blankState
          (fun _ rs' => List.Forall₂ (Reenacts ⟨⟨false, false⟩, 0, 0⟩ blankContext.newTranstab)
            stretch ((blankState.ran rs').filter Event.isEntry)) (fun _ _ => True) := by
  refine ⟨_, rfl, rfl, rfl, @replay_reenacts _ emptyBuf ?_ ?_ _ _ _ ?_ _ _ _ _⟩
  rotate_left
  · exact Nat.two_pos
  · exact Nat.lt_succ_self 2
  refine .step (e := .add 1 6 2) (.step (e := .add 0 5 1) (.step (e := .access 1 commandWrite)
    (.step (e := .access 0 maskWrite) .init rfl trivial ?_) rfl trivial ?_) rfl ?_ ?_) rfl ?_ ?_
  · exact ⟨rfl, by decide, by decide⟩
  · exact ⟨rfl, by decide, by decide⟩
  · exact oldest_first rfl
  · exact Nat.lt_of_lt_of_le (by decide : 5 < 6) (by decide)
  · exact oldest_second rfl
  · exact Nat.lt_of_lt_of_le (by decide : 6 < 7) (by decide)

end GpuReplay
