/-
Commands to the address space, and whether it was idle by then.

A command must not be written while the address space is active.  The driver polls
`AS_STATUS` first, and the log holds its polls; the replay waits where the recording
found the address space active, and reads once where it found it idle.  The hardware may
be slower now than it was then, so the status read last may well be active.  Which of the
hardware's answers that is, the log says with the answers before it: a replay is followed
through the answers (`Polling`), and nothing else of it is looked at.

`reg_read_wait` decrements before it looks, so it gives up without looking at its last
read.
-/
import GpuReplay.Proofs.Validation
import Mathlib.Algebra.BigOperators.Group.List.Basic

namespace GpuReplay.Replayer

/-! ### What the log promises -/

/-- The value of the status read last, after one more event. -/
def statusAfter (last : Option Nat) : Event → Option Nat
  | .read _ offset value => if offset = asStatus then some value else last
  | _ => last

def lastStatus (events : List Event) : Option Nat := events.foldl statusAfter none

/-- Each command from the log was written after a status that was inactive. -/
def CommandsInactive (events : List Event) : Prop :=
  EachAfter (fun before e => ∀ v, e = .write .entry asCommand v →
    lastStatus before = some asStatusAsInactive) events

/-- The reads of `reg_read_wait`. -/
def Event.isWait : Event → Bool
  | .read .wait _ _ => true
  | _ => false

/-- The reads a history ends with, if they are those of `reg_read_wait`. -/
def lastWait (events : List Event) : List Event := (events.reverse.takeWhile (·.isWait)).reverse

/-- What was waited for last never came. -/
def NeverInactive (events : List Event) : Prop :=
  ∀ v, .read .wait asStatus v ∈ lastWait events → v ≠ asStatusAsInactive

/-- Whether an idle address space was recorded since the last command, after one more entry. -/
def waitedAfter (waited : Prop) (io : RegIo) : Prop :=
  if io.isRead = 'R' then waited ∨ (io.offset = asStatus ∧ io.value = asStatusAsInactive)
  else waited ∧ io.offset ≠ asCommand

/-- Each command of the log comes after a poll that found the address space idle. -/
def WaitedLog (log : List RegIo) : Prop :=
  EachAfter (fun before io => io.isRead ≠ 'R' → io.offset = asCommand →
    before.foldl waitedAfter False) log

/-! ### Where a replay is in the answers -/

/-- How many answers have been taken, and the last to `AS_STATUS` among them. -/
structure Polling where
  taken : Nat
  status : Option Nat

namespace Polling

/-- One read. -/
def look (env : Env) (p : Polling) (offset : Nat) : Polling where
  taken := p.taken + 1
  status := if offset = asStatus then some (env.answer p.taken) else p.status

/-- A loop that has read `val`: while that asks for it, it reads again, at most `n` times. -/
def spin (env : Env) (offset : Nat) (again : Nat → Bool) : Nat → Nat → Polling → Polling
  | 0, _, p => p
  | n + 1, val, p =>
      if again val then spin env offset again n (env.answer p.taken) (p.look env offset) else p

/-- A read, and the loop after it. -/
def poll (env : Env) (offset : Nat) (again : Nat → Bool) (n : Nat) (p : Polling) : Polling :=
  spin env offset again n (env.answer p.taken) (p.look env offset)

/-- The reads of `reg_read_wait` of the status. -/
def waitInactive (env : Env) (p : Polling) : Polling :=
  p.poll env asStatus (fun val => val ≠ asStatusAsInactive) (kbaseAsInactiveMaxLoops - 1)

/-- The reads of `gr_cache_invalidate` and `gr_as_flush`. -/
def checkpoint (env : Env) (p : Polling) : Polling :=
  (((p.look env gpuIrqMask).poll env gpuIrqRawstat
      (fun val => val &&& (cleanCachesCompleted ||| resetCompleted) = 0) 99999).look env
    gpuIrqMask).poll env asStatus (fun val => val &&& asStatusAsActive ≠ 0)
      (kbaseAsInactiveMaxLoops - 1)

end Polling

/-- The entry is one that is waited for. -/
def RegIo.Waits (io : RegIo) : Prop :=
  io.isRead = 'R' ∧ io.offset = asStatus ∧ io.value = asStatusAsActive

instance (io : RegIo) : Decidable io.Waits := inferInstanceAs (Decidable (_ ∧ _))

/-- The reads of an entry, up to the check. -/
def Polling.access (cfg : ReplayConfig) (env : Env) (p : Polling) (io : RegIo) : Polling :=
  if io.isRead = 'R' then
    if io.Waits then (p.look env asStatus).waitInactive env else p.look env io.offset
  else if io.offset = jsCommandNext ∧ cfg.testCheckpoint then p.checkpoint env
  else p

/-- The reads of an entry. -/
def Polling.entry (cfg : ReplayConfig) (env : Env) (p : Polling) (io : RegIo) : Polling :=
  if cfg.isValidate ∧ ¬io.NotCompared then regOffsets.foldl (Polling.look env) (p.access cfg env io)
  else p.access cfg env io

/-- The reads of a log. -/
def Polling.entries (cfg : ReplayConfig) (env : Env) (p : Polling) (log : List RegIo) : Polling :=
  log.foldl (Polling.entry cfg env) p

/-- Inactive is the answer to the last read `reg_read_wait` can make, after `n` answers, and to
none before it. -/
def InactiveTooLate (env : Env) (n : Nat) : Prop :=
  (∀ k < kbaseAsInactiveMaxLoops - 1, env.answer (n + k) ≠ asStatusAsInactive) ∧
    env.answer (n + (kbaseAsInactiveMaxLoops - 1)) = asStatusAsInactive

/-- What the hardware must answer by an entry: inactive to the last status read before a
command, and not too late to a status waited for. -/
def AnsweredFor (env : Env) (p : Polling) (io : RegIo) : Prop :=
  (io.Writes asCommand → p.status = some asStatusAsInactive) ∧
    (io.Waits → ¬InactiveTooLate env (p.taken + 1))

/-- **The answers are in time** for each entry that is reached: those before it can be replayed. -/
def AnswersInTime (cfg : ReplayConfig) (rctx : ReplayContext) (env : Env) (log : List RegIo)
    (s : ReplayState) : Prop :=
  ∀ done io rest, log = done ++ io :: rest →
    (∃ s', grReplayRun cfg rctx env done s = .ok () s') →
      AnsweredFor env (Polling.entries cfg env ⟨s.reads, none⟩ done) io

/-! ### Answers counted -/

/-- As many answers were taken as there are reads among the events. -/
def CountsAnswers (s s' : ReplayState) : Prop :=
  ∃ seg, s'.trace = s.trace ++ seg ∧ s'.reads = s.reads + (seg.map Event.answers).sum

theorem CountsAnswers.same {s s' : ReplayState} (htrace : s'.trace = s.trace)
    (hreads : s'.reads = s.reads) : CountsAnswers s s' :=
  ⟨[], by rw [htrace, List.append_nil], hreads⟩

theorem CountsAnswers.one {s s' : ReplayState} {e : Event} (htrace : s'.trace = s.trace ++ [e])
    (hreads : s'.reads = s.reads + e.answers) : CountsAnswers s s' :=
  ⟨[e], htrace, by rw [hreads, List.map_singleton, List.sum_singleton]⟩

instance : AccessBlind CountsAnswers where
  refl _ := .same rfl rfl
  trans _ _ _ := by
    rintro ⟨seg, htrace, hreads⟩ ⟨seg', htrace', hreads'⟩
    refine ⟨seg ++ seg', by rw [htrace', htrace, List.append_assoc], ?_⟩
    rw [hreads', hreads, List.map_append, List.sum_append, Nat.add_assoc]
  event _ _ _ _ := .one rfl rfl
  latest _ _ := .same rfl rfl

instance : TimeBlind CountsAnswers where
  clock _ := .same rfl rfl
  accounts _ _ _ _ _ _ _ := .same rfl rfl

instance : SpaceBlind CountsAnswers where
  checkpoint _ _ _ _ := .same rfl rfl

instance : CheckBlind CountsAnswers where
  snapshot _ _ _ := .same rfl rfl
  checked _ _ _ := .one rfl rfl

/-- What neither takes an answer nor is a command from the log. -/
def Event.Silent (e : Event) : Prop := e.answers = 0 ∧ ∀ v, e ≠ .write .entry asCommand v

theorem lastStatus_silent {seg : List Event} (hseg : ∀ e ∈ seg, e.Silent) (events : List Event) :
    lastStatus (events ++ seg) = lastStatus events := by
  unfold lastStatus
  rw [List.foldl_append]
  generalize events.foldl statusAfter none = last
  induction seg with
  | nil => rfl
  | cons e seg ih =>
      have he : statusAfter last e = last := by
        have := (hseg e List.mem_cons_self).1
        cases e with
        | read => exact absurd this Nat.one_ne_zero
        | write => rfl
        | waitJobIrq => rfl
        | notMatched => rfl
        | givenCmd => rfl
        | validationFailed => rfl
      rw [List.foldl_cons, he]
      exact ih fun e' he' => hseg e' (List.mem_cons_of_mem e he')

theorem commandsInactive_silent {events seg : List Event} (hseg : ∀ e ∈ seg, e.Silent) :
    CommandsInactive (events ++ seg) ↔ CommandsInactive events :=
  EachAfter.append_iff fun e he _ v hv => absurd hv ((hseg e he).2 v)

/-! ### A replay followed through the answers -/

/-- A run from `s₀` is at `p` among the answers, and its commands are right exactly if `C`. -/
def Tracked (s₀ : ReplayState) (p : Polling) (C : Prop) (s : ReplayState) : Prop :=
  ∃ events, s.trace = s₀.trace ++ events ∧ s.reads = p.taken ∧ lastStatus events = p.status ∧
    (CommandsInactive events ↔ C)

/-- The same of a run that threw, other than by giving up. -/
def Failed (s₀ : ReplayState) (C : Prop) (e : Stop) (s : ReplayState) : Prop :=
  e ≠ asActiveStuck ∧ ∃ p, Tracked s₀ p C s

variable {s₀ s s' : ReplayState} {p : Polling} {C : Prop} {env : Env}

theorem Tracked.congr {C' : Prop} (h : Tracked s₀ p C s) (hC : C ↔ C') : Tracked s₀ p C' s := by
  obtain ⟨events, htrace, hreads, hstatus, hiff⟩ := h
  exact ⟨events, htrace, hreads, hstatus, hiff.trans hC⟩

theorem Tracked.silent (seg : List Event) (h : Tracked s₀ p C s) (hseg : ∀ e ∈ seg, e.Silent)
    (htrace' : s'.trace = s.trace ++ seg) (hreads' : s'.reads = s.reads) : Tracked s₀ p C s' := by
  obtain ⟨events, htrace, hreads, hstatus, hiff⟩ := h
  refine ⟨events ++ seg, ?_, hreads'.trans hreads, ?_, ?_⟩
  · rw [htrace', htrace, List.append_assoc]
  · rw [lastStatus_silent hseg, hstatus]
  · exact (commandsInactive_silent hseg).trans hiff

theorem Tracked.same (h : Tracked s₀ p C s) (htrace : s'.trace = s.trace)
    (hreads : s'.reads = s.reads) : Tracked s₀ p C s' :=
  h.silent [] (fun _ he => absurd he List.not_mem_nil) (by rw [htrace, List.append_nil]) hreads

theorem Tracked.failed (h : Tracked s₀ p C s) {e : Stop} (he : e ≠ asActiveStuck) :
    Failed s₀ C e s :=
  ⟨he, p, h⟩

/-- **What reads nothing and commands nothing** leaves a replay where it is. -/
theorem Tracked.emits {α : Type} {x : Replay α} {q : Event → Prop} (h : Tracked s₀ p C s)
    (hx : Emits x q) (hcount : Moves CountsAnswers x) (hq : ∀ e, q e → e.Silent) :
    Post x s (fun _ s' => Tracked s₀ p C s') (Failed s₀ C) := by
  have hkeep : ∀ s' seg, (∀ e ∈ seg, q e) → Adds s s' seg → CountsAnswers s s' → Tracked s₀ p C s' := by
    rintro s' seg hseg hadds ⟨seg', htrace, hreads⟩
    have hsilent : ∀ e ∈ seg, e.Silent := fun e he => hq e (hseg e he)
    have hsame : seg' = seg := List.append_cancel_left (htrace.symm.trans hadds.trace)
    have hzero : (seg.map Event.answers).sum = 0 := by
      refine List.sum_eq_zero fun n hn => ?_
      obtain ⟨e, he, rfl⟩ := List.mem_map.mp hn
      exact (hsilent e he).1
    rw [hsame, hzero] at hreads
    exact h.silent seg hsilent hadds.trace hreads
  refine ((hx s).and (hcount s)).mono ?_ ?_
  · rintro _ s' ⟨⟨seg, hseg, hadds⟩, hcounted⟩
    exact hkeep s' seg hseg hadds hcounted
  · rintro e s' ⟨⟨hne, seg, hseg, hadds⟩, hcounted⟩
    exact (hkeep s' seg hseg hadds hcounted).failed hne

theorem Tracked.look (h : Tracked s₀ p C s) (env : Env) (site : Site) (offset : Nat) :
    Tracked s₀ (p.look env offset) C (s.afterRead env site offset) := by
  obtain ⟨events, htrace, hreads, hstatus, hiff⟩ := h
  have hanswer : s.answer env = env.answer p.taken := by rw [← hreads]; rfl
  refine ⟨events ++ [.read site offset (s.answer env)], ?_, congrArg (· + 1) hreads, ?_, ?_⟩
  · rw [← List.append_assoc, ← htrace]
    rfl
  · unfold lastStatus at hstatus ⊢
    rw [List.foldl_append, hstatus, hanswer]
    rfl
  · refine (EachAfter.append_iff fun e he _ v hv => ?_).trans hiff
    rw [List.mem_singleton.mp he] at hv
    exact Event.noConfusion hv

theorem Tracked.read (h : Tracked s₀ p C s) (env : Env) (site : Site) (offset : Nat) :
    Post (grRegRead env site offset) s
      (fun v s' => v = env.answer p.taken ∧ Tracked s₀ (p.look env offset) C s') (Failed s₀ C) := by
  refine post_read ⟨?_, h.look env site offset⟩ (h.failed undefined_ne_stuck)
  obtain ⟨-, -, hreads, -⟩ := h
  rw [← hreads]
  rfl

/-! ### A checkpoint -/

theorem Tracked.write (h : Tracked s₀ p C s) {site : Site} {offset value : Nat}
    (hentry : site = .entry → offset ≠ asCommand) :
    Post (grRegWrite site offset value) s (fun _ s' => Tracked s₀ p C s') (Failed s₀ C) := by
  refine h.emits (emits_write rfl) (moves_write site offset value) (q := (· = _)) ?_
  rintro e rfl
  exact ⟨rfl, fun v hv => hentry (Event.write.inj hv).1 (Event.write.inj hv).2.1⟩

theorem Tracked.cacheLoop (env : Env) :
    ∀ n val (p : Polling) (s : ReplayState), Tracked s₀ p C s →
      Post (cacheLoop env (n + 1) val) s
        (fun _ s' => Tracked s₀ (Polling.spin env gpuIrqRawstat
          (fun val => val &&& (cleanCachesCompleted ||| resetCompleted) = 0) n val p) C s')
        (Failed s₀ C) := by
  intro n
  induction n with
  | zero =>
      intro val p s h
      unfold Replayer.cacheLoop
      rw [if_neg fun h => h.2 rfl]
      exact Post.pure h
  | succ n ih =>
      intro val p s h
      unfold Replayer.cacheLoop Polling.spin
      by_cases hmore : val &&& (cleanCachesCompleted ||| resetCompleted) = 0
      · rw [if_pos ⟨hmore, n.succ_ne_zero⟩, if_pos (decide_eq_true hmore)]
        refine (h.read env .cacheInvalidate gpuIrqRawstat).seq ?_
        rintro v s' ⟨rfl, hs'⟩
        exact ih _ _ s' hs'
      · rw [if_neg fun h => hmore h.1, if_neg (Bool.not_eq_true _ ▸ decide_eq_false hmore)]
        exact Post.pure h

theorem Tracked.flushLoop (env : Env) :
    ∀ n val (p : Polling) (s : ReplayState), Tracked s₀ p C s →
      Post (flushLoop env (n + 1) val) s
        (fun _ s' => Tracked s₀ (Polling.spin env asStatus
          (fun val => val &&& asStatusAsActive ≠ 0) n val p) C s')
        (Failed s₀ C) := by
  intro n
  induction n with
  | zero =>
      intro val p s h
      unfold Replayer.flushLoop
      rw [if_neg fun h => h.1 rfl]
      exact Post.pure h
  | succ n ih =>
      intro val p s h
      unfold Replayer.flushLoop Polling.spin
      by_cases hmore : val &&& asStatusAsActive ≠ 0
      · rw [if_pos ⟨n.succ_ne_zero, hmore⟩, if_pos (decide_eq_true hmore)]
        refine (h.read env .asFlush asStatus).seq ?_
        rintro v s' ⟨rfl, hs'⟩
        exact ih _ _ s' hs'
      · rw [if_neg fun h => hmore h.2, if_neg (Bool.not_eq_true _ ▸ decide_eq_false hmore)]
        exact Post.pure h

theorem Tracked.cacheInvalidate (h : Tracked s₀ p C s) (env : Env) :
    Post (grCacheInvalidate env) s
      (fun _ s' => Tracked s₀ (((p.look env gpuIrqMask).poll env gpuIrqRawstat
        (fun val => val &&& (cleanCachesCompleted ||| resetCompleted) = 0) 99999).look env
          gpuIrqMask) C s')
      (Failed s₀ C) := by
  have hother : Site.cacheInvalidate = .entry → ∀ {offset}, offset ≠ asCommand :=
    fun hsite => Site.noConfusion hsite
  unfold grCacheInvalidate
  refine (h.read env _ _).seq fun _ s₁ h₁ => ?_
  refine (h₁.2.write fun hsite => hother hsite).seq fun _ s₂ h₂ => ?_
  refine (h₂.write fun hsite => hother hsite).seq fun _ s₃ h₃ => ?_
  refine (h₃.read env _ _).seq fun val s₄ h₄ => ?_
  refine (Tracked.cacheLoop env 99999 val _ s₄ h₄.2).seq fun _ s₅ h₅ => ?_
  refine (h₅.read env _ _).seq fun _ s₆ h₆ => ?_
  refine (h₆.2.write fun hsite => hother hsite).seq fun _ s₇ h₇ => ?_
  refine (h₇.write fun hsite => hother hsite).mono (fun _ s₈ h₈ => ?_) fun _ _ h => h
  rw [h₄.1] at h₈
  exact h₈

theorem Tracked.asFlush (h : Tracked s₀ p C s) (env : Env) (lockAddr : Nat) :
    Post (grAsFlush env lockAddr) s
      (fun _ s' => Tracked s₀ (p.poll env asStatus (fun val => val &&& asStatusAsActive ≠ 0)
        (kbaseAsInactiveMaxLoops - 1)) C s')
      (Failed s₀ C) := by
  have hother : Site.asFlush = .entry → ∀ {offset}, offset ≠ asCommand :=
    fun hsite => Site.noConfusion hsite
  unfold grAsFlush
  refine (h.write fun hsite => hother hsite).seq fun _ s₁ h₁ => ?_
  refine (h₁.write fun hsite => hother hsite).seq fun _ s₂ h₂ => ?_
  refine (h₂.write fun hsite => hother hsite).seq fun _ s₃ h₃ => ?_
  refine (h₃.write fun hsite => hother hsite).seq fun _ s₄ h₄ => ?_
  refine (h₄.read env _ _).seq fun val s₅ h₅ => ?_
  refine (Tracked.flushLoop env (kbaseAsInactiveMaxLoops - 1) val _ s₅ h₅.2).mono
    (fun _ s₆ h₆ => ?_) fun _ _ h => h
  rw [h₅.1] at h₆
  exact h₆

theorem Tracked.checkpoint (h : Tracked s₀ p C s) (cfg : ReplayConfig) (rctx : ReplayContext)
    (env : Env) :
    Post (checkpointJob cfg rctx env) s (fun _ s' => Tracked s₀ (p.checkpoint env) C s')
      (Failed s₀ C) := by
  have hmeasure : ∀ {p s}, Tracked s₀ p C s →
      Post (k2Measure env) s (fun _ s' => Tracked s₀ p C s') (Failed s₀ C) :=
    fun h => h.emits (quiet_measure env) (moves_measure env) fun _ => False.elim
  unfold checkpointJob
  refine (hmeasure h).seq fun _ s₁ h₁ => ?_
  refine (h₁.cacheInvalidate env).seq fun _ s₂ h₂ => ?_
  refine (h₂.asFlush env rctx.newTranstab).seq fun _ s₃ h₃ => ?_
  refine (hmeasure h₃).seq fun _ s₄ h₄ => ?_
  exact h₄.emits (quiet_writeCheckpoint cfg rctx) (moves_writeCheckpoint cfg rctx)
    fun _ => False.elim

/-! ### A status waited for -/

theorem Tracked.waitLoop (env : Env) :
    ∀ n val (p : Polling) (s : ReplayState), Tracked s₀ p C s →
      Post (waitLoop env asStatus asStatusAsInactive (n + 1) val) s
        (fun _ s' => Tracked s₀ (Polling.spin env asStatus
          (fun val => val ≠ asStatusAsInactive) n val p) C s')
        (Failed s₀ C) := by
  intro n
  induction n with
  | zero =>
      intro val p s h
      unfold Replayer.waitLoop
      rw [if_neg fun h => h.1 rfl]
      exact Post.pure h
  | succ n ih =>
      intro val p s h
      unfold Replayer.waitLoop Polling.spin
      by_cases hmore : val ≠ asStatusAsInactive
      · rw [if_pos ⟨n.succ_ne_zero, hmore⟩, if_pos (decide_eq_true hmore)]
        refine (h.read env .wait asStatus).seq ?_
        rintro v s' ⟨rfl, hs'⟩
        exact ih _ _ s' hs'
      · rw [if_neg fun h => hmore h.2, if_neg (Bool.not_eq_true _ ▸ decide_eq_false hmore)]
        exact Post.pure h

theorem Tracked.regReadWait (h : Tracked s₀ p C s) (env : Env) :
    Post (regReadWait env asStatus asStatusAsInactive) s
      (fun _ s' => Tracked s₀ (p.waitInactive env) C s') (fun _ _ => True) := by
  unfold Replayer.regReadWait
  refine Post.seq ((h.read env .wait asStatus).mono (fun _ _ h => h) fun _ _ _ => trivial) ?_
  rintro val s₁ ⟨rfl, h₁⟩
  refine Post.seq ((Tracked.waitLoop env (kbaseAsInactiveMaxLoops - 1) _ _ s₁ h₁).mono
    (fun _ _ h => h) fun _ _ _ => trivial) fun m s₂ h₂ => ?_
  unfold onlyIf
  split
  · exact Post.throw trivial
  · exact Post.pure h₂

/-- A wait for the status does not end other than by returning or giving up. -/
theorem regReadWait_stuck (env : Env) (value : Nat) (s : ReplayState) :
    Post (regReadWait env asStatus value) s (fun _ _ => True) (fun e _ => e = asActiveStuck) := by
  have hread : ∀ s : ReplayState, grRegRead env .wait asStatus s =
      .ok (s.answer env) (s.afterRead env .wait asStatus) := fun s => if_pos (by decide)
  have hloop : ∀ n val s, Post (waitLoop env asStatus value (n + 1) val) s (fun _ _ => True)
      (fun e _ => e = asActiveStuck) := by
    intro n
    induction n with
    | zero =>
        intro val s
        unfold waitLoop
        rw [if_neg fun h => h.1 rfl]
        exact Post.pure trivial
    | succ n ih =>
        intro val s
        unfold waitLoop
        split
        · exact Post.bind (Post.of_eq_ok (hread s) (ih _ _))
        · exact Post.pure trivial
  unfold regReadWait
  refine Post.bind (Post.of_eq_ok (hread s) ?_)
  refine (hloop (kbaseAsInactiveMaxLoops - 1) _ _).seq fun m s₁ _ => ?_
  unfold onlyIf
  split
  · exact Post.throw rfl
  · exact Post.pure trivial

theorem lastWait_polls (before : List Event) (v : Nat) (values : List Nat) :
    lastWait (before ++ [.read .entry asStatus v] ++ polls .wait asStatus values) =
      polls .wait asStatus values := by
  have hall : ∀ e ∈ (polls .wait asStatus values).reverse, e.isWait = true := by
    intro e he
    obtain ⟨w, -, rfl⟩ := List.mem_map.mp (List.mem_reverse.mp he)
    rfl
  unfold lastWait
  rw [List.reverse_append, List.takeWhile_append_of_pos hall, List.reverse_append,
    List.reverse_reverse, List.reverse_concat, List.takeWhile_cons_of_neg Bool.false_ne_true]
  rfl

/-- What was waited for to the end never came, unless it came too late. -/
theorem Waited.neverInactive_iff (before : List Event) (v : Nat) {values : List Nat}
    (h : Waited env asStatus s s' values) (hlength : values.length = kbaseAsInactiveMaxLoops)
    (hvalues : ∀ w ∈ values.dropLast, w ≠ asStatusAsInactive) :
    NeverInactive (before ++ [.read .entry asStatus v] ++ polls .wait asStatus values) ↔
      ¬InactiveTooLate env s.reads := by
  have hmem : ∀ w, Event.read .wait asStatus w ∈ polls .wait asStatus values ↔ w ∈ values := by
    intro w
    refine ⟨fun h => ?_, fun h => List.mem_map.mpr ⟨w, h, rfl⟩⟩
    obtain ⟨w', hw', heq⟩ := List.mem_map.mp h
    rwa [← (Event.read.inj heq).2.2]
  have hlast : kbaseAsInactiveMaxLoops - 1 < values.length := by
    rw [hlength]
    decide
  have hinit : ∀ k < kbaseAsInactiveMaxLoops - 1, env.answer (s.reads + k) ≠ asStatusAsInactive := by
    intro k hk
    have hk' : k < values.dropLast.length := by rwa [List.length_dropLast, hlength]
    have hvalue := hvalues _ (List.getElem_mem hk')
    rwa [List.getElem_dropLast, h.answers k (hk.trans hlast)] at hvalue
  unfold NeverInactive
  rw [lastWait_polls]
  constructor
  · intro hnever hlate
    refine hnever _ ((hmem _).mpr (List.getElem_mem hlast)) ?_
    rw [h.answers _ hlast]
    exact hlate.2
  · intro hlate w hw
    obtain ⟨k, hk, rfl⟩ := List.getElem_of_mem ((hmem w).mp hw)
    rw [h.answers k hk]
    by_cases hbefore : k < kbaseAsInactiveMaxLoops - 1
    · exact hinit k hbefore
    · have hk' : k = kbaseAsInactiveMaxLoops - 1 := by omega
      rw [hk']
      exact fun hzero => hlate ⟨hinit, hzero⟩

/-- What was waited for with success did not come too late. -/
theorem Waited.not_tooLate {values : List Nat} (h : Waited env asStatus s s' values)
    (hlength : values.length < kbaseAsInactiveMaxLoops)
    (hlast : values.getLast? = some asStatusAsInactive) : ¬InactiveTooLate env s.reads := by
  intro hlate
  obtain ⟨init, rfl⟩ := List.getLast?_eq_some_iff.mp hlast
  have hinit : init.length < (init ++ [asStatusAsInactive]).length := by
    rw [List.length_append]
    exact Nat.lt_succ_self _
  rw [List.length_append, List.length_singleton] at hlength
  refine hlate.1 init.length (Nat.lt_sub_of_add_lt hlength) ?_
  rw [← h.answers _ hinit, List.getElem_concat_length rfl]

/-! ### One entry -/

/-- How a run ends that threw: its commands are right, and it gave up on reads none of which was
inactive, exactly if `C`. -/
def Ended (s₀ : ReplayState) (C : Prop) (e : Stop) (s : ReplayState) : Prop :=
  ∃ events, s.trace = s₀.trace ++ events ∧
    ((CommandsInactive events ∧ (e = asActiveStuck → NeverInactive events)) ↔ C)

theorem Failed.ended {e : Stop} (h : Failed s₀ C e s) : Ended s₀ C e s := by
  obtain ⟨hne, p, events, htrace, -, -, hiff⟩ := h
  refine ⟨events, htrace, ?_⟩
  rw [← hiff]
  exact and_iff_left fun he => absurd he hne

theorem Ended.congr {C' : Prop} {e : Stop} (h : Ended s₀ C e s) (hC : C ↔ C') :
    Ended s₀ C' e s := by
  obtain ⟨events, htrace, hiff⟩ := h
  exact ⟨events, htrace, hiff.trans hC⟩

/-- A status recorded active is waited for. -/
theorem Tracked.wait (h : Tracked s₀ p C s) (env : Env) :
    Post (Replayer.regReadWait env asStatus asStatusAsInactive) (s.afterRead env .entry asStatus)
      (fun _ s' => Tracked s₀ ((p.look env asStatus).waitInactive env) C s' ∧
        ¬InactiveTooLate env (p.taken + 1))
      (Ended s₀ (C ∧ ¬InactiveTooLate env (p.taken + 1))) := by
  have hafter := h.look env .entry asStatus
  have hreads : (s.afterRead env .entry asStatus).reads = p.taken + 1 := by
    obtain ⟨-, -, hreads, -⟩ := h
    exact congrArg (· + 1) hreads
  refine (((post_regReadWait env asStatus asStatusAsInactive _).and (hafter.regReadWait env)).and
    (regReadWait_stuck env asStatusAsInactive _)).mono ?_ ?_
  · rintro _ s' ⟨⟨⟨values, hwaited, hlength, hlast⟩, htracked⟩, -⟩
    have hlate := hwaited.not_tooLate hlength hlast
    rw [hreads] at hlate
    exact ⟨htracked, hlate⟩
  · rintro e s' ⟨⟨⟨values, hwaited, hstuck⟩, -⟩, he⟩
    obtain ⟨events, htrace, -, -, hiff⟩ := h
    obtain ⟨hlength, hvalues⟩ := hstuck he
    have hnever := hwaited.neverInactive_iff events (s.answer env) hlength hvalues
    rw [hreads] at hnever
    refine ⟨events ++ [.read .entry asStatus (s.answer env)] ++ polls .wait asStatus values, ?_, ?_⟩
    · rw [hwaited.trace, ← List.append_assoc, ← List.append_assoc, ← htrace]
      rfl
    · have hcommands : CommandsInactive
          (events ++ [.read .entry asStatus (s.answer env)] ++ polls .wait asStatus values) ↔ C := by
        refine (EachAfter.append_iff fun e he _ v hv => ?_).trans
          ((EachAfter.append_iff fun e he _ v hv => ?_).trans hiff)
        · obtain ⟨w, -, rfl⟩ := List.mem_map.mp he
          exact Event.noConfusion hv
        · rw [List.mem_singleton.mp he] at hv
          exact Event.noConfusion hv
      exact and_congr hcommands ((imp_iff_right he).trans hnever)

theorem Tracked.replayRead (h : Tracked s₀ p C s) (cfg : ReplayConfig) (env : Env) {io : RegIo}
    (hread : io.isRead = 'R') :
    Post (replayRead env io) s
      (fun _ s' => Tracked s₀ (p.access cfg env io) C s' ∧
        (io.Waits → ¬InactiveTooLate env (p.taken + 1)))
      (Ended s₀ (C ∧ (io.Waits → ¬InactiveTooLate env (p.taken + 1)))) := by
  have haccess : p.access cfg env io = if io.Waits then (p.look env asStatus).waitInactive env else
      p.look env io.offset := if_pos hread
  have hhold : ∀ {p : Polling} {s' : ReplayState}, Tracked s₀ p C s' →
      Post (onlyIf (io.offset = asStatus ∨ io.offset = latestFlush)
        (modify fun t => { t with latestFlushId := s.answer env })) s'
        (fun _ s' => Tracked s₀ p C s') (fun _ _ => False) := by
    intro p s' hs'
    unfold onlyIf
    split
    · exact hs'.same rfl rfl
    · exact Post.pure hs'
  rw [haccess]
  unfold Replayer.replayRead
  by_cases hwaits : io.Waits
  · have hafter : grRegRead env .entry io.offset s =
        .ok (s.answer env) (s.afterRead env .entry io.offset) := by
      rw [hwaits.2.1]
      exact if_pos (by decide)
    refine Post.bind (Post.of_eq_ok hafter ?_)
    rw [onlyIf_true hwaits.2, if_pos hwaits, hwaits.2.1]
    refine Post.seq ((h.wait env).mono (fun _ _ h => h) fun e s' hs' =>
      hs'.congr (and_congr_right fun _ => (imp_iff_right hwaits).symm)) fun _ s' hs' => ?_
    rw [hwaits.2.1] at hhold
    exact (hhold hs'.1).mono (fun _ s'' hs'' => ⟨hs'', fun _ => hs'.2⟩) fun _ _ => False.elim
  · have hC : C ↔ C ∧ (io.Waits → ¬InactiveTooLate env (p.taken + 1)) :=
      (and_iff_left fun hw => absurd hw hwaits).symm
    have hactive : ¬(io.offset = asStatus ∧ io.value = asStatusAsActive) := fun h =>
      hwaits ⟨hread, h⟩
    refine Post.bind (post_read ?_ ((h.failed undefined_ne_stuck).ended.congr hC))
    rw [onlyIf_false hactive, if_neg hwaits]
    refine Post.bind (Post.pure ?_)
    exact (hhold (h.look env .entry io.offset)).mono
      (fun _ s' hs' => ⟨hs', fun hw => absurd hw hwaits⟩) fun _ _ => False.elim

/-- What is done before the write of an entry. -/
theorem Tracked.prepare (h : Tracked s₀ p C s) (cfg : ReplayConfig) (rctx : ReplayContext)
    (env : Env) {io : RegIo} (hwrite : io.isRead ≠ 'R') :
    Post (prepareWrite cfg rctx env io) s (fun _ s' => Tracked s₀ (p.access cfg env io) C s')
      (Failed s₀ C) := by
  have haccess : p.access cfg env io = if io.offset = jsCommandNext ∧ cfg.testCheckpoint then
      p.checkpoint env else p := if_neg hwrite
  have hplain : io.offset ≠ jsCommandNext → p.access cfg env io = p := fun hjob =>
    haccess.trans (if_neg fun h => hjob h.1)
  unfold prepareWrite
  by_cases hhead : io.offset = jsHeadNextLo ∨ io.offset = jsHeadNextHi
  · have hjob : io.offset ≠ jsCommandNext := by
      rcases hhead with h | h
      · rw [h]
        decide
      · rw [h]
        decide
    rw [if_pos hhead, hplain hjob]
    have htune : Moves CountsAnswers (grJsTune rctx io.offset io.value) :=
      moves_grJsTune (fun _ _ => .same rfl rfl) fun _ _ => .same rfl rfl
    exact (h.emits (quiet_jsTune rctx _ _) htune fun _ => False.elim).seq fun _ _ hs' =>
      Post.pure hs'
  rw [if_neg hhead]
  by_cases hjob : io.offset = jsCommandNext
  · rw [if_pos hjob, haccess]
    unfold onlyIf
    by_cases hcheck : cfg.testCheckpoint = true
    · rw [if_pos hcheck, if_pos ⟨hjob, hcheck⟩]
      exact (h.checkpoint cfg rctx env).seq fun _ _ hs' => Post.pure hs'
    · rw [if_neg hcheck, if_neg fun h => hcheck h.2]
      exact Post.bind (Post.pure (Post.pure h))
  · rw [if_neg hjob, hplain hjob]
    split
    · exact Post.bind (Post.get (Post.pure h))
    split
    · exact Post.pure h
    split
    · exact Post.pure h
    split
    · exact Post.pure h
    · exact Post.pure h

theorem Tracked.command (h : Tracked s₀ p C s) (value : Nat) :
    Tracked s₀ p (C ∧ p.status = some asStatusAsInactive)
      (s.emit (.write .entry asCommand value)) := by
  obtain ⟨events, htrace, hreads, hstatus, hiff⟩ := h
  refine ⟨events ++ [.write .entry asCommand value], ?_, hreads, ?_, ?_⟩
  · rw [← List.append_assoc, ← htrace]
    rfl
  · unfold lastStatus at hstatus ⊢
    rw [List.foldl_append, hstatus]
    rfl
  · refine EachAfter.snoc_iff.trans (and_congr hiff ?_)
    rw [hstatus]
    exact ⟨fun h => h value rfl, fun h _ _ => h⟩

theorem Tracked.replayWrite (h : Tracked s₀ p C s) (cfg : ReplayConfig) (rctx : ReplayContext)
    (env : Env) {io : RegIo} (hwrite : io.isRead ≠ 'R') :
    Post (replayWrite cfg rctx env io) s
      (fun _ s' => Tracked s₀ (p.access cfg env io)
        (C ∧ (io.Writes asCommand → p.status = some asStatusAsInactive)) s')
      (Failed s₀ (C ∧ (io.Writes asCommand → p.status = some asStatusAsInactive))) := by
  have hrest : ∀ {p : Polling} {C : Prop} {s' : ReplayState} (value : Nat), Tracked s₀ p C s' →
      Post (do
        onlyIf (io.offset = jsCommandNext) (jobSubmitted cfg env)
        onlyIf (io.offset = gpuCommand ∧ value = gpuCommandSoftReset)
          (grRegWrite .softReset gpuIrqMask 0x100)) s' (fun _ s' => Tracked s₀ p C s')
        (Failed s₀ C) := by
    intro p C s' value hs'
    have hsubmit : ∀ e : Event, e = .waitJobIrq → e.Silent := by
      rintro e rfl
      exact ⟨rfl, fun v hv => Event.noConfusion hv⟩
    refine (hs'.emits (emits_onlyIf fun _ => emits_jobSubmitted cfg env)
      (moves_onlyIf fun _ => moves_jobSubmitted cfg env) hsubmit).seq fun _ s'' hs'' => ?_
    unfold onlyIf
    split
    · exact hs''.write fun hsite => Site.noConfusion hsite
    · exact Post.pure hs''
  unfold Replayer.replayWrite
  by_cases hcommand : io.offset = asCommand
  · have hprepare : prepareWrite cfg rctx env io = pure io.value := by
      unfold prepareWrite
      rw [hcommand]
      rfl
    have haccess : p.access cfg env io = p := by
      unfold Polling.access
      rw [if_neg hwrite, hcommand]
      exact if_neg fun h => absurd h.1 (by decide)
    have hdone : grRegWrite .entry io.offset io.value s =
        .ok () (s.emit (.write .entry io.offset io.value)) := by
      rw [hcommand]
      exact if_pos (by decide)
    have hright := h.command io.value
    rw [← hcommand] at hright
    have hcond : p.status = some asStatusAsInactive ↔
        (io.Writes asCommand → p.status = some asStatusAsInactive) :=
      (imp_iff_right (show io.Writes asCommand from ⟨hwrite, hcommand⟩)).symm
    rw [hprepare, haccess, ← hcond]
    exact Post.bind (Post.pure (Post.bind (Post.of_eq_ok hdone (hrest io.value hright))))
  · have hC : (C ∧ (io.Writes asCommand → p.status = some asStatusAsInactive)) ↔ C :=
      and_iff_left fun hw => absurd hw.2 hcommand
    rw [hC]
    refine (h.prepare cfg rctx env hwrite).seq fun value s₁ h₁ => ?_
    exact (h₁.write fun _ => hcommand).seq fun _ s₂ h₂ => hrest value h₂

theorem Tracked.compareRegs (env : Env) :
    ∀ offsets ret (p : Polling) (s : ReplayState), Tracked s₀ p C s →
      Post (compareRegs env offsets ret) s
        (fun _ s' => Tracked s₀ (offsets.foldl (Polling.look env) p) C s') (Failed s₀ C) := by
  intro offsets
  induction offsets with
  | nil => exact fun ret p s h => Post.pure h
  | cons offset offsets ih =>
      intro ret p s h
      refine (h.read env .validate offset).seq fun value s₁ h₁ => ?_
      split
      · exact ih ret _ s₁ h₁.2
      refine Post.bind (Post.get ?_)
      dsimp only
      split
      · refine Post.bind (Post.of_eq_ok rfl (ih 0 _ _ (h₁.2.silent _ (fun e he => ?_) rfl rfl)))
        rw [List.mem_singleton.mp he]
        exact ⟨rfl, fun v hv => Event.noConfusion hv⟩
      · exact ih ret _ s₁ h₁.2

/-- The check after an entry reads every register, or none. -/
theorem Tracked.validate (h : Tracked s₀ p C s) (env : Env) (io : RegIo) (i : Nat) :
    Post (validateEntry env io i) s
      (fun _ s' => Tracked s₀
        (if io.NotCompared then p else regOffsets.foldl (Polling.look env) p) C s')
      (Failed s₀ C) := by
  by_cases hskip : io.NotCompared
  · rw [if_pos hskip]
    exact h.emits (quiet_validateEntry env i hskip) (moves_validateEntry env io i)
      fun _ => False.elim
  · have hreport : ∀ {e : Event}, e.answers = 0 → e.Validating → ∀ {c : Prop} [Decidable c]
        {p : Polling} {s : ReplayState}, Tracked s₀ p C s →
        Post (onlyIf c (emit e)) s (fun _ s' => Tracked s₀ p C s') (Failed s₀ C) := by
      intro e hanswers hcheck c _ p s hs
      refine hs.emits (q := (· = e)) (emits_onlyIf fun _ => emits_emit rfl)
        (moves_onlyIf fun _ => moves_emit hcheck hanswers) fun e' he' => ?_
      rw [he']
      refine ⟨hanswers, fun v hv => ?_⟩
      rw [hv] at hcheck
      exact hcheck
    rw [if_neg hskip]
    unfold validateEntry grIsSameRegmap
    rw [if_neg fun h => hskip (.inl h), if_neg fun h => hskip (.inr h)]
    rw [show (List.range (gpuRegPaSize / 4)).map (4 * ·) = regOffsets from rfl]
    generalize regOffsets = offsets
    refine Post.seq (Q := fun _ s' => Tracked s₀ (offsets.foldl (Polling.look env) p) C s') ?_
      fun _ s' hs' => hreport (e := .validationFailed) rfl trivial hs'
    refine Post.bind (Post.of_eq_ok rfl ?_)
    refine Post.seq (Tracked.compareRegs env offsets 1 p _ (h.same ?_ ?_)) fun ret s' hs' => ?_
    · rfl
    · rfl
    · have hgiven := hreport (e := .givenCmd i io.offset io.value) rfl trivial (c := ret = 0) hs'
      exact hgiven.seq fun _ _ hs'' => Post.pure hs''

/-- **An entry that is reached** takes the answers the log says, and what it does is right exactly
if they are in time. -/
theorem Tracked.entry (h : Tracked s₀ p C s) (cfg : ReplayConfig) (rctx : ReplayContext)
    (env : Env) (i : Nat) (io : RegIo) :
    Post (replayEntry cfg rctx env i io) s
      (fun _ s' => Tracked s₀ (p.entry cfg env io) (C ∧ AnsweredFor env p io) s')
      (Ended s₀ (C ∧ AnsweredFor env p io)) := by
  unfold replayEntry
  refine Post.seq (Q := fun _ s' => Tracked s₀ (p.access cfg env io) (C ∧ AnsweredFor env p io) s')
    ?_ fun _ s' hs' => ?_
  · by_cases hread : io.isRead = 'R'
    · have hcond : (io.Waits → ¬InactiveTooLate env (p.taken + 1)) ↔ AnsweredFor env p io :=
        (and_iff_right fun hw : io.Writes asCommand => absurd hread hw.1).symm
      rw [if_pos hread]
      refine (h.replayRead cfg env hread).mono ?_ fun e s' hs' =>
        hs'.congr (and_congr_right fun _ => hcond)
      rintro _ s' ⟨hs', hwait⟩
      exact hs'.congr (and_iff_left (hcond.mp hwait)).symm
    · have hcond : (io.Writes asCommand → p.status = some asStatusAsInactive) ↔
          AnsweredFor env p io := (and_iff_left fun hw : io.Waits => absurd hw.1 hread).symm
      rw [if_neg hread, ← hcond]
      exact (h.replayWrite cfg rctx env hread).mono (fun _ _ hs' => hs') fun _ _ hs' => hs'.ended
  · unfold Polling.entry onlyIf
    by_cases hvalidate : cfg.isValidate = true
    · rw [if_pos hvalidate]
      refine (hs'.validate env io i).mono (fun _ s'' hs'' => ?_) fun _ _ hs'' => hs''.ended
      by_cases hskip : io.NotCompared
      · rw [if_neg fun h => h.2 hskip]
        rwa [if_pos hskip] at hs''
      · rw [if_pos ⟨hvalidate, hskip⟩]
        rwa [if_neg hskip] at hs''
    · rw [if_neg hvalidate, if_neg fun h => hvalidate h.1]
      exact Post.pure hs'

/-! ### The run -/

/-- Whether the answers are in time, in the loop from `s₁` on. -/
def LoopInTime (cfg : ReplayConfig) (rctx : ReplayContext) (env : Env) (p : Polling)
    (s₁ : ReplayState) (log : List RegIo) : Prop :=
  EachAfter (fun done io => (∃ s', replayEntries cfg rctx env 0 done s₁ = .ok () s') →
    AnsweredFor env (p.entries cfg env done) io) log

theorem Tracked.entries (h : Tracked s₀ p True s) (cfg : ReplayConfig) (rctx : ReplayContext)
    (env : Env) (log : List RegIo) :
    Post (replayEntries cfg rctx env 0 log) s
      (fun _ s' => Tracked s₀ (p.entries cfg env log) (LoopInTime cfg rctx env p s log) s')
      (Ended s₀ (LoopInTime cfg rctx env p s log)) := by
  induction log using List.reverseRecOn with
  | nil => exact Post.pure (h.congr (iff_of_true trivial EachAfter.nil))
  | append_singleton log io ih =>
      have hsnoc : LoopInTime cfg rctx env p s (log ++ [io]) ↔ LoopInTime cfg rctx env p s log ∧
          ((∃ s', replayEntries cfg rctx env 0 log s = .ok () s') →
            AnsweredFor env (p.entries cfg env log) io) := EachAfter.snoc_iff
      rw [replayEntries_append, hsnoc]
      cases hrun : replayEntries cfg rctx env 0 log s with
      | error e s' =>
          -- the entry is not reached
          refine Post.of_eq_error (EStateM.bind_eq_of_error hrun) ((ih.error hrun).congr ?_)
          refine (and_iff_left ?_).symm
          rintro ⟨s'', hs''⟩
          cases hs''
      | ok u s' =>
          have hlast := (ih.ok hrun).entry cfg rctx env (0 + log.length) io
          have hcond : ((∃ s'', (.ok u s' : EStateM.Result Stop ReplayState Unit) = .ok () s'') →
              AnsweredFor env (p.entries cfg env log) io) ↔
              AnsweredFor env (p.entries cfg env log) io := imp_iff_right ⟨s', rfl⟩
          have hall : p.entries cfg env (log ++ [io]) = (p.entries cfg env log).entry cfg env io := by
            unfold Polling.entries
            rw [List.foldl_append]
            rfl
          rw [hcond, hall]
          refine Post.bind (Post.of_eq_ok hrun ?_)
          exact hlast.seq fun _ _ hs'' => Post.pure hs''

/-- The state the loop of a run starts in. -/
def ReplayState.started (s : ReplayState) : ReplayState :=
  { s with jobSubmitCnt := 1, compTime := 0, clocks := s.clocks + 1 }

theorem grReplayRun_eq (cfg : ReplayConfig) (rctx : ReplayContext) (env : Env) (log : List RegIo)
    (s : ReplayState) : ∃ g : ReplayState → ReplayState, (∀ s, (g s).trace = s.trace) ∧
      grReplayRun cfg rctx env log s =
        (do replayEntries cfg rctx env 0 log; modify g : Replay Unit) s.started :=
  ⟨fun s' => { s' with
    totPrepTime := (s'.totPrepTime + (s'.tsPrepEnd + 2 ^ 32 - env.clock s.clocks % 2 ^ 32)) % 2 ^ 32
    totCompTime := (s'.totCompTime + (s'.tsCompEnd + 2 ^ 32 - s'.tsCompStart)) % 2 ^ 32 },
    fun _ => rfl, rfl⟩

/-- A run returns when its loop does. -/
theorem grReplayRun_returns {cfg : ReplayConfig} {rctx : ReplayContext} {env : Env}
    {log : List RegIo} {s : ReplayState} :
    (∃ s', grReplayRun cfg rctx env log s = .ok () s') ↔
      ∃ s', replayEntries cfg rctx env 0 log s.started = .ok () s' := by
  obtain ⟨g, -, hrun⟩ := grReplayRun_eq cfg rctx env log s
  rw [hrun]
  constructor
  · rintro ⟨s', hs'⟩
    obtain ⟨_, s₂, hloop, -⟩ := EStateM.bind_eq_ok.mp hs'
    exact ⟨s₂, hloop⟩
  · rintro ⟨s₂, hs₂⟩
    exact ⟨g s₂, EStateM.bind_eq_ok.mpr ⟨(), s₂, hs₂, rfl⟩⟩

/-- **Each command from the log is written after a status that was inactive, and the wait
gives up only on reads of which none was, if and only if the hardware's answers are in
time.** -/
theorem grReplayRun_commands (cfg : ReplayConfig) (rctx : ReplayContext) (env : Env)
    (log : List RegIo) (s : ReplayState) :
    Post (grReplayRun cfg rctx env log) s
      (fun _ s' => CommandsInactive (s.ran s') ↔ AnswersInTime cfg rctx env log s)
      (fun e s' => (CommandsInactive (s.ran s') ∧ (e = asActiveStuck → NeverInactive (s.ran s'))) ↔
        AnswersInTime cfg rctx env log s) := by
  have htime : AnswersInTime cfg rctx env log s ↔
      LoopInTime cfg rctx env ⟨s.reads, none⟩ s.started log := by
    unfold AnswersInTime LoopInTime EachAfter
    simp only [grReplayRun_returns]
  have hstart : Tracked s ⟨s.reads, none⟩ True s.started :=
    ⟨[], (List.append_nil _).symm, rfl, rfl, iff_of_true EachAfter.nil trivial⟩
  obtain ⟨g, htraces, hrun⟩ := grReplayRun_eq cfg rctx env log s
  rw [htime]
  unfold Post
  rw [hrun]
  refine Post.seq (s := s.started) ((hstart.entries cfg rctx env log).mono (fun _ _ h => h) ?_) ?_
  · rintro e s' ⟨events, htrace, hiff⟩
    rw [ReplayState.ran_eq htrace]
    exact hiff
  · rintro _ s' ⟨events, htrace, -, -, hiff⟩
    refine Post.of_eq_ok rfl ?_
    rw [ReplayState.ran_eq ((htraces s').trans htrace)]
    exact hiff

/-- A poll recorded active, one recorded inactive, and the command after them. -/
def polledCommand : List RegIo :=
  [⟨0, 'R', asStatus, 1⟩, ⟨1, 'R', asStatus, 0⟩, ⟨2, 'W', asCommand, 2⟩]

theorem polledCommand_waited : WaitedLog polledCommand := by
  refine ((EachAfter.nil.snoc fun hwrite => absurd rfl hwrite).snoc
    fun hwrite => absurd rfl hwrite).snoc fun _ _ => ?_
  exact Or.inr ⟨rfl, rfl⟩

/-- Hardware that is busy for two reads. -/
def busyTwice : Env := answering fun n => if n < 2 then 1 else 0

/-- **The wait reads until it finds the address space idle**, and the command is right. -/
theorem grReplayRun_commands_waited :
    WaitedLog polledCommand ∧
    AnswersInTime plainConfig blankContext busyTwice polledCommand blankState ∧
    ∃ s', grReplayRun plainConfig blankContext busyTwice polledCommand blankState = .ok () s' ∧
      blankState.ran s' = [.read .entry asStatus 1, .read .wait asStatus 1,
        .read .wait asStatus 0, .read .entry asStatus 0, .write .entry asCommand 2] ∧
      CommandsInactive (blankState.ran s') := by
  have htime : AnswersInTime plainConfig blankContext busyTwice polledCommand blankState := by
    refine ((EachAfter.nil.snoc fun _ => ⟨fun h => absurd rfl h.1, fun _ h => ?_⟩).snoc
      fun _ => ⟨fun h => absurd rfl h.1, fun h => ?_⟩).snoc fun _ => ⟨fun _ => rfl, fun h => ?_⟩
    · exact absurd h.1 (by decide)
    · exact h.1 1 (by decide) rfl
    · exact absurd h.2.2 (by decide)
  exact ⟨polledCommand_waited, htime, _, rfl, rfl,
    ((grReplayRun_commands plainConfig blankContext busyTwice polledCommand blankState).ok rfl).mpr
      htime⟩

/-- A command after a poll recorded inactive, on hardware that is busy: the command is written
all the same. -/
theorem command_while_active :
    WaitedLog [⟨0, 'R', asStatus, 0⟩, ⟨1, 'W', asCommand, 2⟩] ∧
    ¬Post (grReplayRun plainConfig blankContext (answering fun _ => 1)
      [⟨0, 'R', asStatus, 0⟩, ⟨1, 'W', asCommand, 2⟩]) blankState
      (fun _ s' => CommandsInactive (blankState.ran s'))
      (fun _ s' => CommandsInactive (blankState.ran s')) := by
  refine ⟨(EachAfter.nil.snoc fun hwrite => absurd rfl hwrite).snoc fun _ _ =>
    Or.inr ⟨rfl, rfl⟩, fun h => ?_⟩
  have hran := h.ok rfl
  have hstatus := hran [.read .entry asStatus 1] (.write .entry asCommand 2) [] rfl 2 rfl
  exact absurd (Option.some.inj hstatus) Nat.one_ne_zero

end GpuReplay.Replayer
