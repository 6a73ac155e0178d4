/-
Waiting for the jobs one by one.

`is_job_irq` counts runs of the handler, not jobs.  A run that finds `JOB_IRQ_STATUS` zero,
for another device on the line, counts as well, and from then on every wait is one job early.

Without such runs the count is a handshake: each job goes through the phases of `Phase`, in
their order, and everything else is determined by the phase.
-/
import GpuReplay.Lib.Run
import GpuReplay.NanoDriver.Irq

namespace GpuReplay.NanoDriver

/-- The handler and the poll need nobody else to let the wait return. -/
def CanReturn (s : IrqState) : Prop :=
  ∃ (steps : List IrqStep) (s' : IrqState), (∀ e ∈ steps, e = .handler ∨ e = .poll) ∧
    steps.foldlM irqStep s = some s' ∧ s'.returned = s.returned + 1

/-- The waits follow the jobs: none returned before its job's bit was set and cleared, the
count is not negative, and the wait for a job that was acknowledged has returned or can. -/
structure InSync (s : IrqState) : Prop where
  returned : ∀ k < s.returned, s.jobs[k]? = some .cleared
  nonneg : 0 ≤ s.isJobIrq
  acknowledged : ∀ k, s.jobs[k]? = some .cleared →
    k < s.returned ∨ (k = s.returned ∧ CanReturn s)

/-- The handler does not find `JOB_IRQ_STATUS` zero. -/
def OwnInterrupt (s : IrqState) (e : IrqStep) : Prop :=
  e = .handler → s.handler = .entered → s.status ≠ 0

/-! ### The handshake -/

/-- What has happened to the job waited for. -/
inductive Phase
  | ready
  | running
  | raised (failed : Bool)
  | cleared
  | counted

namespace Phase

/-- The job waited for. -/
def last : Phase → List JobState
  | ready => []
  | running => [.running]
  | raised failed => [.raised failed]
  | cleared => [.cleared]
  | counted => [.cleared]

def bits : Phase → Nat
  | raised failed => completionBit failed
  | _ => 0

def count : Phase → Int
  | counted => 1
  | _ => 0

/-- Where the handler may be. -/
def Handling : Phase → Handler → Prop
  | raised failed, h => h = .idle ∨ h = .entered ∨ h = .loop (completionBit failed)
  | cleared, h => h = .reread ∨ h = .loop 0
  | _, h => h = .idle ∨ h = .entered

/-- Where the replayer may be. -/
def Waiting : Phase → Waiter → Prop
  | ready, w => w = .ready
  | counted, w => w = .waiting ∨ w = .taking
  | _, w => w = .waiting

structure Holds (p : Phase) (s : IrqState) : Prop where
  jobs : s.jobs = List.replicate s.returned .cleared ++ p.last
  rawstat : s.rawstat = p.bits
  isJobIrq : s.isJobIrq = p.count
  handler : p.Handling s.handler
  waiter : p.Waiting s.waiter

end Phase

variable {s s' : IrqState} {p : Phase}

theorem holds_init : Phase.ready.Holds IrqState.init where
  jobs := rfl
  rawstat := rfl
  isJobIrq := rfl
  handler := Or.inl rfl
  waiter := rfl

/-! ### What a completion bit is -/

theorem completionBit_ne_zero (failed : Bool) : completionBit failed ≠ 0 := by
  cases failed <;> decide

theorem completionBit_status (failed : Bool) :
    completionBit failed &&& jobIrqMask = completionBit failed := by
  cases failed <;> decide

/-- The loop of the handler takes the bit, whichever of the two it is. -/
theorem doneBits_completionBit (failed : Bool) :
    doneBits (completionBit failed) = completionBit failed := by
  cases failed <;> decide

theorem completionBit_clear (failed : Bool) :
    completionBit failed &&& (completionBit failed ^^^ 0xffffffff) = 0 := by
  cases failed <;> decide

/-! ### One step -/

namespace Phase.Holds

/-- A job is started when the one before has been waited for. -/
theorem submit (h : p.Holds s) (hstep : irqStep s .submit = some s') : ∃ p' : Phase, p'.Holds s' := by
  unfold irqStep at hstep
  dsimp only at hstep
  split at hstep
  case isFalse => exact absurd hstep.symm (Option.some_ne_none _)
  case isTrue hready =>
    obtain rfl := Option.some.inj hstep
    have hwaiter := h.waiter
    rw [hready] at hwaiter
    cases p with
    | ready => exact ⟨.running, ⟨by simp [h.jobs, last], h.rawstat, h.isJobIrq, h.handler, rfl⟩⟩
    | running => cases hwaiter
    | raised failed => cases hwaiter
    | cleared => cases hwaiter
    | counted => rcases hwaiter with h | h <;> cases h

/-- Only the job waited for can be running. -/
theorem of_running (h : p.Holds s) {k : Nat} (hk : s.jobs[k]? = some .running) :
    p = .running ∧ k = s.returned := by
  rw [h.jobs] at hk
  by_cases hlt : k < s.returned
  · rw [List.getElem?_append_left (by simpa using hlt), List.getElem?_replicate, if_pos hlt] at hk
    cases Option.some.inj hk
  · rw [List.getElem?_append_right (by simpa using hlt), List.length_replicate] at hk
    cases p with
    | ready => exact absurd hk.symm (Option.some_ne_none _)
    | running =>
        obtain ⟨hi, -⟩ := List.getElem?_eq_some_iff.mp hk
        simp only [last, List.length_singleton] at hi
        exact ⟨rfl, by omega⟩
    | raised failed => cases hi : k - s.returned <;> simp [hi, last] at hk
    | cleared => cases hi : k - s.returned <;> simp [hi, last] at hk
    | counted => cases hi : k - s.returned <;> simp [hi, last] at hk

theorem complete (h : p.Holds s) {k : Nat} {failed : Bool}
    (hstep : irqStep s (.complete k failed) = some s') : ∃ p' : Phase, p'.Holds s' := by
  unfold irqStep at hstep
  dsimp only at hstep
  split at hstep
  case isFalse => exact absurd hstep.symm (Option.some_ne_none _)
  case isTrue hrunning =>
    obtain rfl := Option.some.inj hstep
    obtain ⟨rfl, rfl⟩ := h.of_running hrunning
    refine ⟨.raised failed, ⟨?_, ?_, h.isJobIrq, h.handler.imp_right Or.inl, h.waiter⟩⟩
    · simp [h.jobs, last]
    · simp [h.rawstat, bits]

theorem line (h : p.Holds s) (hstep : irqStep s .line = some s') : ∃ p' : Phase, p'.Holds s' := by
  unfold irqStep at hstep
  dsimp only at hstep
  split at hstep
  case isFalse => exact absurd hstep.symm (Option.some_ne_none _)
  case isTrue hidle =>
    obtain rfl := Option.some.inj hstep
    refine ⟨p, ⟨h.jobs, h.rawstat, h.isJobIrq, ?_, h.waiter⟩⟩
    have hhandler := h.handler
    rw [hidle] at hhandler
    cases p with
    | ready => exact Or.inr rfl
    | running => exact Or.inr rfl
    | raised failed => exact Or.inr (Or.inl rfl)
    | cleared => rcases hhandler with h | h <;> cases h
    | counted => exact Or.inr rfl

/-- The clearing write acknowledges the job. -/
theorem irqClear {failed : Bool} (h : (Phase.raised failed).Holds s) :
    Phase.cleared.Holds { s.irqClear (doneBits (completionBit failed)) with handler := .reread } := by
  refine ⟨?_, ?_, h.isJobIrq, Or.inl rfl, h.waiter⟩
  · simp [IrqState.irqClear, h.jobs, last, JobState.clear, doneBits_completionBit,
      completionBit_ne_zero]
  · simp only [IrqState.irqClear, h.rawstat, bits, doneBits_completionBit, completionBit_clear]

/-- **The handler**: it clears the bit, finds no other, and counts. -/
theorem handlerStep (h : p.Holds s) (hown : OwnInterrupt s .handler)
    (hstep : irqStep s .handler = some s') : ∃ p' : Phase, p'.Holds s' := by
  have hhandler := h.handler
  obtain ⟨next, hnext, rfl⟩ := Option.map_eq_some_iff.mp hstep
  unfold grJobIrqHandler at hnext
  split at hnext
  case h_1 => exact absurd hnext.symm (Option.some_ne_none _)
  case h_2 hentered =>
    obtain rfl := Option.some.inj hnext
    have hstatus := hown rfl hentered
    unfold IrqState.status at hstatus
    rw [h.rawstat] at hstatus
    cases p with
    | raised failed =>
        refine ⟨.raised failed, ⟨h.jobs, h.rawstat, h.isJobIrq, ?_, h.waiter⟩⟩
        have hloop : s.status = completionBit failed := by
          rw [IrqState.status, h.rawstat]
          exact completionBit_status failed
        exact Or.inr (Or.inr (congrArg Handler.loop hloop))
    | ready => exact absurd rfl hstatus
    | running => exact absurd rfl hstatus
    | cleared => exact absurd rfl hstatus
    | counted => exact absurd rfl hstatus
  case h_3 done hloop =>
    rw [hloop] at hhandler
    cases p with
    | raised failed =>
        have hdone : done = completionBit failed := by simpa [Handling] using hhandler
        rw [if_pos (hdone ▸ completionBit_ne_zero failed)] at hnext
        obtain rfl := Option.some.inj hnext
        exact ⟨.cleared, hdone ▸ h.irqClear⟩
    | cleared =>
        have hdone : done = 0 := by simpa [Handling] using hhandler
        rw [if_neg (not_not.mpr hdone)] at hnext
        obtain rfl := Option.some.inj hnext
        refine ⟨.counted, ⟨h.jobs, h.rawstat, ?_, Or.inl rfl, Or.inl h.waiter⟩⟩
        simp only [h.isJobIrq, count]
        decide
    | ready => rcases hhandler with h | h <;> cases h
    | running => rcases hhandler with h | h <;> cases h
    | counted => rcases hhandler with h | h <;> cases h
  case h_4 hreread =>
    obtain rfl := Option.some.inj hnext
    rw [hreread] at hhandler
    cases p with
    | cleared =>
        exact ⟨.cleared, ⟨h.jobs, h.rawstat, h.isJobIrq,
          Or.inr (congrArg Handler.loop h.rawstat), h.waiter⟩⟩
    | ready => rcases hhandler with h | h <;> cases h
    | running => rcases hhandler with h | h <;> cases h
    | raised failed => rcases hhandler with h | h | h <;> cases h
    | counted => rcases hhandler with h | h <;> cases h

/-- The counter is not zero for the job waited for only. -/
theorem counted_of_ne_zero (h : p.Holds s) (hne : s.isJobIrq ≠ 0) : p = .counted := by
  rw [h.isJobIrq] at hne
  cases p with
  | counted => rfl
  | ready => exact absurd rfl hne
  | running => exact absurd rfl hne
  | raised failed => exact absurd rfl hne
  | cleared => exact absurd rfl hne

theorem counted_of_taking (h : p.Holds s) (htaking : s.waiter = .taking) : p = .counted := by
  have hwaiter := h.waiter
  rw [htaking] at hwaiter
  cases p with
  | counted => rfl
  | ready => cases hwaiter
  | running => cases hwaiter
  | raised failed => cases hwaiter
  | cleared => cases hwaiter

theorem poll (h : p.Holds s) (hstep : irqStep s .poll = some s') : ∃ p' : Phase, p'.Holds s' := by
  change jobIrqPoll s = some s' at hstep
  unfold jobIrqPoll at hstep
  split at hstep
  case h_1 => exact absurd hstep.symm (Option.some_ne_none _)
  case h_2 hwaiting =>
    obtain rfl := Option.some.inj hstep
    by_cases hne : s.isJobIrq ≠ 0
    · obtain rfl := h.counted_of_ne_zero hne
      rw [if_pos hne]
      exact ⟨.counted, ⟨h.jobs, h.rawstat, h.isJobIrq, h.handler, Or.inr rfl⟩⟩
    · rw [if_neg hne]
      exact ⟨p, h⟩
  case h_3 htaking =>
    obtain rfl := Option.some.inj hstep
    obtain rfl := h.counted_of_taking htaking
    refine ⟨.ready, ⟨?_, h.rawstat, ?_, h.handler, rfl⟩⟩
    · rw [h.jobs, List.replicate_succ']
      exact (List.append_nil _).symm
    · simp only [h.isJobIrq, count]
      decide

/-- **The handshake goes on**, as long as the handler runs for jobs. -/
theorem step (h : p.Holds s) {e : IrqStep} (hown : OwnInterrupt s e)
    (hstep : irqStep s e = some s') : ∃ p' : Phase, p'.Holds s' := by
  cases e with
  | submit => exact h.submit hstep
  | complete k failed => exact h.complete hstep
  | line => exact h.line hstep
  | handler => exact h.handlerStep hown hstep
  | poll => exact h.poll hstep

end Phase.Holds

/-! ### What the phases say -/

/-- A step of the handler or of the poll on the way to the return. -/
theorem CanReturn.of_step {e : IrqStep} (he : e = .handler ∨ e = .poll)
    (hstep : irqStep s e = some s') (hsame : s'.returned = s.returned) (h : CanReturn s') :
    CanReturn s := by
  obtain ⟨steps, last, hsteps, hrun, hreturned⟩ := h
  refine ⟨e :: steps, last, ?_, ?_, hsame ▸ hreturned⟩
  · intro e' he'
    rcases List.mem_cons.mp he' with rfl | he'
    · exact he
    · exact hsteps e' he'
  · rw [List.foldlM_cons, hstep]
    exact hrun

namespace Phase.Holds

theorem canReturn_taking (htaking : s.waiter = .taking) : CanReturn s := by
  refine ⟨[.poll], { s with isJobIrq := atomicAdd s.isJobIrq (-1), waiter := .ready,
                            returned := s.returned + 1 },
    fun e he => Or.inr (List.mem_singleton.mp he), ?_, rfl⟩
  simp only [List.foldlM_cons, irqStep, jobIrqPoll, htaking]
  rfl

/-- In the last phase the poll finds the count. -/
theorem canReturn_counted (h : Phase.counted.Holds s) : CanReturn s := by
  rcases h.waiter with hwaiting | htaking
  · have hne : s.isJobIrq ≠ 0 := by simp [h.isJobIrq, count]
    have hstep : irqStep s .poll = some { s with waiter := .taking } := by
      simp only [irqStep, jobIrqPoll, hwaiting, if_pos hne]
    exact .of_step (Or.inr rfl) hstep rfl (canReturn_taking rfl)
  · exact canReturn_taking htaking

/-- In the phase before, the handler has only to leave its loop. -/
theorem canReturn_cleared (h : Phase.cleared.Holds s) : CanReturn s := by
  have hleave : ∀ s : IrqState, Phase.cleared.Holds s → s.handler = .loop 0 → CanReturn s := by
    intro s h hloop
    have hstep : irqStep s .handler =
        some { s with isJobIrq := atomicAdd s.isJobIrq 1, handler := .idle } := by
      simp only [irqStep, grJobIrqHandler, hloop, if_neg (not_not.mpr rfl), Option.map_some]
    refine .of_step (Or.inl rfl) hstep rfl (canReturn_counted ?_)
    refine ⟨h.jobs, h.rawstat, ?_, Or.inl rfl, Or.inl h.waiter⟩
    simp only [h.isJobIrq, count]
    decide
  rcases h.handler with hreread | hloop
  · have hstep : irqStep s .handler = some { s with handler := .loop 0 } := by
      simp only [irqStep, grJobIrqHandler, hreread, h.rawstat, bits, IrqState.readDone,
        Option.map_some]
    refine .of_step (Or.inl rfl) hstep rfl (hleave _ ?_ rfl)
    exact ⟨h.jobs, h.rawstat, h.isJobIrq, Or.inr rfl, h.waiter⟩
  · exact hleave s h hloop

theorem inSync (h : p.Holds s) : InSync s where
  returned := by
    intro k hk
    rw [h.jobs, List.getElem?_append_left (by simpa using hk), List.getElem?_replicate, if_pos hk]
  nonneg := by
    rw [h.isJobIrq]
    cases p <;> simp [count]
  acknowledged := by
    intro k hk
    by_cases hlt : k < s.returned
    · exact Or.inl hlt
    right
    rw [h.jobs, List.getElem?_append_right (by simpa using hlt), List.length_replicate] at hk
    obtain ⟨hi, hlast⟩ := List.getElem?_eq_some_iff.mp hk
    cases p with
    | ready => exact absurd hi (Nat.not_lt_zero _)
    | running => simp [last] at hlast
    | raised failed => simp [last] at hlast
    | cleared =>
        rw [last, List.length_singleton] at hi
        exact ⟨by omega, h.canReturn_cleared⟩
    | counted =>
        rw [last, List.length_singleton] at hi
        exact ⟨by omega, h.canReturn_counted⟩

end Phase.Holds

/-- **Where the handler runs for jobs only, the waits follow the jobs.** -/
theorem jobIrq_inSync (h : Reached irqStep (· = IrqState.init) OwnInterrupt s) : InSync s := by
  have hphase : ∃ p : Phase, p.Holds s := by
    refine h.invariant (P := fun s => ∃ p : Phase, p.Holds s) ?_ ?_
    · rintro s rfl
      exact ⟨.ready, holds_init⟩
    · rintro s e s' ⟨p, hp⟩ hown hstep
      exact hp.step hown hstep
  obtain ⟨p, hp⟩ := hphase
  exact hp.inSync

/-- A job is started, ends, and is waited for. -/
theorem jobIrq_inSync_one :
    ∃ s, [.submit, .complete 0 false, .line, .handler, .handler, .handler, .handler, .poll,
        .poll].foldlM irqStep IrqState.init = some s ∧ s.returned = 1 ∧ InSync s := by
  refine ⟨_, rfl, rfl, jobIrq_inSync ?_⟩
  have hown : ∀ s e, e ≠ .handler ∨ s.status ≠ 0 ∨ s.handler ≠ .entered → OwnInterrupt s e := by
    rintro s e (he | hs | hh) he' hh'
    · exact absurd he' he
    · exact hs
    · exact absurd hh' hh
  refine .next (e := .poll) (.next (e := .poll) (.next (e := .handler) (.next (e := .handler)
    (.next (e := .handler) (.next (e := .handler) (.next (e := .line) (.next (e := .complete 0 false)
    (.next (e := .submit) (.start rfl) ?_ rfl) ?_ rfl) ?_ rfl) ?_ rfl) ?_ rfl) ?_ rfl) ?_ rfl)
    ?_ rfl) ?_ rfl
  all_goals exact hown _ _ (by decide)

/-- Another device raises the line, and the wait returns while the job runs. -/
theorem otherDevice_not_inSync :
    ∃ s, [.submit, .line, .handler, .handler, .poll, .poll].foldlM irqStep IrqState.init = some s ∧
      ¬InSync s := by
  refine ⟨_, rfl, fun h => ?_⟩
  have hjob := h.returned 0 Nat.zero_lt_one
  cases Option.some.inj hjob

end GpuReplay.NanoDriver
