/-
What the handler acknowledges.

The handler clears what it has read, one slot at a time, until it reads zero.  A bit that comes
in between is left for a later turn, also where it is of the slot that is being cleared.

The number of turns is bounded by a count of slots.  Clearing a slot that was read in full takes
it off the count.  A bit that comes while its slot is about to be cleared keeps the slot on the
count, but the slot was on it already: such a bit pays for the turn it costs.  `pending` is the
count with what is about to be cleared taken off.
-/
import GpuReplay.Lib.Run
import GpuReplay.NanoDriver.Irq
import Mathlib.Data.Finset.Card
import Mathlib.Order.Interval.Finset.Nat

namespace GpuReplay.NanoDriver

/-- The done bit and the failed bit of a slot. -/
def slotMask (i : Nat) : Nat := (1 <<< i) ||| (1 <<< (i + 16))

/-- The slots with a bit set. -/
def slotsSet (x : Nat) : Finset Nat :=
  (Finset.range 16).filter fun i => x.testBit i ∨ x.testBit (i + 16)

/-! ### The bits of a slot -/

theorem testBit_slotMask (i j : Nat) : (slotMask i).testBit j = decide (j = i ∨ j = i + 16) := by
  unfold slotMask
  rw [Nat.testBit_or, Nat.one_shiftLeft, Nat.one_shiftLeft, Nat.testBit_two_pow,
    Nat.testBit_two_pow, Bool.decide_or]
  simp only [eq_comm]

/-- `ffs` finds a bit that is set. -/
theorem ffs_spec {x : Nat} (hne : x ≠ 0) (hlt : x < 2 ^ 32) :
    ∃ i, ffs x = i + 1 ∧ x.testBit i = true := by
  unfold ffs
  cases hfind : (List.range 32).find? fun i => x.testBit i with
  | some i => exact ⟨i, rfl, List.find?_some (p := fun i => x.testBit i) hfind⟩
  | none =>
      obtain ⟨i, hi⟩ := Nat.exists_testBit_of_ne_zero hne
      have hrange : i < 32 := by
        by_contra hge
        have hbig : x < 2 ^ i := Nat.lt_of_lt_of_le hlt (Nat.pow_le_pow_right (by decide) (by omega))
        rw [Nat.testBit_lt_two_pow hbig] at hi
        exact Bool.false_ne_true hi
      exact absurd hi (List.find?_eq_none.mp hfind i (List.mem_range.mpr hrange))

/-- **What is cleared**: the bits read of one slot. -/
theorem doneBits_eq {done : Nat} (hne : done ≠ 0) (hlt : done < 2 ^ 32) :
    ∃ i < 16, doneBits done = done &&& slotMask i ∧
      (done.testBit i = true ∨ done.testBit (i + 16) = true) := by
  have hbit : ∀ j, ((done &&& 0xffff) ||| (done >>> 16)).testBit j =
      ((done.testBit j && decide (j < 16)) || done.testBit (j + 16)) := by
    intro j
    rw [Nat.testBit_or, Nat.testBit_and, Nat.testBit_shiftRight, Nat.add_comm 16 j,
      show (0xffff : Nat) = 2 ^ 16 - 1 from rfl, Nat.testBit_two_pow_sub_one]
  have hhigh : ∀ j, 32 ≤ j → done.testBit j = false := fun j hj =>
    Nat.testBit_lt_two_pow (Nat.lt_of_lt_of_le hlt (Nat.pow_le_pow_right (by decide) hj))
  have hfinished : (done &&& 0xffff) ||| (done >>> 16) ≠ 0 := by
    obtain ⟨j, hj⟩ := Nat.exists_testBit_of_ne_zero hne
    intro hzero
    have hnone : ∀ k, ((done.testBit k && decide (k < 16)) || done.testBit (k + 16)) = false := by
      intro k
      rw [← hbit, hzero, Nat.zero_testBit]
    rcases Nat.lt_or_ge j 16 with hlow | hge
    · simpa [hj, hlow] using hnone j
    · have hk := hnone (j - 16)
      rw [Nat.sub_add_cancel hge, hj, Bool.or_true] at hk
      exact Bool.false_ne_true hk.symm
  have hsmall : (done &&& 0xffff) ||| (done >>> 16) < 2 ^ 32 :=
    Nat.or_lt_two_pow (Nat.lt_of_le_of_lt Nat.and_le_left hlt)
      (Nat.lt_of_le_of_lt (Nat.shiftRight_le done 16) hlt)
  obtain ⟨i, hffs, hi⟩ := ffs_spec hfinished hsmall
  rw [hbit] at hi
  have hslot : i < 16 := by
    by_contra hge
    rw [hhigh (i + 16) (by omega), Bool.or_false, decide_eq_false hge, Bool.and_false] at hi
    exact Bool.false_ne_true hi
  refine ⟨i, hslot, ?_, ?_⟩
  · unfold doneBits
    dsimp only
    rw [hffs]
    rfl
  · simpa [hslot] using hi

theorem mem_slotsSet {x i : Nat} :
    i ∈ slotsSet x ↔ i < 16 ∧ (x.testBit i = true ∨ x.testBit (i + 16) = true) := by
  simp [slotsSet]

/-- A bit adds no more than its slot. -/
theorem card_slotsSet_or (x bit : Nat) :
    (slotsSet (x ||| 1 <<< bit)).card ≤ (slotsSet x).card + 1 := by
  have hsub : slotsSet (x ||| 1 <<< bit) ⊆ insert (bit % 16) (slotsSet x) := by
    intro i hi
    obtain ⟨hlt, hbits⟩ := mem_slotsSet.mp hi
    rw [Finset.mem_insert, mem_slotsSet]
    simp only [Nat.testBit_or, Nat.one_shiftLeft, Nat.testBit_two_pow, Bool.or_eq_true,
      decide_eq_true_eq] at hbits
    by_cases heq : i = bit % 16
    · exact Or.inl heq
    · refine Or.inr ⟨hlt, ?_⟩
      rcases hbits with (h | h) | (h | h)
      · exact Or.inl h
      · exact absurd h (by omega)
      · exact Or.inr h
      · exact absurd h (by omega)
  exact (Finset.card_le_card hsub).trans (Finset.card_insert_le _ _)

/-- A mask takes one bit or leaves it. -/
theorem one_shiftLeft_and (bit mask : Nat) :
    1 <<< bit &&& mask = 0 ∨ 1 <<< bit &&& mask = 1 <<< bit := by
  rw [Nat.one_shiftLeft]
  cases hbit : mask.testBit bit with
  | false =>
      refine Or.inl (Nat.eq_of_testBit_eq fun j => ?_)
      rw [Nat.testBit_and, Nat.testBit_two_pow, Nat.zero_testBit]
      by_cases hj : bit = j
      · rw [← hj, hbit, Bool.and_false]
      · rw [decide_eq_false hj, Bool.false_and]
  | true =>
      refine Or.inr (Nat.eq_of_testBit_eq fun j => ?_)
      rw [Nat.testBit_and, Nat.testBit_two_pow]
      by_cases hj : bit = j
      · rw [← hj, hbit, Bool.and_true]
      · rw [decide_eq_false hj, Bool.false_and]

/-- What a write to `JOB_IRQ_CLEAR` leaves. -/
theorem testBit_irqClear (x mask : Nat) {j : Nat} (hj : j < 32) :
    (x &&& (mask ^^^ 0xffffffff)).testBit j = (x.testBit j && !mask.testBit j) := by
  rw [Nat.testBit_and, Nat.testBit_xor, show (0xffffffff : Nat) = 2 ^ 32 - 1 from rfl,
    Nat.testBit_two_pow_sub_one, decide_eq_true hj, Bool.xor_true]

/-- A slot that was read in full is taken off the count. -/
theorem card_slotsSet_clear {x : Nat} (hne : x ≠ 0) (hlt : x < 2 ^ 32) :
    (slotsSet (x &&& (doneBits x ^^^ 0xffffffff))).card + 1 ≤ (slotsSet x).card := by
  obtain ⟨i, hi, hbits, hset⟩ := doneBits_eq hne hlt
  refine Finset.card_lt_card (Finset.ssubset_iff_of_subset ?_ |>.mpr ⟨i, ?_, ?_⟩)
  · intro k hk
    obtain ⟨hk16, hk⟩ := mem_slotsSet.mp hk
    rw [testBit_irqClear _ _ (by omega), testBit_irqClear _ _ (by omega)] at hk
    simp only [Bool.and_eq_true] at hk
    exact mem_slotsSet.mpr ⟨hk16, hk.imp And.left And.left⟩
  · exact mem_slotsSet.mpr ⟨hi, hset⟩
  · intro hmem
    obtain ⟨-, hk⟩ := mem_slotsSet.mp hmem
    rw [testBit_irqClear _ _ (by omega), testBit_irqClear _ _ (by omega), hbits, Nat.testBit_and,
      Nat.testBit_and, testBit_slotMask, testBit_slotMask] at hk
    simp at hk

/-! ### One run -/

/-- What has been read and not yet acted on.  A handler that has returned has read zero. -/
def Handler.lastRead : Handler → List IrqAccess
  | .idle => [.read 0]
  | .entered => []
  | .loop done => [.read done]
  | .reread => []

/-- The accesses of a turn of the loop which has read `v`. -/
def turn (v : Nat) : List IrqAccess := [.read v, .clear (doneBits v)]

/-- The slots on the count, without what is about to be cleared, and that turn. -/
def IrqState.pending (s : IrqState) : Nat :=
  match s.handler with
  | .loop done =>
      if done ≠ 0 then (slotsSet (s.rawstat &&& (doneBits done ^^^ 0xffffffff))).card + 1
      else (slotsSet s.rawstat).card
  | _ => (slotsSet s.rawstat).card

/-- The handler is entered. -/
structure IrqRun.Entered (s : IrqRun) : Prop where
  handler : s.irq.handler = .entered
  rawstat : s.irq.rawstat < 2 ^ 32
  log : s.log = []

/-- Where a run has come to that has read `vs` in its turns. -/
structure IrqRun.After (s : IrqRun) (vs : List Nat) : Prop where
  rawstat : s.irq.rawstat < 2 ^ 32
  log : s.log = vs.flatMap turn ++ s.irq.handler.lastRead
  turns : ∀ v ∈ vs, v ≠ 0 ∧ v < 2 ^ 32
  observed : ∀ done, s.irq.handler = .loop done → done &&& s.irq.rawstat = done

/-- The statements the handler has executed. -/
def IrqRun.executed (s : IrqRun) : Nat :=
  s.log.length + if s.irq.handler = .idle then 1 else 0

/-- The bits raised in a run. -/
def raises (steps : List IrqRunStep) : Nat := steps.countP (· ≠ .handler)

variable {s s' : IrqRun} {vs : List Nat}

theorem IrqState.status_eq {irq : IrqState} (h : irq.rawstat < 2 ^ 32) : irq.status = irq.rawstat := by
  unfold IrqState.status
  rw [show jobIrqMask = 2 ^ 32 - 1 from rfl, Nat.and_two_pow_sub_one_eq_mod, Nat.mod_eq_of_lt h]

/-- A bit is raised. -/
theorem IrqRun.After.raise (h : s.After vs) {bit : Nat}
    (hstep : irqRunStep s (.raise bit) = some s') :
    s'.After vs ∧ s'.irq.pending ≤ s.irq.pending + 1 ∧ s'.executed = s.executed := by
  simp only [irqRunStep] at hstep
  split at hstep
  next hbit =>
    obtain rfl := Option.some.inj hstep
    have hcard := card_slotsSet_or s.irq.rawstat bit
    refine ⟨⟨?_, h.log, h.turns, fun done hdone => ?_⟩, ?_, rfl⟩
    · refine Nat.or_lt_two_pow h.rawstat ?_
      rw [Nat.one_shiftLeft]
      exact Nat.pow_lt_pow_right (by decide) hbit.2.1
    · rw [Nat.and_or_distrib_left, h.observed done hdone]
      apply Nat.eq_of_testBit_eq
      intro j
      simp only [Nat.testBit_or, Nat.testBit_and]
      cases done.testBit j <;> simp
    · unfold IrqState.pending
      dsimp only
      cases hhandler : s.irq.handler with
      | loop done =>
          dsimp only
          split
          · -- the mask takes the bit, or it is one more
            have hsplit : (s.irq.rawstat ||| 1 <<< bit) &&& (doneBits done ^^^ 0xffffffff) =
                (s.irq.rawstat &&& (doneBits done ^^^ 0xffffffff)) |||
                  (1 <<< bit &&& (doneBits done ^^^ 0xffffffff)) := Nat.and_or_distrib_right ..
            rw [hsplit]
            rcases one_shiftLeft_and bit (doneBits done ^^^ 0xffffffff) with hone | hone
            · rw [hone, Nat.or_zero]
              omega
            · rw [hone]
              have := card_slotsSet_or (s.irq.rawstat &&& (doneBits done ^^^ 0xffffffff)) bit
              omega
          · exact hcard
      | idle => exact hcard
      | entered => exact hcard
      | reread => exact hcard
  next => cases hstep

/-- A read takes a slot off for the turn it costs. -/
theorem pending_read {x : Nat} (hx : x < 2 ^ 32) :
    (if x ≠ 0 then (slotsSet (x &&& (doneBits x ^^^ 0xffffffff))).card + 1
      else (slotsSet x).card) ≤ (slotsSet x).card := by
  split
  next hne => exact card_slotsSet_clear hne hx
  next => exact Nat.le_refl _

/-- A read, of a status that no bit is masked out of. -/
theorem IrqRun.After.read (h : s.After vs) (hlast : s.irq.handler.lastRead = [])
    (hbusy : s.irq.handler ≠ .idle) (hpending : s.irq.pending = (slotsSet s.irq.rawstat).card) :
    IrqRun.After ⟨{ s.irq with handler := .loop s.irq.rawstat }, s.log ++ [.read s.irq.rawstat]⟩ vs ∧
      IrqState.pending { s.irq with handler := .loop s.irq.rawstat } ≤ s.irq.pending ∧
      IrqRun.executed
        ⟨{ s.irq with handler := .loop s.irq.rawstat }, s.log ++ [.read s.irq.rawstat]⟩ =
          s.executed + 1 := by
  refine ⟨⟨h.rawstat, ?_, h.turns, fun done hdone => ?_⟩, ?_, ?_⟩
  · rw [h.log, hlast, List.append_nil]
    rfl
  · rw [← Handler.loop.inj hdone]
    exact Nat.and_self _
  · rw [hpending]
    exact pending_read h.rawstat
  · unfold IrqRun.executed
    rw [if_neg hbusy, List.length_append]
    rfl

/-- What was read is cleared: that is a turn. -/
theorem IrqRun.After.clear {done : Nat} (h : s.After vs) (hhandler : s.irq.handler = .loop done)
    (hne : done ≠ 0) :
    IrqRun.After ⟨{ s.irq.irqClear (doneBits done) with handler := .reread },
        s.log ++ [.clear (doneBits done)]⟩ (vs ++ [done]) ∧
      IrqState.pending { s.irq.irqClear (doneBits done) with handler := .reread } + 1 =
        s.irq.pending ∧
      IrqRun.executed ⟨{ s.irq.irqClear (doneBits done) with handler := .reread },
        s.log ++ [.clear (doneBits done)]⟩ = s.executed + 1 := by
  have hdone : done < 2 ^ 32 := by
    rw [← h.observed done hhandler]
    exact Nat.lt_of_le_of_lt Nat.and_le_right h.rawstat
  refine ⟨⟨?_, ?_, fun v hv => ?_, fun _ => nofun⟩, ?_, ?_⟩
  · exact Nat.lt_of_le_of_lt Nat.and_le_left h.rawstat
  · rw [h.log, hhandler, List.flatMap_append]
    simp [Handler.lastRead, turn]
  · rcases List.mem_append.mp hv with hv | hv
    · exact h.turns v hv
    · exact List.mem_singleton.mp hv ▸ ⟨hne, hdone⟩
  · unfold IrqState.pending
    simp only [hhandler, if_pos hne, IrqState.irqClear]
  · unfold IrqRun.executed
    rw [hhandler, if_neg nofun, List.length_append]
    rfl

/-- Zero was read: the handler returns. -/
theorem IrqRun.After.finish {isJobIrq : Int} (h : s.After vs)
    (hhandler : s.irq.handler = .loop 0) :
    IrqRun.After ⟨{ s.irq with isJobIrq := isJobIrq, handler := .idle }, s.log⟩ vs ∧
      IrqState.pending { s.irq with isJobIrq := isJobIrq, handler := .idle } = s.irq.pending ∧
      IrqRun.executed ⟨{ s.irq with isJobIrq := isJobIrq, handler := .idle }, s.log⟩ =
        s.executed + 1 := by
  refine ⟨⟨h.rawstat, ?_, h.turns, fun _ => nofun⟩, ?_, ?_⟩
  · rw [h.log, hhandler]
    rfl
  · unfold IrqState.pending
    simp [hhandler]
  · unfold IrqRun.executed
    rw [hhandler]
    rfl

/-- A statement of the handler is executed. -/
theorem IrqRun.After.handler (h : s.After vs) (hstep : irqRunStep s .handler = some s') :
    ∃ vs', s'.After vs' ∧ vs'.length + s'.irq.pending ≤ vs.length + s.irq.pending ∧
      s'.executed = s.executed + 1 := by
  obtain ⟨next, hnext, rfl⟩ := Option.map_eq_some_iff.mp hstep
  unfold grJobIrqHandler at hnext
  cases hhandler : s.irq.handler with
  | idle =>
      rw [hhandler] at hnext
      cases hnext
  | entered =>
      rw [hhandler] at hnext
      obtain rfl := Option.some.inj hnext
      rw [IrqState.status_eq h.rawstat]
      obtain ⟨hafter, hpending, hexecuted⟩ := h.read (by rw [hhandler]; rfl) (by rw [hhandler]; nofun)
        (by unfold IrqState.pending; rw [hhandler])
      exact ⟨vs, hafter, Nat.add_le_add_left hpending _, hexecuted⟩
  | loop done =>
      rw [hhandler] at hnext
      dsimp only at hnext
      split at hnext
      next hne =>
        obtain rfl := Option.some.inj hnext
        obtain ⟨hafter, hpending, hexecuted⟩ := h.clear hhandler hne
        refine ⟨vs ++ [done], hafter, ?_, hexecuted⟩
        show _ + IrqState.pending { s.irq.irqClear (doneBits done) with handler := .reread } ≤ _
        rw [List.length_append, List.length_singleton, ← hpending, Nat.add_assoc, Nat.add_comm 1]
      next hzero =>
        obtain rfl := Option.some.inj hnext
        obtain rfl := not_not.mp hzero
        dsimp only
        rw [List.append_nil]
        obtain ⟨hafter, hpending, hexecuted⟩ := h.finish hhandler
        exact ⟨vs, hafter, Nat.add_le_add_left (Nat.le_of_eq hpending) _, hexecuted⟩
  | reread =>
      rw [hhandler] at hnext
      obtain rfl := Option.some.inj hnext
      obtain ⟨hafter, hpending, hexecuted⟩ := h.read (by rw [hhandler]; rfl) (by rw [hhandler]; nofun)
        (by unfold IrqState.pending; rw [hhandler])
      exact ⟨vs, hafter, Nat.add_le_add_left hpending _, hexecuted⟩

/-- What steps come to: each bit raised adds one turn at most. -/
theorem IrqRun.After.run {steps : List IrqRunStep} :
    ∀ {s s' : IrqRun} {vs : List Nat}, s.After vs → steps.foldlM irqRunStep s = some s' →
      ∃ vs', s'.After vs' ∧
        vs'.length + s'.irq.pending ≤ vs.length + s.irq.pending + raises steps ∧
        s'.executed = s.executed + steps.countP (· = .handler) := by
  induction steps with
  | nil =>
      intro s s' vs h hrun
      obtain rfl := Option.some.inj hrun
      exact ⟨vs, h, Nat.le_refl _, rfl⟩
  | cons e steps ih =>
      intro s s' vs h hrun
      rw [List.foldlM_cons] at hrun
      obtain ⟨mid, hmid, hrest⟩ := Option.bind_eq_some_iff.mp hrun
      cases e with
      | raise bit =>
          obtain ⟨hafter, hpending, hexecuted⟩ := h.raise hmid
          obtain ⟨vs', hafter', hturns, hsteps⟩ := ih hafter hrest
          refine ⟨vs', hafter', ?_, ?_⟩
          · have hraises : raises (.raise bit :: steps) = raises steps + 1 := by simp [raises]
            omega
          · rw [hsteps, hexecuted]
            simp
      | handler =>
          obtain ⟨vs₁, hafter, hpending, hexecuted⟩ := h.handler hmid
          obtain ⟨vs', hafter', hturns, hsteps⟩ := ih hafter hrest
          refine ⟨vs', hafter', ?_, ?_⟩
          · have hraises : raises (.handler :: steps) = raises steps := by simp [raises]
            omega
          · rw [hsteps, hexecuted, List.countP_cons_of_pos (by simp)]
            omega

/-! ### The handler -/

/-- A statement of the handler against the status as it is: it reads what is set; or it has just read
a value, and clears of it the bits of one slot, some of which are set, and no others; or it has just
read zero, and returns. -/
inductive StatementOk (s s' : IrqRun) : Prop
  | read (v : Nat) (hvalue : v = s.irq.rawstat) (hkept : s'.irq.rawstat = s.irq.rawstat)
      (hlog : s'.log = s.log ++ [.read v])
  | clear (before : List IrqAccess) (v i : Nat) (hslot : i < 16) (hread : s.log = before ++ [.read v])
      (hset : v &&& s.irq.rawstat = v) (hsome : v &&& slotMask i ≠ 0)
      (hcleared : ∀ j, j < 32 → s'.irq.rawstat.testBit j =
        (s.irq.rawstat.testBit j && !(v &&& slotMask i).testBit j))
      (hlog : s'.log = s.log ++ [.clear (v &&& slotMask i)])
  | leave (before : List IrqAccess) (hread : s.log = before ++ [.read 0])
      (hidle : s'.irq.handler = .idle) (hkept : s'.irq.rawstat = s.irq.rawstat)
      (hlog : s'.log = s.log)

/-- What the handler does in a run from its entry. -/
structure IrqRun.Acknowledged (start : IrqRun) (steps : List IrqRunStep) (s : IrqRun) : Prop where
  /-- each statement on the way is right -/
  statements : ∀ pre post, steps = pre ++ .handler :: post → ∀ s₁ s₂,
    pre.foldlM irqRunStep start = some s₁ → irqRunStep s₁ .handler = some s₂ → StatementOk s₁ s₂
  /-- it reads and clears in turn, and the turns are bounded -/
  turns : ∃ vs : List Nat, s.log = vs.flatMap turn ++ s.irq.handler.lastRead ∧
    vs.length ≤ (slotsSet start.irq.rawstat).card + raises steps
  count : steps.countP (· = .handler) ≤
    2 * ((slotsSet start.irq.rawstat).card + raises steps) + 2
  progress : s.irq.handler ≠ .idle → (irqRunStep s .handler).isSome

theorem doneBits_ne_zero {v : Nat} (hne : v ≠ 0) (hlt : v < 2 ^ 32) :
    doneBits v ≠ 0 ∧ ∃ i < 16, doneBits v = v &&& slotMask i := by
  obtain ⟨i, hi, hbits, hset⟩ := doneBits_eq hne hlt
  refine ⟨fun hzero => ?_, i, hi, hbits⟩
  have hnone : ∀ j, (v.testBit j && (slotMask i).testBit j) = false := by
    intro j
    rw [← Nat.testBit_and, ← hbits, hzero, Nat.zero_testBit]
  rcases hset with hset | hset
  · simpa [testBit_slotMask, hset] using hnone i
  · simpa [testBit_slotMask, hset] using hnone (i + 16)

theorem flatMap_turn_length (vs : List Nat) : (vs.flatMap turn).length = 2 * vs.length := by
  induction vs with
  | nil => rfl
  | cons v vs ih =>
      rw [List.flatMap_cons, List.length_append, ih, List.length_cons]
      simp only [turn, List.length_cons, List.length_nil]
      omega

/-- Any statement of the handler. -/
theorem IrqRun.After.statementOk (h : s.After vs) (hstep : irqRunStep s .handler = some s') :
    StatementOk s s' := by
  obtain ⟨next, hnext, rfl⟩ := Option.map_eq_some_iff.mp hstep
  unfold grJobIrqHandler at hnext
  have hlog := h.log
  cases hhandler : s.irq.handler with
  | idle =>
      rw [hhandler] at hnext
      cases hnext
  | entered =>
      rw [hhandler] at hnext
      obtain rfl := Option.some.inj hnext
      exact .read _ (IrqState.status_eq h.rawstat) rfl rfl
  | reread =>
      rw [hhandler] at hnext
      obtain rfl := Option.some.inj hnext
      exact .read _ rfl rfl rfl
  | loop done =>
      rw [hhandler] at hnext hlog
      dsimp only at hnext
      have hset := h.observed done hhandler
      have hdone : done < 2 ^ 32 := hset ▸ Nat.lt_of_le_of_lt Nat.and_le_right h.rawstat
      split at hnext
      next hne =>
        obtain rfl := Option.some.inj hnext
        obtain ⟨hsome, i, hi, hbits⟩ := doneBits_ne_zero hne hdone
        refine .clear _ done i hi hlog hset (hbits ▸ hsome) (fun j hj => ?_) ?_
        · rw [← hbits]
          exact testBit_irqClear _ _ hj
        · rw [← hbits]
          rfl
      next hzero =>
        obtain rfl := Option.some.inj hnext
        obtain rfl := not_not.mp hzero
        exact .leave _ hlog rfl rfl (List.append_nil _)

/-- **The handler clears what it has read**, a slot at a time, and returns when it reads zero. -/
theorem grJobIrqHandler_acknowledges {start s : IrqRun} {steps : List IrqRunStep}
    (hstart : start.Entered) (hrun : steps.foldlM irqRunStep start = some s) :
    start.Acknowledged steps s := by
  have hentry : start.After [] := by
    refine ⟨hstart.rawstat, ?_, by simp, fun done hdone => ?_⟩
    · rw [hstart.log, hstart.handler]
      rfl
    · rw [hstart.handler] at hdone
      cases hdone
  obtain ⟨vs, hafter, hturns, hsteps⟩ := hentry.run hrun
  have hpending : start.irq.pending = (slotsSet start.irq.rawstat).card := by
    unfold IrqState.pending
    rw [hstart.handler]
  have hexecuted : start.executed = 0 := by
    unfold IrqRun.executed
    simp [hstart.log, hstart.handler]
  have hlength : s.log.length + (if s.irq.handler = .idle then 1 else 0) ≤ 2 * vs.length + 2 := by
    rw [hafter.log, List.length_append, flatMap_turn_length]
    cases s.irq.handler <;> simp [Handler.lastRead]
  rw [hpending, List.length_nil, Nat.zero_add] at hturns
  refine ⟨fun pre post _ s₁ s₂ hpre hone => ?_, ⟨vs, hafter.log, by omega⟩, ?_, fun hidle => ?_⟩
  · obtain ⟨vs₁, hafter₁, -⟩ := hentry.run hpre
    exact hafter₁.statementOk hone
  · unfold IrqRun.executed at hsteps hexecuted
    omega
  · simp only [irqRunStep, Option.isSome_map]
    unfold grJobIrqHandler
    cases hhandler : s.irq.handler with
    | idle => exact absurd hhandler hidle
    | entered => rfl
    | loop done =>
        dsimp only
        split <;> rfl
    | reread => rfl

/-- Jobs of two slots have ended, and one of them fails as well while its bit is cleared. -/
def failingSteps : List IrqRunStep :=
  [.handler, .raise 17, .handler, .handler, .handler, .handler, .handler, .handler, .handler]

/-- Two slots, one bit more, three turns. -/
theorem grJobIrqHandler_acknowledges_failed :
    failingSteps.foldlM irqRunStep ⟨⟨[], 6, 0, .entered, .waiting, 0⟩, []⟩
      = some ⟨⟨[], 0, 1, .idle, .waiting, 0⟩, [.read 6, .clear 2, .read 0x20004, .clear 0x20000,
        .read 4, .clear 4, .read 0]⟩ ∧
    IrqRun.Acknowledged ⟨⟨[], 6, 0, .entered, .waiting, 0⟩, []⟩ failingSteps
      ⟨⟨[], 0, 1, .idle, .waiting, 0⟩, [.read 6, .clear 2, .read 0x20004, .clear 0x20000, .read 4,
        .clear 4, .read 0]⟩ :=
  ⟨by rfl, grJobIrqHandler_acknowledges ⟨rfl, by decide, rfl⟩ (by rfl)⟩

end GpuReplay.NanoDriver
