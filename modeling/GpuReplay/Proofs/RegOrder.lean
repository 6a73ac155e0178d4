/-
Whether the history has the order of the hardware.

An access reaches the hardware first and is added to the history after, and the lock of
the history is taken for the second step only.  Between the two anyone else may access the
hardware and be added; the ring then has the two the other way round, and so has the log.

In a run in which nobody overtakes, `OrderedRun`, what the ring holds is a stretch of the
hardware's own sequence.
-/
import GpuReplay.Proofs.RegLog

namespace GpuReplay

open Driver

/-- What the log tells of an access: its address with the direction folded in, and the value. -/
def Driver.RegOp.key (op : RegOp) : Nat × Nat := (op.offset ||| op.writeFlag, op.value)

/-- What the dump goes over. -/
def Driver.IoHistory.recorded (h : IoHistory) : List (Nat × Nat) :=
  (List.range h.iters).map fun i => ((h.entry i).addr, (h.entry i).value)

/-- The recorded accesses are consecutive ones of the hardware, in their order, and none is
missing before them unless the ring is full. -/
def InHardwareOrder (s : RegState) : Prop :=
  ∃ before after, s.hw.map RegOp.key = before ++ (s.history.recorded ++ after) ∧
    (before = [] ∨ s.history.recorded.length = s.history.size)

/-- Nobody overtakes: an access is added when all before it have been. -/
def Oldest (s : RegState) : RegStep → Prop
  | .access .. => True
  | .add actor _ _ => ∀ other k op k' op', s.pending actor = some (k, op) →
      s.pending other = some (k', op') → k ≤ k'

/-- The states of runs in which nobody overtakes. -/
inductive OrderedRun (junk : Nat → IoAccess) : RegState → Prop
  | init : OrderedRun junk (RegState.init junk)
  | step {s s' : RegState} {e : RegStep} (h : OrderedRun junk s) (hstep : regStep s e = some s')
      (holdest : Oldest s e) : OrderedRun junk s'

/-- The accesses added are the first ones of the hardware, the others are pending. -/
structure OrderInv (s : RegState) (added : List RegAccess) : Prop where
  ring : Ring s.history added
  size : s.history.size = grDefaultRegisterHistorySize
  first_hw : s.hw.take added.length = added.map (·.toRegOp)
  length_le : added.length ≤ s.hw.length
  waiting : ∀ actor k op, s.pending actor = some (k, op) → added.length ≤ k ∧ s.hw[k]? = some op
  waits : ∀ k, added.length ≤ k → k < s.hw.length → ∃ actor op, s.pending actor = some (k, op)
  alone : ∀ actor other k op op', s.pending actor = some (k, op) →
    s.pending other = some (k, op') → actor = other

theorem orderInv_init (junk : Nat → IoAccess) : OrderInv (RegState.init junk) [] where
  ring := ring_init junk (by decide)
  size := rfl
  first_hw := rfl
  length_le := Nat.le_refl 0
  waiting := fun _ _ _ h => absurd h.symm (Option.some_ne_none _)
  waits := fun k _ hk => absurd hk (Nat.not_lt_zero k)
  alone := fun _ _ _ _ _ h => absurd h.symm (Option.some_ne_none _)

variable {s s' : RegState} {added : List RegAccess}

/-- An access that reaches the hardware waits behind all others. -/
theorem OrderInv.access (h : OrderInv s added) {actor : Nat} {op : RegOp}
    (hstep : regStep s (.access actor op) = some s') : OrderInv s' added := by
  unfold regStep at hstep
  dsimp only at hstep
  split at hstep
  · exact absurd hstep.symm (Option.some_ne_none _)
  · obtain rfl := Option.some.inj hstep
    have hlength : (s.hw ++ [op]).length = s.hw.length + 1 := List.length_append
    refine { ring := h.ring, size := h.size, first_hw := ?_, length_le := ?_, waiting := ?_,
             waits := ?_, alone := ?_ }
    · rw [List.take_append_of_le_length h.length_le]
      exact h.first_hw
    · rw [hlength]
      exact Nat.le_succ_of_le h.length_le
    · intro other k op' hpending
      dsimp only at hpending ⊢
      split at hpending
      · obtain ⟨rfl, rfl⟩ := Prod.mk.inj (Option.some.inj hpending)
        exact ⟨h.length_le, List.getElem?_concat_length⟩
      · obtain ⟨hle, hget⟩ := h.waiting other k op' hpending
        have hlt := (List.getElem?_eq_some_iff.mp hget).1
        rw [List.getElem?_append_left hlt]
        exact ⟨hle, hget⟩
    · intro k hle hlt
      rw [hlength] at hlt
      by_cases hk : k = s.hw.length
      · exact ⟨actor, op, by rw [hk]; exact if_pos rfl⟩
      · obtain ⟨other, op', hpending⟩ := h.waits k hle (by omega)
        have hne : other ≠ actor := by
          rintro rfl
          rw [hpending] at *
          contradiction
        exact ⟨other, op', (if_neg hne).trans hpending⟩
    · intro one other k op₁ op₂ h₁ h₂
      dsimp only at h₁ h₂
      have hold : ∀ {i o}, s.pending i = some (s.hw.length, o) → False := fun {i o} hi => by
        have hget := (h.waiting i _ o hi).2
        exact absurd (List.getElem?_eq_some_iff.mp hget).1 (Nat.lt_irrefl _)
      split at h₁
      next hone =>
        obtain ⟨rfl, rfl⟩ := Prod.mk.inj (Option.some.inj h₁)
        split at h₂
        next hother => exact hone.trans hother.symm
        next => exact (hold h₂).elim
      next =>
        split at h₂
        next =>
          obtain ⟨rfl, rfl⟩ := Prod.mk.inj (Option.some.inj h₂)
          exact (hold h₁).elim
        next => exact h.alone one other k op₁ op₂ h₁ h₂

/-- **The oldest access is added where the hardware had it.** -/
theorem OrderInv.add (h : OrderInv s added) {actor now current : Nat}
    (hstep : regStep s (.add actor now current) = some s')
    (holdest : Oldest s (.add actor now current)) :
    ∃ a, OrderInv s' (added ++ [a]) := by
  unfold regStep at hstep
  dsimp only at hstep
  cases hpending : s.pending actor with
  | none =>
      rw [hpending] at hstep
      exact absurd hstep.symm (Option.some_ne_none _)
  | some access =>
      obtain ⟨k, op⟩ := access
      rw [hpending] at hstep
      obtain rfl := Option.some.inj hstep
      obtain ⟨hle, hget⟩ := h.waiting actor k op hpending
      have hlt := (List.getElem?_eq_some_iff.mp hget).1
      -- the first access not added waits too, so this is it
      obtain ⟨first, op', hfirst⟩ := h.waits added.length (Nat.le_refl _) (Nat.lt_of_le_of_lt hle hlt)
      have hk : k = added.length :=
        Nat.le_antisymm (holdest first k op added.length op' hpending hfirst) hle
      have hlength : ∀ a : RegAccess, (added ++ [a]).length = added.length + 1 :=
        fun a => List.length_append
      have hcan : CanCount s.history.size (added.length + 1) := by
        rw [h.size]
        exact Or.inr (by decide)
      refine ⟨⟨op, now, current⟩, {
        ring := h.ring.record ⟨op, now, current⟩ hcan
        size := h.size
        first_hw := ?_
        length_le := ?_
        waiting := ?_
        waits := ?_
        alone := ?_ }⟩
      · rw [hlength, List.take_add_one, h.first_hw, ← hk, hget, List.map_append]
        rfl
      · rw [hlength]
        exact hk ▸ hlt
      · intro other k' op'' hother
        dsimp only at hother ⊢
        split at hother
        · exact absurd hother.symm (Option.some_ne_none _)
        next hne =>
          obtain ⟨hle', hget'⟩ := h.waiting other k' op'' hother
          refine ⟨?_, hget'⟩
          rw [hlength]
          refine Nat.lt_of_le_of_ne hle' fun heq => hne ?_
          exact (h.alone other actor k' op'' op hother (by rw [← heq, ← hk]; exact hpending))
      · intro k' hle' hlt'
        rw [hlength] at hle'
        obtain ⟨other, op'', hother⟩ := h.waits k' (by omega) hlt'
        have hne : other ≠ actor := by
          rintro rfl
          rw [hpending] at hother
          have := congrArg Prod.fst (Option.some.inj hother)
          dsimp only at this
          omega
        exact ⟨other, op'', (if_neg hne).trans hother⟩
      · intro one other k' op₁ op₂ h₁ h₂
        dsimp only at h₁ h₂
        split at h₁
        · exact absurd h₁.symm (Option.some_ne_none _)
        split at h₂
        · exact absurd h₂.symm (Option.some_ne_none _)
        · exact h.alone one other k' op₁ op₂ h₁ h₂

/-- What the invariant says of the order. -/
theorem OrderInv.inHardwareOrder (h : OrderInv s added) : InHardwareOrder s := by
  have hiters := h.ring.iters_eq
  have hrecorded : s.history.recorded =
      (added.drop (added.length - s.history.iters)).map fun a => a.toRegOp.key := by
    have hentries := congrArg (List.map fun io => (io.addr, io.value)) h.ring.entries
    rw [List.map_map, List.map_map] at hentries
    exact hentries
  refine ⟨(added.take (added.length - s.history.iters)).map fun a => a.toRegOp.key,
    (s.hw.drop added.length).map RegOp.key, ?_, ?_⟩
  · rw [hrecorded, ← List.append_assoc, ← List.map_append, List.take_append_drop]
    have hsplit := congrArg (List.map RegOp.key) (List.take_append_drop added.length s.hw)
    rw [List.map_append, h.first_hw, List.map_map] at hsplit
    exact hsplit.symm
  · by_cases hfull : added.length ≤ s.history.size
    · left
      rw [hiters, Nat.min_eq_left hfull, Nat.sub_self]
      rfl
    · right
      rw [hrecorded, List.length_map, List.length_drop]
      omega

/-- **Where nobody overtakes, the history has the order of the hardware.** -/
theorem orderedRun_inHardwareOrder {junk : Nat → IoAccess} (h : OrderedRun junk s) :
    InHardwareOrder s := by
  have hinv : ∃ added, OrderInv s added := by
    induction h with
    | init => exact ⟨[], orderInv_init junk⟩
    | @step s s' e _ hstep holdest ih =>
        obtain ⟨added, hadded⟩ := ih
        cases e with
        | access actor op => exact ⟨added, hadded.access hstep⟩
        | add actor now current =>
            obtain ⟨a, ha⟩ := hadded.add hstep holdest
            exact ⟨added ++ [a], ha⟩
  obtain ⟨added, hadded⟩ := hinv
  exact hadded.inHardwareOrder

/-- What a buffer that nobody has written to may hold. -/
def emptyBuf : Nat → IoAccess := fun _ => ⟨0, 0, 0, 0⟩

/-- A mask written and a command after it. -/
def maskWrite : RegOp := ⟨0x28, 0xff, true⟩

def commandWrite : RegOp := ⟨0x30, 8, true⟩

/-- Two threads access the hardware, and are added in that order. -/
def inTurn : List RegStep :=
  [.access 0 maskWrite, .access 1 commandWrite, .add 0 5 1, .add 1 6 2]

/-- Nobody is overtaken where the one that came first is added first. -/
theorem oldest_first {s : RegState}
    (hs : [.access 0 maskWrite, .access 1 commandWrite].foldlM regStep (RegState.init emptyBuf)
      = some s) : Oldest s (.add 0 5 1) := by
  obtain rfl := Option.some.inj hs
  intro other k op k' op' h _
  obtain rfl : 0 = k := congrArg Prod.fst (Option.some.inj h)
  exact Nat.zero_le k'

theorem oldest_second {s : RegState}
    (hs : [.access 0 maskWrite, .access 1 commandWrite, .add 0 5 1].foldlM regStep
      (RegState.init emptyBuf) = some s) : Oldest s (.add 1 6 2) := by
  obtain rfl := Option.some.inj hs
  intro other k op k' op' h h'
  obtain rfl : 1 = k := congrArg Prod.fst (Option.some.inj h)
  obtain _ | _ | other := other
  · exact absurd h'.symm (Option.some_ne_none _)
  · exact Nat.le_of_eq (congrArg Prod.fst (Option.some.inj h'))
  · exact absurd h'.symm (Option.some_ne_none _)

/-- Both are under way at once, and the history has the mask before the command. -/
theorem orderedRun_two :
    ∃ s, inTurn.foldlM regStep (RegState.init emptyBuf) = some s ∧ InHardwareOrder s ∧
      s.history.recorded = [(0x29, 0xff), (0x31, 8)] := by
  refine ⟨_, rfl, @orderedRun_inHardwareOrder _ emptyBuf ?_, by decide⟩
  refine .step (e := .add 1 6 2) (.step (e := .add 0 5 1) (.step (e := .access 1 commandWrite)
    (.step (e := .access 0 maskWrite) .init rfl trivial) rfl trivial) rfl ?_) rfl ?_
  · exact oldest_first rfl
  · exact oldest_second rfl

/-- The second is added first: the log has the command before the mask. -/
theorem overtaken_not_inHardwareOrder :
    ∃ s, [.access 0 maskWrite, .access 1 commandWrite, .add 1 5 2, .add 0 6 1].foldlM regStep
        (RegState.init emptyBuf) = some s ∧ ¬InHardwareOrder s := by
  refine ⟨_, rfl, ?_⟩
  rintro ⟨before, after, hhw, -⟩
  have hhw' : before ++ ([(0x31, 8), (0x29, 0xff)] ++ after) = [(0x29, 0xff), (0x31, 8)] := hhw.symm
  have hlength := congrArg List.length hhw'
  rw [List.length_append, List.length_append] at hlength
  have hbefore : before = [] := List.eq_nil_of_length_eq_zero (by
    change before.length + (2 + after.length) = 2 at hlength
    omega)
  rw [hbefore] at hhw'
  have hfirst := (List.cons.inj hhw').1
  exact absurd hfirst (by decide)

end GpuReplay
