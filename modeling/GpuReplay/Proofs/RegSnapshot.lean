/-
What becomes of the register snapshots.

The buffer holds the snapshots taken since the last reset, and between a `file_write` and the
reset that follows it some of them are in the file already.  The file with those that are not is
all of the snapshots, in order, until

  * one is taken with no place left, as happens where interrupts stay disabled;
  * a flush writes what another has written and not reset yet;
  * a flush resets the count though a snapshot has come since the write.

Everything else an actor does keeps it so.
-/
import GpuReplay.Lib.Run
import GpuReplay.Driver.RegSnapshot

namespace GpuReplay.Driver

variable {regSize : Nat} {s s' : SnapshotState} {e : SnapshotStep}

/-- The snapshots in the buffer that are not in the file. -/
def SnapshotState.unflushed (s : SnapshotState) : List RegMap :=
  (List.range' s.flushed (s.nrRegSnapshots - s.flushed)).map s.regSnapshot

/-- The file and the unflushed buffer are the snapshots taken, and each was stored in a place of
the buffer. -/
def SnapshotState.Kept (s : SnapshotState) : Prop :=
  s.overrun = false ∧ s.file ++ s.unflushed = s.taken

/-- The steps after which nothing is lost, and nothing is in the file twice. -/
def Orderly (s : SnapshotState) : SnapshotStep → Prop
  | .access _ _ _ => s.nrRegSnapshots < maxRegSnapshots
  | .write _ => s.flushed = 0
  | .reset _ => s.flushed = s.nrRegSnapshots
  | .destroy _ | .irq _ => True

/-! ### The buffer -/

@[simp] theorem goto_kept (actor : Nat) (next : FlushState) : (s.goto actor next).Kept ↔ s.Kept :=
  Iff.rfl

theorem length_unflushed : s.unflushed.length = s.nrRegSnapshots - s.flushed := by
  unfold SnapshotState.unflushed
  rw [List.length_map, List.length_range']

theorem length_buffered : s.buffered.length = s.nrRegSnapshots := by
  unfold SnapshotState.buffered
  rw [List.length_map, List.length_range]

/-- All of the buffer is unflushed where none of it is in the file. -/
theorem buffered_eq_unflushed_iff (hle : s.flushed ≤ s.nrRegSnapshots) :
    s.buffered = s.unflushed ↔ s.flushed = 0 := by
  constructor
  · intro heq
    have hlen := congrArg List.length heq
    rw [length_buffered, length_unflushed] at hlen
    omega
  · intro hzero
    unfold SnapshotState.buffered SnapshotState.unflushed
    rw [hzero, Nat.sub_zero, List.range_eq_range']

/-- The next place of the buffer is behind all that is unflushed. -/
theorem unflushed_update (hle : s.flushed ≤ s.nrRegSnapshots) (regs : RegMap) :
    (List.range' s.flushed (s.nrRegSnapshots + 1 - s.flushed)).map
        (Function.update s.regSnapshot s.nrRegSnapshots regs) = s.unflushed ++ [regs] := by
  have hcount : s.nrRegSnapshots + 1 - s.flushed = s.nrRegSnapshots - s.flushed + 1 := by omega
  have hlast : s.flushed + 1 * (s.nrRegSnapshots - s.flushed) = s.nrRegSnapshots := by omega
  rw [hcount, List.range'_concat, List.map_append, hlast]
  unfold SnapshotState.unflushed
  congr 1
  · refine List.map_congr_left fun i hi => Function.update_of_ne ?_ _ _
    have hbound := List.mem_range'_1.mp hi
    omega
  · rw [List.map_singleton, Function.update_self]

/-! ### One step -/

/-- What each step does, with its guard. -/
theorem snapshotStep_cases (h : snapshotStep regSize s e = some s') :
    (∃ actor irqsDisabled readl next, e = .access actor irqsDisabled readl
        ∧ s' = (grRegDump regSize s readl).goto actor next)
      ∨ (∃ actor, e = .write actor ∧
        s' = { s with file := s.file ++ s.buffered
                      flushed := s.nrRegSnapshots }.goto actor .written)
      ∨ (∃ actor, e = .reset actor
        ∧ s' = { s with nrRegSnapshots := 0, flushed := 0 }.goto actor .idle)
      ∨ (∃ actor next, (e = .destroy actor ∨ e = .irq actor) ∧ s' = s.goto actor next) := by
  unfold snapshotStep at h
  split at h
  · cases h
  cases e with
  | access actor irqsDisabled readl =>
      obtain ⟨-, h⟩ := Option.ite_none_right_eq_some.mp h
      exact Or.inl ⟨actor, irqsDisabled, readl, _, rfl, (Option.some.inj h).symm⟩
  | write actor =>
      obtain ⟨-, h⟩ := Option.ite_none_right_eq_some.mp h
      exact Or.inr (Or.inl ⟨actor, rfl, (Option.some.inj h).symm⟩)
  | reset actor =>
      obtain ⟨-, h⟩ := Option.ite_none_right_eq_some.mp h
      exact Or.inr (Or.inr (Or.inl ⟨actor, rfl, (Option.some.inj h).symm⟩))
  | destroy actor =>
      obtain ⟨-, h⟩ := Option.ite_none_right_eq_some.mp h
      exact Or.inr (Or.inr (Or.inr ⟨actor, _, Or.inl rfl, (Option.some.inj h).symm⟩))
  | irq actor =>
      obtain ⟨-, h⟩ := Option.ite_none_right_eq_some.mp h
      exact Or.inr (Or.inr (Or.inr ⟨actor, _, Or.inr rfl, (Option.some.inj h).symm⟩))

/-- No more of the buffer is in the file than there is. -/
theorem flushed_le_step (hle : s.flushed ≤ s.nrRegSnapshots)
    (h : snapshotStep regSize s e = some s') : s'.flushed ≤ s'.nrRegSnapshots := by
  obtain ⟨actor, _, readl, next, -, rfl⟩ | ⟨actor, -, rfl⟩ | ⟨actor, -, rfl⟩ |
    ⟨actor, next, -, rfl⟩ := snapshotStep_cases h
  · unfold grRegDump
    split
    · exact Nat.le_succ_of_le hle
    · exact hle
  · exact Nat.le_refl _
  · exact Nat.le_refl _
  · exact hle

theorem kept_access_iff (hle : s.flushed ≤ s.nrRegSnapshots) (hkept : s.Kept) (readl : Nat → Nat) :
    (grRegDump regSize s readl).Kept ↔ s.nrRegSnapshots < maxRegSnapshots := by
  unfold grRegDump
  split
  case isTrue hroom =>
    refine iff_of_true ⟨hkept.1, ?_⟩ hroom
    show s.file ++ _ = _
    rw [SnapshotState.unflushed, unflushed_update hle, ← List.append_assoc, hkept.2]
  case isFalse hfull =>
    refine iff_of_false ?_ hfull
    rintro ⟨hover, -⟩
    exact Bool.noConfusion hover

theorem kept_write_iff (hle : s.flushed ≤ s.nrRegSnapshots) (hkept : s.Kept) :
    SnapshotState.Kept { s with file := s.file ++ s.buffered, flushed := s.nrRegSnapshots } ↔
      s.flushed = 0 := by
  have hnone : SnapshotState.unflushed
      { s with file := s.file ++ s.buffered, flushed := s.nrRegSnapshots } = [] :=
    List.eq_nil_of_length_eq_zero (length_unflushed.trans (Nat.sub_self _))
  rw [← buffered_eq_unflushed_iff hle, SnapshotState.Kept, hnone, List.append_nil, ← hkept.2,
    List.append_cancel_left_eq]
  exact and_iff_right hkept.1

theorem kept_reset_iff (hle : s.flushed ≤ s.nrRegSnapshots) (hkept : s.Kept) :
    SnapshotState.Kept { s with nrRegSnapshots := 0, flushed := 0 } ↔
      s.flushed = s.nrRegSnapshots := by
  have hnone : SnapshotState.unflushed { s with nrRegSnapshots := 0, flushed := 0 } = [] := rfl
  have hall : s.unflushed = [] ↔ s.flushed = s.nrRegSnapshots := by
    rw [← List.length_eq_zero_iff, length_unflushed]
    omega
  rw [← hall, SnapshotState.Kept, hnone, ← hkept.2, List.append_cancel_left_eq, eq_comm (a := [])]
  exact and_iff_right hkept.1

theorem kept_step_iff (hle : s.flushed ≤ s.nrRegSnapshots) (hkept : s.Kept)
    (h : snapshotStep regSize s e = some s') : s'.Kept ↔ Orderly s e := by
  obtain ⟨actor, _, readl, next, rfl, rfl⟩ | ⟨actor, rfl, rfl⟩ | ⟨actor, rfl, rfl⟩ |
    ⟨actor, next, rfl | rfl, rfl⟩ := snapshotStep_cases h
  · exact (goto_kept actor next).trans (kept_access_iff hle hkept readl)
  · exact (goto_kept actor .written).trans (kept_write_iff hle hkept)
  · exact (goto_kept actor .idle).trans (kept_reset_iff hle hkept)
  · exact iff_of_true hkept trivial
  · exact iff_of_true hkept trivial

/-! ### A run -/

/-- An interrupt comes between the write and the reset: its snapshot is never written.  And of two
threads, the second writes what the first has written. -/
theorem snapshots_not_kept :
    ¬ AllStates (snapshotStep 4) SnapshotState.Kept (SnapshotState.init fun _ => [])
        [.access 0 false fun _ => 1, .write 0, .access 1 true fun _ => 2, .reset 0] ∧
    ¬ AllStates (snapshotStep 4) SnapshotState.Kept (SnapshotState.init fun _ => [])
        [.access 0 false fun _ => 1, .access 1 false fun _ => 2, .write 0, .write 1] := by
  constructor
  · intro hall
    obtain ⟨-, hkept⟩ := (((hall.2 _ rfl).2 _ rfl).2 _ rfl).2 _ rfl
    exact absurd hkept (by decide)
  · intro hall
    obtain ⟨-, hkept⟩ := (((hall.2 _ rfl).2 _ rfl).2 _ rfl).2 _ rfl
    exact absurd hkept (by decide)

/-- **In every state of a run the file and the unflushed buffer are the snapshots taken exactly
when all of its steps are orderly**, whatever the order its actors take turns in. -/
theorem snapshots_kept_iff (regSize : Nat) (junk : Nat → RegMap) (steps : List SnapshotStep)
    (hrun : (steps.foldlM (snapshotStep regSize) (SnapshotState.init junk)).isSome) :
    AllStates (snapshotStep regSize) SnapshotState.Kept (SnapshotState.init junk) steps ↔
      AllSteps (snapshotStep regSize) Orderly (SnapshotState.init junk) steps :=
  allStates_iff (Q := fun s => s.flushed ≤ s.nrRegSnapshots)
    (fun _ _ _ hle h => flushed_le_step hle h) (fun _ _ _ hle hkept h => kept_step_iff hle hkept h)
    (Nat.le_refl 0) ⟨rfl, rfl⟩ hrun

/-- An access, an interrupt and a flush of both their snapshots. -/
def accessAndIrq : List SnapshotStep :=
  [.access 0 false fun _ => 1, .access 1 true fun _ => 2, .irq 1, .write 0, .reset 0]

theorem snapshots_kept_one :
    (accessAndIrq.foldlM (snapshotStep 4) (SnapshotState.init fun _ => [])).isSome ∧
    (AllStates (snapshotStep 4) SnapshotState.Kept (SnapshotState.init fun _ => []) accessAndIrq ↔
      AllSteps (snapshotStep 4) Orderly (SnapshotState.init fun _ => []) accessAndIrq) :=
  ⟨by decide, snapshots_kept_iff 4 (fun _ => []) _ (by decide)⟩

end GpuReplay.Driver
