/-
The register snapshots of the driver: `gr_reg_dump`, `gr_reg_flush`, and the accesses to
registers that make them, as `CONFIG_GR_REG_SNAPSHOT` has it.

After each access the registers are read into the next place of a buffer, under
`reg_dump_lock`.  The lock is given up, and then the buffer is flushed: it is written to the
file, and `nr_reg_snapshots` is reset.  Where interrupts are disabled no file can be written, and
the flush leaves the buffer to the next one.
-/
import Mathlib.Algebra.Order.Ring.Nat
import Mathlib.Logic.Function.Basic

namespace GpuReplay.Driver

/-- A register map: the registers as words, in order. -/
abbrev RegMap := List Nat

/-- `kbdev->max_reg_snapshots`: the buffer has room for as many. -/
def maxRegSnapshots : Nat := 500

/-- The loop of `gr_reg_dump` over the registers; `reg_size` is a multiple of four. -/
def regValues (regSize : Nat) (readl : Nat → Nat) : RegMap :=
  (List.range (regSize / 4)).map fun i => readl (4 * i)

/-- Where a thread or interrupt handler is: not at a snapshot, in `gr_reg_flush` before
`file_write`, between `file_write` and the reset, or in `gr_reg_flush` with interrupts disabled. -/
inductive FlushState
  | idle
  | entered
  | written
  | inIrq
  deriving Repr, DecidableEq

structure SnapshotState where
  /-- `kbdev->reg_snapshot`, one place for each snapshot -/
  regSnapshot : Nat → RegMap
  nrRegSnapshots : Nat
  /-- the snapshots in the file -/
  file : List RegMap
  actors : Nat → FlushState
  /-- a snapshot was stored behind the buffer, and what comes of that is not defined -/
  overrun : Bool
  /-- the snapshots taken so far, in order -/
  taken : List RegMap
  /-- how many of the snapshots in the buffer are in the file already -/
  flushed : Nat

def SnapshotState.init (junk : Nat → RegMap) : SnapshotState :=
  ⟨junk, 0, [], fun _ => .idle, false, [], 0⟩

/-- What a thread or an interrupt handler does next. -/
inductive SnapshotStep
  /-- `kbase_reg_write` or `kbase_reg_read` up to the end of `gr_reg_dump`, with what the registers
  then hold -/
  | access (actor : Nat) (irqsDisabled : Bool) (readl : Nat → Nat)
  /-- `gr_reg_flush` is called with no access before it, from `kbase_destroy_context` -/
  | destroy (actor : Nat)
  /-- `file_write` -/
  | write (actor : Nat)
  /-- `kbdev->nr_reg_snapshots = 0` -/
  | reset (actor : Nat)
  /-- `gr_reg_flush` with interrupts disabled -/
  | irq (actor : Nat)

def SnapshotState.goto (s : SnapshotState) (actor : Nat) (next : FlushState) : SnapshotState :=
  { s with actors := Function.update s.actors actor next }

/-- The snapshots in the buffer. -/
def SnapshotState.buffered (s : SnapshotState) : List RegMap :=
  (List.range s.nrRegSnapshots).map s.regSnapshot

/-- The access and its snapshot.  A flush with interrupts disabled complains only of a count
that is above the number of places, after the fact. -/
def grRegDump (regSize : Nat) (s : SnapshotState) (readl : Nat → Nat) : SnapshotState :=
  if s.nrRegSnapshots < maxRegSnapshots then
    { s with
      regSnapshot := Function.update s.regSnapshot s.nrRegSnapshots (regValues regSize readl)
      nrRegSnapshots := s.nrRegSnapshots + 1
      taken := s.taken ++ [regValues regSize readl] }
  else { s with overrun := true }

/-- One step of one actor, `none` where it is not its turn. -/
def snapshotStep (regSize : Nat) (s : SnapshotState) (step : SnapshotStep) : Option SnapshotState :=
  if s.overrun then none
  else
    match step with
    | .access actor irqsDisabled readl =>
        if s.actors actor = .idle then
          some ((grRegDump regSize s readl).goto actor (if irqsDisabled then .inIrq else .entered))
        else none
    | .destroy actor => if s.actors actor = .idle then some (s.goto actor .entered) else none
    | .write actor =>
        if s.actors actor = .entered then
          some ({ s with file := s.file ++ s.buffered, flushed := s.nrRegSnapshots }.goto actor .written)
        else none
    | .reset actor =>
        if s.actors actor = .written then
          some ({ s with nrRegSnapshots := 0, flushed := 0 }.goto actor .idle)
        else none
    | .irq actor => if s.actors actor = .inIrq then some (s.goto actor .idle) else none

end GpuReplay.Driver
