/-
Who has `/dev/gr` open, and what becomes of its interrupts: `gr_open` and `gr_release` of
`gr_main.c`, with what they call of `gr_irq.c`.

Both are given as the statements they consist of, since those of one file can come between those
of another: the kernel calls one `open` of a misc device at a time, until it has returned, but a
`release` waits for nobody.  The same is true of `gr_mmu_irq_handler`, which switches its own line off
and on again.  The writes to the `IRQ_CLEAR` registers, which change no mask, are left out.
-/
import GpuReplay.NanoDriver.Irq

namespace GpuReplay.NanoDriver

/-- `JOB_IRQ_TAG`, `MMU_IRQ_TAG`, `GPU_IRQ_TAG`. -/
inductive IrqLine
  | job
  | mmu
  | gpu
  deriving Repr, DecidableEq

/-- `GPU_IRQ_REG_ALL`. -/
def gpuIrqRegAll : Nat := 1 <<< 0 ||| 1 <<< 7 ||| 1 <<< 8 ||| 1 <<< 10 ||| 1 <<< 16

/-- What `gr_open` and `gr_mmu_irq_handler` write to `MMU_IRQ_MASK`. -/
def mmuIrqMask : Nat := 0xffffffff

/-- `in_use`, the masks of the lines, and how many of our handlers each line has. -/
structure GrVars where
  inUse : Int
  mask : IrqLine → Nat
  handlers : IrqLine → Nat

inductive GrStmt
  /-- `in_use++` and `in_use--` -/
  | inUse (d : Int)
  | mask (line : IrqLine) (bits : Nat)
  | requestIrq (line : IrqLine)
  | freeIrq (line : IrqLine)
  deriving Repr, DecidableEq

def grInstallInterrupts : List GrStmt := [.requestIrq .job, .requestIrq .mmu, .requestIrq .gpu]

def grReleaseInterrupts : List GrStmt := [.freeIrq .job, .freeIrq .mmu, .freeIrq .gpu]

/-- `gr_open`, from `in_use++` on.  Whether the interrupts could be installed changes nothing. -/
def grOpen : List GrStmt :=
  [.inUse 1, .mask .gpu gpuIrqRegAll, .mask .job jobIrqMask, .mask .mmu mmuIrqMask]
    ++ grInstallInterrupts

/-- `gr_release`.  It writes to two of the masks. -/
def grRelease : List GrStmt := [.inUse (-1), .mask .gpu 0, .mask .job 0] ++ grReleaseInterrupts

/-- A statement executed; `ok` is whether a `request_irq` succeeds.  `free_irq` takes one handler
out, and only complains where there is none. -/
def GrStmt.exec (ok : Bool) (v : GrVars) : GrStmt → GrVars
  | .inUse d => { v with inUse := v.inUse + d }
  | .mask line bits => { v with mask := Function.update v.mask line bits }
  | .requestIrq line =>
      if ok then { v with handlers := Function.update v.handlers line (v.handlers line + 1) } else v
  | .freeIrq line => { v with handlers := Function.update v.handlers line (v.handlers line - 1) }

/-- Where a file is: `next` is the number of the statement it is at. -/
inductive FilePhase
  | closed
  | opening (next : Nat)
  | opened
  | releasing (next : Nat)
  deriving Repr, DecidableEq

structure GrState where
  vars : GrVars
  /-- `gr_mmu_irq_handler` is between its writes to `MMU_IRQ_MASK` -/
  mmuHandling : Bool
  /-- the file whose `gr_open` is running -/
  opener : Option Nat
  phase : Nat → FilePhase
  /-- how many calls of `gr_release` have returned -/
  released : Nat

/-- The module loaded: nobody has the device, and the masks are what they were. -/
def GrState.loaded (mask : IrqLine → Nat) : GrState :=
  ⟨⟨0, mask, fun _ => 0⟩, false, none, fun _ => .closed, 0⟩

inductive GrStep
  /-- `gr_open` is called, and looks at `in_use` -/
  | call (file : Nat)
  /-- the next statement of `gr_open` or `gr_release`, or the return from it -/
  | run (file : Nat) (ok : Bool)
  /-- the last reference to an open file is gone -/
  | close (file : Nat)
  /-- the next half of `gr_mmu_irq_handler` -/
  | mmuIrq
  /-- a process writes to a mask, through its mapping of the registers -/
  | regWrite (line : IrqLine) (bits : Nat)
  deriving Repr, DecidableEq

def GrState.goto (s : GrState) (file : Nat) (p : FilePhase) : GrState :=
  { s with phase := Function.update s.phase file p }

/-- One step, `none` where it cannot be taken.  `free_irq` waits for a handler that is running. -/
def grStep (s : GrState) : GrStep → Option GrState
  | .call file =>
      if s.phase file = .closed ∧ s.opener = none then
        -- `-EBUSY`
        if s.vars.inUse ≠ 0 then some s
        else some { s.goto file (.opening 0) with opener := some file }
      else none
  | .run file ok =>
      match s.phase file with
      | .opening next =>
          match grOpen[next]? with
          | some stmt => some { s.goto file (.opening (next + 1)) with vars := stmt.exec ok s.vars }
          | none => some { s.goto file .opened with opener := none }
      | .releasing next =>
          match grRelease[next]? with
          | some stmt =>
              if stmt = .freeIrq .mmu ∧ s.mmuHandling = true then none
              else some { s.goto file (.releasing (next + 1)) with vars := stmt.exec ok s.vars }
          | none => some { s.goto file .closed with released := s.released + 1 }
      | .closed => none
      | .opened => none
  | .close file => if s.phase file = .opened then some (s.goto file (.releasing 0)) else none
  | .mmuIrq =>
      if s.mmuHandling then
        some { s with vars := (GrStmt.mask .mmu mmuIrqMask).exec true s.vars, mmuHandling := false }
      else if 0 < s.vars.handlers .mmu then
        some { s with vars := (GrStmt.mask .mmu 0).exec true s.vars, mmuHandling := true }
      else none
  | .regWrite line bits => some { s with vars := (GrStmt.mask line bits).exec true s.vars }

end GpuReplay.NanoDriver
