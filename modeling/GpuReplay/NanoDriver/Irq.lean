/-
The job interrupt of the nano driver, from `gr_irq.c`, and what meets in it.

The GPU sets a bit in `JOB_IRQ_RAWSTAT` for each job that ends.  `gr_job_irq_handler` clears
the bits and counts itself in `is_job_irq`, and `job_irq_poll`, on which `gr_wait_job_irq`
waits, takes one off the count.  Handler and poll are split where the others can come
between, at the accesses to registers and to the counter; the line is a shared one, so the
handler also runs for interrupts of other devices.
-/
import Mathlib.Algebra.Order.Ring.Nat
import Mathlib.Tactic.Common

namespace GpuReplay.NanoDriver

/-- The job slot that is replayed. -/
def grJs : Nat := 1

/-- What `gr_open` writes to `JOB_IRQ_MASK`. -/
def jobIrqMask : Nat := 0xffffffff

/-- The lowest bit set, counted from one. -/
def ffs (x : Nat) : Nat :=
  match (List.range 32).find? fun i => x.testBit i with
  | some i => i + 1
  | none => 0

/-- The bits of the lowest slot that has finished or failed. -/
def doneBits (done : Nat) : Nat :=
  let failed := done >>> 16
  let finished := (done &&& 0xffff) ||| failed
  let i := ffs finished - 1
  done &&& ((1 <<< i) ||| (1 <<< (i + 16)))

/-- The bit the GPU sets for a job of the slot. -/
def completionBit (failed : Bool) : Nat := 1 <<< (if failed then grJs + 16 else grJs)

/-- A started job: it runs, its bit is set, or its bit has been cleared. -/
inductive JobState
  | running
  | raised (failed : Bool)
  | cleared
  deriving Repr, DecidableEq

def JobState.clear (mask : Nat) : JobState → JobState
  | .raised failed => if completionBit failed &&& mask ≠ 0 then .cleared else .raised failed
  | job => job

/-- Where the handler is: at its read of `JOB_IRQ_STATUS`, at the condition of its loop, or at
the read of `JOB_IRQ_RAWSTAT` that ends the body. -/
inductive Handler
  | idle
  | entered
  | loop (done : Nat)
  | reread
  deriving Repr, DecidableEq

/-- Where the replayer is: between two jobs, in `gr_wait_job_irq`, or in the poll that has
found the counter not zero. -/
inductive Waiter
  | ready
  | waiting
  | taking
  deriving Repr, DecidableEq

structure IrqState where
  /-- the jobs started, in order -/
  jobs : List JobState
  rawstat : Nat
  isJobIrq : Int
  handler : Handler
  waiter : Waiter
  /-- how often `gr_wait_job_irq` has returned -/
  returned : Nat

def IrqState.init : IrqState := ⟨[], 0, 0, .idle, .ready, 0⟩

/-- `JOB_IRQ_STATUS` -/
def IrqState.status (s : IrqState) : Nat := s.rawstat &&& jobIrqMask

/-- An `atomic_t` is an `int`. -/
def atomicAdd (v d : Int) : Int := (v + d).bmod (2 ^ 32)

/-- A write to `JOB_IRQ_CLEAR`. -/
def IrqState.irqClear (s : IrqState) (mask : Nat) : IrqState :=
  { s with rawstat := s.rawstat &&& (mask ^^^ 0xffffffff), jobs := s.jobs.map (JobState.clear mask) }

/-- An access of the handler to a job interrupt register. -/
inductive IrqAccess
  /-- `JOB_IRQ_STATUS` the first time, `JOB_IRQ_RAWSTAT` from then on -/
  | read (value : Nat)
  /-- a write to `JOB_IRQ_CLEAR` -/
  | clear (mask : Nat)
  deriving Repr, DecidableEq

/-- The handler reads a register, and takes what it gets to the condition of its loop. -/
def IrqState.readDone (s : IrqState) (value : Nat) : IrqState × List IrqAccess :=
  ({ s with handler := .loop value }, [.read value])

/-- The handler writes to `JOB_IRQ_CLEAR`. -/
def IrqState.writeClear (s : IrqState) (mask : Nat) : IrqState × List IrqAccess :=
  ({ s.irqClear mask with handler := .reread }, [.clear mask])

/-- The next statement of `gr_job_irq_handler`, once it has been entered, and its accesses. -/
def grJobIrqHandler (s : IrqState) : Option (IrqState × List IrqAccess) :=
  match s.handler with
  | .idle => none
  | .entered => some (s.readDone s.status)
  | .loop done =>
      if done ≠ 0 then some (s.writeClear (doneBits done))
      else some ({ s with isJobIrq := atomicAdd s.isJobIrq 1, handler := .idle }, [])
  | .reread => some (s.readDone s.rawstat)

/-- `job_irq_poll`, asked again until it says that there is something: the test of the counter,
and the decrement after which `gr_wait_job_irq` returns. -/
def jobIrqPoll (s : IrqState) : Option IrqState :=
  match s.waiter with
  | .ready => none
  | .waiting => some (if s.isJobIrq ≠ 0 then { s with waiter := .taking } else s)
  | .taking =>
      some { s with isJobIrq := atomicAdd s.isJobIrq (-1), waiter := .ready, returned := s.returned + 1 }

inductive IrqStep
  /-- the replayer writes `JS_COMMAND_NEXT` and starts to wait -/
  | submit
  /-- the GPU ends a job it runs -/
  | complete (k : Nat) (failed : Bool)
  /-- the line is raised, by the GPU or by another device -/
  | line
  | handler
  | poll
  deriving Repr, DecidableEq

def irqStep (s : IrqState) : IrqStep → Option IrqState
  | .submit =>
      if s.waiter = .ready then some { s with jobs := s.jobs ++ [.running], waiter := .waiting }
      else none
  | .complete k failed =>
      if s.jobs[k]? = some .running then
        some { s with jobs := s.jobs.set k (.raised failed), rawstat := s.rawstat ||| completionBit failed }
      else none
  | .line => if s.handler = .idle then some { s with handler := .entered } else none
  | .handler => (grJobIrqHandler s).map Prod.fst
  | .poll => jobIrqPoll s

/-! ### One run of the handler -/

/-- A run of the handler, with its accesses so far. -/
structure IrqRun where
  irq : IrqState
  log : List IrqAccess

inductive IrqRunStep
  /-- the GPU sets a bit of `JOB_IRQ_RAWSTAT` that was clear -/
  | raise (bit : Nat)
  /-- the handler's next statement -/
  | handler
  deriving Repr, DecidableEq

/-- Until the handler has returned. -/
def irqRunStep (s : IrqRun) : IrqRunStep → Option IrqRun
  | .raise bit =>
      if s.irq.handler ≠ .idle ∧ bit < 32 ∧ s.irq.rawstat.testBit bit = false then
        some { s with irq := { s.irq with rawstat := s.irq.rawstat ||| 1 <<< bit } }
      else none
  | .handler => (grJobIrqHandler s.irq).map fun next => ⟨next.1, s.log ++ next.2⟩

end GpuReplay.NanoDriver
