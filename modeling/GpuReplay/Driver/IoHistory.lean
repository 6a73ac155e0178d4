/-
The register history of the driver: `gr_io_history_add` and `gr_io_history_dump`.

The history is a ring.  An access is kept with its time and its thread, and the direction
is folded into the low bit of the address, which is free since registers are words.
-/
import Mathlib.Algebra.Order.Ring.Nat
import Mathlib.Tactic.Common

namespace GpuReplay.Driver

/-- `struct kbase_io_access`. -/
structure IoAccess where
  addr : Nat
  value : Nat
  timestamp : Nat
  threadId : Nat
  deriving Repr, DecidableEq

/-- `struct kbase_io_history`, without its lock. -/
structure IoHistory where
  count : Nat
  size : Nat
  buf : Nat → IoAccess

/-- `GR_DEFAULT_REGISTER_HISTORY_SIZE`. -/
def grDefaultRegisterHistorySize : Nat := 1 <<< 15

/-- `gr_io_history_init`, with what the memory `vmalloc` returned holds. -/
def grIoHistoryInit (junk : Nat → IoAccess) (newSize : Nat) : IoHistory := ⟨0, newSize, junk⟩

/-- `gr_io_history_add`, by thread `current` at time `now`, where `size_t`, the type of the count,
has `w` bits. -/
def grIoHistoryAddSized (w : Nat) (h : IoHistory) (offset value write now current : Nat) :
    IoHistory :=
  let io : IoAccess := ⟨offset ||| write, value, now, current⟩
  let count := (h.count + 1) % 2 ^ w
  { h with
    buf := fun i => if i = h.count % h.size then io else h.buf i
    count := if count = 0 then h.size else count }

/-- `gr_io_history_add` of the driver, which is built for 64 bits. -/
def grIoHistoryAdd : IoHistory → Nat → Nat → Nat → Nat → Nat → IoHistory :=
  grIoHistoryAddSized 64

/-- `iters` of the dump. -/
def IoHistory.iters (h : IoHistory) : Nat := if h.count < h.size then h.count else h.size

/-- The entry the dump takes up in its `i`-th turn. -/
def IoHistory.entry (h : IoHistory) (i : Nat) : IoAccess :=
  h.buf ((h.count - h.iters + i) % h.size)

/-- The line of an entry: `"%llu,%c,%x,%x\n"`.  The buffer is large enough for any. -/
def dumpLine (timestamp : Nat) (io : IoAccess) : List Char :=
  let access := if io.addr % 2 = 1 then 'W' else 'R'
  -- `(u32)io->addr & ~0x1`
  let offset := io.addr % 2 ^ 32 / 2 * 2
  Nat.toDigits 10 timestamp ++ ',' :: access :: ',' :: (Nat.toDigits 16 offset ++ ',' ::
    (Nat.toDigits 16 io.value ++ ['\n']))

/-- The loop of the dump over the entries, with `prev_ts`. -/
def dumpLoop : Nat → List IoAccess → List Char
  | _, [] => []
  | prevTs, io :: ios =>
      dumpLine ((io.timestamp + 2 ^ 64 - prevTs) % 2 ^ 64) io ++ dumpLoop io.timestamp ios

/-- `gr_io_history_dump`: the text it writes. -/
def grIoHistoryDump (h : IoHistory) : List Char :=
  dumpLoop (h.entry 0).timestamp ((List.range h.iters).map h.entry)

/-! ### Accesses by many -/

/-- An access to a register: what `kbase_reg_write` and `kbase_reg_read` are about. -/
structure RegOp where
  offset : Nat
  value : Nat
  write : Bool
  deriving Repr, DecidableEq

/-- The last argument of `gr_io_history_add`. -/
def RegOp.writeFlag (op : RegOp) : Nat := if op.write then 1 else 0

/-- The accesses that have reached the hardware, in that order; the history; and, for each
thread or interrupt handler, the access it has made and not yet added, with its number. -/
structure RegState where
  hw : List RegOp
  history : IoHistory
  pending : Nat → Option (Nat × RegOp)

/-- `kbase_reg_write` and `kbase_reg_read` in their two steps: `writel` or `readl`, then
`gr_io_history_add` under the lock of the history. -/
inductive RegStep
  | access (actor : Nat) (op : RegOp)
  | add (actor now current : Nat)
  deriving Repr, DecidableEq

def RegState.init (junk : Nat → IoAccess) : RegState :=
  ⟨[], grIoHistoryInit junk grDefaultRegisterHistorySize, fun _ => none⟩

/-- One step of one actor, `none` where it is not its turn. -/
def regStep (s : RegState) : RegStep → Option RegState
  | .access actor op =>
      match s.pending actor with
      | some _ => none
      | none => some { s with
          hw := s.hw ++ [op]
          pending := fun i => if i = actor then some (s.hw.length, op) else s.pending i }
  | .add actor now current =>
      match s.pending actor with
      | none => none
      | some (_, op) => some { s with
          history := grIoHistoryAdd s.history op.offset op.value op.writeFlag now current
          pending := fun i => if i = actor then none else s.pending i }

end GpuReplay.Driver
