/-
Loading the register log and letting go of it: `gr_reg_init_list` and `gr_reg_term_list`.

The list is built of nodes that are linked as they are read.  A node is what `malloc`
returned, so a line that does not scan leaves in it what the memory held before.
-/
import GpuReplay.Lib.Text
import GpuReplay.Replayer.Replay

namespace GpuReplay.Replayer

open Text

/-- `struct reg_list`, with the nodes allocated so far; a pointer to a node is its number.
A link that was never set is `none`. -/
structure RegList where
  cnt : Nat
  pos : Nat
  head : Nat
  tail : Nat
  nodes : List (RegIo × Option Nat)
  deriving Repr, DecidableEq

/-- `fscanf(reg_fp, "%lu,%c,%x,%x\n", …)`: what has been converted by the time a directive
fails is kept. -/
def scanReg (io : RegIo) (s : TextStream) : RegIo × TextStream :=
  match scanUnsigned 10 s with
  | .error s => (io, s)
  | .ok (ts, s) =>
  let io := { io with ts := ts }
  match literal ',' s with
  | .error s => (io, s)
  | .ok s =>
  match scanChar s with
  | .error s => (io, s)
  | .ok (isRead, s) =>
  let io := { io with isRead := isRead }
  match literal ',' s with
  | .error s => (io, s)
  | .ok s =>
  match scanUnsigned 16 s with
  | .error s => (io, s)
  | .ok (offset, s) =>
  let io := { io with offset := offset % 2 ^ 32 }
  match literal ',' s with
  | .error s => (io, s)
  | .ok s =>
  match scanUnsigned 16 s with
  | .error s => (io, s)
  | .ok (value, s) => ({ io with value := value % 2 ^ 32 }, skipSpace s)

/-- A node more at the end. -/
def RegList.append (list : RegList) (io : RegIo) : RegList :=
  let k := list.nodes.length
  if list.cnt = 0 then
    { cnt := 1, pos := k, head := k, tail := k, nodes := list.nodes ++ [(io, none)] }
  else
    { list with
      cnt := list.cnt + 1
      tail := k
      nodes := list.nodes.modify list.tail (fun node => (node.1, some k)) ++ [(io, none)] }

/-- The loop on `feof`.  A line that does not scan leaves the file where it is, so the loop
need not end; `fuel` bounds its turns. -/
def regInitLoop (junk : Nat → RegIo) : Nat → RegList → TextStream → Option RegList
  | 0, _, _ => none
  | fuel + 1, list, s =>
      if s.eof then some list
      else
        let (io, s) := scanReg (junk list.nodes.length) s
        regInitLoop junk fuel (list.append io) s

/-- `gr_reg_init_list`, with what `malloc` returns.  `list` starts with `cnt` alone set. -/
def grRegInitList (junk : Nat → RegIo) (fuel : Nat) (list : RegList) (text : List Char) :
    Option RegList :=
  regInitLoop junk fuel { list with cnt := 0, nodes := [] } (TextStream.open text)

/-- The loop of `gr_reg_term_list`, with `freed` the nodes freed so far.  The link of a node is
read before the node is freed. -/
def regTermLoop (nodes : List (RegIo × Option Nat)) :
    Nat → Option Nat → List Nat → Except Stop (List Nat)
  | 0, _, freed => .ok freed
  | _ + 1, none, _ => .error .undefined
  | n + 1, some k, freed =>
      if k ∈ freed then .error .undefined
      else
        match nodes[k]? with
        | none => .error .undefined
        | some node => regTermLoop nodes n node.2 (freed ++ [k])

/-- `gr_reg_term_list`: the nodes it frees, in order. -/
def grRegTermList (list : RegList) : Except Stop (List Nat) :=
  regTermLoop list.nodes list.cnt (if list.nodes = [] then none else some list.pos) []

end GpuReplay.Replayer
