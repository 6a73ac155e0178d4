/-
Rebuilding a page table: `gr_construct_pgt` and `gr_pgt_init`.

The dump is read into an array of words, sized from the first word of the file.  The
reconstruction walks the array with a shared cursor: it copies a table, and for every
entry that names one it moves the cursor to the next block and builds that table first.
-/
import GpuReplay.Replayer.MemInit

namespace GpuReplay.Replayer

open Stdio

/-- `gr_manager_alloc_get_single_page`. -/
def allocPage (m : Machine) : Except Stop (Nat × Machine) :=
  match m.pool with
  | frame :: pool => .ok (frame, { m with pool := pool })
  | [] => .error .undefined

/-- `user_new_pgd->pgd[i] = p`. -/
def Machine.setPgd (m : Machine) (node i : Nat) (p : UserPtr) : Machine :=
  { m with heap := m.heap.modify node fun u => { u with pgd := fun j => if j = i then p else u.pgd j } }

/-- `old_pte_value`: the 512 words after `pgt_value[offset]`. -/
def oldPteValue (pgtValue : List Nat) (offset : Nat) : Except Stop (List Nat) :=
  if (offset + 1) % 2 ^ 32 + 512 ≤ pgtValue.length then
    .ok ((pgtValue.drop ((offset + 1) % 2 ^ 32)).take 512)
  else
    .error .undefined

/-- What building a table returns: its frame and its node, the cursor, the machine. -/
structure Built where
  pgd : Nat
  userPgd : UserPtr
  offset : Nat
  machine : Machine

/-- The loop over the entries of a table at `level`, from entry `i` on: the entries of the
new table, the cursor and the machine.  `next` builds the table at the cursor. -/
def constructEntries (next : Nat → Machine → Except Stop Built) (level node : Nat) :
    Nat → List Nat → Nat → Machine → Except Stop (List Nat × Nat × Machine)
  | _, [], offset, m => .ok ([], offset, m)
  | i, w :: words, offset, m =>
      if pteIsValid w level then do
        let b ← next ((offset + 513) % 2 ^ 32) m
        let (pteBuffer, offset, m) ← constructEntries next level node (i + 1) words b.offset
          (b.machine.setPgd node i b.userPgd)
        return (((w &&& 0xFFF) ||| b.pgd) :: pteBuffer, offset, m)
      else do
        let (pteBuffer, offset, m) ← constructEntries next level node (i + 1) words offset m
        return (w :: pteBuffer, offset, m)

/-- The page and the node of a new table, before its entries.  `pgd` of the node is what
the memory `malloc` returned happened to hold. -/
def newTable (junk : Nat → Nat → UserPtr) (m : Machine) : Except Stop (Nat × Machine) := do
  let (newPgd, m) ← allocPage m
  let mappedPage ← grMapPage newPgd
  return (newPgd, { m with heap := m.heap ++ [⟨mappedPage, junk m.heap.length⟩] })

/-- The entries go into the new page. -/
def finishTable (newPgd node : Nat) (r : List Nat × Nat × Machine) : Except Stop Built := do
  let mem ← grWritePhys r.2.2.mem newPgd (r.1.flatMap (Bytes.le 8))
  return ⟨newPgd, .node node, r.2.1, { r.2.2 with mem := mem }⟩

/-- `gr_construct_pgt` at level `3 - below`. -/
def grConstructPgt (junk : Nat → Nat → UserPtr) (pgtValue : List Nat) :
    Nat → Nat → Machine → Except Stop Built
  | 0, offset, m => do
      let (newPgd, m') ← newTable junk m
      let old ← oldPteValue pgtValue offset
      finishTable newPgd m.heap.length (old, offset, m')
  | below + 1, offset, m => do
      let (newPgd, m') ← newTable junk m
      let old ← oldPteValue pgtValue offset
      let r ← constructEntries (grConstructPgt junk pgtValue below) (3 - (below + 1))
        m.heap.length 0 old offset m'
      finishTable newPgd m.heap.length r

/-- The loop that reads the dump, over the words of `pgt_value` not read yet: the array
after it, how many words it read before it stopped, and the file. -/
def readPgtValue : List Nat → Stream → Except Stop (List Nat × Nat × Stream)
  | [], f => if f.eof then .ok ([], 0, f) else .error .undefined
  | old :: slots, f =>
      if f.eof then .ok (old :: slots, 0, f)
      else
        let (w, f) := f.readWord 8 old
        if w = 0xFFFFFFFFFF then .ok (w :: slots, 0, f)
        else do
          let (rest, cnt, f) ← readPgtValue slots f
          return (w :: rest, cnt + 1, f)

/-- What `gr_pgt_init` leaves behind: the two roots, the user page table, the machine, the
array `pgt_value`, and where its two cursors stopped. -/
structure PgtInit where
  oldPgd : Nat
  newPgd : Nat
  userPgt : UserPtr
  machine : Machine
  pgtValue : List Nat
  cnt : Nat
  offset : Nat
  eof : Bool

/-- What the variables of `gr_pgt_init` and the memory it `malloc`s hold at first. -/
structure PgtJunk where
  size : Nat
  transtab : Nat
  memattr : Nat
  transcfg : Nat
  word : Nat → Nat
  node : Nat → Nat → UserPtr

/-- `remained`, a `uint32_t`. -/
def pgtRemained (size : Nat) : Nat := (size + 2 ^ 64 - 32) % 2 ^ 64 / 8 % 2 ^ 32

/-- `gr_pgt_init`. -/
def grPgtInit (junk : PgtJunk) (m : Machine) (file : List UInt8) : Except Stop PgtInit := do
  let (size, f) := (Stream.open file).readWord 8 junk.size
  let (transtab, f) := f.readWord 8 junk.transtab
  let (_, f) := f.readWord 8 junk.memattr
  let (_, f) := f.readWord 8 junk.transcfg
  let (pgtValue, cnt, f) ← readPgtValue ((List.range (pgtRemained size)).map junk.word) f
  let b ← grConstructPgt junk.node pgtValue 3 0 m
  return ⟨transtab, b.pgd, b.userPgd, b.machine, pgtValue, cnt, b.offset, f.eof⟩

end GpuReplay.Replayer
