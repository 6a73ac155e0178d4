/-
Loading a memory dump: `gr_mem_contents_init`.

The file is a sequence of records, each a header and, for a region the CPU had
touched, one `(vaddr, paddr, page)` triple for every page.  The function reads into
local variables, and a read at the end of the file leaves them as they were; the
loop asks `feof` only between records.  All of these variables are therefore part of
the state, and `Locals` is what they hold before the first read.
-/
import GpuReplay.Lib.Except
import GpuReplay.Lib.Stdio
import GpuReplay.Replayer.Entry
import GpuReplay.Replayer.GpuMem

namespace GpuReplay.Replayer

open Stdio

/-- A `user_pgtable` pointer followed. -/
def derefPgt (heap : List UserPgtable) : UserPtr → Except Stop UserPgtable
  | .node k =>
      match heap[k]? with
      | some pgt => .ok pgt
      | none => .error .undefined
  | _ => .error .undefined

/-- `(vpfn >> (3 - l) * 9) & (KBASE_MMU_PAGE_ENTRIES - 1)`: the index of `gaddr` in its
table at level `l`. -/
def pgdOffset (gaddr l : Nat) : Nat := gaddr / 4096 / 2 ^ ((3 - l) * 9) % 512

/-- `n` turns of the lookup loop, from level `l` on. -/
def walkUserPgt (heap : List UserPgtable) (gaddr : Nat) : Nat → Nat → UserPtr → Except Stop UserPtr
  | 0, _, current => .ok current
  | n + 1, l, current => do
      let pgt ← derefPgt heap current
      let target := pgt.pgd (pgdOffset gaddr l)
      if target = .null then throw (.abort "cannot get target pgd")
      walkUserPgt heap gaddr n (l + 1) target

/-- `gr_get_user_pgd_at_level`. -/
def grGetUserPgdAtLevel (heap : List UserPgtable) (userPgt : UserPtr) (gaddr level : Nat) :
    Except Stop UserPtr :=
  walkUserPgt heap gaddr level 0 userPgt

/-- `gr_manager_alloc_pages` and `gr_manager_get_pages`: the next `n` frames of the
pool.  Without that many the array stays partly unset. -/
def takePages (n : Nat) (pool : List Nat) : Except Stop (List Nat × List Nat) :=
  if n ≤ pool.length then .ok (pool.take n, pool.drop n) else .error .undefined

/-- The local variables a record is read into. -/
structure Locals where
  gmStart : Nat
  gmEnd : Nat
  nents : Nat
  flags : Nat
  isValid : Nat
  paddr : Nat
  buf : List UInt8

/-- The variables of the page loop. -/
structure PageState where
  stream : Stream
  vaddr : Nat
  paddr : Nat
  buf : List UInt8
  mem : ByteMem

/-- What the page loop does with one page: for a valid region read the triple and copy
the page into the new frame, then point the page's leaf entry at that frame.  The table
and the index in it are those of the address before the triple is read. -/
def initPage (heap : List UserPgtable) (userPgt : UserPtr) (flags isValid newPage : Nat)
    (s : PageState) : Except Stop PageState := do
  let vindex := s.vaddr / 4096 % 512
  let targetPgt ← grGetUserPgdAtLevel heap userPgt s.vaddr midgardMmuBottomlevel
  let pgdPage ← derefPgt heap targetPgt
  let s ←
    if isValid ≠ 0 then do
      let (vaddr, f) := s.stream.readWord 8 s.vaddr
      let (paddr, f) := f.readWord 8 s.paddr
      let (buf, f) := f.read 4096 s.buf
      let mem ← grWritePhys s.mem newPage buf
      pure (⟨f, vaddr, paddr, buf, mem⟩ : PageState)
    else
      pure s
  let newPte := grEntryGetAte newPage flags midgardMmuBottomlevel
  return { s with mem := s.mem.write64 (pgdPage.physPage + 8 * vindex) newPte }

/-- The page loop, over the pages not yet used.  The address it counts with is the
variable the triples are read into. -/
def initPages (heap : List UserPgtable) (userPgt : UserPtr) (gmEnd flags isValid : Nat) :
    List Nat → PageState → Except Stop PageState
  | [], s => .ok s
  | newPage :: pages, s =>
      if s.vaddr < gmEnd then do
        let s ← initPage heap userPgt flags isValid newPage s
        initPages heap userPgt gmEnd flags isValid pages
          { s with vaddr := (s.vaddr + 4096) % 2 ^ 64 }
      else
        .ok s

/-- What `gr_mem_contents_init` changes. -/
structure McState where
  stream : Stream
  locals : Locals
  mem : ByteMem
  pool : List Nat
  regions : List Region
  totNrPages : Nat

/-- The five reads of a header. -/
def readHeader (l : Locals) (f : Stream) : Locals × Stream :=
  let (gmStart, f) := f.readWord 8 l.gmStart
  let (gmEnd, f) := f.readWord 8 l.gmEnd
  let (nents, f) := f.readWord 8 l.nents
  let (flags, f) := f.readWord 4 l.flags
  let (isValid, f) := f.readWord 1 l.isValid
  (⟨gmStart, gmEnd, nents, flags, isValid, l.paddr, l.buf⟩, f)

/-- One turn of the loop: a header, the frames for the region, its pages. -/
def initRegion (heap : List UserPgtable) (userPgt : UserPtr) (s : McState) :
    Except Stop McState := do
  let (l, f) := readHeader s.locals s.stream
  let (pages, pool) ← takePages l.nents s.pool
  let p ← initPages heap userPgt l.gmEnd l.flags l.isValid pages
    ⟨f, l.gmStart, l.paddr, l.buf, s.mem⟩
  return {
    stream := p.stream
    locals := { l with paddr := p.paddr, buf := p.buf }
    mem := p.mem
    pool := pool
    regions := s.regions ++ [⟨l.gmStart, l.gmEnd, pages, l.nents, l.flags, l.isValid, 0⟩]
    totNrPages := (s.totNrPages + l.nents) % 2 ^ 32 }

/-- The loop on `feof`, with `n` entries of `gm_region` unused; a record more than that
is written past the array. -/
def initRegions (heap : List UserPgtable) (userPgt : UserPtr) : Nat → McState → Except Stop McState
  | 0, s => if s.stream.eof then .ok s else .error .undefined
  | n + 1, s =>
      if s.stream.eof then .ok s
      else do
        let s ← initRegion heap userPgt s
        initRegions heap userPgt n s

/-- `gr_mem_contents_init` on a fresh context. -/
def grMemContentsInit (m : Machine) (userPgt : UserPtr) (locals : Locals) (file : List UInt8) :
    Except Stop McState :=
  initRegions m.heap userPgt nrVaRegion ⟨Stream.open file, locals, m.mem, m.pool, [], 0⟩

end GpuReplay.Replayer
