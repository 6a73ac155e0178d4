/-
Putting memory back for the next replay: `gr_clean_used_atom`, `gr_mem_contents_check`,
`gr_restore_pte` and `gr_clean_invalid_region` of `gr_utils.c`.

The first looks for jobs that have run, in the pages it takes for job pages.  The second goes
through the dump once more and overwrites what differs from it, the third writes the leaf
entries again, the last clears the regions nothing was recorded for.  The counters of these three
loops have 32 bits and are compared with a `size_t`, so a loop need not end; `fuel` bounds its turns.
-/
import GpuReplay.Replayer.Context

namespace GpuReplay.Replayer

open Stdio

/-! ### `gr_clean_used_atom` -/

/-- The words of a buffer of `int64_t`. -/
def wordsOf (buf : List UInt8) : List Nat :=
  (List.range (buf.length / 8)).map fun k => Bytes.val ((buf.drop (8 * k)).take 8)

/-- The loop over the words of a page: the words after it, and `is_used`.  For the last word the
pattern ends outside the buffer. -/
def cleanAtoms : List Nat → Except Stop (List Nat × Bool)
  | [] => .ok ([], false)
  | word :: rest =>
      if word = 0x010258 then
        match rest.head? with
        | none => .error .undefined
        | some next => do
            let (rest, isUsed) ← cleanAtoms rest
            if next = 0 then return (0 :: rest, true) else return (word :: rest, isUsed)
      else do
        let (rest, isUsed) ← cleanAtoms rest
        return (word :: rest, isUsed)

/-- What it takes for the page of jobs: region number `i`, if it has one page and the flags of
such a page on G71 or G52. -/
def isJobPage (i : Nat) (region : Region) : Bool :=
  decide (6 < i) && decide (region.nrPages = 1) &&
    (decide (region.flags = 0x606e) || decide (region.flags = 0x604e))

/-- The loop over the regions, from number `i` on: the numbers it reports as checked. -/
def cleanUsedAtoms : Nat → List Region → ByteMem → Except Stop (List Nat × ByteMem)
  | _, [], mem => .ok ([], mem)
  | i, region :: regions, mem =>
      if isJobPage i region then do
        let page ← pageAt region.pages 0
        let buf ← grReadPhys mem page 4096
        let (words, isUsed) ← cleanAtoms (wordsOf buf)
        let mem ← if isUsed then grWritePhys mem page (Bytes.words words) else pure mem
        let (checked, mem) ← cleanUsedAtoms (i + 1) regions mem
        return (i :: checked, mem)
      else
        cleanUsedAtoms (i + 1) regions mem

def grCleanUsedAtom (regions : List Region) (mem : ByteMem) : Except Stop (List Nat × ByteMem) :=
  cleanUsedAtoms 0 regions mem

/-! ### `gr_mem_contents_check` -/

/-- The variables of its page loop. -/
structure CheckState where
  stream : Stream
  gaddr : Nat
  paddr : Nat
  buf : List UInt8
  isDifferent : Bool
  mem : ByteMem

/-- What the page loop does with the page `newPage` of the region. -/
def checkPage (newPage : Nat) (s : CheckState) : Except Stop CheckState := do
  let (gaddr, f) := s.stream.readWord 8 s.gaddr
  let (paddr, f) := f.readWord 8 s.paddr
  let (buf, f) := f.read 4096 s.buf
  let replayed ← grReadPhys s.mem newPage 4096
  let isDifferent := s.isDifferent || decide (replayed ≠ buf)
  let mem ← if isDifferent then grWritePhys s.mem newPage buf else pure s.mem
  return ⟨f, gaddr, paddr, buf, isDifferent, mem⟩

/-- The page loop, from page `pageCnt` on, a `uint32_t`.  The address it counts with is the variable
the triples are read into.  Nothing where the fuel does not last. -/
def checkPages (region : Region) : Nat → Nat → CheckState → Option (Except Stop CheckState)
  | 0, _, _ => none
  | fuel + 1, pageCnt, s =>
      if s.gaddr < region.gmEnd ∧ pageCnt < region.nrPages then
        match pageAt region.pages pageCnt >>= fun newPage => checkPage newPage s with
        | .ok s =>
            checkPages region fuel ((pageCnt + 1) % 2 ^ 32)
              { s with gaddr := (s.gaddr + 4096) % 2 ^ 64 }
        | .error e => some (.error e)
      else some (.ok s)

/-- One turn of the loop: a header, and the region with the number of the turn. -/
def checkRegion (region : Region) (fuel : Nat) (l : Locals) (f : Stream) (mem : ByteMem) :
    Option (Except Stop (Locals × Stream × ByteMem)) :=
  let (l, f) := readHeader l f
  if l.isValid ≠ 0 then
    match checkPages region fuel 0 ⟨f, region.gmStart, l.paddr, l.buf, false, mem⟩ with
    | some (.ok s) => some (.ok ({ l with paddr := s.paddr, buf := s.buf }, s.stream, s.mem))
    | some (.error e) => some (.error e)
    | none => none
  else some (.ok (l, f, mem))

/-- The loop on `feof`, over the entries of `gm_region`. -/
def checkRegions (fuel : Nat) :
    List Region → Locals → Stream → ByteMem → Option (Except Stop ByteMem)
  | [], _, f, mem => some (if f.eof then .ok mem else .error .undefined)
  | region :: regions, l, f, mem =>
      if f.eof then some (.ok mem)
      else
        match checkRegion region fuel l f mem with
        | some (.ok (l, f, mem)) => checkRegions fuel regions l f mem
        | some (.error e) => some (.error e)
        | none => none

/-- `gr_mem_contents_check`.  The entries after the `nr_regions` of the context have never been
written; whatever they hold, the loop is given them as well. -/
def grMemContentsCheck (regions unused : List Region) (fuel : Nat) (locals : Locals)
    (file : List UInt8) (mem : ByteMem) : Option (Except Stop ByteMem) :=
  checkRegions fuel (regions ++ unused) locals (Stream.open file) mem

/-! ### `gr_restore_pte` -/

/-- What the page loop does with the page `pageCnt` of the region, at `gaddr`. -/
def restorePage (heap : List UserPgtable) (userPgt : UserPtr) (region : Region)
    (gaddr pageCnt : Nat) (mem : ByteMem) : Except Stop ByteMem := do
  let targetPgt ← grGetUserPgdAtLevel heap userPgt gaddr midgardMmuBottomlevel
  let pgdPage ← derefPgt heap targetPgt
  let targetPage ← pageAt region.pages pageCnt
  let newPte := grEntryGetAte targetPage region.flags midgardMmuBottomlevel
  return mem.write64 (pgdPage.physPage + 8 * (gaddr / 4096 % 512)) newPte

/-- The page loop, from page `pageCnt` on, a `uint32_t`.  Nothing where the fuel does not last. -/
def restorePages (heap : List UserPgtable) (userPgt : UserPtr) (region : Region) :
    Nat → Nat → Nat → ByteMem → Option (Except Stop ByteMem)
  | 0, _, _, _ => none
  | fuel + 1, gaddr, pageCnt, mem =>
      if gaddr < region.gmEnd ∧ pageCnt < region.nrPages then
        match restorePage heap userPgt region gaddr pageCnt mem with
        | .ok mem =>
            restorePages heap userPgt region fuel ((gaddr + 4096) % 2 ^ 64)
              ((pageCnt + 1) % 2 ^ 32) mem
        | .error e => some (.error e)
      else some (.ok mem)

/-- `gr_restore_pte`, over the regions that are left. -/
def grRestorePte (heap : List UserPgtable) (userPgt : UserPtr) (fuel : Nat) :
    List Region → ByteMem → Option (Except Stop ByteMem)
  | [], mem => some (.ok mem)
  | region :: regions, mem =>
      match restorePages heap userPgt region fuel region.gmStart 0 mem with
      | some (.ok mem) => grRestorePte heap userPgt fuel regions mem
      | stopped => stopped

/-! ### `gr_clean_invalid_region` -/

/-- The loop over the pages, from page `j` on, a `uint32_t`.  Nothing where the fuel does not last. -/
def cleanPages (regions : List Region) (gmRegion : Region) :
    Nat → Nat → ByteMem → Option (Except Stop ByteMem)
  | 0, _, _ => none
  | fuel + 1, j, mem =>
      if j < gmRegion.nrPages then
        match grCopyToGpu regions mem ((gmRegion.gmStart + j * 4096) % 2 ^ 64)
          (List.replicate 4096 0) 4096 with
        | .ok (mem, _) => cleanPages regions gmRegion fuel ((j + 1) % 2 ^ 32) mem
        | .error e => some (.error e)
      else some (.ok mem)

/-- The loop over the regions, of which those in the list are left. -/
def cleanRegions (regions : List Region) (fuel : Nat) :
    List Region → ByteMem → Option (Except Stop ByteMem)
  | [], mem => some (.ok mem)
  | gmRegion :: rest, mem =>
      if gmRegion.isValid = 0 then
        match cleanPages regions gmRegion fuel 0 mem with
        | some (.ok mem) => cleanRegions regions fuel rest mem
        | stopped => stopped
      else cleanRegions regions fuel rest mem

/-- `gr_clean_invalid_region`. -/
def grCleanInvalidRegion (regions : List Region) (fuel : Nat) (mem : ByteMem) :
    Option (Except Stop ByteMem) :=
  cleanRegions regions fuel regions mem

/-! ### All of it -/

/-- "Cleaning after replaying", as `test_mnist.c` has it. -/
def cleanAfterReplay (ctx : ReplayContext) (unused : List Region) (fuel : Nat) (locals : Locals)
    (mcFile : List UInt8) (mem : ByteMem) : Option (Except Stop ByteMem) :=
  match grMemContentsCheck ctx.regions unused fuel locals mcFile mem with
  | some (.ok mem) =>
      match grRestorePte ctx.machine.heap ctx.userPgt fuel ctx.regions mem with
      | some (.ok mem) => grCleanInvalidRegion ctx.regions fuel mem
      | stopped => stopped
  | stopped => stopped

end GpuReplay.Replayer
