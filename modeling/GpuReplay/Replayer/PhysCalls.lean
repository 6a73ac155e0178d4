/-
`gr_find_sync_as`, and the calls of `gr_read_phys` and `gr_write_phys`.

Both functions map the one page their address is in and copy from there or to there
without looking at the size.  What a run asks them for does not show in its result, so the
functions that call them are written once more here, statement by statement, with a log of
the calls; where a function makes none it is taken as it is.  The log comes up to where
the run ends.  `Proofs/LoggedCalls.lean` shows that without the log they are the same
functions.
-/
import GpuReplay.Lib.Logged
import GpuReplay.Replayer.MemCheck

namespace GpuReplay.Replayer

open Stdio

/-- What one of the two is called with. -/
structure PhysCall where
  paddr : Nat
  size : Nat
  deriving Repr, DecidableEq

/-- The call stays in the page that is mapped for it. -/
def PhysCall.InPage (c : PhysCall) : Prop := c.paddr % 4096 + c.size ≤ 4096

instance (c : PhysCall) : Decidable c.InPage := inferInstanceAs (Decidable (_ ≤ _))

/-- Runs with the calls they make. -/
abbrev Phys := Logged PhysCall Stop

/-! ### `gr_find_sync_as` -/

/-- `!memcmp(buf, sas_buf, size)`. -/
def sameBytes (buf sasBuf : List UInt8) (size : Nat) : Except Stop Bool :=
  if size ≤ buf.length ∧ size ≤ sasBuf.length then
    .ok (decide (buf.take size = sasBuf.take size))
  else
    .error .undefined

/-- `gr_find_sync_as`, over the ranges not compared yet. -/
def grFindSyncAs (mem : ByteMem) (buf : List UInt8) (size : Nat) :
    List SyncAs → Except Stop (Option SyncAs)
  | [] => .ok none
  | sas :: rest => do
      let sasBuf ← grReadPhys mem sas.pmStart 4096
      let same ← sameBytes buf sasBuf size
      if same then return some sas
      grFindSyncAs mem buf size rest

/-! ### The two functions, and the transfers of `gr_gpu_mem_io` -/

def grReadPhysLog (mem : ByteMem) (paddr size : Nat) : Phys (List UInt8) :=
  .call ⟨paddr, size⟩ (grReadPhys mem paddr size)

def grWritePhysLog (mem : ByteMem) (paddr : Nat) (buf : List UInt8) : Phys ByteMem :=
  .call ⟨paddr, buf.length⟩ (grWritePhys mem paddr buf)

/-- `gpu_mem_io` is one of the two. -/
def gpuMemIoLog (isRead : Bool) (paddr sz : Nat) (s : IoState) : Phys IoState :=
  .call ⟨paddr, sz⟩ (gpuMemIo isRead paddr sz s)

def grFindSyncAsLog (mem : ByteMem) (buf : List UInt8) (size : Nat) :
    List SyncAs → Phys (Option SyncAs)
  | [] => pure none
  | sas :: rest => do
      let sasBuf ← grReadPhysLog mem sas.pmStart 4096
      let same ← Logged.quiet (sameBytes buf sasBuf size)
      if same then return some sas else grFindSyncAsLog mem buf size rest

def middlePagesLog (isRead : Bool) (pages : List Nat) (pageOffset : Nat) :
    Nat → Nat → IoState → Phys IoState
  | 0, _, s => pure s
  | n + 1, i, s => do
      let paddr ← Logged.quiet (pageAt pages (pageOffset + i))
      let s ← gpuMemIoLog isRead paddr 4096 s
      if i = intMax then .quiet (throw .undefined)
      else middlePagesLog isRead pages pageOffset n (i + 1) (s.advance 4096)

def lastPageLog (isRead : Bool) (pages : List Nat) (pageOffset pageCount : Nat) (s : IoState) :
    Phys IoState :=
  if 2 < pageCount ∧ s.size ≠ 0 then
    if 4096 < s.size then
      .quiet (throw (.abort "[last page] read/write larger than a single page"))
    else do
      let paddr ← Logged.quiet (pageAt pages (pageOffset + pageCount - 1))
      gpuMemIoLog isRead paddr s.size s
  else
    pure s

def grGpuMemIoLog (regions : List Region) (mem : ByteMem) (gaddr : Nat) (buf : List UInt8)
    (size : Nat) (isRead : Bool) : Phys (ByteMem × List UInt8) :=
  match (grFindRegionEnclosingAddress regions gaddr).bind (regions[·]?) with
  | none => .quiet (throw .undefined)
  | some gmRegion =>
      if gmRegion.gmEnd < (gaddr + size) % 2 ^ 64 then
        .quiet (throw (.abort "cannot read/write exceeding the end of vm"))
      else do
        let offset := gaddr % 4096
        let pageOffset := (gaddr - gmRegion.gmStart) / 4096
        let pageCount := (offset + size + 4095) % 2 ^ 64 / 4096 % 2 ^ 32
        let page ← Logged.quiet (pageAt gmRegion.pages pageOffset)
        let sz := min (4096 - offset) size
        let s ← gpuMemIoLog isRead (page + offset) sz ⟨mem, buf, 0, size⟩
        let s ← middlePagesLog isRead gmRegion.pages pageOffset (pageCount - 2) 1 (s.advance sz)
        let s ← lastPageLog isRead gmRegion.pages pageOffset pageCount s
        return (s.mem, s.buf)

/-! ### `gr_clean_used_atom` -/

def cleanUsedAtomsLog : Nat → List Region → ByteMem → Phys (List Nat × ByteMem)
  | _, [], mem => pure ([], mem)
  | i, region :: regions, mem =>
      if isJobPage i region then do
        let page ← Logged.quiet (pageAt region.pages 0)
        let buf ← grReadPhysLog mem page 4096
        let r ← Logged.quiet (cleanAtoms (wordsOf buf))
        let mem ← if r.2 then grWritePhysLog mem page (Bytes.words r.1) else pure mem
        let rest ← cleanUsedAtomsLog (i + 1) regions mem
        return (i :: rest.1, rest.2)
      else
        cleanUsedAtomsLog (i + 1) regions mem

def grCleanUsedAtomLog (regions : List Region) (mem : ByteMem) : Phys (List Nat × ByteMem) :=
  cleanUsedAtomsLog 0 regions mem

/-! ### `gr_mem_contents_check` -/

def checkPageLog (newPage : Nat) (s : CheckState) : Phys CheckState :=
  let (gaddr, f) := s.stream.readWord 8 s.gaddr
  let (paddr, f) := f.readWord 8 s.paddr
  let (buf, f) := f.read 4096 s.buf
  do
    let replayed ← grReadPhysLog s.mem newPage 4096
    let isDifferent := s.isDifferent || decide (replayed ≠ buf)
    let mem ← if isDifferent then grWritePhysLog s.mem newPage buf else pure s.mem
    return ⟨f, gaddr, paddr, buf, isDifferent, mem⟩

/-- Nothing where the fuel does not last; the log is of the turns up to then. -/
def checkPagesLog (region : Region) : Nat → Nat → CheckState → Phys (Option CheckState)
  | 0, _, _ => pure none
  | fuel + 1, pageCnt, s =>
      if s.gaddr < region.gmEnd ∧ pageCnt < region.nrPages then do
        let newPage ← Logged.quiet (pageAt region.pages pageCnt)
        let s ← checkPageLog newPage s
        checkPagesLog region fuel ((pageCnt + 1) % 2 ^ 32)
          { s with gaddr := (s.gaddr + 4096) % 2 ^ 64 }
      else
        pure (some s)

def checkRegionLog (region : Region) (fuel : Nat) (l : Locals) (f : Stream) (mem : ByteMem) :
    Phys (Option (Locals × Stream × ByteMem)) :=
  let (l, f) := readHeader l f
  if l.isValid ≠ 0 then do
    let s ← checkPagesLog region fuel 0 ⟨f, region.gmStart, l.paddr, l.buf, false, mem⟩
    return s.map fun s => ({ l with paddr := s.paddr, buf := s.buf }, s.stream, s.mem)
  else
    pure (some (l, f, mem))

def checkRegionsLog (fuel : Nat) :
    List Region → Locals → Stream → ByteMem → Phys (Option ByteMem)
  | [], _, f, mem => .quiet (if f.eof then .ok (some mem) else .error .undefined)
  | region :: regions, l, f, mem =>
      if f.eof then pure (some mem)
      else do
        let r ← checkRegionLog region fuel l f mem
        match r with
        | some (l, f, mem) => checkRegionsLog fuel regions l f mem
        | none => pure none

def grMemContentsCheckLog (regions unused : List Region) (fuel : Nat) (locals : Locals)
    (file : List UInt8) (mem : ByteMem) : Phys (Option ByteMem) :=
  checkRegionsLog fuel (regions ++ unused) locals (Stream.open file) mem

/-! ### `gr_mem_init` -/

def finishTableLog (newPgd node : Nat) (r : List Nat × Nat × Machine) : Phys Built := do
  let mem ← grWritePhysLog r.2.2.mem newPgd (r.1.flatMap (Bytes.le 8))
  return ⟨newPgd, .node node, r.2.1, { r.2.2 with mem := mem }⟩

def constructEntriesLog (next : Nat → Machine → Phys Built) (level node : Nat) :
    Nat → List Nat → Nat → Machine → Phys (List Nat × Nat × Machine)
  | _, [], offset, m => pure ([], offset, m)
  | i, w :: words, offset, m =>
      if pteIsValid w level then do
        let b ← next ((offset + 513) % 2 ^ 32) m
        let r ← constructEntriesLog next level node (i + 1) words b.offset
          (b.machine.setPgd node i b.userPgd)
        return (((w &&& 0xFFF) ||| b.pgd) :: r.1, r.2)
      else do
        let r ← constructEntriesLog next level node (i + 1) words offset m
        return (w :: r.1, r.2)

def grConstructPgtLog (junk : Nat → Nat → UserPtr) (pgtValue : List Nat) :
    Nat → Nat → Machine → Phys Built
  | 0, offset, m => do
      let t ← Logged.quiet (newTable junk m)
      let old ← Logged.quiet (oldPteValue pgtValue offset)
      finishTableLog t.1 m.heap.length (old, offset, t.2)
  | below + 1, offset, m => do
      let t ← Logged.quiet (newTable junk m)
      let old ← Logged.quiet (oldPteValue pgtValue offset)
      let r ← constructEntriesLog (grConstructPgtLog junk pgtValue below) (3 - (below + 1))
        m.heap.length 0 old offset t.2
      finishTableLog t.1 m.heap.length r

def grPgtInitLog (junk : PgtJunk) (m : Machine) (file : List UInt8) : Phys PgtInit :=
  let (size, f) := (Stream.open file).readWord 8 junk.size
  let (transtab, f) := f.readWord 8 junk.transtab
  let (_, f) := f.readWord 8 junk.memattr
  let (_, f) := f.readWord 8 junk.transcfg
  do
    let r ← Logged.quiet (readPgtValue ((List.range (pgtRemained size)).map junk.word) f)
    let b ← grConstructPgtLog junk.node r.1 3 0 m
    return ⟨transtab, b.pgd, b.userPgd, b.machine, r.1, r.2.1, b.offset, r.2.2.eof⟩

def initPageLog (heap : List UserPgtable) (userPgt : UserPtr) (flags isValid newPage : Nat)
    (s : PageState) : Phys PageState := do
  let vindex := s.vaddr / 4096 % 512
  let targetPgt ← Logged.quiet (grGetUserPgdAtLevel heap userPgt s.vaddr midgardMmuBottomlevel)
  let pgdPage ← Logged.quiet (derefPgt heap targetPgt)
  let s ←
    if isValid ≠ 0 then do
      let (vaddr, f) := s.stream.readWord 8 s.vaddr
      let (paddr, f) := f.readWord 8 s.paddr
      let (buf, f) := f.read 4096 s.buf
      let mem ← grWritePhysLog s.mem newPage buf
      pure (⟨f, vaddr, paddr, buf, mem⟩ : PageState)
    else
      pure s
  let newPte := grEntryGetAte newPage flags midgardMmuBottomlevel
  return { s with mem := s.mem.write64 (pgdPage.physPage + 8 * vindex) newPte }

def initPagesLog (heap : List UserPgtable) (userPgt : UserPtr) (gmEnd flags isValid : Nat) :
    List Nat → PageState → Phys PageState
  | [], s => pure s
  | newPage :: pages, s =>
      if s.vaddr < gmEnd then do
        let s ← initPageLog heap userPgt flags isValid newPage s
        initPagesLog heap userPgt gmEnd flags isValid pages
          { s with vaddr := (s.vaddr + 4096) % 2 ^ 64 }
      else
        pure s

def initRegionLog (heap : List UserPgtable) (userPgt : UserPtr) (s : McState) :
    Phys McState :=
  let (l, f) := readHeader s.locals s.stream
  do
    let taken ← Logged.quiet (takePages l.nents s.pool)
    let p ← initPagesLog heap userPgt l.gmEnd l.flags l.isValid taken.1
      ⟨f, l.gmStart, l.paddr, l.buf, s.mem⟩
    return {
      stream := p.stream
      locals := { l with paddr := p.paddr, buf := p.buf }
      mem := p.mem
      pool := taken.2
      regions := s.regions ++ [⟨l.gmStart, l.gmEnd, taken.1, l.nents, l.flags, l.isValid, 0⟩]
      totNrPages := (s.totNrPages + l.nents) % 2 ^ 32 }

def initRegionsLog (heap : List UserPgtable) (userPgt : UserPtr) :
    Nat → McState → Phys McState
  | 0, s => .quiet (if s.stream.eof then .ok s else .error .undefined)
  | n + 1, s =>
      if s.stream.eof then pure s
      else do
        let s ← initRegionLog heap userPgt s
        initRegionsLog heap userPgt n s

def grMemContentsInitLog (m : Machine) (userPgt : UserPtr) (locals : Locals) (file : List UInt8) :
    Phys McState :=
  initRegionsLog m.heap userPgt nrVaRegion ⟨Stream.open file, locals, m.mem, m.pool, [], 0⟩

def grMemInitLog (config : GrConfig) (files : Files) (junk : InitJunk) (m : Machine) :
    Phys ReplayContext := do
  let pgtFile ← Logged.quiet (openFile .undefined files.pgt)
  let pgt ← grPgtInitLog junk.pgt m pgtFile
  let mcFile ← Logged.quiet (openFile (.abort "mem contents file read fail") files.mc)
  let mc ← grMemContentsInitLog pgt.machine pgt.userPgt junk.mc mcFile
  let sasFile ← Logged.quiet (openFile .undefined files.sas)
  let found ← Logged.quiet (grGetSyncAs mc.mem pgt.newPgd junk.sas mc.regions sasFile)
  let regFp ← Logged.quiet (grValidationInit config files.snapshot)
  return {
    machine := ⟨mc.mem, mc.pool, pgt.machine.heap⟩
    userPgt := pgt.userPgt
    oldTranstab := pgt.oldPgd
    newTranstab := pgt.newPgd
    regions := found.2
    totNrPages := mc.totNrPages
    sas := found.1
    provision := if config.testCheckpoint then some (4096 * mc.totNrPages) else none
    regFp := regFp }

end GpuReplay.Replayer
