/-
`gr_tune_mc` of `gr_utils.c`, which rewrites a memory dump so that the jobs in it have not run.

It copies the file, and changes the job pages on the way: those of regions with one page and the
flags of such pages, from the eighth record on.  It is compiled only with `DEBUG`, for use from a
program of one's own.  What it prints is left out: a hash of each record and the count of the pages.
-/
import GpuReplay.Replayer.MemCheck

namespace GpuReplay.Replayer

open Stdio

/-- The loop over the words of a page.  A `1` in front of a `0` is cleared; for the last word the
pattern ends outside the buffer. -/
def tuneWords : List Nat → Except Stop (List Nat)
  | [] => .ok []
  | word :: rest =>
      if word = 0x1 then
        match rest.head? with
        | none => .error .undefined
        | some next => do
            let rest ← tuneWords rest
            return (if next = 0x0 then 0x0 else word) :: rest
      else do
        let rest ← tuneWords rest
        return word :: rest

/-- What it takes for a record with job pages. -/
def isJobRecord (asCnt nents flags : Nat) : Bool :=
  decide (6 < asCnt) && decide (nents = 1) && (decide (flags = 0x606e) || decide (flags = 0x604e))

/-- The variables of the page loop, and the file it writes. -/
structure TunePage where
  stream : Stream
  vaddr : Nat
  paddr : Nat
  buf : List UInt8
  out : List UInt8

/-- What the page loop does with a page of a valid record. -/
def tunePage (isJob : Bool) (pageCnt : Nat) (s : TunePage) : Except Stop TunePage := do
  let (vaddr, f) := s.stream.readWord 8 s.vaddr
  let (paddr, f) := f.readWord 8 s.paddr
  let out := s.out ++ (Bytes.le 8 vaddr ++ Bytes.le 8 paddr)
  -- sometimes garbage is in the contents
  if 0xffffffffffff < vaddr then
    return ⟨f, vaddr, paddr, s.buf, out⟩
  else do
    let (buf, f) := f.read 4096 s.buf
    let buf ←
      if isJob ∧ pageCnt = 0 then do
        let words ← tuneWords (wordsOf buf)
        pure (Bytes.words words)
      else
        pure buf
    return ⟨f, vaddr, paddr, buf, out ++ buf⟩

/-- The page loop, with `n` pages to go.  The address it counts with is the variable the triples
are read into. -/
def tunePages (gmEnd isValid : Nat) (isJob : Bool) : Nat → Nat → TunePage → Except Stop TunePage
  | 0, _, s => .ok s
  | n + 1, pageCnt, s =>
      if s.vaddr < gmEnd then do
        let s ← if isValid ≠ 0 then tunePage isJob pageCnt s else pure s
        tunePages gmEnd isValid isJob n (pageCnt + 1)
          { s with vaddr := (s.vaddr + 4096) % 2 ^ 64 }
      else
        .ok s

/-- The variables of the loop on `feof`, and the file it writes. -/
structure TuneState where
  stream : Stream
  locals : Locals
  asCnt : Nat
  out : List UInt8

/-- The five writes of a header. -/
def writeHeader (l : Locals) : List UInt8 :=
  Bytes.le 8 l.gmStart ++ (Bytes.le 8 l.gmEnd ++ (Bytes.le 8 l.nents ++
    (Bytes.le 4 l.flags ++ Bytes.le 1 l.isValid)))

/-- What the loop does with a header it has read, and the pages after it. -/
def tuneRecord (l : Locals) (f : Stream) (s : TuneState) : Except Stop TuneState := do
  let p ← tunePages l.gmEnd l.isValid (isJobRecord s.asCnt l.nents l.flags) l.nents 0
    ⟨f, l.gmStart, l.paddr, l.buf, s.out ++ writeHeader l⟩
  if s.asCnt = intMax then throw .undefined
  return ⟨p.stream, { l with paddr := p.paddr, buf := p.buf }, s.asCnt + 1, p.out⟩

/-- The loop on `feof`, of which `fuel` bounds the turns. -/
def tuneRecords : Nat → TuneState → Option (Except Stop (List UInt8))
  | 0, _ => none
  | fuel + 1, s =>
      if s.stream.eof then some (.ok s.out)
      else
        let (l, f) := readHeader s.locals s.stream
        if 0xffffffffffff < l.gmStart then tuneRecords fuel { s with stream := f, locals := l }
        else if f.eof then some (.ok s.out)
        else
          match tuneRecord l f s with
          | .ok s => tuneRecords fuel s
          | .error e => some (.error e)

/-- `gr_tune_mc`: the file it writes. -/
def grTuneMc (locals : Locals) (file : List UInt8) (fuel : Nat) :
    Option (Except Stop (List UInt8)) :=
  tuneRecords fuel ⟨Stream.open file, locals, 0, []⟩

end GpuReplay.Replayer
