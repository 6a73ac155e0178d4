/-
Copying between the CPU's buffers and GPU memory: the access half of `gr_mem.c`.

`gr_gpu_mem_io` finds the region of a GPU address, checks that the transfer stays
inside it, and splits it into a first piece, whole middle pages and a last piece.
The three guards are kept as the source has them: the middle loop and the last
piece both run only when `page_count > 2`.
-/
import GpuReplay.Replayer.Defs

namespace GpuReplay.Replayer

/-- `gr_map_page`: the physical page behind the mapping, which must be aligned. -/
def grMapPage (paddr : Nat) : Except Stop Nat :=
  if paddr % 4096 ≠ 0 then .error (.abort " paddr is not aligned") else .ok paddr

/-- `gr_read_phys`.  Only one page is mapped, so `memcpy` must not leave it. -/
def grReadPhys (mem : ByteMem) (paddr size : Nat) : Except Stop (List UInt8) := do
  let offset := paddr % 4096
  let memPage ← grMapPage (pageStart paddr)
  if offset + size ≤ 4096 then return mem.read (memPage + offset) size else throw .undefined

/-- `gr_write_phys`. -/
def grWritePhys (mem : ByteMem) (paddr : Nat) (buf : List UInt8) : Except Stop ByteMem := do
  let offset := paddr % 4096
  let memPage ← grMapPage (pageStart paddr)
  if offset + buf.length ≤ 4096 then return mem.write (memPage + offset) buf
  else throw .undefined

/-- `gr_find_region_enclosing_address`: the index of the first region holding the
address, `none` where the source returns `-1`. -/
def grFindRegionEnclosingAddress (regions : List Region) (gaddr : Nat) : Option Nat :=
  regions.findIdx? fun r => decide (r.Encloses gaddr)

/-- The variables of `gr_gpu_mem_io` that change: physical memory, the caller's
buffer, how far the pointer into it has advanced, and what remains of `size`. -/
structure IoState where
  mem : ByteMem
  buf : List UInt8
  pos : Nat
  size : Nat

/-- `gpu_mem_io`, the transfer function chosen by `is_read`. -/
def gpuMemIo (isRead : Bool) (paddr sz : Nat) (s : IoState) : Except Stop IoState :=
  if isRead then do
    let bs ← grReadPhys s.mem paddr sz
    return { s with buf := Bytes.splice s.buf s.pos bs }
  else do
    let mem ← grWritePhys s.mem paddr ((s.buf.drop s.pos).take sz)
    return { s with mem := mem }

/-- `buf += sz; size -= sz;`, the subtraction in `size_t`. -/
def IoState.advance (s : IoState) (sz : Nat) : IoState :=
  { s with pos := s.pos + sz, size := (s.size + 2 ^ 64 - sz) % 2 ^ 64 }

/-- `gm_region->pages[i]`. -/
def pageAt (pages : List Nat) (i : Nat) : Except Stop Nat :=
  match pages[i]? with
  | some page => .ok page
  | none => .error .undefined

/-- The middle loop, with `n` iterations to go and counter `i`, an `int`. -/
def middlePages (isRead : Bool) (pages : List Nat) (pageOffset : Nat) :
    Nat → Nat → IoState → Except Stop IoState
  | 0, _, s => .ok s
  | n + 1, i, s => do
      let paddr ← pageAt pages (pageOffset + i)
      let s ← gpuMemIo isRead paddr 4096 s
      if i = intMax then throw .undefined
      middlePages isRead pages pageOffset n (i + 1) (s.advance 4096)

/-- The last piece, when `page_count > 2` and something remains. -/
def lastPage (isRead : Bool) (pages : List Nat) (pageOffset pageCount : Nat) (s : IoState) :
    Except Stop IoState :=
  if 2 < pageCount ∧ s.size ≠ 0 then do
    if 4096 < s.size then throw (.abort "[last page] read/write larger than a single page")
    let paddr ← pageAt pages (pageOffset + pageCount - 1)
    gpuMemIo isRead paddr s.size s
  else
    return s

/-- `gr_gpu_mem_io`.  Where the region lookup failed the source indexes
`gm_region[-1]`. -/
def grGpuMemIo (regions : List Region) (mem : ByteMem) (gaddr : Nat) (buf : List UInt8)
    (size : Nat) (isRead : Bool) : Except Stop (ByteMem × List UInt8) :=
  match (grFindRegionEnclosingAddress regions gaddr).bind (regions[·]?) with
  | none => .error .undefined
  | some gmRegion => do
      if gmRegion.gmEnd < (gaddr + size) % 2 ^ 64 then
        throw (.abort "cannot read/write exceeding the end of vm")
      let offset := gaddr % 4096
      let pageOffset := (gaddr - gmRegion.gmStart) / 4096
      -- `page_count` is a `uint32_t`
      let pageCount := (offset + size + 4095) % 2 ^ 64 / 4096 % 2 ^ 32
      let page ← pageAt gmRegion.pages pageOffset
      let sz := min (4096 - offset) size
      let s ← gpuMemIo isRead (page + offset) sz ⟨mem, buf, 0, size⟩
      let s ← middlePages isRead gmRegion.pages pageOffset (pageCount - 2) 1 (s.advance sz)
      let s ← lastPage isRead gmRegion.pages pageOffset pageCount s
      return (s.mem, s.buf)

/-- `gr_copy_from_gpu`. -/
def grCopyFromGpu (regions : List Region) (mem : ByteMem) (gaddr : Nat) (buf : List UInt8)
    (size : Nat) : Except Stop (ByteMem × List UInt8) :=
  grGpuMemIo regions mem gaddr buf size true

/-- `gr_copy_to_gpu`. -/
def grCopyToGpu (regions : List Region) (mem : ByteMem) (gaddr : Nat) (buf : List UInt8)
    (size : Nat) : Except Stop (ByteMem × List UInt8) :=
  grGpuMemIo regions mem gaddr buf size false

end GpuReplay.Replayer
