/-
When the replayer's view of GPU memory is flat.

A region table translates GPU addresses to physical ones, page by page.  With
disjoint regions and distinct frames the translation is injective, so memory seen
through it is a flat byte memory, and copying to or from GPU memory ought to be a
plain write or read of that memory.

`gr_gpu_mem_io` moves a transfer as a first piece, whole middle pages and a last
piece.  The invariant is `flatPart k`: after `k` bytes the state is that of a flat
transfer of the first `k` bytes.  Each piece takes `flatPart k` to
`flatPart (k + sz)`, so what has to be settled is which `k` the guards end at.
They end at the whole size except when the transfer spans exactly two pages, where
neither the middle loop nor the last piece runs, or more than `2 ^ 31` pages, where
`page_count` or the loop counter no longer holds the page number.  `copyRun_flat_iff`
says that this is exactly when a sequence of calls behaves as a flat memory.
-/
import Mathlib.Data.List.Pairwise
import Mathlib.Data.List.Nodup
import Mathlib.Data.List.GetD
import GpuReplay.Lib.Except
import GpuReplay.Replayer.GpuMem

namespace GpuReplay.Replayer

open ByteMem

/-! ### The region table as an address map -/

/-- Frame `pages[(a - gm_start) >> 12]`, offset `a & 0xFFF`. -/
def Region.physAddr (r : Region) (a : Nat) : Nat :=
  r.pages.getD ((a - r.gmStart) / 4096) 0 + a % 4096

/-- The physical address behind a GPU address. -/
def physAddr (regions : List Region) (a : Nat) : Nat :=
  match regions.find? fun r => decide (r.Encloses a) with
  | some r => r.physAddr a
  | none => 0

/-- The GPU addresses some region holds. -/
def mapped (regions : List Region) : Set Nat := {a | ∃ r ∈ regions, r.Encloses a}

/-- Page-aligned, pairwise disjoint regions, each backed over its whole range by
page-aligned frames of its own. -/
structure WellMapped (regions : List Region) : Prop where
  aligned : ∀ r ∈ regions, r.gmStart % 4096 = 0 ∧ r.gmEnd % 4096 = 0
  bounded : ∀ r ∈ regions, r.gmEnd < 2 ^ 64
  disjoint : regions.Pairwise fun r s => ∀ a, ¬(r.Encloses a ∧ s.Encloses a)
  backed : ∀ r ∈ regions, r.gmEnd - r.gmStart ≤ r.pages.length * 4096
  frames : ∀ r ∈ regions, ∀ p ∈ r.pages, p % 4096 = 0
  distinct : (regions.flatMap Region.pages).Nodup

/-! Where no two regions overlap, the lookup finds the one that holds an address. -/

section Lookup

variable {regions : List Region}
  (hdisjoint : regions.Pairwise fun r s => ∀ a, ¬(r.Encloses a ∧ s.Encloses a))

include hdisjoint

theorem region_unique {r s : Region} (hr : r ∈ regions) (hs : s ∈ regions) {a : Nat}
    (hra : r.Encloses a) (hsa : s.Encloses a) : r = s := by
  by_contra hne
  have : Std.Symm fun r s : Region => ∀ a, ¬(r.Encloses a ∧ s.Encloses a) :=
    ⟨fun _ _ h a hc => h a ⟨hc.2, hc.1⟩⟩
  exact hdisjoint.forall hr hs hne a ⟨hra, hsa⟩

theorem grFindRegion_unique {r : Region} (hr : r ∈ regions) {a : Nat} (ha : r.Encloses a) :
    (grFindRegionEnclosingAddress regions a).bind (regions[·]?) = some r := by
  unfold grFindRegionEnclosingAddress
  cases hf : regions.findIdx? fun r => decide (r.Encloses a) with
  | none =>
      have := List.findIdx?_eq_none_iff.mp hf r hr
      simp [ha] at this
  | some i =>
      obtain ⟨hi, henc, -⟩ := List.findIdx?_eq_some_iff_getElem.mp hf
      have hs : (regions[i]).Encloses a := by simpa using henc
      rw [Option.bind_some, List.getElem?_eq_getElem hi,
        region_unique hdisjoint (List.getElem_mem hi) hr hs ha]

theorem find_unique {r : Region} (hr : r ∈ regions) {a : Nat} (ha : r.Encloses a) :
    regions.find? (fun r => decide (r.Encloses a)) = some r := by
  cases hf : regions.find? (fun r => decide (r.Encloses a)) with
  | none =>
      have := List.find?_eq_none.mp hf r hr
      exact absurd (by simpa using ha) this
  | some s =>
      have hs : s.Encloses a := by simpa using List.find?_some hf
      rw [region_unique hdisjoint (List.mem_of_find?_eq_some hf) hr hs ha]

theorem physAddr_unique {r : Region} (hr : r ∈ regions) {a : Nat} (ha : r.Encloses a) :
    physAddr regions a = r.physAddr a := by
  unfold physAddr
  rw [find_unique hdisjoint hr ha]

end Lookup

namespace WellMapped

variable {regions : List Region} (hw : WellMapped regions)

include hw

theorem physAddr_eq {r : Region} (hr : r ∈ regions) {a : Nat} (ha : r.Encloses a) :
    physAddr regions a = r.physAddr a :=
  physAddr_unique hw.disjoint hr ha

/-- The region lookup of the source finds the one region that holds the address. -/
theorem lookup_eq {r : Region} (hr : r ∈ regions) {a : Nat} (ha : r.Encloses a) :
    (grFindRegionEnclosingAddress regions a).bind (regions[·]?) = some r :=
  grFindRegion_unique hw.disjoint hr ha

/-- The frame of an enclosed address is one of the region's pages. -/
theorem pages_getElem? {r : Region} (hr : r ∈ regions) {a : Nat} (ha : r.Encloses a) :
    ∃ p ∈ r.pages, r.pages[(a - r.gmStart) / 4096]? = some p ∧ p % 4096 = 0 ∧
      r.physAddr a = p + a % 4096 := by
  obtain ⟨hstart, hend⟩ := hw.aligned r hr
  obtain ⟨hlo, hhi⟩ := ha
  have hcov := hw.backed r hr
  have hlt : (a - r.gmStart) / 4096 < r.pages.length := by omega
  refine ⟨r.pages[(a - r.gmStart) / 4096], List.getElem_mem hlt, List.getElem?_eq_getElem hlt,
    hw.frames r hr _ (List.getElem_mem hlt), ?_⟩
  rw [Region.physAddr, List.getD_eq_getElem _ _ hlt]

/-- **The translation is injective on the mapped addresses.** -/
theorem physAddr_injOn : Set.InjOn (physAddr regions) (mapped regions) := by
  rintro a ⟨r, hr, hra⟩ b ⟨s, hs, hsb⟩ hab
  rw [hw.physAddr_eq hr hra, hw.physAddr_eq hs hsb] at hab
  obtain ⟨p, hp, hpa, hp0, hpe⟩ := hw.pages_getElem? hr hra
  obtain ⟨q, hq, hqb, hq0, hqe⟩ := hw.pages_getElem? hs hsb
  rw [hpe, hqe] at hab
  have hpq : p = q := by omega
  have hoff : a % 4096 = b % 4096 := by omega
  obtain ⟨hnodup, hdisj⟩ := List.nodup_flatMap.mp hw.distinct
  -- a frame two regions share would occur twice in the concatenation
  have hrs : r = s := by
    by_contra hne
    have : Std.Symm (Function.onFun List.Disjoint Region.pages) :=
      ⟨fun _ _ h _ hb ha => h ha hb⟩
    exact hdisj.forall hr hs hne hp (hpq ▸ hq)
  subst hrs
  have hidx : (a - r.gmStart) / 4096 = (b - r.gmStart) / 4096 := by
    obtain ⟨hi, hia⟩ := List.getElem?_eq_some_iff.mp hpa
    obtain ⟨hj, hjb⟩ := List.getElem?_eq_some_iff.mp hqb
    exact (hnodup r hr).getElem_inj_iff.mp (by rw [hia, hjb, hpq])
  have hstart := (hw.aligned r hr).1
  have hlo := hra.1
  have hlo' := hsb.1
  omega

/-- Inside one page the translation is contiguous. -/
theorem physAddr_add {r : Region} (hr : r ∈ regions) {a k : Nat} (ha : r.Encloses a)
    (hk : a % 4096 + k < 4096) (hend : a + k < r.gmEnd) :
    physAddr regions (a + k) = r.physAddr a + k := by
  have hstart := (hw.aligned r hr).1
  have hlo := ha.1
  rw [hw.physAddr_eq hr ⟨by omega, hend⟩]
  unfold Region.physAddr
  have hidx : (a + k - r.gmStart) / 4096 = (a - r.gmStart) / 4096 := by omega
  rw [hidx]
  omega

end WellMapped

/-! ### One piece of a transfer -/

theorem grReadPhys_eq {mem : ByteMem} {paddr size : Nat} (h : paddr % 4096 + size ≤ 4096) :
    grReadPhys mem paddr size = .ok (mem.read paddr size) := by
  have hstart : pageStart paddr % 4096 = 0 := by unfold pageStart; omega
  have hsum : pageStart paddr + paddr % 4096 = paddr := by unfold pageStart; omega
  simp [grReadPhys, grMapPage, hstart, hsum, h]

theorem grWritePhys_eq {mem : ByteMem} {paddr : Nat} {buf : List UInt8}
    (h : paddr % 4096 + buf.length ≤ 4096) :
    grWritePhys mem paddr buf = .ok (mem.write paddr buf) := by
  have hstart : pageStart paddr % 4096 = 0 := by unfold pageStart; omega
  have hsum : pageStart paddr + paddr % 4096 = paddr := by unfold pageStart; omega
  simp [grWritePhys, grMapPage, hstart, hsum, h]

/-- **A copy into one page is a write to its frame**, also in a region that is backed only in
part. -/
theorem grCopyToGpu_page {regions : List Region} {r : Region} {gaddr frame : Nat}
    {buf : List UInt8}
    (hlookup : (grFindRegionEnclosingAddress regions gaddr).bind (regions[·]?) = some r)
    (hbound : r.gmEnd < 2 ^ 64) (hend : gaddr + buf.length ≤ r.gmEnd) (hpos : 0 < buf.length)
    (hpage : gaddr % 4096 + buf.length ≤ 4096)
    (hframe : r.pages[(gaddr - r.gmStart) / 4096]? = some frame) (haligned : frame % 4096 = 0)
    (mem : ByteMem) :
    grCopyToGpu regions mem gaddr buf buf.length
      = .ok (mem.write (frame + gaddr % 4096) buf, buf) := by
  have hfits : ¬r.gmEnd < (gaddr + buf.length) % 2 ^ 64 := by omega
  have hcount : (gaddr % 4096 + buf.length + 4095) % 2 ^ 64 / 4096 % 2 ^ 32 = 1 := by omega
  have hsz : min (4096 - gaddr % 4096) buf.length = buf.length := by omega
  have hat : pageAt r.pages ((gaddr - r.gmStart) / 4096) = .ok frame := by
    unfold pageAt
    rw [hframe]
  have hwrite : grWritePhys mem (frame + gaddr % 4096) buf
      = .ok (mem.write (frame + gaddr % 4096) buf) := grWritePhys_eq (by omega)
  unfold grCopyToGpu grGpuMemIo
  simp only [hlookup, hfits, if_false, hcount, hat, hsz, gpuMemIo, Bool.false_eq_true,
    List.drop_zero, List.take_length, hwrite, Except.ok_bind, Except.pure_eq_ok, lastPage]
  rfl

/-- How many pages a range touches: `page_count` before it becomes a `uint32_t`. -/
def pageCount (gaddr size : Nat) : Nat := (gaddr % 4096 + size + 4095) / 4096

section Transfer

variable {regions : List Region} (hw : WellMapped regions) {r : Region} (hr : r ∈ regions)
  (isRead : Bool) (mem : ByteMem) (buf : List UInt8) {gaddr : Nat}
  (hlo : r.gmStart ≤ gaddr) (hhi : gaddr + buf.length ≤ r.gmEnd)

/-- The state after a flat transfer of the first `k` bytes. -/
def flatPart (regions : List Region) (isRead : Bool) (mem : ByteMem) (buf : List UInt8)
    (gaddr k : Nat) : IoState where
  mem := if isRead then mem else scatter (physAddr regions) mem gaddr (buf.take k)
  buf := if isRead then Bytes.splice buf 0 (gather mem (physAddr regions) gaddr k) else buf
  pos := k
  size := buf.length - k

theorem flatPart_zero (gaddr : Nat) :
    flatPart regions isRead mem buf gaddr 0 = ⟨mem, buf, 0, buf.length⟩ := by
  cases isRead <;> simp [flatPart, gather, scatter, Bytes.splice_nil]

include hw hr hlo hhi

/-- **One piece inside one page moves the transfer on by its length.** -/
theorem gpuMemIo_flatPart (k sz : Nat) (hsz : 0 < sz) (hk : k + sz ≤ buf.length)
    (hpage : (gaddr + k) % 4096 + sz ≤ 4096) :
    ∃ s, gpuMemIo isRead (r.physAddr (gaddr + k)) sz (flatPart regions isRead mem buf gaddr k)
        = .ok s ∧
      s.mem = (flatPart regions isRead mem buf gaddr (k + sz)).mem ∧
      s.buf = (flatPart regions isRead mem buf gaddr (k + sz)).buf ∧
      s.advance sz = flatPart regions isRead mem buf gaddr (k + sz) := by
  have henc : r.Encloses (gaddr + k) := ⟨by omega, by omega⟩
  obtain ⟨p, -, -, hp0, hpe⟩ := hw.pages_getElem? hr henc
  have hcontig : ∀ j, j < sz →
      physAddr regions (gaddr + k + j) = r.physAddr (gaddr + k) + j :=
    fun j hj => hw.physAddr_add hr henc (by omega) (by omega)
  have hoff : r.physAddr (gaddr + k) % 4096 + sz ≤ 4096 := by rw [hpe]; omega
  have hbound := hw.bounded r hr
  have hsize : (buf.length - k + 2 ^ 64 - sz) % 2 ^ 64 = buf.length - (k + sz) := by omega
  cases isRead with
  | true =>
      have hread : grReadPhys mem (r.physAddr (gaddr + k)) sz
          = .ok (gather mem (physAddr regions) (gaddr + k) sz) := by
        rw [grReadPhys_eq hoff, read_eq_gather hcontig]
      have hsplice := Bytes.splice_splice (Nat.zero_le buf.length)
        (gather mem (physAddr regions) gaddr k) (gather mem (physAddr regions) (gaddr + k) sz)
      rw [length_gather, Nat.zero_add, ← gather_add] at hsplice
      refine ⟨⟨mem, Bytes.splice buf 0 (gather mem (physAddr regions) gaddr (k + sz)), k,
        buf.length - k⟩, ?_, rfl, rfl, ?_⟩
      · simp only [gpuMemIo, flatPart, if_true, hread, Except.ok_bind, Except.pure_eq_ok, hsplice]
      · simp only [IoState.advance, flatPart, if_true, hsize]
  | false =>
      have hlen : ((buf.drop k).take sz).length = sz := by simp; omega
      have htake : buf.take (k + sz) = buf.take k ++ (buf.drop k).take sz := List.take_add
      have hwrite : grWritePhys (scatter (physAddr regions) mem gaddr (buf.take k))
          (r.physAddr (gaddr + k)) ((buf.drop k).take sz)
          = .ok (scatter (physAddr regions) mem gaddr (buf.take (k + sz))) := by
        rw [grWritePhys_eq (by rw [hlen]; exact hoff),
          write_eq_scatter (physAddr regions) (a := gaddr + k)
            (fun j hj => hcontig j (by omega)), htake, scatter_append, List.length_take,
          Nat.min_eq_left (by omega)]
      refine ⟨⟨scatter (physAddr regions) mem gaddr (buf.take (k + sz)), buf, k,
        buf.length - k⟩, ?_, rfl, rfl, ?_⟩
      · simp only [gpuMemIo, flatPart, if_false, Bool.false_eq_true, hwrite, Except.ok_bind,
          Except.pure_eq_ok]
      · simp only [IoState.advance, flatPart, if_false, Bool.false_eq_true, hsize]

theorem pageAt_eq {k i : Nat} (hk : k < buf.length) (haligned : (gaddr + k) % 4096 = 0)
    (hi : (gaddr + k - r.gmStart) / 4096 = i) :
    pageAt r.pages i = .ok (r.physAddr (gaddr + k)) := by
  obtain ⟨p, -, hidx, -, hpe⟩ :=
    hw.pages_getElem? hr (a := gaddr + k) ⟨by omega, by omega⟩
  rw [hi] at hidx
  unfold pageAt
  rw [hidx, hpe, haligned, Nat.add_zero]

/-- One turn of the middle loop, at a page boundary. -/
theorem middlePages_succ {n i k : Nat} (hk : (gaddr + k) % 4096 = 0)
    (hi : (gaddr + k - r.gmStart) / 4096 = (gaddr - r.gmStart) / 4096 + i)
    (hlen : k + 4096 ≤ buf.length) :
    middlePages isRead r.pages ((gaddr - r.gmStart) / 4096) (n + 1) i
        (flatPart regions isRead mem buf gaddr k)
      = if i = intMax then .error .undefined
        else middlePages isRead r.pages ((gaddr - r.gmStart) / 4096) n (i + 1)
          (flatPart regions isRead mem buf gaddr (k + 4096)) := by
  have hpage := pageAt_eq hw hr buf hlo hhi (by omega) hk hi
  obtain ⟨s, hio, -, -, hadv⟩ := gpuMemIo_flatPart hw hr isRead mem buf hlo hhi k 4096
    (by omega) (by omega) (by omega)
  rw [middlePages, hpage, Except.ok_bind, hio, Except.ok_bind, hadv]
  by_cases heq : i = intMax
  · rw [if_pos heq, if_pos heq]
    exact Except.error_bind ..
  · rw [if_neg heq, if_neg heq]

/-- **The middle loop moves whole pages**, as long as its counter stays an `int`. -/
theorem middlePages_flatPart :
    ∀ (n i k l : Nat), (gaddr + k) % 4096 = 0 →
      (gaddr + k - r.gmStart) / 4096 = (gaddr - r.gmStart) / 4096 + i →
      i + n ≤ intMax → l = k + 4096 * n → l ≤ buf.length →
      middlePages isRead r.pages ((gaddr - r.gmStart) / 4096) n i
          (flatPart regions isRead mem buf gaddr k)
        = .ok (flatPart regions isRead mem buf gaddr l) := by
  intro n
  induction n with
  | zero => intro i k l _ _ _ hl _; rw [hl, Nat.mul_zero, Nat.add_zero]; rfl
  | succ n ih =>
      intro i k l hk hi hmax hl hlen
      rw [Nat.mul_succ] at hl
      have hne : i ≠ intMax := by omega
      rw [middlePages_succ hw hr isRead mem buf hlo hhi hk hi (by omega), if_neg hne]
      exact ih (i + 1) (k + 4096) l (by omega) (by omega) (by omega) (by omega) hlen

/-- Run for too long, the middle loop overflows its counter. -/
theorem middlePages_overflow :
    ∀ (n i k : Nat), (gaddr + k) % 4096 = 0 →
      (gaddr + k - r.gmStart) / 4096 = (gaddr - r.gmStart) / 4096 + i →
      i ≤ intMax → intMax < i + n → k + 4096 * n ≤ buf.length →
      middlePages isRead r.pages ((gaddr - r.gmStart) / 4096) n i
          (flatPart regions isRead mem buf gaddr k)
        = .error .undefined := by
  intro n
  induction n with
  | zero => intro i k _ _ hi hmax _; omega
  | succ n ih =>
      intro i k hk hi himax hmax hlen
      rw [Nat.mul_succ, ← Nat.add_assoc, Nat.add_right_comm] at hlen
      have hone : k + 4096 ≤ buf.length := Nat.le_trans (Nat.le_add_right _ _) hlen
      rw [middlePages_succ hw hr isRead mem buf hlo hhi hk hi hone]
      by_cases heq : i = intMax
      · rw [if_pos heq]
      · rw [if_neg heq]
        refine ih (i + 1) (k + 4096) ?_ ?_ ?_ ?_ hlen
        all_goals clear hlen; omega

/-- After the lookup, the bounds check and the first piece. -/
theorem grGpuMemIo_eq (hpos : 0 < buf.length) :
    grGpuMemIo regions mem gaddr buf buf.length isRead = (do
      let s ← middlePages isRead r.pages ((gaddr - r.gmStart) / 4096)
        (pageCount gaddr buf.length % 2 ^ 32 - 2) 1
        (flatPart regions isRead mem buf gaddr (min (4096 - gaddr % 4096) buf.length))
      let s ← lastPage isRead r.pages ((gaddr - r.gmStart) / 4096)
        (pageCount gaddr buf.length % 2 ^ 32) s
      return (s.mem, s.buf)) := by
  have henc : r.Encloses gaddr := ⟨hlo, by omega⟩
  have hbound := hw.bounded r hr
  obtain ⟨hstart, hend⟩ := hw.aligned r hr
  obtain ⟨p, -, hidx, -, hpe⟩ := hw.pages_getElem? hr henc
  have hpage : pageAt r.pages ((gaddr - r.gmStart) / 4096) = .ok p := by
    unfold pageAt
    rw [hidx]
  have hsum : (gaddr % 4096 + buf.length + 4095) % 2 ^ 64
      = gaddr % 4096 + buf.length + 4095 := Nat.mod_eq_of_lt (by omega)
  have hfits : ¬ r.gmEnd < (gaddr + buf.length) % 2 ^ 64 := by omega
  obtain ⟨s, hio, -, -, hadv⟩ := gpuMemIo_flatPart hw hr isRead mem buf hlo hhi 0
    (min (4096 - gaddr % 4096) buf.length) (by omega) (by omega) (by omega)
  rw [Nat.add_zero, Nat.zero_add] at *
  rw [hpe, flatPart_zero] at hio
  unfold grGpuMemIo
  simp only [hw.lookup_eq hr henc, if_neg hfits, hpage, hio, hsum, hadv, Except.ok_bind, pageCount]

theorem lastPage_flatPart {pageOffset pc k : Nat} (hpc : 2 < pc)
    (hk : (gaddr + k) % 4096 = 0)
    (hi : (gaddr + k - r.gmStart) / 4096 = pageOffset + pc - 1) (hlt : k < buf.length)
    (hle : buf.length ≤ k + 4096) :
    ∃ s, lastPage isRead r.pages pageOffset pc (flatPart regions isRead mem buf gaddr k)
        = .ok s ∧
      s.mem = (flatPart regions isRead mem buf gaddr buf.length).mem ∧
      s.buf = (flatPart regions isRead mem buf gaddr buf.length).buf := by
  have hpage := pageAt_eq hw hr buf hlo hhi hlt hk hi
  obtain ⟨s, hio, hmem, hbuf, -⟩ := gpuMemIo_flatPart hw hr isRead mem buf hlo hhi k
    (buf.length - k) (by omega) (by omega) (by omega)
  rw [Nat.add_sub_cancel' (by omega)] at hmem hbuf
  have hsize : (flatPart regions isRead mem buf gaddr k).size = buf.length - k := rfl
  have hrun : 2 < pc ∧ (flatPart regions isRead mem buf gaddr k).size ≠ 0 :=
    ⟨hpc, by rw [hsize]; omega⟩
  have hfits : ¬ 4096 < (flatPart regions isRead mem buf gaddr k).size := by rw [hsize]; omega
  refine ⟨s, ?_, hmem, hbuf⟩
  rw [lastPage, if_pos hrun, if_neg hfits, hpage]
  exact hio

omit hw hr hlo hhi in
/-- With more than a page left the last piece refuses. -/
theorem lastPage_abort (regions : List Region) (r : Region) (isRead : Bool) (mem : ByteMem)
    (buf : List UInt8) (gaddr pageOffset pc k : Nat) (hpc : 2 < pc) (hk : k + 4096 < buf.length) :
    ∃ msg, lastPage isRead r.pages pageOffset pc (flatPart regions isRead mem buf gaddr k)
      = .error (.abort msg) := by
  have hsize : (flatPart regions isRead mem buf gaddr k).size = buf.length - k := rfl
  have hrun : 2 < pc ∧ (flatPart regions isRead mem buf gaddr k).size ≠ 0 :=
    ⟨hpc, by rw [hsize]; omega⟩
  have hbig : 4096 < (flatPart regions isRead mem buf gaddr k).size := by rw [hsize]; omega
  rw [lastPage, if_pos hrun, if_pos hbig]
  exact ⟨_, rfl⟩

/-- **A transfer of one page, or of three to `2 ^ 31`, is a flat one.** -/
theorem grGpuMemIo_flat (hpos : 0 < buf.length) (htwo : pageCount gaddr buf.length ≠ 2)
    (hmax : pageCount gaddr buf.length ≤ 2 ^ 31) :
    grGpuMemIo regions mem gaddr buf buf.length isRead
      = .ok ((flatPart regions isRead mem buf gaddr buf.length).mem,
          (flatPart regions isRead mem buf gaddr buf.length).buf) := by
  obtain ⟨hstart, -⟩ := hw.aligned r hr
  rw [grGpuMemIo_eq hw hr isRead mem buf hlo hhi hpos, Nat.mod_eq_of_lt (by omega)]
  by_cases hone : pageCount gaddr buf.length = 1
  · have hsz : min (4096 - gaddr % 4096) buf.length = buf.length := by
      unfold pageCount at hone
      omega
    rw [hone, hsz]
    rfl
  · obtain ⟨n, hn⟩ : ∃ n, pageCount gaddr buf.length = n + 3 := by
      refine ⟨pageCount gaddr buf.length - 3, ?_⟩
      have : 0 < pageCount gaddr buf.length := by unfold pageCount; omega
      omega
    have hsz : min (4096 - gaddr % 4096) buf.length = 4096 - gaddr % 4096 := by
      unfold pageCount at hn
      omega
    -- where the last piece starts
    obtain ⟨k, hk⟩ : ∃ k, k = 4096 - gaddr % 4096 + 4096 * (n + 1) := ⟨_, rfl⟩
    have hbounds : k < buf.length ∧ buf.length ≤ k + 4096 := by
      unfold pageCount at hn
      omega
    have hidx : (gaddr + k - r.gmStart) / 4096 = (gaddr - r.gmStart) / 4096 + (n + 3) - 1 := by
      clear hn hmax hhi hbounds
      omega
    have hmiddle := middlePages_flatPart hw hr isRead mem buf hlo hhi (n + 1) 1
      (4096 - gaddr % 4096) k (by omega) (by omega) (by unfold intMax; omega) hk hbounds.1.le
    obtain ⟨s, hlast, hmem, hbuf⟩ := lastPage_flatPart hw hr isRead mem buf hlo hhi
      (by omega) (by omega) hidx hbounds.1 hbounds.2
    have hcount : n + 3 - 2 = n + 1 := rfl
    rw [hn, hsz, hcount, hmiddle, Except.ok_bind, hlast, Except.ok_bind, hmem, hbuf]
    rfl

/-- **Any other transfer stops short**: it returns after the first piece, or it does
not return. -/
theorem grGpuMemIo_short
    (hbad : pageCount gaddr buf.length = 2 ∨ 2 ^ 31 < pageCount gaddr buf.length) :
    (∃ e, grGpuMemIo regions mem gaddr buf buf.length isRead = .error e) ∨
    (∃ k, k < buf.length ∧ grGpuMemIo regions mem gaddr buf buf.length isRead
      = .ok ((flatPart regions isRead mem buf gaddr k).mem,
          (flatPart regions isRead mem buf gaddr k).buf)) := by
  obtain ⟨hstart, -⟩ := hw.aligned r hr
  have hlong : 4096 < gaddr % 4096 + buf.length := by unfold pageCount at hbad; omega
  have hsz : min (4096 - gaddr % 4096) buf.length = 4096 - gaddr % 4096 := by omega
  rw [grGpuMemIo_eq hw hr isRead mem buf hlo hhi (by omega), hsz]
  generalize hpc : pageCount gaddr buf.length % 2 ^ 32 = pc
  by_cases hfew : pc ≤ 2
  · refine .inr ⟨4096 - gaddr % 4096, by omega, ?_⟩
    have hnone : ¬ (2 < pc ∧ (flatPart regions isRead mem buf gaddr
      (4096 - gaddr % 4096)).size ≠ 0) := fun h => by omega
    rw [Nat.sub_eq_zero_of_le hfew, middlePages, Except.ok_bind, lastPage, if_neg hnone]
    rfl
  · left
    obtain ⟨n, rfl⟩ : ∃ n, pc = n + 3 := ⟨pc - 3, by omega⟩
    have hlow : 4096 * (pageCount gaddr buf.length - 1) < gaddr % 4096 + buf.length := by
      unfold pageCount at hbad ⊢
      omega
    have hcount : n + 3 - 2 = n + 1 := rfl
    rw [hcount]
    by_cases hwrap : n + 3 ≤ 2 ^ 31
    · have hmiddle := middlePages_flatPart hw hr isRead mem buf hlo hhi (n + 1) 1
        (4096 - gaddr % 4096) (4096 - gaddr % 4096 + 4096 * (n + 1)) (by omega) (by omega)
        (by unfold intMax; omega) rfl (by omega)
      obtain ⟨msg, hlast⟩ := lastPage_abort regions r isRead mem buf gaddr
        ((gaddr - r.gmStart) / 4096) (n + 3) (4096 - gaddr % 4096 + 4096 * (n + 1)) (by omega)
        (by omega)
      rw [hmiddle, Except.ok_bind, hlast]
      exact ⟨_, rfl⟩
    · rw [middlePages_overflow hw hr isRead mem buf hlo hhi (n + 1) 1 (4096 - gaddr % 4096)
        (by omega) (by omega) (by decide) (by unfold intMax; omega) (by omega)]
      exact ⟨_, rfl⟩

end Transfer

/-! ### A sequence of calls against a flat memory -/

/-- One `gr_copy_from_gpu` or `gr_copy_to_gpu`. -/
structure Call where
  isRead : Bool
  gaddr : Nat
  size : Nat

namespace Call

/-- The call as the replayer runs it. -/
def exec (c : Call) (regions : List Region) (mem : ByteMem) (buf : List UInt8) :
    Except Stop (ByteMem × List UInt8) :=
  if c.isRead then grCopyFromGpu regions mem c.gaddr buf c.size
  else grCopyToGpu regions mem c.gaddr buf c.size

/-- The call on a flat memory indexed by GPU address. -/
def flat (c : Call) (mem : ByteMem) (buf : List UInt8) : ByteMem × List UInt8 :=
  if c.isRead then (mem, mem.read c.gaddr c.size) else (mem.write c.gaddr buf, buf)

/-- The physical bytes a call may change. -/
def frame (c : Call) (regions : List Region) : Set Nat :=
  {p | c.isRead = false ∧ ∃ k, k < c.size ∧ physAddr regions (c.gaddr + k) = p}

/-- A non-empty range inside one region. -/
def InRegion (c : Call) (regions : List Region) : Prop :=
  0 < c.size ∧ ∃ r ∈ regions, r.gmStart ≤ c.gaddr ∧ c.gaddr + c.size ≤ r.gmEnd

/-- One page, or three to `2 ^ 31`. -/
def Whole (c : Call) : Prop :=
  pageCount c.gaddr c.size ≠ 2 ∧ pageCount c.gaddr c.size ≤ 2 ^ 31

end Call

/-- The calls run through, and after each of them the buffer is that of the flat
memory, the mapped bytes are those of the flat memory, and every byte outside the
call's frame is the one before it. -/
def RunsFlat (regions : List Region) :
    List Call → List (List UInt8) → ByteMem → ByteMem → Prop
  | [], _, _, _ => True
  | _ :: _, [], _, _ => False
  | c :: calls, buf :: bufs, mem, flat =>
      ∃ mem', c.exec regions mem buf = .ok (mem', (c.flat flat buf).2) ∧
        (∀ a ∈ mapped regions, mem' (physAddr regions a) = (c.flat flat buf).1 a) ∧
        (∀ p, p ∉ c.frame regions → mem' p = mem p) ∧
        RunsFlat regions calls bufs mem' (c.flat flat buf).1

section Calls

variable {regions : List Region}

theorem Call.exec_eq (c : Call) (mem : ByteMem) (buf : List UInt8) :
    c.exec regions mem buf = grGpuMemIo regions mem c.gaddr buf c.size c.isRead := by
  unfold Call.exec grCopyFromGpu grCopyToGpu
  cases c.isRead <;> rfl

theorem mapped_of_range {r : Region} (hr : r ∈ regions) {gaddr size : Nat}
    (hlo : r.gmStart ≤ gaddr) (hhi : gaddr + size ≤ r.gmEnd) {k : Nat} (hk : k < size) :
    gaddr + k ∈ mapped regions :=
  ⟨r, hr, by omega, by omega⟩

/-- A whole transfer does to the mapped bytes what the flat memory does. -/
theorem flatPart_flat (hw : WellMapped regions) (c : Call) (hc : c.InRegion regions)
    {mem flat : ByteMem} (hagree : ∀ a ∈ mapped regions, mem (physAddr regions a) = flat a)
    {buf : List UInt8} (hlen : buf.length = c.size) :
    (flatPart regions c.isRead mem buf c.gaddr c.size).buf = (c.flat flat buf).2 ∧
    (∀ a ∈ mapped regions,
      (flatPart regions c.isRead mem buf c.gaddr c.size).mem (physAddr regions a)
        = (c.flat flat buf).1 a) ∧
    ∀ p, p ∉ c.frame regions →
      (flatPart regions c.isRead mem buf c.gaddr c.size).mem p = mem p := by
  obtain ⟨-, r, hr, hlo, hhi⟩ := hc
  obtain ⟨isRead, gaddr, size⟩ := c
  simp only at hlo hhi hlen
  have hrange : ∀ k, k < size → gaddr + k ∈ mapped regions :=
    fun k hk => mapped_of_range hr hlo hhi hk
  cases isRead with
  | true =>
      refine ⟨?_, hagree, fun p _ => rfl⟩
      have hgather : gather mem (physAddr regions) gaddr size = flat.read gaddr size := by
        rw [gather_eq_read]
        exact read_congr fun k hk => hagree _ (hrange k hk)
      show Bytes.splice buf 0 (gather mem (physAddr regions) gaddr size) = flat.read gaddr size
      rw [hgather, Bytes.splice_zero_of_length_le (by rw [length_read, hlen])]
  | false =>
      have htake : buf.take size = buf := List.take_of_length_le hlen.le
      refine ⟨rfl, ?_, ?_⟩
      · intro a ha
        show scatter (physAddr regions) mem gaddr (buf.take size) (physAddr regions a)
          = flat.write gaddr buf a
        rw [htake, view_scatter hw.physAddr_injOn ha (fun k hk => hrange k (hlen ▸ hk))]
        exact write_congr (hagree a ha) ..
      · intro p hp
        show scatter (physAddr regions) mem gaddr (buf.take size) p = mem p
        rw [htake]
        exact scatter_apply_of_not_mem fun k hk hkp => hp ⟨rfl, k, hlen ▸ hk, hkp⟩

/-- **A whole transfer is one step of the flat memory.** -/
theorem exec_whole (hw : WellMapped regions) {c : Call} (hc : c.InRegion regions)
    (hwhole : c.Whole) {mem flat : ByteMem}
    (hagree : ∀ a ∈ mapped regions, mem (physAddr regions a) = flat a)
    {buf : List UInt8} (hlen : buf.length = c.size) :
    ∃ mem', c.exec regions mem buf = .ok (mem', (c.flat flat buf).2) ∧
      (∀ a ∈ mapped regions, mem' (physAddr regions a) = (c.flat flat buf).1 a) ∧
      ∀ p, p ∉ c.frame regions → mem' p = mem p := by
  obtain ⟨hbuf, hmem, hframe⟩ := flatPart_flat hw c hc hagree hlen
  obtain ⟨hpos, r, hr, hlo, hhi⟩ := hc
  refine ⟨_, ?_, hmem, hframe⟩
  have hio := grGpuMemIo_flat hw hr c.isRead mem buf hlo (hlen ▸ hhi) (hlen ▸ hpos)
    (hlen ▸ hwhole.1) (hlen ▸ hwhole.2)
  rw [hlen] at hio
  rw [Call.exec_eq, hio, hbuf]

/-- A transfer that stops short leaves its last byte out: over zeroed memory and a
buffer of ones the difference shows. -/
theorem flatPart_short (hw : WellMapped regions) (c : Call) (hc : c.InRegion regions) {k : Nat}
    (hk : k < c.size) :
    (flatPart regions c.isRead (fun _ => 0) (List.replicate c.size 1) c.gaddr k).buf
        ≠ (c.flat (fun _ => 0) (List.replicate c.size 1)).2 ∨
      ∃ a ∈ mapped regions,
        (flatPart regions c.isRead (fun _ => 0) (List.replicate c.size 1) c.gaddr k).mem
            (physAddr regions a)
          ≠ (c.flat (fun _ => 0) (List.replicate c.size 1)).1 a := by
  obtain ⟨hpos, r, hr, hlo, hhi⟩ := hc
  obtain ⟨isRead, gaddr, size⟩ := c
  simp only at hlo hhi hpos hk
  have hlast : size - 1 < size := by omega
  cases isRead with
  | true =>
      left
      intro heq
      have hflat : (read (fun _ => 0) gaddr size)[size - 1]? = some 0 := getElem?_read _ hlast
      have hpart : (Bytes.splice (List.replicate size 1) 0
          (gather (fun _ => 0) (physAddr regions) gaddr k))[size - 1]? = some 1 := by
        rw [Bytes.splice, List.take_zero, List.nil_append, length_gather, Nat.zero_add,
          List.drop_replicate, List.getElem?_append_right (by rw [length_gather]; omega),
          length_gather, List.getElem?_replicate, if_pos (by omega)]
      have hsome : some (0 : UInt8) = some 1 :=
        hflat.symm.trans ((congrArg (·[size - 1]?) heq).symm.trans hpart)
      exact absurd hsome (by decide)
  | false =>
      right
      have hrange : ∀ j, j < size → gaddr + j ∈ mapped regions :=
        fun j hj => mapped_of_range hr hlo hhi hj
      refine ⟨gaddr + (size - 1), hrange _ hlast, ?_⟩
      have hpart : scatter (physAddr regions) (fun _ => 0) gaddr
          ((List.replicate size 1).take k) (physAddr regions (gaddr + (size - 1))) = 0 := by
        refine scatter_apply_of_not_mem fun j hj hcontra => ?_
        rw [List.length_take, List.length_replicate] at hj
        have := hw.physAddr_injOn (hrange j (by omega)) (hrange _ hlast) hcontra
        omega
      have hflat : write (fun _ => 0) gaddr (List.replicate size 1) (gaddr + (size - 1)) = 1 := by
        rw [write_apply_add _ _ (by rw [List.length_replicate]; exact hlast),
          List.getElem_replicate]
      show scatter (physAddr regions) (fun _ => 0) gaddr ((List.replicate size 1).take k)
        (physAddr regions (gaddr + (size - 1)))
          ≠ write (fun _ => 0) gaddr (List.replicate size 1) (gaddr + (size - 1))
      rw [hpart, hflat]
      decide

/-- **No other transfer is a step of the flat memory.** -/
theorem exec_not_whole (hw : WellMapped regions) {c : Call} (hc : c.InRegion regions)
    (hbad : ¬ c.Whole) :
    ¬ ∃ mem', c.exec regions (fun _ => 0) (List.replicate c.size 1)
        = .ok (mem', (c.flat (fun _ => 0) (List.replicate c.size 1)).2) ∧
      ∀ a ∈ mapped regions,
        mem' (physAddr regions a) = (c.flat (fun _ => 0) (List.replicate c.size 1)).1 a := by
  rintro ⟨mem', hexec, hmem⟩
  have hpages : pageCount c.gaddr c.size = 2 ∨ 2 ^ 31 < pageCount c.gaddr c.size := by
    unfold Call.Whole at hbad
    omega
  have hlen : (List.replicate c.size (1 : UInt8)).length = c.size := List.length_replicate
  obtain ⟨-, r, hr, hlo, hhi⟩ := id hc
  have hshort := grGpuMemIo_short hw hr c.isRead (fun _ => 0) (List.replicate c.size 1) hlo
    (by rw [hlen]; exact hhi) (by rw [hlen]; exact hpages)
  rw [hlen, ← Call.exec_eq, hexec] at hshort
  rcases hshort with ⟨e, herr⟩ | ⟨k, hk, hok⟩
  · exact absurd herr (by simp)
  · obtain ⟨hmem', hbuf⟩ := Prod.mk.inj (Except.ok.inj hok)
    rcases flatPart_short hw c hc hk with hne | ⟨a, ha, hne⟩
    · exact hne hbuf.symm
    · exact hne (by rw [← hmem a ha, hmem'])

/-- Every memory is one a whole transfer can leave behind: the one before it, when
what is written is what was there. -/
theorem exec_restore (hw : WellMapped regions) {c : Call} (hc : c.InRegion regions)
    (hwhole : c.Whole) (mem : ByteMem) :
    ∃ buf out, buf.length = c.size ∧ c.exec regions mem buf = .ok (mem, out) ∧
      (c.flat (view mem (physAddr regions)) buf).1 = view mem (physAddr regions) := by
  obtain ⟨hpos, r, hr, hlo, hhi⟩ := hc
  obtain ⟨isRead, gaddr, size⟩ := c
  have hlen : (gather mem (physAddr regions) gaddr size).length = size := length_gather ..
  have hio := grGpuMemIo_flat hw hr isRead mem (gather mem (physAddr regions) gaddr size) hlo
    (by rw [hlen]; exact hhi) (by rw [hlen]; exact hpos) (by rw [hlen]; exact hwhole.1)
    (by rw [hlen]; exact hwhole.2)
  rw [hlen] at hio
  refine ⟨gather mem (physAddr regions) gaddr size,
    (flatPart regions isRead mem (gather mem (physAddr regions) gaddr size) gaddr size).buf,
    hlen, ?_, ?_⟩
  · rw [Call.exec_eq, hio]
    cases isRead with
    | true => rfl
    | false =>
        have hmem : (flatPart regions false mem (gather mem (physAddr regions) gaddr size) gaddr
            size).mem = mem := by
          show scatter (physAddr regions) mem gaddr
            ((gather mem (physAddr regions) gaddr size).take size) = mem
          rw [List.take_of_length_le hlen.le, scatter_gather]
        rw [hmem]
  · cases isRead with
    | true => rfl
    | false =>
        show write (view mem (physAddr regions)) gaddr (gather mem (physAddr regions) gaddr size)
          = view mem (physAddr regions)
        rw [write_eq_scatter id (a := gaddr) fun _ _ => rfl]
        exact scatter_gather id size (view mem (physAddr regions)) gaddr

theorem runsFlat_of_whole (hw : WellMapped regions) {calls : List Call} :
    ∀ (bufs : List (List UInt8)) (mem flat : ByteMem), (∀ c ∈ calls, c.InRegion regions) →
      (∀ c ∈ calls, c.Whole) → List.Forall₂ (fun c buf => buf.length = c.size) calls bufs →
      (∀ a ∈ mapped regions, mem (physAddr regions a) = flat a) →
      RunsFlat regions calls bufs mem flat := by
  induction calls with
  | nil => intro bufs mem flat _ _ _ _; exact trivial
  | cons c calls ih =>
      intro bufs mem flat hin hwhole hlen hagree
      obtain ⟨buf, bufs, hbuf, hbufs, rfl⟩ := List.forall₂_cons_left_iff.mp hlen
      obtain ⟨mem', hexec, hmem, hframe⟩ := exec_whole hw (hin c (by simp))
        (hwhole c (by simp)) hagree hbuf
      exact ⟨mem', hexec, hmem, hframe, ih bufs mem' _ (fun d hd => hin d (by simp [hd]))
        (fun d hd => hwhole d (by simp [hd])) hbufs hmem⟩

theorem whole_of_runsFlat (hw : WellMapped regions) {calls : List Call} :
    (∀ c ∈ calls, c.InRegion regions) →
      (∀ (mem : ByteMem) (bufs : List (List UInt8)),
        List.Forall₂ (fun c buf => buf.length = c.size) calls bufs →
        RunsFlat regions calls bufs mem (view mem (physAddr regions))) →
      ∀ c ∈ calls, c.Whole := by
  induction calls with
  | nil => intro _ _ c hc; simp at hc
  | cons c calls ih =>
      intro hin hflat
      have hc := hin c (by simp)
      have hwhole : c.Whole := by
        by_contra hbad
        refine exec_not_whole hw hc hbad ?_
        obtain ⟨mem', hexec, hmem, -, -⟩ := hflat (fun _ => 0)
          (List.replicate c.size 1 :: calls.map fun d => List.replicate d.size 1)
          (.cons List.length_replicate (List.forall₂_map_right_iff.mpr
            (List.forall₂_same.mpr fun d _ => List.length_replicate)))
        exact ⟨mem', hexec, hmem⟩
      have hrest : ∀ d ∈ calls, d.Whole := by
        refine ih (fun d hd => hin d (by simp [hd])) fun mem bufs hbufs => ?_
        obtain ⟨buf, out, hbuf, hrestore, hview⟩ := exec_restore hw hc hwhole mem
        obtain ⟨mem', hexec, -, -, hrun⟩ := hflat mem (buf :: bufs) (.cons hbuf hbufs)
        have hmem : mem' = mem := by
          rw [hrestore] at hexec
          exact (Prod.mk.inj (Except.ok.inj hexec)).1.symm
        rw [hmem, hview] at hrun
        exact hrun
      intro d hd
      rcases List.mem_cons.mp hd with rfl | hd
      · exact hwhole
      · exact hrest d hd

/-- **GPU memory is flat exactly for the transfers that do not span two pages, nor
more than `2 ^ 31`.** -/
theorem copyRun_flat_iff (hw : WellMapped regions) (calls : List Call)
    (hin : ∀ c ∈ calls, c.InRegion regions) :
    (∀ (mem : ByteMem) (bufs : List (List UInt8)),
      List.Forall₂ (fun c buf => buf.length = c.size) calls bufs →
      RunsFlat regions calls bufs mem (view mem (physAddr regions)))
      ↔ ∀ c ∈ calls, pageCount c.gaddr c.size ≠ 2 ∧ pageCount c.gaddr c.size ≤ 2 ^ 31 := by
  constructor
  · exact whole_of_runsFlat hw hin
  · intro hwhole mem bufs hlen
    exact runsFlat_of_whole hw bufs mem _ hin hwhole hlen fun a _ => rfl

end Calls

/-- Two pages at GPU address `0x1000`, in frames `0x5000` and `0x6000`. -/
def twoPages : Region where
  gmStart := 0x1000
  gmEnd := 0x3000
  pages := [0x5000, 0x6000]
  nrPages := 2
  flags := 0
  isValid := 1
  isSynced := 0

theorem wellMapped_twoPages : WellMapped [twoPages] where
  aligned := by decide
  bounded := by decide
  disjoint := List.pairwise_singleton ..
  backed := by decide
  frames := by decide
  distinct := by decide

/-- A write and a read inside one page behave as a flat memory does. -/
theorem copyRun_flat_onePage :
    RunsFlat [twoPages] [⟨false, 0x1ff0, 16⟩, ⟨true, 0x1ff8, 8⟩]
      [List.replicate 16 7, List.replicate 8 0] (fun _ => 0)
      (view (fun _ => 0) (physAddr [twoPages])) := by
  refine (copyRun_flat_iff wellMapped_twoPages [⟨false, 0x1ff0, 16⟩, ⟨true, 0x1ff8, 8⟩] ?_).mpr
    ?_ (fun _ => 0) [List.replicate 16 7, List.replicate 8 0] ?_
  · simp [Call.InRegion, twoPages]
  · decide
  · exact .cons rfl (.cons rfl .nil)

/-- Sixteen bytes over a page boundary do not. -/
theorem copyRun_not_flat_twoPages :
    WellMapped [twoPages] ∧ Call.InRegion ⟨false, 0x1ff8, 16⟩ [twoPages] ∧
      ¬ RunsFlat [twoPages] [⟨false, 0x1ff8, 16⟩] [List.replicate 16 1] (fun _ => 0)
        (view (fun _ => 0) (physAddr [twoPages])) := by
  have hin : Call.InRegion ⟨false, 0x1ff8, 16⟩ [twoPages] := by simp [Call.InRegion, twoPages]
  refine ⟨wellMapped_twoPages, hin, ?_⟩
  rintro ⟨mem', hexec, hmem, -, -⟩
  exact exec_not_whole wellMapped_twoPages hin (fun h => h.1 (by decide)) ⟨mem', hexec, hmem⟩

end GpuReplay.Replayer
