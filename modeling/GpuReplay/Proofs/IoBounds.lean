/-
The bounds of `gr_gpu_mem_io`.

The function compares the end of the transfer with the end of the region, but the array
it indexes has as many entries as the region has backed pages, and the region comes from
a search that may find none.  `InBounds` is what it would have to check, and
`grGpuMemIo_defined_iff` that nothing less is enough: in a context that `gr_mem_init` set
up, an index outside an array is all that can go wrong.  That there is none is not all that is
promised: an address outside the regions, a range that wraps and one that leaves the backed pages
are to be refused before memory is touched, and `transfer_bounded_iff` says when they are.
-/
import GpuReplay.Proofs.Isolation
import GpuReplay.Replayer.PhysCalls

namespace GpuReplay.Replayer

open Stdio

/-! ### The regions of a context -/

/-- A region as it is set up: a frame of the pool for each of its pages. -/
structure Region.Backed (pool : List Nat) (r : Region) : Prop where
  length : r.pages.length = r.nrPages
  frames : ∀ p ∈ r.pages, p ∈ pool
  end_lt : r.gmEnd < 2 ^ 64

theorem initRegion_region {heap : List UserPgtable} {userPgt : UserPtr} {s s' : McState}
    (hrun : initRegion heap userPgt s = .ok s') :
    ∃ r : Region, s'.regions = s.regions ++ [r] ∧ r.Backed s.pool := by
  unfold initRegion at hrun
  have hend : (readHeader s.locals s.stream).1.gmEnd < 2 ^ 64 :=
    Stream.readWord_lt 8 _ _
  generalize readHeader s.locals s.stream = header at hrun hend
  obtain ⟨l, f⟩ := header
  obtain ⟨⟨taken, pool⟩, htake, hrun⟩ := Except.bind_eq_ok.mp hrun
  obtain ⟨p, -, hdone⟩ := Except.bind_eq_ok.mp hrun
  obtain rfl := Except.ok.inj hdone
  unfold takePages at htake
  by_cases hroom : l.nents ≤ s.pool.length
  · rw [if_pos hroom] at htake
    obtain ⟨rfl, -⟩ := Prod.mk.inj (Except.ok.inj htake)
    exact ⟨_, rfl, ⟨List.length_take_of_le hroom, fun p hp => List.mem_of_mem_take hp, hend⟩⟩
  · rw [if_neg hroom] at htake
    exact absurd htake (Except.ok_ne_error _ _).symm

theorem initRegions_backed {heap : List UserPgtable} {userPgt : UserPtr} {pool : List Nat} :
    ∀ (n : Nat) (s s' : McState), (∀ p ∈ s.pool, p ∈ pool) → (∀ r ∈ s.regions, r.Backed pool) →
      initRegions heap userPgt n s = .ok s' → ∀ r ∈ s'.regions, r.Backed pool := by
  intro n
  induction n with
  | zero =>
      intro s s' _ hregions hrun
      rw [initRegions] at hrun
      split_ifs at hrun
      obtain rfl := Except.ok.inj hrun
      exact hregions
  | succ n ih =>
      intro s s' hpool hregions hrun
      rw [initRegions] at hrun
      split_ifs at hrun
      · obtain rfl := Except.ok.inj hrun
        exact hregions
      · obtain ⟨s₁, hregion, hrest⟩ := Except.bind_eq_ok.mp hrun
        obtain ⟨r, hr, hbacked⟩ := initRegion_region hregion
        obtain ⟨-, -, -, -, -, hpool₁, -⟩ := initRegion_ok hregion
        refine ih s₁ s' (fun p hp => hpool p ?_) (fun t ht => ?_) hrest
        · rw [hpool₁] at hp
          exact List.mem_of_mem_drop hp
        · rw [hr] at ht
          rcases List.mem_append.mp ht with ht | ht
          · exact hregions t ht
          · rw [List.mem_singleton.mp ht]
            exact ⟨hbacked.length, fun p hp => hpool p (hbacked.frames p hp), hbacked.end_lt⟩

theorem SyncedOnly.backed {regions regions' : List Region} (h : SyncedOnly regions regions')
    {pool : List Nat} (hregions : ∀ r ∈ regions, r.Backed pool) : ∀ r ∈ regions', r.Backed pool := by
  intro r hr
  obtain ⟨s, hs, heq⟩ := h.exists_of_mem hr
  have hold := hregions s hs
  rw [heq]
  exact ⟨hold.length, hold.frames, hold.end_lt⟩

/-! Building the page table only takes frames from the pool. -/

theorem newTable_pool {junk : Nat → Nat → UserPtr} {m : Machine} {r : Nat × Machine}
    (hrun : newTable junk m = .ok r) : ∀ p ∈ r.2.pool, p ∈ m.pool := by
  obtain ⟨frame, pool, hpool, -, rfl⟩ := newTable_ok junk hrun
  rw [hpool]
  exact fun p hp => List.mem_cons_of_mem frame hp

theorem finishTable_pool {newPgd node : Nat} {r : List Nat × Nat × Machine} {b : Built}
    (hrun : finishTable newPgd node r = .ok b) : b.machine.pool = r.2.2.pool := by
  obtain ⟨mem, -, hdone⟩ := Except.bind_eq_ok.mp hrun
  obtain rfl := Except.ok.inj hdone
  rfl

theorem constructEntries_pool {next : Nat → Machine → Except Stop Built} {level node : Nat}
    (hnext : ∀ {offset m b}, next offset m = .ok b → ∀ p ∈ b.machine.pool, p ∈ m.pool) :
    ∀ (words : List Nat) (i offset : Nat) (m : Machine) (r : List Nat × Nat × Machine),
      constructEntries next level node i words offset m = .ok r →
      ∀ p ∈ r.2.2.pool, p ∈ m.pool := by
  intro words
  induction words with
  | nil =>
      intro i offset m r hrun
      obtain rfl := Except.ok.inj hrun
      exact fun p hp => hp
  | cons w words ih =>
      intro i offset m r hrun
      unfold constructEntries at hrun
      split at hrun
      · obtain ⟨b, hb, hrun⟩ := Except.bind_eq_ok.mp hrun
        obtain ⟨rest, hrest, hdone⟩ := Except.bind_eq_ok.mp hrun
        obtain rfl := Except.ok.inj hdone
        exact fun p hp => hnext hb p (ih _ _ _ rest hrest p hp)
      · obtain ⟨rest, hrest, hdone⟩ := Except.bind_eq_ok.mp hrun
        obtain rfl := Except.ok.inj hdone
        exact ih _ _ _ rest hrest

theorem grConstructPgt_pool {junk : Nat → Nat → UserPtr} {pgtValue : List Nat} :
    ∀ (below : Nat) {offset : Nat} {m : Machine} {b : Built},
      grConstructPgt junk pgtValue below offset m = .ok b →
      ∀ p ∈ b.machine.pool, p ∈ m.pool := by
  intro below
  induction below with
  | zero =>
      intro offset m b hrun
      obtain ⟨new, hnew, hrun⟩ := Except.bind_eq_ok.mp hrun
      obtain ⟨old, -, hrun⟩ := Except.bind_eq_ok.mp hrun
      rw [finishTable_pool hrun]
      exact fun p hp => newTable_pool hnew p hp
  | succ below ih =>
      intro offset m b hrun
      obtain ⟨new, hnew, hrun⟩ := Except.bind_eq_ok.mp hrun
      obtain ⟨old, -, hrun⟩ := Except.bind_eq_ok.mp hrun
      obtain ⟨r, hr, hrun⟩ := Except.bind_eq_ok.mp hrun
      rw [finishTable_pool hrun]
      exact fun p hp => newTable_pool hnew p (constructEntries_pool ih _ _ _ _ r hr p hp)

/-- **Every region of a context has a frame of the pool for each of its pages.** -/
theorem grMemInit_backed {config : GrConfig} {pgtFile mcFile sasFile : List UInt8}
    {snapshot : Option (List UInt8)} {junk : InitJunk} {m : Machine} {ctx : ReplayContext}
    (hrun : grMemInit config ⟨some pgtFile, some mcFile, some sasFile, snapshot⟩ junk m = .ok ctx) :
    ∀ r ∈ ctx.regions, r.Backed m.pool := by
  unfold grMemInit at hrun
  obtain ⟨pgtFile', -, hrun⟩ := Except.bind_eq_ok.mp hrun
  obtain ⟨pgt, hpgt, hrun⟩ := Except.bind_eq_ok.mp hrun
  obtain ⟨mcFile', -, hrun⟩ := Except.bind_eq_ok.mp hrun
  obtain ⟨mc, hmc, hrun⟩ := Except.bind_eq_ok.mp hrun
  obtain ⟨sasFile', -, hrun⟩ := Except.bind_eq_ok.mp hrun
  obtain ⟨⟨sas, regions⟩, hsas, hrun⟩ := Except.bind_eq_ok.mp hrun
  obtain ⟨regFp, -, hdone⟩ := Except.bind_eq_ok.mp hrun
  obtain rfl := Except.ok.inj hdone
  have hpool : ∀ p ∈ pgt.machine.pool, p ∈ m.pool := by
    obtain ⟨value, -, hrun⟩ := Except.bind_eq_ok.mp hpgt
    obtain ⟨b, hb, hdone⟩ := Except.bind_eq_ok.mp hrun
    obtain rfl := Except.ok.inj hdone
    exact grConstructPgt_pool 3 hb
  refine (readSyncAs_synced _ _ _ mc.regions (sas, regions) hsas).backed ?_
  exact initRegions_backed nrVaRegion _ mc hpool (fun r hr => absurd hr List.not_mem_nil) hmc

/-! ### One transfer -/

/-- The pages of a transfer, before their number becomes a `uint32_t`. -/
def ioPages (gaddr size : Nat) : Nat := (gaddr % 4096 + size + 4095) % 2 ^ 64 / 4096

/-- How far after its first page a transfer indexes.  A transfer of more than `2 ^ 32` pages
is given up before its last piece. -/
def ioLast (gaddr size : Nat) : Nat :=
  if ioPages gaddr size % 2 ^ 32 ≤ 2 then 0
  else if ioPages gaddr size < 2 ^ 32 then ioPages gaddr size - 1
  else ioPages gaddr size % 2 ^ 32 - 2

/-- The address is in a region, and either the transfer ends after it, with the end taken
modulo `2 ^ 64`, or every page it indexes is backed. -/
def InBounds (regions : List Region) (gaddr size : Nat) : Prop :=
  ∃ r, (grFindRegionEnclosingAddress regions gaddr).bind (regions[·]?) = some r ∧
    (r.gmEnd < (gaddr + size) % 2 ^ 64 ∨
      ((gaddr - r.gmStart) / 4096 + ioLast gaddr size < r.nrPages ∧
        ioPages gaddr size % 2 ^ 32 ≤ 2 ^ 31))

/-- A piece inside one page. -/
theorem gpuMemIo_defined {page : Nat} (off sz : Nat) (hpage : page % 4096 = 0)
    (hoff : off < 4096) (hfits : off + sz ≤ 4096) (isRead : Bool) (s : IoState) :
    ∃ s', gpuMemIo isRead (page + off) sz s = .ok s' ∧ s'.pos = s.pos ∧ s'.size = s.size := by
  have hmod : (page + off) % 4096 = off := by omega
  have hmap : grMapPage (pageStart (page + off)) = .ok (pageStart (page + off)) :=
    if_neg (by unfold pageStart; omega)
  unfold gpuMemIo
  cases isRead with
  | true =>
      have hread : grReadPhys s.mem (page + off) sz =
          .ok (s.mem.read (pageStart (page + off) + off) sz) := by
        unfold grReadPhys
        rw [hmod, hmap, Except.ok_bind, if_pos hfits]
        rfl
      rw [if_pos rfl, hread]
      exact ⟨_, rfl, rfl, rfl⟩
  | false =>
      have hlen : off + ((s.buf.drop s.pos).take sz).length ≤ 4096 :=
        Nat.le_trans (Nat.add_le_add_left (List.length_take_le _ _) off) hfits
      have hwrite : grWritePhys s.mem (page + off) ((s.buf.drop s.pos).take sz) =
          .ok (s.mem.write (pageStart (page + off) + off) ((s.buf.drop s.pos).take sz)) := by
        unfold grWritePhys
        rw [hmod, hmap, Except.ok_bind, if_pos hlen]
        rfl
      rw [if_neg Bool.false_ne_true, hwrite]
      exact ⟨_, rfl, rfl, rfl⟩

section Transfer

variable {pages : List Nat} (haligned : ∀ p ∈ pages, p % 4096 = 0) (isRead : Bool)
  (pageOffset : Nat)

theorem pageAt_ok {i : Nat} (hi : i < pages.length) :
    ∃ p, pageAt pages i = .ok p ∧ p ∈ pages := by
  refine ⟨pages[i], ?_, List.getElem_mem hi⟩
  unfold pageAt
  rw [List.getElem?_eq_getElem hi]

theorem pageAt_undefined {i : Nat} (hi : ¬ i < pages.length) :
    pageAt pages i = .error .undefined := by
  unfold pageAt
  rw [List.getElem?_eq_none (Nat.le_of_not_lt hi)]

include haligned in
/-- The middle loop, with every page it indexes. -/
theorem middlePages_defined :
    ∀ (n i : Nat) (s : IoState), pageOffset + i + n ≤ pages.length → i + n ≤ intMax →
      ∃ s', middlePages isRead pages pageOffset n i s = .ok s' ∧
        (s.size < 2 ^ 64 → s'.size = (s.size + n * (2 ^ 64 - 4096)) % 2 ^ 64) := by
  intro n
  induction n with
  | zero =>
      intro i s _ _
      refine ⟨s, rfl, fun hs => ?_⟩
      rw [Nat.zero_mul, Nat.add_zero, Nat.mod_eq_of_lt hs]
  | succ n ih =>
      intro i s hroom hmax
      obtain ⟨p, hp, hmem⟩ := pageAt_ok (show pageOffset + i < pages.length by omega)
      obtain ⟨s₁, hio, hpos, hsize⟩ := gpuMemIo_defined 0 4096 (haligned p hmem)
        (Nat.zero_lt_succ _) (Nat.le_of_eq (Nat.zero_add 4096)) isRead s
      rw [Nat.add_zero] at hio
      obtain ⟨s', hrest, hsize'⟩ := ih (i + 1) (s₁.advance 4096) (by omega) (by omega)
      refine ⟨s', ?_, fun hs => ?_⟩
      · rw [middlePages, hp, Except.ok_bind, hio, Except.ok_bind, if_neg (by omega)]
        exact hrest
      · rw [hsize' (Nat.mod_lt _ (Nat.two_pow_pos 64))]
        show ((s₁.size + 2 ^ 64 - 4096) % 2 ^ 64 + n * (2 ^ 64 - 4096)) % 2 ^ 64 = _
        have hsum : s.size + 2 ^ 64 - 4096 + n * (2 ^ 64 - 4096) =
            s.size + (n * (2 ^ 64 - 4096) + (2 ^ 64 - 4096)) := by
          generalize n * (2 ^ 64 - 4096) = x
          omega
        rw [hsize, Nat.mod_add_mod, Nat.succ_mul, hsum]

include haligned in
/-- The middle loop, where some page it indexes is missing, or its counter overflows. -/
theorem middlePages_undefined :
    ∀ (n i : Nat) (s : IoState), 0 < n → i ≤ intMax →
      ¬ (pageOffset + i + n ≤ pages.length ∧ i + n ≤ intMax) →
      middlePages isRead pages pageOffset n i s = .error .undefined := by
  intro n
  induction n with
  | zero => exact fun i s hpos => absurd hpos (Nat.lt_irrefl 0)
  | succ n ih =>
      intro i s _ hi hshort
      rw [middlePages]
      by_cases hin : pageOffset + i < pages.length
      · obtain ⟨p, hp, hmem⟩ := pageAt_ok hin
        obtain ⟨s₁, hio, -⟩ := gpuMemIo_defined 0 4096 (haligned p hmem)
          (Nat.zero_lt_succ _) (Nat.le_of_eq (Nat.zero_add 4096)) isRead s
        rw [Nat.add_zero] at hio
        rw [hp, Except.ok_bind, hio, Except.ok_bind]
        by_cases hmax : i = intMax
        · rw [if_pos hmax]
          rfl
        · rw [if_neg hmax]
          refine ih (i + 1) _ ?_ (by omega) (by omega)
          omega
      · rw [pageAt_undefined hin]
        rfl

include haligned in
/-- The last page, where there are more than two: more than a page is refused. -/
theorem lastPage_defined_iff {pageCount : Nat} {s : IoState} (hmany : 2 < pageCount)
    (hne : s.size ≠ 0) :
    lastPage isRead pages pageOffset pageCount s ≠ .error .undefined ↔
      4096 < s.size ∨ pageOffset + pageCount - 1 < pages.length := by
  rw [lastPage, if_pos ⟨hmany, hne⟩]
  by_cases hlarge : 4096 < s.size
  · rw [if_pos hlarge]
    exact iff_of_true (fun h => Stop.noConfusion (Except.error.inj h)) (Or.inl hlarge)
  rw [if_neg hlarge, or_iff_right hlarge]
  by_cases hin : pageOffset + pageCount - 1 < pages.length
  · obtain ⟨p, hp, hmem⟩ := pageAt_ok hin
    obtain ⟨s', hio, -⟩ := gpuMemIo_defined 0 s.size (haligned p hmem) (Nat.zero_lt_succ _)
      (by omega) isRead s
    rw [Nat.add_zero] at hio
    refine iff_of_true ?_ hin
    rw [hp]
    show gpuMemIo isRead p s.size s ≠ _
    rw [hio]
    exact Except.ok_ne_error _ _
  · rw [pageAt_undefined hin]
    exact iff_of_false (fun h => h rfl) hin

end Transfer

/-- What is left after the middle pages of a transfer of more than two: at most a page, or
more where the number of pages does not fit. -/
theorem remaining_size {gaddr size : Nat} (hsize : size < 2 ^ 64)
    (hmany : 2 < ioPages gaddr size % 2 ^ 32) :
    ∃ left, (size - (4096 - gaddr % 4096) +
        (ioPages gaddr size % 2 ^ 32 - 2) * (2 ^ 64 - 4096)) % 2 ^ 64 = left ∧ left ≠ 0 ∧
      4096 - gaddr % 4096 ≤ size ∧ (4096 < left ↔ ¬ ioPages gaddr size < 2 ^ 32) := by
  have hoff : gaddr % 4096 < 4096 := Nat.mod_lt _ (by decide)
  unfold ioPages at hmany ⊢
  generalize gaddr % 4096 = off at hmany hoff ⊢
  -- more than two pages are not what a sum that wrapped leaves
  have hwrap : (off + size + 4095) % 2 ^ 64 = off + size + 4095 := by omega
  rw [hwrap] at hmany ⊢
  obtain ⟨count, hcount⟩ : ∃ count, count = (off + size + 4095) / 4096 := ⟨_, rfl⟩
  rw [← hcount] at hmany ⊢
  obtain ⟨n, hn⟩ : ∃ n, count % 2 ^ 32 = n + 3 := ⟨count % 2 ^ 32 - 3, by omega⟩
  have hsplit : count = 2 ^ 32 * (count / 2 ^ 32) + (n + 3) := by omega
  have hbytes : (size - (4096 - off) + (n + 3 - 2) * (2 ^ 64 - 4096)) % 2 ^ 64 =
      off + size - 4096 * (n + 2) := by
    have hle : 4096 * (n + 2) ≤ off + size := by omega
    have hmul : (n + 3 - 2) * (2 ^ 64 - 4096) + 4096 * (n + 1) = (n + 1) * 2 ^ 64 := by
      have : n + 3 - 2 = n + 1 := rfl
      rw [this, Nat.mul_comm 4096, ← Nat.mul_add, Nat.sub_add_cancel (by decide)]
    have heq : size - (4096 - off) + (n + 3 - 2) * (2 ^ 64 - 4096) =
        off + size - 4096 * (n + 2) + (n + 1) * 2 ^ 64 := by
      rw [← hmul]
      generalize (n + 3 - 2) * (2 ^ 64 - 4096) = x
      omega
    rw [heq, Nat.add_mul_mod_self_right]
    exact Nat.mod_eq_of_lt (by omega)
  rw [hn, hbytes]
  refine ⟨_, rfl, by omega, by omega, ?_⟩
  omega

/-- The transfer after the region is found and the end checked. -/
theorem transfer_defined_iff {pages : List Nat} (haligned : ∀ p ∈ pages, p % 4096 = 0)
    (mem : ByteMem) {gaddr size : Nat} (hsize : size < 2 ^ 64) (buf : List UInt8) (isRead : Bool)
    (pageOffset : Nat) :
    (do
      let page ← pageAt pages pageOffset
      let s ← gpuMemIo isRead (page + gaddr % 4096) (min (4096 - gaddr % 4096) size)
        ⟨mem, buf, 0, size⟩
      let s ← middlePages isRead pages pageOffset (ioPages gaddr size % 2 ^ 32 - 2) 1
        (s.advance (min (4096 - gaddr % 4096) size))
      let s ← lastPage isRead pages pageOffset (ioPages gaddr size % 2 ^ 32) s
      return (s.mem, s.buf) : Except Stop (ByteMem × List UInt8)) ≠ .error .undefined ↔
      pageOffset + ioLast gaddr size < pages.length ∧ ioPages gaddr size % 2 ^ 32 ≤ 2 ^ 31 := by
  have hoff : gaddr % 4096 < 4096 := Nat.mod_lt _ (by decide)
  have hlast : ioLast gaddr size = if ioPages gaddr size % 2 ^ 32 ≤ 2 then 0
      else if ioPages gaddr size < 2 ^ 32 then ioPages gaddr size - 1
      else ioPages gaddr size % 2 ^ 32 - 2 := rfl
  by_cases hfirst : pageOffset < pages.length
  swap
  · rw [pageAt_undefined hfirst]
    exact ⟨fun h => absurd rfl h, fun h => absurd (Nat.lt_of_le_of_lt (Nat.le_add_right _ _) h.1)
      hfirst⟩
  obtain ⟨page, hpage, hmem⟩ := pageAt_ok hfirst
  obtain ⟨s₁, hio, -, hsize₁⟩ := gpuMemIo_defined (gaddr % 4096) (min (4096 - gaddr % 4096) size)
    (haligned page hmem) hoff (by omega) isRead ⟨mem, buf, 0, size⟩
  rw [hpage, Except.ok_bind, hio, Except.ok_bind]
  obtain ⟨s₂, hs₂⟩ : ∃ s₂, s₂ = s₁.advance (min (4096 - gaddr % 4096) size) := ⟨_, rfl⟩
  rw [← hs₂]
  by_cases hfew : ioPages gaddr size % 2 ^ 32 ≤ 2
  · -- the first piece is all
    have hnone : ¬ (2 < ioPages gaddr size % 2 ^ 32 ∧ s₂.size ≠ 0) :=
      fun h => absurd h.1 (Nat.not_lt.mpr hfew)
    rw [Nat.sub_eq_zero_of_le hfew, middlePages, Except.ok_bind, lastPage, if_neg hnone, hlast,
      if_pos hfew, Nat.add_zero]
    exact ⟨fun _ => ⟨hfirst, Nat.le_trans hfew (by decide)⟩, fun _ => Except.ok_ne_error _ _⟩
  have hmany : 2 < ioPages gaddr size % 2 ^ 32 := Nat.lt_of_not_le hfew
  obtain ⟨left, hleft, hne, hwhole, hbig⟩ := remaining_size hsize hmany
  rw [hlast, if_neg hfew]
  by_cases hmiddle : pageOffset + 1 + (ioPages gaddr size % 2 ^ 32 - 2) ≤ pages.length ∧
      1 + (ioPages gaddr size % 2 ^ 32 - 2) ≤ intMax
  swap
  · rw [middlePages_undefined haligned isRead pageOffset _ 1 s₂ (by omega) (by decide) hmiddle]
    refine ⟨fun h => absurd rfl h, fun h => absurd ⟨?_, ?_⟩ hmiddle⟩
    · split at h
      · next hcount =>
          rw [Nat.mod_eq_of_lt hcount] at hmany ⊢
          omega
      · omega
    · unfold intMax
      omega
  obtain ⟨s₃, hmid, hsize₃⟩ := middlePages_defined haligned isRead pageOffset _ 1 s₂ hmiddle.1
    hmiddle.2
  have hadvanced : s₂.size = size - (4096 - gaddr % 4096) := by
    rw [hs₂]
    show (s₁.size + 2 ^ 64 - min (4096 - gaddr % 4096) size) % 2 ^ 64 = _
    rw [hsize₁, Nat.min_eq_left hwhole]
    show (size + 2 ^ 64 - (4096 - gaddr % 4096)) % 2 ^ 64 = _
    omega
  have hrest : s₃.size = left := by
    rw [hsize₃ (by omega), hadvanced, hleft]
  have hcountMax : ioPages gaddr size % 2 ^ 32 ≤ 2 ^ 31 := by
    have h := hmiddle.2
    unfold intMax at h
    omega
  rw [hmid, Except.ok_bind, ne_eq, Except.bind_pure_eq_error, ← ne_eq,
    lastPage_defined_iff haligned isRead pageOffset hmany (by rw [hrest]; exact hne), hrest, hbig]
  by_cases hcount : ioPages gaddr size < 2 ^ 32
  · rw [or_iff_right (not_not.mpr hcount), if_pos hcount, and_iff_left hcountMax,
      Nat.mod_eq_of_lt hcount]
    rw [Nat.mod_eq_of_lt hcount] at hmany
    omega
  · rw [if_neg hcount]
    have h := hmiddle.1
    exact iff_of_true (Or.inl hcount) ⟨by omega, hcountMax⟩

/-- **A transfer indexes nothing outside an array exactly if it is `InBounds`.** -/
theorem grGpuMemIo_defined_iff {regions : List Region}
    (hlength : ∀ r ∈ regions, r.pages.length = r.nrPages)
    (haligned : ∀ r ∈ regions, ∀ p ∈ r.pages, p % 4096 = 0) (mem : ByteMem) {gaddr size : Nat}
    (hsize : size < 2 ^ 64) (buf : List UInt8) (isRead : Bool) :
    grGpuMemIo regions mem gaddr buf size isRead ≠ .error .undefined ↔
      InBounds regions gaddr size := by
  unfold grGpuMemIo InBounds
  cases hfind : (grFindRegionEnclosingAddress regions gaddr).bind (regions[·]?) with
  | none =>
      refine ⟨fun h => absurd rfl h, fun h => ?_⟩
      obtain ⟨r, hr, -⟩ := h
      exact absurd hr.symm (Option.some_ne_none r)
  | some r =>
      have hr : r ∈ regions := by
        obtain ⟨i, -, hi⟩ := Option.bind_eq_some_iff.mp hfind
        exact List.mem_of_getElem? hi
      have hregion : (∃ r', some r = some r' ∧ (r'.gmEnd < (gaddr + size) % 2 ^ 64 ∨
          ((gaddr - r'.gmStart) / 4096 + ioLast gaddr size < r'.nrPages ∧
            ioPages gaddr size % 2 ^ 32 ≤ 2 ^ 31))) ↔
          (r.gmEnd < (gaddr + size) % 2 ^ 64 ∨
          ((gaddr - r.gmStart) / 4096 + ioLast gaddr size < r.pages.length ∧
            ioPages gaddr size % 2 ^ 32 ≤ 2 ^ 31)) := by
        rw [hlength r hr]
        exact ⟨fun ⟨r', heq, h⟩ => Option.some.inj heq ▸ h, fun h => ⟨r, rfl, h⟩⟩
      rw [hregion]
      dsimp only
      by_cases hend : r.gmEnd < (gaddr + size) % 2 ^ 64
      · rw [if_pos hend]
        exact ⟨fun _ => Or.inl hend, fun _ h => Stop.noConfusion (Except.error.inj h)⟩
      rw [if_neg hend, or_iff_right hend]
      exact transfer_defined_iff (haligned r hr) mem hsize buf isRead _

/-! ### What is touched -/

/-- The bytes asked for are not all on backed pages of the region that is used: there is no region,
or the range wraps, or it goes on after the last backed page. -/
def LeavesBacked (regions : List Region) (gaddr size : Nat) : Prop :=
  (∀ r ∈ regions, ¬r.Encloses gaddr) ∨ 2 ^ 64 < gaddr + size ∨
    ∃ r, (grFindRegionEnclosingAddress regions gaddr).bind (regions[·]?) = some r ∧
      r.gmStart + 4096 * r.nrPages < gaddr + size

/-- A transfer as it should be: every index is inside its array, and nothing is read or written
for a range that leaves the backed pages. -/
structure TransferBounded (regions : List Region) (mem : ByteMem) (gaddr : Nat) (buf : List UInt8)
    (size : Nat) (isRead : Bool) : Prop where
  indices : grGpuMemIo regions mem gaddr buf size isRead ≠ .error .undefined
  refused : LeavesBacked regions gaddr size →
    (grGpuMemIoLog regions mem gaddr buf size isRead).calls = []

/-- The address is in a region, and either the transfer ends after it, with the end taken modulo
`2 ^ 64`, or the range ends on its backed pages and does not wrap, and the pages indexed are
backed. -/
def RangeBacked (regions : List Region) (gaddr size : Nat) : Prop :=
  ∃ r, (grFindRegionEnclosingAddress regions gaddr).bind (regions[·]?) = some r ∧
    (r.gmEnd < (gaddr + size) % 2 ^ 64 ∨
      (gaddr + size ≤ 2 ^ 64 ∧ gaddr + size ≤ r.gmStart + 4096 * r.nrPages ∧
        (gaddr - r.gmStart) / 4096 + ioLast gaddr size < r.nrPages ∧
        ioPages gaddr size % 2 ^ 32 ≤ 2 ^ 31))

/-- The region that a lookup finds encloses the address. -/
theorem encloses_of_find {regions : List Region} {gaddr : Nat} {r : Region}
    (hfind : (grFindRegionEnclosingAddress regions gaddr).bind (regions[·]?) = some r) :
    r ∈ regions ∧ r.Encloses gaddr := by
  obtain ⟨i, hi, hget⟩ := Option.bind_eq_some_iff.mp hfind
  obtain ⟨hlt, henc, -⟩ := List.findIdx?_eq_some_iff_getElem.mp hi
  obtain ⟨_, hr⟩ := List.getElem?_eq_some_iff.mp hget
  exact ⟨List.mem_of_getElem? hget, hr ▸ of_decide_eq_true henc⟩

/-- A transfer past the end of its region is refused before anything is touched. -/
theorem grGpuMemIoLog_refused {regions : List Region} {mem : ByteMem} {gaddr size : Nat}
    {buf : List UInt8} {isRead : Bool} {r : Region}
    (hfind : (grFindRegionEnclosingAddress regions gaddr).bind (regions[·]?) = some r)
    (hend : r.gmEnd < (gaddr + size) % 2 ^ 64) :
    (grGpuMemIoLog regions mem gaddr buf size isRead).calls = [] := by
  unfold grGpuMemIoLog
  rw [hfind]
  dsimp only
  rw [if_pos hend]
  rfl

/-- One that is not, and whose first page is backed, touches that page. -/
theorem grGpuMemIoLog_touches {regions : List Region} {mem : ByteMem} {gaddr size : Nat}
    {buf : List UInt8} {isRead : Bool} {r : Region}
    (hfind : (grFindRegionEnclosingAddress regions gaddr).bind (regions[·]?) = some r)
    (hend : ¬r.gmEnd < (gaddr + size) % 2 ^ 64)
    (hfirst : (gaddr - r.gmStart) / 4096 < r.pages.length) :
    (grGpuMemIoLog regions mem gaddr buf size isRead).calls ≠ [] := by
  obtain ⟨page, hpage, -⟩ := pageAt_ok hfirst
  unfold grGpuMemIoLog
  rw [hfind]
  dsimp only
  rw [if_neg hend, hpage]
  exact List.cons_ne_nil _ _

/-- **A transfer is bounded exactly if its range is backed, or refused by the check.** -/
theorem grGpuMemIo_bounded_iff {regions : List Region}
    (hlength : ∀ r ∈ regions, r.pages.length = r.nrPages)
    (haligned : ∀ r ∈ regions, ∀ p ∈ r.pages, p % 4096 = 0) (mem : ByteMem) {gaddr size : Nat}
    (hsize : size < 2 ^ 64) (buf : List UInt8) (isRead : Bool) :
    TransferBounded regions mem gaddr buf size isRead ↔ RangeBacked regions gaddr size := by
  have hdefined := @grGpuMemIo_defined_iff regions hlength haligned mem gaddr size hsize buf isRead
  constructor
  · intro h
    obtain ⟨r, hfind, hr⟩ := hdefined.mp h.indices
    refine ⟨r, hfind, ?_⟩
    by_cases hend : r.gmEnd < (gaddr + size) % 2 ^ 64
    · exact Or.inl hend
    -- what is not refused touches its first page, so the range has to be a backed one
    obtain ⟨hindex, hcount⟩ := hr.resolve_left hend
    have hfirst : (gaddr - r.gmStart) / 4096 < r.pages.length := by
      rw [hlength r (encloses_of_find hfind).1]
      exact Nat.lt_of_le_of_lt (Nat.le_add_right _ _) hindex
    have hbacked : ¬LeavesBacked regions gaddr size := fun hleaves =>
      grGpuMemIoLog_touches hfind hend hfirst (h.refused hleaves)
    refine Or.inr ⟨?_, ?_, hindex, hcount⟩
    · exact Nat.not_lt.mp fun hwrap => hbacked (Or.inr (Or.inl hwrap))
    · exact Nat.not_lt.mp fun htail => hbacked (Or.inr (Or.inr ⟨r, hfind, htail⟩))
  · rintro ⟨r, hfind, hr⟩
    obtain ⟨hin, henc⟩ := encloses_of_find hfind
    rcases hr with hend | ⟨hwrap, htail, hindex, hcount⟩
    · exact ⟨hdefined.mpr ⟨r, hfind, Or.inl hend⟩, fun _ => grGpuMemIoLog_refused hfind hend⟩
    · refine ⟨hdefined.mpr ⟨r, hfind, Or.inr ⟨hindex, hcount⟩⟩, fun hleaves => ?_⟩
      rcases hleaves with hnone | hwrap' | ⟨r', hfind', htail'⟩
      · exact absurd henc (hnone r hin)
      · exact absurd hwrap' (Nat.not_lt.mpr hwrap)
      · obtain rfl := Option.some.inj (hfind.symm.trans hfind')
        exact absurd htail' (Nat.not_lt.mpr htail)

/-! ### Transfers in a context -/

/-- **In a context that `gr_mem_init` has set up, a transfer indexes nothing outside an array and
touches nothing for a range that is not backed, exactly if the range is backed or the check refuses
it.** -/
theorem transfer_bounded_iff {config : GrConfig} {pgtFile mcFile sasFile : List UInt8}
    {snapshot : Option (List UInt8)} {junk : InitJunk} {m : Machine} {ctx : ReplayContext}
    (hpool : ∀ frame ∈ m.pool, frame % 4096 = 0)
    (hrun : grMemInit config ⟨some pgtFile, some mcFile, some sasFile, snapshot⟩ junk m = .ok ctx)
    (mem : ByteMem) {gaddr size : Nat} (hsize : size < 2 ^ 64) (buf : List UInt8) (isRead : Bool) :
    TransferBounded ctx.regions mem gaddr buf size isRead ↔ RangeBacked ctx.regions gaddr size := by
  have hbacked := grMemInit_backed hrun
  exact grGpuMemIo_bounded_iff (fun r hr => (hbacked r hr).length)
    (fun r hr p hp => hpool p ((hbacked r hr).frames p hp)) mem hsize buf isRead

/-- One byte at the start of the context of the chain. -/
theorem chain_transfer :
    (∀ frame ∈ chainMachine.pool, frame % 4096 = 0) ∧
    ∃ ctx, grMemInit ⟨false, false⟩
      ⟨some (Bytes.words (pgtWords (pageMem chainWord) ⟨4096 * 1, 0, 0⟩ (4096 * 1) 4)),
        some (dump [untouchedPage]), some (Bytes.le 4 0), some []⟩ chainJunk chainMachine
        = .ok ctx ∧
      (TransferBounded ctx.regions ctx.machine.mem 0 [7] 1 false ↔ RangeBacked ctx.regions 0 1) := by
  obtain ⟨-, ctx, hrun⟩ := chain_recorded
  have hpool := chainMachine_pool.1.aligned
  exact ⟨hpool, ctx, hrun, transfer_bounded_iff hpool hrun ctx.machine.mem (by decide) [7] false⟩

/-- One byte at the last address, which no region can hold: the lookup fails, and the
region before the first is used. -/
theorem chain_transfer_outside :
    ∃ ctx, grMemInit ⟨false, false⟩
      ⟨some (Bytes.words (pgtWords (pageMem chainWord) ⟨4096 * 1, 0, 0⟩ (4096 * 1) 4)),
        some (dump [untouchedPage]), some (Bytes.le 4 0), some []⟩ chainJunk chainMachine
        = .ok ctx ∧
      ¬TransferBounded ctx.regions ctx.machine.mem (2 ^ 64 - 1) [7] 1 false := by
  obtain ⟨-, ctx, hrun⟩ := chain_recorded
  refine ⟨ctx, hrun, fun h => h.indices ?_⟩
  have hnone : grFindRegionEnclosingAddress ctx.regions (2 ^ 64 - 1) = none := by
    refine List.findIdx?_eq_none_iff.mpr fun r hr => decide_eq_false fun henc => ?_
    have hlt := henc.2
    have hend := (grMemInit_backed hrun r hr).end_lt
    omega
  unfold grGpuMemIo
  rw [hnone]
  rfl

end GpuReplay.Replayer
