/-
The records of a memory dump on the frames they were loaded to.

What `gr_mem_init` leaves in memory is a list of pages and leaf entries over zeroed frames, and
the passes after a replay write the same pages, the same entries and zeros again: `LoadedAt`
says when that puts everything back.  The region that loading the dump makes once too often
is the one exception.  The leaf entries lead to its frames, and the last record of the dump
is on them a second time.
-/
import GpuReplay.Proofs.MemCheck
import GpuReplay.Proofs.TableCount

namespace GpuReplay.Replayer

open Stdio ByteMem RadixTree

/-! ### What the passes restore -/

/-- The frames of some regions. -/
def allFrames (ts : List Placed) : List Nat := ts.flatMap Placed.frames

/-- What `t` stores: a page into each frame if it is valid, and nothing otherwise. -/
structure Placed.Stores (t : Placed) : Prop where
  valid : t.record.isValid = true → ∀ frame ∈ t.frames, ∃ page, (frame, page) ∈ t.pages
  invalid : t.record.isValid = false → t.pages = []
  page : ∀ w ∈ t.pages, w.1 ∈ t.frames ∧ w.2.length = 4096

/-- Regions on frames of their own, zeroed in `start`, with their leaf entries elsewhere. -/
structure LoadedAt (slot : Nat → Nat) (start : ByteMem) (ts : List Placed) : Prop where
  full : Full ts
  sound : ∀ t ∈ ts, t.Sound
  stores : ∀ t ∈ ts, t.Stores
  distinct : (allFrames ts).Nodup
  slots : ∀ e ∈ allEntries slot ts, pageStart e.1 ∉ allFrames ts ∧ e.1 % 8 = 0 ∧ e.2 < 2 ^ 64
  zero : ∀ p, pageStart p ∈ allFrames ts → start p = 0

/-- The memory after the three passes, of which the last one clears the frames `zs`. -/
def resetMem (slot : Nat → Nat) (ts : List Placed) (zs : List Nat) (mem : ByteMem) : ByteMem :=
  writes (zeroWrites zs) (writes (wordWrites (allEntries slot ts)) (writes (allPages ts) mem))

theorem covers_page {w : Nat × List UInt8} (haligned : w.1 % 4096 = 0) (hlen : w.2.length = 4096)
    {p : Nat} : Covers w p ↔ pageStart p = w.1 := by
  unfold Covers pageStart
  rw [hlen]
  omega

theorem mem_allFrames {ts : List Placed} {t : Placed} (ht : t ∈ ts) {frame : Nat}
    (hframe : frame ∈ t.frames) : frame ∈ allFrames ts :=
  List.mem_flatMap.mpr ⟨t, ht, hframe⟩

namespace LoadedAt

variable {slot : Nat → Nat} {start : ByteMem} {ts : List Placed} (h : LoadedAt slot start ts)
  {p : Nat}

include h

/-- No frame belongs to a valid region and to an invalid one. -/
theorem not_both {t u : Placed} (ht : t ∈ ts) (hu : u ∈ ts) (hvalid : t.record.isValid = true)
    (hinvalid : u.record.isValid = false) {frame : Nat} (hframe : frame ∈ t.frames) :
    frame ∉ u.frames := by
  intro hframe'
  have hne : t ≠ u := by
    intro heq
    rw [heq, hinvalid] at hvalid
    exact Bool.false_ne_true hvalid
  have hpairs := (List.nodup_flatMap.mp h.distinct).2
  have : Std.Symm (Function.onFun List.Disjoint Placed.frames) :=
    ⟨fun _ _ hd _ ha hb => hd hb ha⟩
  exact hpairs.forall ht hu hne hframe hframe'

theorem slot_not_frame (hcovers : ∃ w ∈ wordWrites (allEntries slot ts), Covers w p) :
    pageStart p ∉ allFrames ts := by
  obtain ⟨w, hw, hle, hlt⟩ := hcovers
  obtain ⟨e, he, rfl⟩ := List.mem_map.mp hw
  obtain ⟨hpage, height, -⟩ := h.slots e he
  rw [Bytes.length_le] at hlt
  have hsame : pageStart p = pageStart e.1 := by
    unfold pageStart
    dsimp only at hle hlt
    omega
  rwa [hsame]

theorem page_frame (hcovers : ∃ w ∈ allPages ts, Covers w p) :
    ∃ t ∈ ts, t.record.isValid = true ∧ pageStart p ∈ t.frames := by
  obtain ⟨w, hw, hp⟩ := hcovers
  obtain ⟨t, ht, hw⟩ := List.mem_flatMap.mp hw
  obtain ⟨hframe, hlen⟩ := (h.stores t ht).page w hw
  refine ⟨t, ht, ?_, ?_⟩
  · by_contra hvalid
    rw [(h.stores t ht).invalid (Bool.eq_false_iff.mpr hvalid)] at hw
    exact List.not_mem_nil hw
  · rwa [(covers_page ((h.sound t ht).aligned _ hframe) hlen).mp hp]

theorem frame_page {t : Placed} (ht : t ∈ ts) (hvalid : t.record.isValid = true)
    (hframe : pageStart p ∈ t.frames) : ∃ w ∈ allPages ts, Covers w p := by
  obtain ⟨page, hpage⟩ := (h.stores t ht).valid hvalid _ hframe
  refine ⟨_, List.mem_flatMap.mpr ⟨t, ht, hpage⟩, ?_⟩
  exact (covers_page ((h.sound t ht).aligned _ hframe) ((h.stores t ht).page _ hpage).2).mpr rfl

/-- Loading writes nothing to the frames of an invalid region. -/
theorem invalid_untouched {t : Placed} (ht : t ∈ ts) (hinvalid : t.record.isValid = false)
    (hin : pageStart p ∈ t.frames) :
    (∀ w ∈ wordWrites (allEntries slot ts), ¬Covers w p) ∧ ∀ w ∈ allPages ts, ¬Covers w p := by
  refine ⟨fun w hw hcovers => h.slot_not_frame ⟨w, hw, hcovers⟩ (mem_allFrames ht hin), ?_⟩
  intro w hw hcovers
  obtain ⟨u, hu, hvalid, hin'⟩ := h.page_frame ⟨w, hw, hcovers⟩
  exact h.not_both hu ht hvalid hinvalid hin' hin

theorem invalid_zero {t : Placed} (ht : t ∈ ts) (hinvalid : t.record.isValid = false)
    (hin : pageStart p ∈ t.frames) : storeAll slot ts start p = 0 := by
  obtain ⟨hentries, hpages⟩ := h.invalid_untouched ht hinvalid hin
  rw [storeAll_apply_pages h.full hentries, writes_apply_of_not_covers hpages,
    h.zero p (mem_allFrames ht hin)]

variable {zs : List Nat}
  (hzs : ∀ frame ∈ zs, ∃ t ∈ ts, t.record.isValid = false ∧ frame ∈ t.frames)

include hzs

theorem zero_iff : (∃ w ∈ zeroWrites zs, Covers w p) ↔ pageStart p ∈ zs := by
  have hcovers : ∀ frame ∈ zs, (Covers (frame, zeroPage) p ↔ pageStart p = frame) := by
    intro frame hframe
    obtain ⟨t, ht, -, hin⟩ := hzs frame hframe
    exact covers_page ((h.sound t ht).aligned _ hin) List.length_replicate
  constructor
  · rintro ⟨w, hw, hp⟩
    obtain ⟨frame, hframe, rfl⟩ := List.mem_map.mp hw
    rwa [(hcovers frame hframe).mp hp]
  · intro hp
    exact ⟨_, List.mem_map_of_mem hp, (hcovers _ hp).mpr rfl⟩

/-- **What the passes restore**: a byte that is still what it was, the leaf entries, the pages of
valid regions, and the frames that are cleared. -/
theorem reset_same {mem : ByteMem}
    (hp : mem p = storeAll slot ts start p ∨
      (∃ w ∈ wordWrites (allEntries slot ts), Covers w p) ∨
      (∃ t ∈ ts, t.record.isValid = true ∧ pageStart p ∈ t.frames) ∨ pageStart p ∈ zs) :
    resetMem slot ts zs mem p = storeAll slot ts start p := by
  have hzframe : pageStart p ∈ zs → pageStart p ∈ allFrames ts := by
    intro hz
    obtain ⟨t, ht, -, hin⟩ := hzs _ hz
    exact mem_allFrames ht hin
  unfold resetMem
  by_cases hslot : ∃ w ∈ wordWrites (allEntries slot ts), Covers w p
  · have hframe := h.slot_not_frame hslot
    have hpages : ∀ w ∈ allPages ts, ¬Covers w p := by
      intro w hw hcovers
      obtain ⟨t, ht, -, hin⟩ := h.page_frame ⟨w, hw, hcovers⟩
      exact hframe (mem_allFrames ht hin)
    have hzeros : ∀ w ∈ zeroWrites zs, ¬Covers w p := fun w hw hcovers =>
      hframe (hzframe ((h.zero_iff hzs).mp ⟨w, hw, hcovers⟩))
    rw [writes_apply_of_not_covers hzeros, storeAll_apply_slots h.full hpages]
    exact writes_apply_of_covers hslot
  · have hentries : ∀ w ∈ wordWrites (allEntries slot ts), ¬Covers w p :=
      fun w hw hcovers => hslot ⟨w, hw, hcovers⟩
    rw [storeAll_apply_pages h.full hentries]
    by_cases hpage : ∃ w ∈ allPages ts, Covers w p
    · obtain ⟨t, ht, hvalid, hin⟩ := h.page_frame hpage
      have hzeros : ∀ w ∈ zeroWrites zs, ¬Covers w p := by
        intro w hw hcovers
        obtain ⟨u, hu, hinvalid, hin'⟩ := hzs _ ((h.zero_iff hzs).mp ⟨w, hw, hcovers⟩)
        exact h.not_both ht hu hvalid hinvalid hin hin'
      rw [writes_apply_of_not_covers hzeros, writes_apply_of_not_covers hentries]
      exact writes_apply_of_covers hpage
    · have hpages : ∀ w ∈ allPages ts, ¬Covers w p :=
        fun w hw hcovers => hpage ⟨w, hw, hcovers⟩
      rw [writes_apply_of_not_covers hpages]
      by_cases hz : pageStart p ∈ zs
      · rw [h.zero p (hzframe hz)]
        refine writes_apply_of_forall ?_ ((h.zero_iff hzs).mpr hz)
        intro w hw c hc
        obtain ⟨frame, -, rfl⟩ := List.mem_map.mp hw
        exact List.eq_of_mem_replicate hc
      · have hzeros : ∀ w ∈ zeroWrites zs, ¬Covers w p :=
          fun w hw hcovers => hz ((h.zero_iff hzs).mp ⟨w, hw, hcovers⟩)
        rw [writes_apply_of_not_covers hzeros, writes_apply_of_not_covers hentries,
          writes_apply_of_not_covers hpages]
        rcases hp with hsame | hcovers | ⟨t, ht, hvalid, hin⟩ | hcleared
        · rw [hsame, storeAll_apply_pages h.full hentries, writes_apply_of_not_covers hpages]
        · exact absurd hcovers hslot
        · exact absurd (h.frame_page ht hvalid hin) hpage
        · exact absurd hcleared hz

/-- What they leave alone: a frame of an invalid region that is not cleared. -/
theorem reset_kept {t : Placed} (ht : t ∈ ts) (hinvalid : t.record.isValid = false)
    (hin : pageStart p ∈ t.frames) (hz : pageStart p ∉ zs) (mem : ByteMem) :
    resetMem slot ts zs mem p = mem p := by
  have hzeros : ∀ w ∈ zeroWrites zs, ¬Covers w p :=
    fun w hw hcovers => hz ((h.zero_iff hzs).mp ⟨w, hw, hcovers⟩)
  obtain ⟨hentries, hpages⟩ := h.invalid_untouched ht hinvalid hin
  unfold resetMem
  rw [writes_apply_of_not_covers hzeros, writes_apply_of_not_covers hentries,
    writes_apply_of_not_covers hpages]

end LoadedAt

/-! ### The records on their frames -/

/-- The records on the first frames of a pool. -/
def placedOf : List McRecord → List Nat → List Placed
  | [], _ => []
  | rec :: recs, pool =>
      ⟨rec, pool.take rec.nents, rec.contents⟩ :: placedOf recs (pool.drop rec.nents)

theorem map_record_placedOf :
    ∀ (recs : List McRecord) (pool : List Nat), (placedOf recs pool).map Placed.record = recs := by
  intro recs
  induction recs with
  | nil => exact fun _ => rfl
  | cons rec recs ih => exact fun pool => congrArg (rec :: ·) (ih _)

theorem contents_placedOf :
    ∀ (recs : List McRecord) (pool : List Nat), ∀ t ∈ placedOf recs pool,
      t.contents = t.record.contents := by
  intro recs
  induction recs with
  | nil => exact fun _ t ht => absurd ht List.not_mem_nil
  | cons rec recs ih =>
      intro pool t ht
      rcases List.mem_cons.mp ht with rfl | ht
      · rfl
      · exact ih _ t ht

theorem allFrames_placedOf :
    ∀ (recs : List McRecord) (pool : List Nat),
      allFrames (placedOf recs pool) = pool.take (totalNents recs) := by
  intro recs
  induction recs with
  | nil => exact fun pool => (List.take_zero).symm
  | cons rec recs ih =>
      intro pool
      have hsum : totalNents (rec :: recs) = rec.nents + totalNents recs := rfl
      rw [hsum, List.take_add, ← ih]
      rfl

theorem sound_placedOf :
    ∀ {recs : List McRecord} {pool : List Nat}, (∀ rec ∈ recs, rec.WF) →
      (∀ frame ∈ pool, frame % 4096 = 0) → totalNents recs ≤ pool.length →
      ∀ t ∈ placedOf recs pool, t.Sound := by
  intro recs
  induction recs with
  | nil => exact fun _ _ _ t ht => absurd ht List.not_mem_nil
  | cons rec recs ih =>
      intro pool hwf hpool henough t ht
      have hsum : totalNents (rec :: recs) = rec.nents + totalNents recs := rfl
      rw [hsum] at henough
      rcases List.mem_cons.mp ht with rfl | ht
      · exact {
          wf := hwf rec List.mem_cons_self
          length := List.length_take_of_le (by omega)
          aligned := fun frame hframe => hpool frame (List.mem_of_mem_take hframe) }
      · exact ih (fun r hr => hwf r (List.mem_cons_of_mem _ hr))
          (fun frame hframe => hpool frame (List.mem_of_mem_drop hframe))
          (by rw [List.length_drop]; omega) t ht

theorem regionsOf_made :
    ∀ (recs : List McRecord) (pool : List Nat),
      List.Forall₂ Made (regionsOf recs pool) (placedOf recs pool) := by
  intro recs
  induction recs with
  | nil => exact fun _ => .nil
  | cons rec recs ih => exact fun pool => .cons ⟨0, rfl⟩ (ih _)

theorem storeRecords_eq (slot : Nat → Nat) :
    ∀ (recs : List McRecord) (pool : List Nat) (mem : ByteMem),
      storeRecords slot recs pool mem = storeAll slot (placedOf recs pool) mem := by
  intro recs
  induction recs with
  | nil => exact fun _ _ => rfl
  | cons rec recs ih => exact fun pool mem => ih _ _

/-- The writes of a record with its own contents. -/
theorem pages_contents {t : Placed} (hcontents : t.contents = t.record.contents) :
    t.pages = if t.record.isValid then t.frames.zip (t.record.pages.map Prod.snd) else [] := by
  rw [Placed.pages, hcontents, McRecord.contents]
  by_cases hvalid : t.record.isValid = true
  · rw [if_pos hvalid, if_pos hvalid, ← pageWrites_some, List.map_map]
    rfl
  · rw [if_neg hvalid, if_neg hvalid, pageWrites_none]

/-- A record with its own contents stores its pages. -/
theorem stores_contents {t : Placed} (ht : t.Sound) (hcontents : t.contents = t.record.contents) :
    t.Stores := by
  have hlength := ht.wf.length_pages
  have hpages := pages_contents hcontents
  refine ⟨?_, ?_, ?_⟩
  · intro hvalid frame hframe
    rw [if_pos hvalid] at hpages hlength
    obtain ⟨i, hi, rfl⟩ := List.getElem_of_mem hframe
    have hi' : i < (t.record.pages.map Prod.snd).length := by
      rw [List.length_map, hlength, ← ht.length]
      exact hi
    refine ⟨(t.record.pages.map Prod.snd)[i], ?_⟩
    rw [hpages, List.mem_iff_getElem]
    exact ⟨i, by rw [List.length_zip]; omega, List.getElem_zip⟩
  · intro hinvalid
    rw [hpages, if_neg (by rw [hinvalid]; exact Bool.false_ne_true)]
  · intro w hw
    rw [hpages] at hw
    split at hw
    · obtain ⟨hframe, hpage⟩ := List.of_mem_zip hw
      obtain ⟨q, hq, heq⟩ := List.mem_map.mp hpage
      exact ⟨hframe, heq ▸ (ht.wf.page q hq).2⟩
    · exact absurd hw List.not_mem_nil

/-- The repeated region stores the page read last. -/
theorem stores_again {t : Placed} (ht : t.Sound) {buf : List UInt8} (hbuf : buf.length = 4096)
    (hcontents : t.contents = t.record.again buf) : t.Stores := by
  have hpages : t.pages = if t.record.isValid then t.frames.map fun f => (f, buf) else [] := by
    rw [Placed.pages, hcontents, McRecord.again]
    by_cases hvalid : t.record.isValid = true
    · rw [if_pos hvalid, if_pos hvalid, ← ht.length, pageWrites_replicate]
    · rw [if_neg hvalid, if_neg hvalid, pageWrites_none]
  refine ⟨?_, ?_, ?_⟩
  · intro hvalid frame hframe
    rw [hpages, if_pos hvalid]
    exact ⟨buf, List.mem_map_of_mem hframe⟩
  · intro hinvalid
    rw [hpages, if_neg (by rw [hinvalid]; exact Bool.false_ne_true)]
  · intro w hw
    rw [hpages] at hw
    split at hw
    · obtain ⟨frame, hframe, rfl⟩ := List.mem_map.mp hw
      exact ⟨hframe, hbuf⟩
    · exact absurd hw List.not_mem_nil

theorem lastPage_length {rec : McRecord} (hwf : rec.WF) {buf : List UInt8}
    (hbuf : buf.length = 4096) : (rec.lastPage buf).length = 4096 := by
  unfold McRecord.lastPage
  rw [List.getLastD_eq_getLast?]
  cases hlast : (rec.pages.map Prod.snd).getLast? with
  | none => exact hbuf
  | some page =>
      obtain ⟨q, hq, rfl⟩ := List.mem_map.mp (List.mem_of_getLast? hlast)
      exact (hwf.page q hq).2

theorem bufAfter_length :
    ∀ {recs : List McRecord} {buf : List UInt8}, (∀ rec ∈ recs, rec.WF) → buf.length = 4096 →
      (bufAfter recs buf).length = 4096 := by
  intro recs
  induction recs with
  | nil => exact fun _ hbuf => hbuf
  | cons rec recs ih =>
      intro buf hwf hbuf
      exact ih (fun r hr => hwf r (List.mem_cons_of_mem _ hr))
        (lastPage_length (hwf rec List.mem_cons_self) hbuf)

/-- What the last turn stores does not depend on what the buffer held at first. -/
theorem again_bufAfter {recs : List McRecord} {last : McRecord} (hwf : last.WF)
    (hlast : recs.getLast? = some last) (buf buf' : List UInt8) :
    last.again (bufAfter recs buf) = last.again (bufAfter recs buf') := by
  obtain ⟨front, rfl⟩ := List.getLast?_eq_some_iff.mp hlast
  have hpages := hwf.length_pages
  unfold McRecord.again bufAfter
  rw [List.foldl_append, List.foldl_append]
  by_cases hvalid : last.isValid = true
  · rw [if_pos hvalid] at hpages
    cases hp : last.pages with
    | nil =>
        rw [hp] at hpages
        rw [← hpages]
        rfl
    | cons q qs =>
        have hsame : ∀ b : List UInt8, last.lastPage b = (qs.map Prod.snd).getLastD q.2 := by
          intro b
          rw [McRecord.lastPage, hp, List.map_cons, List.getLastD_cons]
        rw [List.foldl_cons, List.foldl_nil, List.foldl_cons, List.foldl_nil, hsame, hsame]
  · rw [if_neg hvalid, if_neg hvalid]

/-! ### The synced address spaces -/

/-- What a region was made of, whatever has been marked since. -/
theorem made_iff {r : Region} {t : Placed} : Made r t ↔ { r with isSynced := 0 } = t.region 0 := by
  constructor
  · rintro ⟨sync, rfl⟩
    rfl
  · intro h
    exact ⟨r.isSynced, congrArg (fun s : Region => { s with isSynced := r.isSynced }) h⟩

theorem SyncedOnly.made {regions regions' : List Region} (h : SyncedOnly regions regions')
    {ts : List Placed} (hmade : List.Forall₂ Made regions ts) : List.Forall₂ Made regions' ts := by
  have hcleared : ∀ rs : List Region, List.Forall₂ Made rs ts ↔
      rs.map (fun r => { r with isSynced := 0 }) = ts.map fun t => t.region 0 := by
    intro rs
    have hsame : ∀ {r : Region} {t : Placed}, Made r t ↔ { r with isSynced := 0 } = t.region 0 :=
      made_iff
    rw [← List.forall₂_eq_eq_eq, List.forall₂_map_left_iff, List.forall₂_map_right_iff]
    exact ⟨fun hall => hall.imp fun _ _ => hsame.mp, fun hall => hall.imp fun _ _ => hsame.mpr⟩
  exact (hcleared regions').mpr (h.trans ((hcleared regions).mp hmade))

/-! ### The leaf entries -/

section Slots

variable {slot : Nat → Nat} {flags : Nat}

theorem mem_slotEntries :
    ∀ {frames : List Nat} {vaddr : Nat} {e : Nat × Nat}, e ∈ slotEntries slot flags vaddr frames →
      (∃ k, k < frames.length ∧ e.1 = slot (vaddr + 4096 * k)) ∧
        ∃ frame ∈ frames, e.2 = grEntryGetAte frame flags midgardMmuBottomlevel := by
  intro frames
  induction frames with
  | nil => exact fun he => absurd he List.not_mem_nil
  | cons frame frames ih =>
      intro vaddr e he
      rcases List.mem_cons.mp he with rfl | he
      · exact ⟨⟨0, Nat.zero_lt_succ _, rfl⟩, frame, List.mem_cons_self, rfl⟩
      · obtain ⟨⟨k, hk, hslot⟩, fr, hfr, hword⟩ := ih he
        refine ⟨⟨k + 1, Nat.succ_lt_succ hk, ?_⟩, fr, List.mem_cons_of_mem _ hfr, hword⟩
        rw [hslot, Nat.mul_succ, Nat.add_assoc, Nat.add_comm 4096]

theorem slotEntries_mem :
    ∀ {frames : List Nat} {vaddr k : Nat}, k < frames.length →
      ∃ v, (slot (vaddr + 4096 * k), v) ∈ slotEntries slot flags vaddr frames := by
  intro frames
  induction frames with
  | nil => exact fun hk => absurd hk (Nat.not_lt_zero _)
  | cons frame frames ih =>
      intro vaddr k hk
      cases k with
      | zero => exact ⟨_, List.mem_cons_self⟩
      | succ k =>
          obtain ⟨v, hv⟩ := @ih (vaddr + 4096) k (Nat.lt_of_succ_lt_succ hk)
          rw [Nat.add_assoc, Nat.add_comm 4096, ← Nat.mul_succ] at hv
          exact ⟨v, List.mem_cons_of_mem _ hv⟩

theorem slotEntries_concat (frame : Nat) :
    ∀ (frames : List Nat) (vaddr : Nat),
      slotEntries slot flags vaddr (frames ++ [frame]) = slotEntries slot flags vaddr frames ++
        [(slot (vaddr + 4096 * frames.length),
          grEntryGetAte frame flags midgardMmuBottomlevel)] := by
  intro frames
  induction frames with
  | nil => exact fun _ => rfl
  | cons first frames ih =>
      intro vaddr
      rw [List.cons_append, slotEntries, ih, List.length_cons, Nat.mul_succ, Nat.add_assoc,
        Nat.add_comm 4096]
      rfl

/-- A word in the place of a leaf entry, once regions are loaded. -/
theorem LoadedAt.read64_slot {start : ByteMem} {ts : List Placed} (h : LoadedAt slot start ts)
    {a : Nat} (ha : a % 8 = 0) (hpage : pageStart a ∉ allFrames ts) :
    read64 (storeAll slot ts start) a =
      read64 (writes (wordWrites (allEntries slot ts)) start) a := by
  refine read64_congr fun k hk => storeAll_apply_slots h.full ?_
  intro w hw hcovers
  obtain ⟨t, ht, -, hin⟩ := h.page_frame ⟨w, hw, hcovers⟩
  have hsame : pageStart (a + k) = pageStart a := by
    unfold pageStart
    omega
  rw [hsame] at hin
  exact hpage (mem_allFrames ht hin)

end Slots

/-! ### After `gr_mem_init` -/

/-- What a memory dump is reset with: a `gr_mem_init` that returned, on zeroed frames. -/
structure ResetInput (config : GrConfig) (pgtFile sasFile : List UInt8)
    (snapshot : Option (List UInt8)) (junk : InitJunk) (m : Machine) (recs : List McRecord)
    (ctx : ReplayContext) : Prop where
  pool : PoolOk m.pool
  lt : ∀ frame ∈ m.pool, frame < 2 ^ 48
  zeroed : ∀ p, pageStart p ∈ m.pool → m.mem p = 0
  fits : junk.pgt.Ok
  locals : junk.mc.paddr < 2 ^ 64 ∧ junk.mc.buf.length = 4096
  count : 1 ≤ recs.length ∧ recs.length < 128
  wf : ∀ rec ∈ recs, rec.WF
  disjoint : recs.Pairwise fun r t => r.gmEnd ≤ t.gmStart ∨ t.gmEnd ≤ r.gmStart
  run : grMemInit config ⟨some pgtFile, some (dump recs), some sasFile, snapshot⟩ junk m = .ok ctx

/-- What it is reset from: the records `base` on their frames, and `dup`, the last of them a
second time. -/
structure DumpLoaded (ctx : ReplayContext) (recs : List McRecord) (start : ByteMem)
    (base : List Placed) (dup orig : Placed) : Prop where
  records : base.map Placed.record = recs
  contents : ∀ t ∈ base, t.contents = t.record.contents
  orig : orig ∈ base ∧ dup.record = orig.record
  last : recs.getLast? = some dup.record
  again : ∀ buf, dup.contents = dup.record.again (bufAfter recs buf)
  regions : ∃ rs r, ctx.regions = rs ++ [r] ∧ List.Forall₂ Made rs base ∧ Made r dup
  loaded : LoadedAt (leafSlot ctx.machine.heap ctx.userPgt) start (base ++ [dup])
  mem : ctx.machine.mem =
    storeAll (leafSlot ctx.machine.heap ctx.userPgt) (base ++ [dup]) start
  lt : ∀ frame ∈ allFrames (base ++ [dup]), frame < 2 ^ 48
  leaves : ∀ rec ∈ recs, HasLeaves ctx.machine.heap ctx.userPgt rec.gmStart rec.nents
  tables : ∀ gaddr, HasLeaf ctx.machine.heap ctx.userPgt gaddr → ∃ q,
    leafPage tableAt (entries ctx.machine.mem) (gpuIndex gaddr) 3 ctx.newTranstab = some q ∧
      leafSlot ctx.machine.heap ctx.userPgt gaddr = q + 8 * gpuIndex gaddr 0
  pages : ∀ q ∈ RadixTree.pages tableAt 512 (entries ctx.machine.mem) 3 ctx.newTranstab,
    q % 4096 = 0 ∧ q ∉ allFrames (base ++ [dup])
  few : ∀ rec ∈ recs, rec.nents < 2 ^ 32

theorem allFrames_append (ts us : List Placed) :
    allFrames (ts ++ us) = allFrames ts ++ allFrames us := List.flatMap_append

/-! ### The records on their frames, and the last of them a second time -/

section Twice

variable {recs : List McRecord} {pool : List Nat} {last : McRecord} {buf : List UInt8}

/-- The last record, on the frames behind those of all records. -/
def placedAgain (recs : List McRecord) (pool : List Nat) (last : McRecord) (buf : List UInt8) :
    Placed :=
  ⟨last, (pool.drop (totalNents recs)).take last.nents, last.again (bufAfter recs buf)⟩

theorem mem_twice {t dup : Placed} {base : List Placed} :
    t ∈ base ++ [dup] ↔ t ∈ base ∨ t = dup := by
  rw [List.mem_append, List.mem_singleton]

theorem allFrames_twice : allFrames (placedOf recs pool ++ [placedAgain recs pool last buf]) =
    pool.take (totalNents recs + last.nents) := by
  rw [allFrames_append, allFrames_placedOf, List.take_add]
  exact congrArg _ (List.append_nil _)

theorem record_twice (hlast : recs.getLast? = some last) :
    ∀ t ∈ placedOf recs pool ++ [placedAgain recs pool last buf], t.record ∈ recs := by
  intro t ht
  rcases mem_twice.mp ht with ht | rfl
  · rw [← map_record_placedOf recs pool]
    exact List.mem_map_of_mem ht
  · exact List.mem_of_getLast? hlast

theorem sound_twice (hwf : ∀ rec ∈ recs, rec.WF) (haligned : ∀ frame ∈ pool, frame % 4096 = 0)
    (hlast : recs.getLast? = some last) (henough : totalNents recs + last.nents ≤ pool.length) :
    ∀ t ∈ placedOf recs pool ++ [placedAgain recs pool last buf], t.Sound := by
  intro t ht
  rcases mem_twice.mp ht with ht | rfl
  · exact sound_placedOf hwf haligned (Nat.le_trans (Nat.le_add_right _ _) henough) t ht
  · exact {
      wf := hwf last (List.mem_of_getLast? hlast)
      length := List.length_take_of_le (by rw [List.length_drop]; omega)
      aligned := fun frame hframe =>
        haligned frame (List.mem_of_mem_drop (List.mem_of_mem_take hframe)) }

theorem stores_twice (hwf : ∀ rec ∈ recs, rec.WF) (hbuf : buf.length = 4096)
    (hsound : ∀ t ∈ placedOf recs pool ++ [placedAgain recs pool last buf], t.Sound) :
    ∀ t ∈ placedOf recs pool ++ [placedAgain recs pool last buf], t.Stores := by
  intro t ht
  have hs := hsound t ht
  rcases mem_twice.mp ht with ht | rfl
  · exact stores_contents hs (contents_placedOf recs _ t ht)
  · exact stores_again hs (bufAfter_length hwf hbuf) rfl

theorem full_twice
    (hsound : ∀ t ∈ placedOf recs pool ++ [placedAgain recs pool last buf], t.Sound) :
    Full (placedOf recs pool ++ [placedAgain recs pool last buf]) := by
  intro t ht
  have hs := hsound t ht
  rw [hs.length]
  rcases mem_twice.mp ht with ht | rfl
  · rw [contents_placedOf recs _ t ht]
    exact (McRecord.length_contents hs.wf).symm
  · exact List.length_replicate.symm

/-- The region of the last record is the last one. -/
theorem made_twice {regions : List Region} {base : List Placed} {dup : Placed}
    (hmade : List.Forall₂ Made regions (base ++ [dup])) :
    ∃ rs r, regions = rs ++ [r] ∧ List.Forall₂ Made rs base ∧ Made r dup := by
  have hlen := hmade.length_eq
  obtain ⟨rs, r, rfl⟩ : ∃ rs r, regions = rs ++ [r] := by
    rcases List.eq_nil_or_concat' regions with rfl | ⟨rs, r, hsplit⟩
    · rw [List.length_append] at hlen
      exact absurd hlen.symm (Nat.succ_ne_zero _)
    · exact ⟨rs, r, hsplit⟩
  have hsame : rs.length = base.length := by
    rw [List.length_append, List.length_append] at hlen
    exact Nat.add_right_cancel hlen
  have htake := List.forall₂_take_append _ _ _ hmade
  have hdrop := List.forall₂_drop_append _ _ _ hmade
  rw [← hsame, List.take_left] at htake
  rw [← hsame, List.drop_left] at hdrop
  cases hdrop with
  | cons hr _ => exact ⟨rs, r, rfl, htake, hr⟩

end Twice

/-- The leaf entries lie in the tables, which are no frames of the dump, and fit their slots. -/
theorem slots_sound {heap : List UserPgtable} {userPgt : UserPtr} {mem : ByteMem} {pgd : Nat}
    {loads : List Placed} (hsound : ∀ t ∈ loads, t.Sound)
    (hleaves : ∀ t ∈ loads, HasLeaves heap userPgt t.record.gmStart t.record.nents)
    (htables : ∀ gaddr, HasLeaf heap userPgt gaddr → ∃ q,
      leafPage tableAt (entries mem) (gpuIndex gaddr) 3 pgd = some q ∧
        leafSlot heap userPgt gaddr = q + 8 * gpuIndex gaddr 0)
    (hpages : ∀ q ∈ RadixTree.pages tableAt 512 (entries mem) 3 pgd,
      q % 4096 = 0 ∧ q ∉ allFrames loads)
    (hlow : ∀ frame ∈ allFrames loads, frame < 2 ^ 48) :
    ∀ e ∈ allEntries (leafSlot heap userPgt) loads,
      pageStart e.1 ∉ allFrames loads ∧ e.1 % 8 = 0 ∧ e.2 < 2 ^ 64 := by
  intro e he
  obtain ⟨t, ht, he⟩ := List.mem_flatMap.mp he
  obtain ⟨⟨j, hj, hslot⟩, frame, hframe, hword⟩ := mem_slotEntries he
  rw [(hsound t ht).length] at hj
  obtain ⟨q, hq, hqslot⟩ := htables _ (hleaves t ht j hj)
  have hix := gpuIndex_lt (t.record.gmStart + 4096 * j)
  obtain ⟨hqaligned, hqframe⟩ := hpages q (leafPage_mem hix hq)
  have hlt := hix 0
  have hstart : pageStart (q + 8 * gpuIndex (t.record.gmStart + 4096 * j) 0) = q := by
    unfold pageStart
    omega
  rw [hslot, hqslot, hstart, hword]
  refine ⟨hqframe, by omega, ?_⟩
  exact Nat.lt_trans (grEntryGetAte_lt (hlow frame (mem_allFrames ht hframe)) _) (by decide)

/-- **What `gr_mem_init` leaves to reset to.** -/
theorem grMemInit_loaded {config : GrConfig} {pgtFile sasFile : List UInt8}
    {snapshot : Option (List UInt8)} {junk : InitJunk} {m : Machine} {recs : List McRecord}
    {ctx : ReplayContext} (h : ResetInput config pgtFile sasFile snapshot junk m recs ctx) :
    ∃ start base dup orig, DumpLoaded ctx recs start base dup orig := by
  obtain ⟨pgt, mc, hpgt, hmc, hmachine, hroot, huser, sas, hsas⟩ := grMemInit_ok h.run
  obtain ⟨pgt', tables, k, hpgt', htree, -, -, -, hpatched⟩ :=
    grMemInit_patched h.pool h.lt h.fits h.run
  obtain rfl : pgt' = pgt := Except.ok.inj (hpgt'.symm.trans hpgt)
  have hrest : pgt'.machine.pool = m.pool.drop tables := htree.pool
  have hwalk : RadixTree.pages tableAt 512 (entries pgt'.machine.mem) 3 pgt'.newPgd =
      m.pool.take tables := htree.walk
  have haligned : ∀ frame ∈ pgt'.machine.pool, frame % 4096 = 0 := by
    intro frame hframe
    rw [hrest] at hframe
    exact h.pool.aligned frame (List.mem_of_mem_drop hframe)
  have hne : recs ≠ [] := List.ne_nil_of_length_pos h.count.1
  obtain ⟨last, hlast⟩ : ∃ last, recs.getLast? = some last :=
    ⟨_, List.getLast?_eq_some_getLast hne⟩
  -- the dump was loaded, so every page has a table and there were frames enough
  obtain ⟨hloaded, henough, hregions, hmem⟩ :=
    grMemContentsInit_again h.wf haligned h.locals.1 h.locals.2 hlast hmc
  let base := placedOf recs pgt'.machine.pool
  let dup := placedAgain recs pgt'.machine.pool last junk.mc.buf
  have hrecords : base.map Placed.record = recs := map_record_placedOf recs _
  have hsound : ∀ t ∈ base ++ [dup], t.Sound := sound_twice h.wf haligned hlast henough
  obtain ⟨orig, horig, hrecord⟩ : ∃ orig ∈ base, orig.record = last := by
    have hin : last ∈ base.map Placed.record := by
      rw [hrecords]
      exact List.mem_of_getLast? hlast
    exact List.mem_map.mp hin
  have hframes : allFrames (base ++ [dup]) =
      pgt'.machine.pool.take (totalNents recs + last.nents) := allFrames_twice
  have hlater : ∀ frame ∈ allFrames (base ++ [dup]), frame ∈ m.pool.drop tables := by
    intro frame hframe
    rw [hframes, hrest] at hframe
    exact List.mem_of_mem_take hframe
  have hlow : ∀ frame ∈ allFrames (base ++ [dup]), frame < 2 ^ 48 := fun frame hframe =>
    h.lt frame (List.mem_of_mem_drop (hlater frame hframe))
  have hnottable : ∀ q ∈ m.pool.take tables, q ∉ allFrames (base ++ [dup]) := by
    intro q hq hframe
    rw [hframes, hrest] at hframe
    exact h.pool.not_mem_later hq hframe
  -- the tables, and the leaf entries in them
  have hpages : ∀ q ∈ RadixTree.pages tableAt 512 (entries ctx.machine.mem) 3 ctx.newTranstab,
      q % 4096 = 0 ∧ q ∉ allFrames (base ++ [dup]) := by
    intro q hq
    rw [hroot, hpatched.upper.pages_eq, hwalk] at hq
    exact ⟨h.pool.aligned q (List.mem_of_mem_take hq), hnottable q hq⟩
  have htables : ∀ gaddr, HasLeaf ctx.machine.heap ctx.userPgt gaddr → ∃ q,
      leafPage tableAt (entries ctx.machine.mem) (gpuIndex gaddr) 3 ctx.newTranstab = some q ∧
        leafSlot ctx.machine.heap ctx.userPgt gaddr = q + 8 * gpuIndex gaddr 0 := by
    intro gaddr hleaf
    obtain ⟨target, pgd, htarget, hpgd, hslot⟩ := hasLeaf_iff.mp hleaf
    have hindex : gpuIndex gaddr 0 = gaddr / 4096 % 512 := by
      show gaddr / 4096 / 2 ^ 0 % 512 = _
      rw [Nat.pow_zero, Nat.div_one]
    refine ⟨pgd.physPage, ?_, by rw [hslot, hindex]⟩
    have huserPgd : pgt'.userPgt = .node m.heap.length := htree.userPgd
    rw [huser, huserPgd, hmachine] at htarget
    rw [hmachine] at hpgd
    rw [hroot, hpatched.upper.leafPage_eq (gpuIndex_lt gaddr)]
    exact htree.tree.walk (Nat.le_refl 3) htarget hpgd
  have hleaves : ∀ rec ∈ recs, HasLeaves ctx.machine.heap ctx.userPgt rec.gmStart rec.nents := by
    rw [hmachine, huser]
    exact hloaded
  -- every page has a leaf entry, and there are not as many of these as the counters hold
  have hfew : ∀ rec ∈ recs, rec.nents < 2 ^ 32 := by
    intro rec hrec
    obtain ⟨j, hj, hnone⟩ := @leafPage_missing (entries ctx.machine.mem) ctx.newTranstab (2 ^ 32)
      (by rw [hroot, hpatched.upper.pages_eq, hwalk]; exact h.pool.nodup.sublist
            (List.take_sublist _ _))
      (by rw [hroot, hpatched.upper.pages_eq, hwalk, List.length_take]
          obtain ⟨n, hn, hmost⟩ := grPgtInit_takes hpgt
          rw [hrest, List.length_drop] at hn
          omega)
      (Nat.pow_le_pow_right (by decide) (show 32 ≤ 36 by decide)) rec.gmStart
    refine Nat.lt_of_not_le fun hmany => ?_
    obtain ⟨q, hq, -⟩ := htables _ (hleaves rec hrec j (Nat.lt_of_lt_of_le hj hmany))
    exact hnone q hq
  have hmade : List.Forall₂ Made ctx.regions (base ++ [dup]) := by
    have hfirst : List.Forall₂ Made mc.regions (base ++ [dup]) := by
      rw [hregions]
      exact List.rel_append (regionsOf_made recs _) (.cons ⟨0, rfl⟩ .nil)
    exact (readSyncAs_synced _ _ _ _ _ hsas).made hfirst
  refine ⟨pgt'.machine.mem, base, dup, orig, {
    records := hrecords
    contents := contents_placedOf recs _
    orig := ⟨horig, hrecord.symm⟩
    last := hlast
    again := fun buf =>
      again_bufAfter (h.wf last (List.mem_of_getLast? hlast)) hlast junk.mc.buf buf
    regions := made_twice hmade
    loaded := {
      full := full_twice hsound
      sound := hsound
      stores := stores_twice h.wf h.locals.2 hsound
      distinct := by
        rw [hframes, hrest]
        exact h.pool.nodup.drop.take
      slots := slots_sound hsound (fun t ht => hleaves t.record (record_twice hlast t ht)) htables
        hpages hlow
      zero := ?_ }
    mem := ?_
    lt := hlow
    leaves := hleaves
    tables := htables
    pages := hpages
    few := hfew }⟩
  · intro p hp
    have hsame : pgt'.machine.mem p = m.mem p :=
      htree.frame p fun htable => hnottable _ htable hp
    rw [hsame]
    exact h.zeroed p (List.mem_of_mem_drop (hlater _ hp))
  · have hstore := @storeAll_append (leafSlot pgt'.machine.heap pgt'.userPgt) base [dup]
      pgt'.machine.mem
    rw [hmachine, huser]
    dsimp only
    rw [hmem, storeRecords_eq, hstore]
    rfl

end GpuReplay.Replayer
