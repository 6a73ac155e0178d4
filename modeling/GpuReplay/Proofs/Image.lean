/-
The memory of a recording, as the GPU of the replayer finds it.

What the recorder dumps is pages of its memory and the GPU addresses they were at.  `gr_mem_init`
puts the pages elsewhere and changes the leaf entries to match, so the two memories have nothing in
common but what a GPU reads of them.  That is the same byte at every address of a region, but for
the region dumped last: loading it a second time leaves the entries pointing at frames that all hold
its last page.
-/
import GpuReplay.Proofs.Confinement
import GpuReplay.Proofs.RecorderEvents
import GpuReplay.Proofs.Reset

namespace GpuReplay

open Stdio Driver

/-- The byte of a record at an address, where it has pages. -/
def McRecord.byteAt (rec : McRecord) (gaddr : Nat) : Option UInt8 := do
  let q ← rec.pages[(gaddr - rec.gmStart) / 4096]?
  q.2[gaddr % 4096]?

/-- The address in the last page of a record that has the same place in its page. -/
def McRecord.inLast (rec : McRecord) (gaddr : Nat) : Nat :=
  rec.gmStart + 4096 * (rec.nents - 1) + gaddr % 4096

namespace Replayer

open ByteMem RadixTree

/-- The byte the GPU reads at an address, if the address is mapped. -/
def gpuReads (mem : ByteMem) (pgd gaddr : Nat) : Option UInt8 := (mmuTranslate mem pgd gaddr).map mem

/-! ### The entry written last -/

section Entries

variable {slot : Nat → Nat} {flags : Nat}

theorem slotEntries_append (frames frames' : List Nat) :
    ∀ vaddr, slotEntries slot flags vaddr (frames ++ frames') =
      slotEntries slot flags vaddr frames ++
        slotEntries slot flags (vaddr + 4096 * frames.length) frames' := by
  induction frames with
  | nil => exact fun _ => rfl
  | cons frame frames ih =>
      intro vaddr
      rw [List.cons_append, slotEntries, slotEntries, ih, List.cons_append, List.length_cons,
        Nat.mul_succ, Nat.add_assoc, Nat.add_comm 4096]

/-- A word that nothing written later is at. -/
theorem read64_wordWrites {a v : Nat} (ha : a % 8 = 0) (hv : v < 2 ^ 64)
    (before : List (Nat × Nat)) {after : List (Nat × Nat)}
    (hafter : ∀ e ∈ after, e.1 % 8 = 0 ∧ e.1 ≠ a) (mem : ByteMem) :
    read64 (writes (wordWrites (before ++ (a, v) :: after)) mem) a = v := by
  rw [wordWrites_append, writes_append]
  refine Eq.trans ?_ (read64_write64_self (writes (wordWrites before) mem) a hv)
  refine read64_congr fun k hk => ?_
  show writes (wordWrites after) (write64 (writes (wordWrites before) mem) a v) (a + k) = _
  refine writes_apply_of_not_covers fun w hw => ?_
  obtain ⟨e, he, rfl⟩ := List.mem_map.mp hw
  obtain ⟨haligned, hne⟩ := hafter e he
  rintro ⟨hle, hlt⟩
  rw [Bytes.length_le] at hlt
  dsimp only at hle hlt
  omega

end Entries

/-- One place for the leaf entries of two addresses: they are of one page. -/
theorem page_of_leafSlot {ctx : ReplayContext} {q q' gaddr gaddr' : Nat}
    (hnodup : (RadixTree.pages tableAt 512 (entries ctx.machine.mem) 3 ctx.newTranstab).Nodup)
    (hq : leafPage tableAt (entries ctx.machine.mem) (gpuIndex gaddr) 3 ctx.newTranstab = some q)
    (hq' : leafPage tableAt (entries ctx.machine.mem) (gpuIndex gaddr') 3 ctx.newTranstab = some q')
    (haligned : q % 4096 = 0) (haligned' : q' % 4096 = 0)
    (hsame : q + 8 * gpuIndex gaddr 0 = q' + 8 * gpuIndex gaddr' 0)
    (hlow : gaddr < 2 ^ 48) (hlow' : gaddr' < 2 ^ 48) : gaddr / 4096 = gaddr' / 4096 := by
  have hi := gpuIndex_lt gaddr 0
  have hi' := gpuIndex_lt gaddr' 0
  obtain rfl : q = q' := by omega
  have hindex := leafPage_inj (gpuIndex_lt gaddr) (gpuIndex_lt gaddr') hnodup hq hq'
  have hpage : gpuPage gaddr = gpuPage gaddr' := by
    refine gpuPage_eq_iff.mpr fun k hk => ?_
    by_cases hzero : k = 0
    · subst hzero
      omega
    · exact hindex k (Nat.pos_of_ne_zero hzero) hk
  unfold gpuPage at hpage
  omega

/-! ### The pages -/

theorem pageWrites_sublist (frames : List Nat) :
    ∀ contents : List (Option (List UInt8)),
      ((pageWrites (frames.zip contents)).map Prod.fst).Sublist frames := by
  induction frames with
  | nil => exact fun _ => List.Sublist.refl _
  | cons frame frames ih =>
      intro contents
      cases contents with
      | nil => exact List.nil_sublist _
      | cons page contents =>
          cases page with
          | none => exact (ih contents).cons frame
          | some page => exact (ih contents).cons_cons frame

theorem mem_pageWrites {frame : Nat} {page : List UInt8} {frames : List Nat}
    {contents : List (Option (List UInt8))} {k : Nat} (hframe : frames[k]? = some frame)
    (hpage : contents[k]? = some (some page)) : (frame, page) ∈ pageWrites (frames.zip contents) := by
  refine List.mem_filterMap.mpr ⟨(frame, some page), ?_, rfl⟩
  refine List.mem_of_getElem? (i := k) ?_
  rw [List.getElem?_zip_eq_some]
  exact ⟨hframe, hpage⟩

namespace LoadedAt

variable {slot : Nat → Nat} {start : ByteMem} {ts : List Placed} (h : LoadedAt slot start ts)

include h

theorem pages_apart : (allPages ts).Pairwise fun v w =>
    v.1 + v.2.length ≤ w.1 ∨ w.1 + w.2.length ≤ v.1 := by
  have hsublist : ((allPages ts).map Prod.fst).Sublist (allFrames ts) := by
    clear h
    induction ts with
    | nil => exact List.Sublist.refl _
    | cons t ts ih =>
        rw [allPages_cons, List.map_append]
        exact (pageWrites_sublist t.frames t.contents).append ih
  have hnodup : (allPages ts).Pairwise fun v w => v.1 ≠ w.1 :=
    List.pairwise_map.mp (h.distinct.sublist hsublist)
  refine hnodup.imp_of_mem fun hv hw hne => ?_
  have hpage : ∀ w ∈ allPages ts, w.1 % 4096 = 0 ∧ w.2.length = 4096 := by
    intro w hw
    obtain ⟨t, ht, hw⟩ := List.mem_flatMap.mp hw
    obtain ⟨hframe, hlen⟩ := (h.stores t ht).page w hw
    exact ⟨(h.sound t ht).aligned _ hframe, hlen⟩
  obtain ⟨hva, hvl⟩ := hpage _ hv
  obtain ⟨hwa, hwl⟩ := hpage _ hw
  omega

/-- A page that is loaded is in its frame. -/
theorem page_apply {frame : Nat} {page : List UInt8} (hpage : (frame, page) ∈ allPages ts) {j : Nat}
    (hj : j < 4096) : page[j]? = some (storeAll slot ts start (frame + j)) := by
  obtain ⟨t, ht, hw⟩ := List.mem_flatMap.mp hpage
  obtain ⟨hframe, hlen⟩ := (h.stores t ht).page _ hw
  have haligned := (h.sound t ht).aligned _ hframe
  dsimp only at hframe hlen haligned
  have hstart : pageStart (frame + j) = frame := by
    unfold pageStart
    omega
  have hentries : ∀ w ∈ wordWrites (allEntries slot ts), ¬Covers w (frame + j) := by
    intro w hw hcovers
    refine h.slot_not_frame ⟨w, hw, hcovers⟩ ?_
    rw [hstart]
    exact mem_allFrames ht hframe
  rw [storeAll_apply_pages h.full hentries]
  have hread := read_writes_of_pairwise (m := start) h.pages_apart _ hpage
  dsimp only at hread
  rw [hlen] at hread
  rw [← hread]
  exact getElem?_read _ hj

end LoadedAt

/-! ### After `gr_mem_init` -/

section Loaded

variable {ctx : ReplayContext} {recs : List McRecord} {start : ByteMem} {base : List Placed}
  {dup orig : Placed} (h : DumpLoaded ctx recs start base dup orig)
  (hnodup : (RadixTree.pages tableAt 512 (entries ctx.machine.mem) 3 ctx.newTranstab).Nodup)
  (hlow : ∀ rec ∈ recs, rec.gmEnd ≤ 2 ^ 48)

include h

theorem DumpLoaded.invalid_of_none {t : Placed} (ht : t ∈ base ++ [dup])
    (hnone : none ∈ t.contents) : t.record.isValid = false := by
  by_contra hnot
  have hvalid : t.record.isValid = true := by simpa using hnot
  rcases mem_twice.mp ht with ht | rfl
  · rw [h.contents t ht, McRecord.contents, if_pos hvalid] at hnone
    obtain ⟨q, -, hq⟩ := List.mem_map.mp hnone
    exact Option.some_ne_none _ hq
  · rw [h.again [], McRecord.again, if_pos hvalid] at hnone
    exact Option.some_ne_none _ (List.eq_of_mem_replicate hnone).symm

include hnodup hlow

/-- **The entry at an address** leads to the frame of the last region that has the address. -/
theorem DumpLoaded.lookup_frame {us ws : List Placed} {t : Placed}
    (hsplit : base ++ [dup] = us ++ t :: ws) {gaddr : Nat} (hbacked : t.record.Backed gaddr)
    (hlater : ∀ u ∈ ws, ¬u.record.Backed gaddr) :
    ∃ frame, t.frames[(gaddr - t.record.gmStart) / 4096]? = some frame ∧
      gpuLookup ctx.machine.mem ctx.newTranstab gaddr =
        grEntryGetAte frame t.record.flags midgardMmuBottomlevel := by
  have hin : ∀ {u : Placed}, u ∈ us ++ t :: ws → u ∈ base ++ [dup] := fun hu => hsplit ▸ hu
  have ht : t ∈ base ++ [dup] := hin (List.mem_append_right _ List.mem_cons_self)
  have hsound := h.loaded.sound t ht
  have haligned := hsound.wf.start_aligned
  have hbelow : ∀ u ∈ base ++ [dup], ∀ a, u.record.Backed a → a < 2 ^ 48 := by
    intro u hu a ha
    have hend := hlow u.record (h.record_mem hu)
    have hroom := (h.loaded.sound u hu).wf.room
    exact Nat.lt_of_lt_of_le ha.2 (Nat.le_trans hroom hend)
  generalize hk : (gaddr - t.record.gmStart) / 4096 = k
  have hlt : k < t.frames.length := by
    obtain ⟨hle, hgt⟩ := hbacked
    rw [hsound.length]
    omega
  have hpage : (t.record.gmStart + 4096 * k) / 4096 = gaddr / 4096 := by
    have := hbacked.1
    omega
  refine ⟨t.frames[k], List.getElem?_eq_getElem hlt, ?_⟩
  obtain ⟨q, -, hq, hqaligned, hqframe, -⟩ := h.leaf ht hbacked
  -- where the entries of a page are
  have hplace : ∀ u ∈ base ++ [dup], ∀ i, i < u.frames.length → ∃ q',
      leafPage tableAt (entries ctx.machine.mem) (gpuIndex (u.record.gmStart + 4096 * i)) 3
        ctx.newTranstab = some q' ∧ q' % 4096 = 0 ∧
      leafSlot ctx.machine.heap ctx.userPgt (u.record.gmStart + 4096 * i) =
        q' + 8 * gpuIndex (u.record.gmStart + 4096 * i) 0 := by
    intro u hu i hi
    rw [(h.loaded.sound u hu).length] at hi
    obtain ⟨q', hq', hslot⟩ := h.tables _ (h.leaves u.record (h.record_mem hu) i hi)
    exact ⟨q', hq', (h.pages q' (leafPage_mem (gpuIndex_lt _) hq')).1, hslot⟩
  have hbackedAt : ∀ u ∈ base ++ [dup], ∀ i, i < u.frames.length →
      u.record.Backed (u.record.gmStart + 4096 * i) := by
    intro u hu i hi
    rw [(h.loaded.sound u hu).length] at hi
    exact ⟨Nat.le_add_right _ _, by omega⟩
  have hslot : leafSlot ctx.machine.heap ctx.userPgt (t.record.gmStart + 4096 * k) =
      q + 8 * gpuIndex gaddr 0 := by
    obtain ⟨q', hq', -, hslot⟩ := hplace t ht k hlt
    have hindex : gpuIndex (t.record.gmStart + 4096 * k) = gpuIndex gaddr := gpuIndex_congr hpage
    rw [hindex] at hq' hslot
    rw [hslot, Option.some.inj (hq'.symm.trans hq)]
  -- another entry in its place would be of the same page
  have hother : ∀ u ∈ base ++ [dup], ∀ i, i < u.frames.length →
      leafSlot ctx.machine.heap ctx.userPgt (u.record.gmStart + 4096 * i) =
        q + 8 * gpuIndex gaddr 0 → (u.record.gmStart + 4096 * i) / 4096 = gaddr / 4096 := by
    intro u hu i hi hsame
    obtain ⟨q', hq', hqaligned', hslot'⟩ := hplace u hu i hi
    exact page_of_leafSlot hnodup hq' hq hqaligned' hqaligned (hslot'.symm.trans hsame)
      (hbelow u hu _ (hbackedAt u hu i hi)) (hbelow t ht _ hbacked)
  have hframes : t.frames = t.frames.take k ++ t.frames[k] :: t.frames.drop (k + 1) := by
    rw [← List.drop_eq_getElem_cons hlt, List.take_append_drop]
  have hentries : allEntries (leafSlot ctx.machine.heap ctx.userPgt) (base ++ [dup]) =
      (allEntries (leafSlot ctx.machine.heap ctx.userPgt) us ++
        slotEntries (leafSlot ctx.machine.heap ctx.userPgt) t.record.flags t.record.gmStart
          (t.frames.take k)) ++
      (q + 8 * gpuIndex gaddr 0,
        grEntryGetAte t.frames[k] t.record.flags midgardMmuBottomlevel) ::
      (slotEntries (leafSlot ctx.machine.heap ctx.userPgt) t.record.flags
          (t.record.gmStart + 4096 * k + 4096) (t.frames.drop (k + 1)) ++
        allEntries (leafSlot ctx.machine.heap ctx.userPgt) ws) := by
    have hthis : t.entries (leafSlot ctx.machine.heap ctx.userPgt) =
        slotEntries (leafSlot ctx.machine.heap ctx.userPgt) t.record.flags t.record.gmStart
          (t.frames.take k) ++
        (q + 8 * gpuIndex gaddr 0,
          grEntryGetAte t.frames[k] t.record.flags midgardMmuBottomlevel) ::
        slotEntries (leafSlot ctx.machine.heap ctx.userPgt) t.record.flags
          (t.record.gmStart + 4096 * k + 4096) (t.frames.drop (k + 1)) := by
      rw [Placed.entries]
      conv_lhs => rw [hframes]
      rw [slotEntries_append, List.length_take_of_le (Nat.le_of_lt hlt), slotEntries, hslot]
    rw [hsplit, allEntries, List.flatMap_append, List.flatMap_cons, hthis]
    simp only [allEntries, List.append_assoc, List.cons_append]
  rw [h.gpuLookup_eq hq hqaligned hqframe, hentries]
  have hword : grEntryGetAte t.frames[k] t.record.flags midgardMmuBottomlevel < 2 ^ 64 :=
    Nat.lt_trans (@grEntryGetAte_lt _ midgardMmuBottomlevel
      (h.lt _ (mem_allFrames ht (List.getElem_mem hlt))) t.record.flags) (by decide)
  refine read64_wordWrites (by omega) hword _ (fun e he => ?_) start
  have hall : e ∈ allEntries (leafSlot ctx.machine.heap ctx.userPgt) (base ++ [dup]) := by
    rw [hentries]
    exact List.mem_append_right _ (List.mem_cons_of_mem _ he)
  refine ⟨(h.loaded.slots e hall).2.1, fun hsame => ?_⟩
  rcases List.mem_append.mp he with he | he
  · -- a later page of the same region
    obtain ⟨⟨i, hi, hat⟩, -⟩ := mem_slotEntries he
    rw [List.length_drop] at hi
    have haddr : t.record.gmStart + 4096 * k + 4096 + 4096 * i =
        t.record.gmStart + 4096 * (k + 1 + i) := by omega
    rw [haddr] at hat
    have := hother t ht (k + 1 + i) (by omega) (hat.symm.trans hsame)
    omega
  · -- a page of a later region
    obtain ⟨u, hu, he⟩ := List.mem_flatMap.mp he
    have hu' := hin (List.mem_append_right us (List.mem_cons_of_mem t hu))
    obtain ⟨⟨i, hi, hat⟩, -⟩ := mem_slotEntries he
    have hpage' := hother u hu' i hi (hat.symm.trans hsame)
    obtain ⟨hle, hgt⟩ := hbackedAt u hu' i hi
    have hualigned := (h.loaded.sound u hu').wf.start_aligned
    exact hlater u hu ⟨by omega, by omega⟩

/-- **What the GPU reads** is what has been put into that frame. -/
theorem DumpLoaded.gpuReads_eq {us ws : List Placed} {t : Placed}
    (hsplit : base ++ [dup] = us ++ t :: ws) {gaddr : Nat} (hbacked : t.record.Backed gaddr)
    (hlater : ∀ u ∈ ws, ¬u.record.Backed gaddr) :
    gpuReads ctx.machine.mem ctx.newTranstab gaddr = some
      ((t.contents[(gaddr - t.record.gmStart) / 4096]?.join.bind fun page =>
        page[gaddr % 4096]?).getD 0) := by
  have ht : t ∈ base ++ [dup] :=
    hsplit ▸ List.mem_append_right us List.mem_cons_self
  obtain ⟨frame, hframe, hword⟩ := h.lookup_frame hnodup hlow hsplit hbacked hlater
  have hmem := List.mem_of_getElem? hframe
  have hsound := h.loaded.sound t ht
  have haligned := hsound.aligned frame hmem
  have hstart : pageStart (frame + gaddr % 4096) = frame := by
    unfold pageStart
    omega
  rw [gpuReads, mmuTranslate_of_lookup haligned (h.lt _ (mem_allFrames ht hmem)) hword,
    Option.map_some, h.mem]
  have hfull := h.loaded.full t ht
  obtain ⟨hk, -⟩ := List.getElem?_eq_some_iff.mp hframe
  generalize (gaddr - t.record.gmStart) / 4096 = k at hframe hk ⊢
  obtain ⟨page, hpage⟩ : ∃ page, t.contents[k]? = some page :=
    ⟨_, List.getElem?_eq_getElem (hfull ▸ hk)⟩
  rw [hpage, Option.join_some]
  cases page with
  | none =>
      -- a region with a page that has no contents is not valid
      have hinvalid : t.record.isValid = false := by
        exact h.invalid_of_none ht (List.mem_of_getElem? hpage)
      have hzero := h.loaded.invalid_zero ht hinvalid (p := frame + gaddr % 4096)
        (by rw [hstart]; exact hmem)
      rw [hzero]
      rfl
  | some page =>
      have hin : (frame, page) ∈ allPages (base ++ [dup]) :=
        List.mem_flatMap.mpr ⟨t, ht, mem_pageWrites hframe hpage⟩
      have happly := h.loaded.page_apply hin (Nat.mod_lt gaddr (by decide : 0 < 4096))
      rw [Option.bind_some, happly]
      rfl

end Loaded

/-! ### In terms of the records -/

theorem contents_byteAt {rec : McRecord} (hwf : rec.WF) (gaddr : Nat) :
    (rec.contents[(gaddr - rec.gmStart) / 4096]?.join.bind fun page => page[gaddr % 4096]?) =
      rec.byteAt gaddr := by
  have hlength := hwf.length_pages
  unfold McRecord.contents McRecord.byteAt
  by_cases hvalid : rec.isValid = true
  · rw [if_pos hvalid, List.getElem?_map]
    cases rec.pages[(gaddr - rec.gmStart) / 4096]? with
    | none => rfl
    | some q => rfl
  · rw [if_neg hvalid] at hlength ⊢
    rw [List.eq_nil_of_length_eq_zero hlength, List.getElem?_replicate]
    split_ifs
    all_goals rfl

/-- The second time, every page is the last one. -/
theorem again_byteAt {recs : List McRecord} {last : McRecord} (hwf : last.WF)
    (hlast : recs.getLast? = some last) (buf : List UInt8) {gaddr : Nat}
    (hbacked : last.Backed gaddr) :
    ((last.again (bufAfter recs buf))[(gaddr - last.gmStart) / 4096]?.join.bind fun page =>
      page[gaddr % 4096]?) = last.byteAt (last.inLast gaddr) := by
  obtain ⟨hle, hlt⟩ := hbacked
  have haligned := hwf.start_aligned
  have hlength := hwf.length_pages
  have hk : (gaddr - last.gmStart) / 4096 < last.nents := by omega
  have hindex : (last.inLast gaddr - last.gmStart) / 4096 = last.nents - 1 := by
    unfold McRecord.inLast
    omega
  have hoffset : last.inLast gaddr % 4096 = gaddr % 4096 := by
    unfold McRecord.inLast
    omega
  unfold McRecord.again McRecord.byteAt
  rw [List.getElem?_replicate, if_pos hk, hindex, hoffset, Option.join_some]
  by_cases hvalid : last.isValid = true
  · rw [if_pos hvalid] at hlength ⊢
    obtain ⟨front, rfl⟩ := List.getLast?_eq_some_iff.mp hlast
    obtain ⟨qs, q, hpages⟩ : ∃ qs q, last.pages = qs ++ [q] := by
      rcases List.eq_nil_or_concat' last.pages with hnil | hconcat
      · rw [hnil] at hlength
        exact absurd hlength.symm (Nat.ne_of_gt (Nat.lt_of_le_of_lt (Nat.zero_le _) hk))
      · exact hconcat
    have hbuf : bufAfter (front ++ [last]) buf = q.2 := by
      unfold bufAfter
      rw [List.foldl_append, List.foldl_cons, List.foldl_nil, McRecord.lastPage, hpages,
        List.map_append, List.map_singleton, List.getLastD_concat]
    have hat : last.pages[last.nents - 1]? = some q := by
      rw [hpages, List.length_append, List.length_singleton] at hlength
      rw [hpages, ← hlength, Nat.add_sub_cancel, List.getElem?_concat_length]
    rw [hbuf, hat]
    rfl
  · rw [if_neg hvalid] at hlength ⊢
    rw [List.eq_nil_of_length_eq_zero hlength]
    rfl

section Image

variable {config : GrConfig} {pgtFile sasFile : List UInt8} {snapshot : Option (List UInt8)}
  {junk : InitJunk} {m : Machine} {recs : List McRecord} {ctx : ReplayContext}
  (h : ResetInput config pgtFile sasFile snapshot junk m recs ctx)
  (hlow : ∀ rec ∈ recs, rec.gmEnd ≤ 2 ^ 48) {last : McRecord} (hlast : recs.getLast? = some last)

include h

theorem ResetInput.tables_nodup :
    (RadixTree.pages tableAt 512 (entries ctx.machine.mem) 3 ctx.newTranstab).Nodup := by
  have hpool := (grMemInit_layout h.pool h.lt h.fits h.run).pool
  have hnodup := h.pool.nodup
  rw [hpool] at hnodup
  rw [pages_eq_preorder]
  exact (List.nodup_append.mp hnodup).1

include hlow hlast

/-- **What the GPU reads at an address of a record** is what has been recorded there. -/
theorem ResetInput.gpuReads_record {rec : McRecord} (hrec : rec ∈ recs) {gaddr : Nat}
    (hbacked : rec.Backed gaddr) (hother : ¬last.Backed gaddr) :
    gpuReads ctx.machine.mem ctx.newTranstab gaddr = some ((rec.byteAt gaddr).getD 0) := by
  obtain ⟨start, base, dup, orig, hloaded⟩ := grMemInit_loaded h
  obtain rfl : dup.record = last := Option.some.inj (hloaded.last.symm.trans hlast)
  obtain ⟨t, ht, rfl⟩ : ∃ t ∈ base, t.record = rec := by
    rw [← hloaded.records] at hrec
    exact List.mem_map.mp hrec
  obtain ⟨us, ws, rfl⟩ := List.append_of_mem ht
  have hsplit : us ++ t :: ws ++ [dup] = us ++ t :: (ws ++ [dup]) := List.append_assoc ..
  have hread := hloaded.gpuReads_eq h.tables_nodup hlow hsplit hbacked fun u hu hbacked' => by
    rcases mem_twice.mp hu with hu | rfl
    · have hdisjoint := h.disjoint
      rw [← hloaded.records, List.map_append, List.map_cons] at hdisjoint
      have hapart := (List.pairwise_cons.mp (List.pairwise_append.mp hdisjoint).2.1).1 _
        (List.mem_map_of_mem hu)
      have hroom := (h.wf _ (hloaded.record_mem (List.mem_append_left _ ht))).room
      have hroom' := (h.wf _ (hloaded.record_mem (t := u) (by
        rw [hsplit]
        exact List.mem_append_right _ (List.mem_cons_of_mem _ (List.mem_append_left _ hu))))).room
      obtain ⟨hle, hlt⟩ := hbacked
      obtain ⟨hle', hlt'⟩ := hbacked'
      omega
    · exact hother hbacked'
  rw [hread, hloaded.contents t ht, contents_byteAt (h.wf _ hrec)]

/-- **At an address of the last record** it reads its last page. -/
theorem ResetInput.gpuReads_last {gaddr : Nat} (hbacked : last.Backed gaddr) :
    gpuReads ctx.machine.mem ctx.newTranstab gaddr =
      some ((last.byteAt (last.inLast gaddr)).getD 0) := by
  obtain ⟨start, base, dup, orig, hloaded⟩ := grMemInit_loaded h
  obtain rfl : dup.record = last := Option.some.inj (hloaded.last.symm.trans hlast)
  have hread := hloaded.gpuReads_eq h.tables_nodup hlow (rfl : base ++ [dup] = base ++ dup :: [])
    hbacked fun u hu => absurd hu List.not_mem_nil
  rw [hread, hloaded.again [], again_byteAt (h.wf _ (List.mem_of_getLast? hlast)) hlast [] hbacked]

end Image

end Replayer

open Replayer

/-! ### In terms of the recorder's memory -/

/-- The address is one of those the call dumps. -/
def Driver.DumpCall.Dumps (c : Driver.DumpCall) (gaddr : Nat) : Prop :=
  c.tas.vmStart ≤ gaddr ∧ gaddr < c.tas.vmStart + 4096 * c.tas.nents

/-- The byte of the driver's memory for an address of the region, zero where none was dumped. -/
def Driver.DumpCall.byteAt (c : Driver.DumpCall) (gaddr : Nat) : UInt8 :=
  if c.tas.isValid then
    match (c.cpuAlloc c.tas.reg)[(gaddr - c.tas.vmStart) / 4096]? with
    | some paddr => c.mem (pageStart paddr + gaddr % 4096)
    | none => 0
  else 0

/-- The bounds of a mapping, and no more pages than it has room for. -/
structure Driver.DumpCall.InRange (c : Driver.DumpCall) : Prop where
  start_aligned : c.tas.vmStart % 4096 = 0
  end_aligned : c.tas.vmEnd % 4096 = 0
  le : c.tas.vmStart ≤ c.tas.vmEnd
  low : c.tas.vmEnd ≤ 2 ^ 48
  nents_le : c.tas.nents ≤ (c.tas.vmEnd - c.tas.vmStart) / 4096
  flags_lt : c.tas.flags < 2 ^ 32
  paddr_lt : ∀ paddr ∈ c.cpuAlloc c.tas.reg, paddr < 2 ^ 64

/-- A replay set up from what the context `s` has dumped: a `gr_mem_init` that returned, on zeroed
frames, with any page table and any synced address spaces. -/
structure SetUpFrom (s : GrContext) (config : GrConfig) (pgtFile sasFile : List UInt8)
    (snapshot : Option (List UInt8)) (junk : InitJunk) (m : Machine) (ctx : ReplayContext) :
    Prop where
  pool : PoolOk m.pool
  lt : ∀ frame ∈ m.pool, frame < 2 ^ 48
  zeroed : ∀ p, pageStart p ∈ m.pool → m.mem p = 0
  fits : junk.pgt.Ok
  locals : junk.mc.paddr < 2 ^ 64 ∧ junk.mc.buf.length = 4096
  count : 1 ≤ s.calls.length ∧ s.calls.length < 128
  ranges : ∀ c ∈ s.calls, c.InRange
  disjoint : s.calls.Pairwise fun c d =>
    c.tas.vmEnd ≤ d.tas.vmStart ∨ d.tas.vmEnd ≤ c.tas.vmStart
  run : grMemInit config ⟨some pgtFile, some s.memDumpFile.bytes, some sasFile, snapshot⟩ junk m
    = .ok ctx

section Recording

variable {mem : ByteMem} {cpuAlloc : Nat → List Nat} {s s' : GrContext}

/-- What a context dumps to an empty file, and what it is made of. -/
theorem Recording.dumped (h : Recording [] s) (hterm : postTerm mem cpuAlloc s = .ok s') :
    s'.memDumpFile.bytes = Replayer.dump (s'.calls.map DumpCall.record) ∧
      ∀ c ∈ s'.calls, c.record.pages.length = if c.tas.isValid then c.tas.nents else 0 := by
  have hinv := h.inv
  obtain ⟨s₁, hjob, hinvalid⟩ := postTerm_walks hinv.wf hterm
  refine ⟨?_, hinvalid.pages' (hjob.pages' hinv.pages)⟩
  rw [hinvalid.file' (hjob.file' hinv.file)]
  simp [OutFile.write, OutFile.reopen, Bytes.splice]

theorem recordOf_wf {c : DumpCall} (h : c.InRange)
    (hpages : c.record.pages.length = if c.tas.isValid then c.tas.nents else 0) :
    c.record.WF where
  start_aligned := h.start_aligned
  end_aligned := h.end_aligned
  le := h.le
  bounded := Nat.lt_of_le_of_lt h.low (by decide)
  nents_le := h.nents_le
  flags_lt := h.flags_lt
  length_pages := hpages
  page := by
    intro q hq
    unfold DumpCall.record recordOf at hq
    dsimp only at hq
    split_ifs at hq
    · obtain ⟨paddr, hpaddr, rfl⟩ := List.mem_map.mp hq
      refine ⟨h.paddr_lt paddr (List.mem_of_mem_take hpaddr), ?_⟩
      dsimp only
      rw [ByteMem.length_read]
    · exact absurd hq List.not_mem_nil

/-- The record has the bytes of the driver's memory. -/
theorem byteAt_record {c : DumpCall} {gaddr : Nat} (hdumps : c.Dumps gaddr) :
    (c.record.byteAt gaddr).getD 0 = c.byteAt gaddr := by
  obtain ⟨hle, hlt⟩ := hdumps
  have hk : (gaddr - c.tas.vmStart) / 4096 < c.tas.nents := by omega
  unfold DumpCall.byteAt McRecord.byteAt DumpCall.record recordOf
  by_cases hvalid : c.tas.isValid = true
  · dsimp only
    rw [if_pos hvalid, if_pos hvalid, allocPages, List.getElem?_map, List.getElem?_take_of_lt hk]
    cases (c.cpuAlloc c.tas.reg)[(gaddr - c.tas.vmStart) / 4096]? with
    | none => rfl
    | some paddr =>
        have hoffset : gaddr % 4096 < 4096 := Nat.mod_lt gaddr (by decide)
        rw [Option.map_some, Option.bind_eq_bind, Option.bind_some]
        dsimp only
        rw [ByteMem.getElem?_read c.mem hoffset]
        rfl
  · dsimp only
    rw [if_neg hvalid, if_neg hvalid]
    rfl

variable {config : GrConfig} {pgtFile sasFile : List UInt8} {snapshot : Option (List UInt8)}
  {junk : InitJunk} {m : Machine} {ctx : ReplayContext}

theorem SetUpFrom.resetInput (h : SetUpFrom s' config pgtFile sasFile snapshot junk m ctx)
    (hrec : Recording [] s) (hterm : postTerm mem cpuAlloc s = .ok s') :
    ResetInput config pgtFile sasFile snapshot junk m (s'.calls.map DumpCall.record) ctx := by
  obtain ⟨hfile, hpages⟩ := hrec.dumped hterm
  exact {
    pool := h.pool
    lt := h.lt
    zeroed := h.zeroed
    fits := h.fits
    locals := h.locals
    count := by
      rw [List.length_map]
      exact h.count
    wf := fun rec hrec => by
      obtain ⟨c, hc, rfl⟩ := List.mem_map.mp hrec
      exact recordOf_wf (h.ranges c hc) (hpages c hc)
    disjoint := List.pairwise_map.mpr h.disjoint
    run := by
      rw [← hfile]
      exact h.run }

/-- **The GPU finds the recording.**  Whatever the driver's context has been through, a replay set
up from its files has at every address of a region, for the GPU, the byte the driver's memory had
when the region was dumped, and zero where the CPU never touched it.  The region dumped last has its
last page at all its pages. -/
theorem replay_finds_recording (hrec : Recording [] s) (hterm : postTerm mem cpuAlloc s = .ok s')
    (h : SetUpFrom s' config pgtFile sasFile snapshot junk m ctx) {last : DumpCall}
    (hlast : s'.calls.getLast? = some last) :
    (∀ c ∈ s'.calls, ∀ gaddr, c.Dumps gaddr → ¬last.Dumps gaddr →
      gpuReads ctx.machine.mem ctx.newTranstab gaddr = some (c.byteAt gaddr)) ∧
    ∀ gaddr, last.Dumps gaddr →
      gpuReads ctx.machine.mem ctx.newTranstab gaddr =
        some (last.byteAt (last.record.inLast gaddr)) := by
  have hinput := h.resetInput hrec hterm
  have hlow : ∀ rec ∈ s'.calls.map DumpCall.record, rec.gmEnd ≤ 2 ^ 48 := fun rec hrec => by
    obtain ⟨c, hc, rfl⟩ := List.mem_map.mp hrec
    exact (h.ranges c hc).low
  have hlast' : (s'.calls.map DumpCall.record).getLast? = some last.record := by
    rw [List.getLast?_map, hlast]
    rfl
  constructor
  · intro c hc gaddr hdumps hother
    rw [hinput.gpuReads_record hlow hlast' (List.mem_map_of_mem hc) hdumps hother,
      byteAt_record hdumps]
  · intro gaddr hdumps
    rw [hinput.gpuReads_last hlow hlast' hdumps, byteAt_record]
    have haligned := (h.ranges last (List.mem_of_getLast? hlast)).start_aligned
    obtain ⟨hle, hlt⟩ := hdumps
    show last.tas.vmStart ≤ last.tas.vmStart + 4096 * (last.tas.nents - 1) + gaddr % 4096 ∧
      last.tas.vmStart + 4096 * (last.tas.nents - 1) + gaddr % 4096 <
        last.tas.vmStart + 4096 * last.tas.nents
    omega

end Recording

/-! ### Nine regions of one page -/

/-- The driver's memory when a job is submitted, and at the end: a page that begins with the word
`1` and has zeros after it. -/
def sevensMem : ByteMem := fun _ => 7

def endMem : ByteMem := fun p => if p % 4096 = 0 then 1 else 0

/-- A region of compute jobs. -/
def jobRegion : VaRegion := ⟨0, 1, 0x606e, 1⟩

/-- Seven regions of input and output and a job, touched and dumped, and a region not touched. -/
def ninePages : List RecorderEvent :=
  ((List.range 7).flatMap fun i =>
    [.mmap (4096 * (i + 1)) (4096 * (i + 2)) inoutRegion,
      .fault (4096 * (i + 1)) (4096 * (i + 2)) 1]) ++
  [.mmap 32768 36864 jobRegion, .fault 32768 36864 1, .mmap 36864 40960 inoutRegion,
    .submit sevensMem fun _ => [0x9000]]

/-- A dump of the region of page `i + 1`. -/
def pageCall (i flags : Nat) (isValid : Bool) (asType : GrAsType) (mem : ByteMem) : DumpCall where
  index := i
  tas := ⟨4096 * (i + 1), 4096 * (i + 2), 1, 1, flags, isValid, i, false, 0, asType⟩
  mem := mem
  cpuAlloc := fun _ => [0x9000]

def nineCalls : List DumpCall :=
  ((List.range 7).map fun i => pageCall i (0x206e ||| 0x10) true .inout sevensMem) ++
    [pageCall 7 0x606e true .computeJob endMem,
      pageCall 8 (0x206e ||| 0x10) false .inout endMem]

theorem ninePages_recorded :
    ∃ s s', ninePages.foldlM recorderStep (grContextInit []) = some s ∧ Recording [] s ∧
      postTerm endMem (fun _ => [0x9000]) s = .ok s' ∧ s'.calls = nineCalls := by
  have hrun : ninePages.foldlM recorderStep (grContextInit []) = some _ := rfl
  exact ⟨_, _, hrun, recording_of_run hrun, rfl, rfl⟩

theorem pageCall_inRange {i flags : Nat} {isValid : Bool} {asType : GrAsType} {mem : ByteMem}
    (hi : i < 256) (hflags : flags < 2 ^ 32) : (pageCall i flags isValid asType mem).InRange where
  start_aligned := Nat.mul_mod_right 4096 (i + 1)
  end_aligned := Nat.mul_mod_right 4096 (i + 2)
  le := by
    show 4096 * (i + 1) ≤ 4096 * (i + 2)
    omega
  low := by
    show 4096 * (i + 2) ≤ 2 ^ 48
    omega
  nents_le := by
    show 1 ≤ (4096 * (i + 2) - 4096 * (i + 1)) / 4096
    omega
  flags_lt := hflags
  paddr_lt := fun paddr hpaddr => by
    rw [List.mem_singleton.mp hpaddr]
    decide

/-- What holds of the calls of pages below 2 MiB holds of the nine. -/
theorem nineCalls_all {P : DumpCall → Prop}
    (h : ∀ i flags isValid asType mem, i < 9 → flags < 2 ^ 32 →
      P (pageCall i flags isValid asType mem)) : ∀ c ∈ nineCalls, P c := by
  intro c hc
  rcases List.mem_append.mp hc with hc | hc
  · obtain ⟨i, hi, rfl⟩ := List.mem_map.mp hc
    exact h i _ _ _ _ ((List.mem_range.mp hi).trans (by decide)) (by decide)
  · rcases List.mem_cons.mp hc with rfl | hc
    · exact h 7 _ _ _ _ (by decide) (by decide)
    · rw [List.mem_singleton.mp hc]
      exact h 8 _ _ _ _ (by decide) (by decide)

theorem nineCalls_inRange : ∀ c ∈ nineCalls, c.InRange :=
  nineCalls_all fun _ _ _ _ _ hi hflags => pageCall_inRange (hi.trans (by decide)) hflags

theorem nineCalls_disjoint : nineCalls.Pairwise fun c d =>
    c.tas.vmEnd ≤ d.tas.vmStart ∨ d.tas.vmEnd ≤ c.tas.vmStart := by
  decide

/-- Fourteen frames: four tables, nine pages, and the last page once more. -/
def nineMachine : Machine := ⟨fun _ => 0, frames 1 14, []⟩

/-- The nine dumps, or others of the same bounds in their place, set up a replay. -/
theorem nineCalls_setUp {s : GrContext} {recs : List McRecord} (hcalls : s.calls = nineCalls)
    (hfile : s.memDumpFile.bytes = Replayer.dump recs) (hwf : ∀ rec ∈ recs, rec.WF)
    (hbounds : recs.map (fun rec => (rec.gmStart, rec.gmEnd, rec.nents)) =
      nineCalls.map fun c => (c.tas.vmStart, c.tas.vmEnd, c.tas.nents)) :
    ∃ ctx, SetUpFrom s ⟨false, false⟩
      (Bytes.words (pgtWords (pageMem chainWord) ⟨4096 * 1, 0, 0⟩ (4096 * 1) 4)) (Bytes.le 4 0)
      (some []) chainJunk nineMachine ctx := by
  have hlength : recs.length = 9 := by
    have h := congrArg List.length hbounds
    rwa [List.length_map, List.length_map] at h
  have hlow : ∀ rec ∈ recs, rec.gmEnd ≤ 2 ^ 21 := by
    intro rec hrec
    have hin := hbounds ▸ List.mem_map_of_mem (f := fun rec : McRecord =>
      (rec.gmStart, rec.gmEnd, rec.nents)) hrec
    obtain ⟨c, hc, heq⟩ := List.mem_map.mp hin
    rw [← show c.tas.vmEnd = rec.gmEnd from congrArg (fun b => b.2.1) heq]
    refine nineCalls_all (P := fun c => c.tas.vmEnd ≤ 2 ^ 21) (fun i _ _ _ _ hi _ => ?_) c hc
    show 4096 * (i + 2) ≤ 2 ^ 21
    omega
  have hdisjoint : recs.Pairwise fun r t => r.gmEnd ≤ t.gmStart ∨ t.gmEnd ≤ r.gmStart := by
    have h : (recs.map fun rec => (rec.gmStart, rec.gmEnd, rec.nents)).Pairwise
        fun r t => r.2.1 ≤ t.1 ∨ t.2.1 ≤ r.1 := by
      rw [hbounds]
      exact List.pairwise_map.mpr nineCalls_disjoint
    exact List.pairwise_map.mp h
  have hnents : recs.map (·.nents) = nineCalls.map fun c => c.tas.nents := by
    have h := congrArg (List.map fun b : Nat × Nat × Nat => b.2.2) hbounds
    rwa [List.map_map, List.map_map] at h
  obtain ⟨last, hlast⟩ : ∃ last, recs.getLast? = some last :=
    ⟨_, List.getLast?_eq_some_getLast (List.ne_nil_of_length_pos (by omega))⟩
  have hone : last.nents = 1 := by
    have h := congrArg List.getLast? hnents
    rw [List.getLast?_map, hlast] at h
    exact Option.some.inj h
  obtain ⟨ctx, hinput⟩ := @resetInput_frames recs last 14 (by omega) hwf hlow hdisjoint hlast
    (by
      rw [totalNents, hnents, hone]
      decide) (by decide)
  exact ⟨ctx, {
    pool := hinput.pool
    lt := hinput.lt
    zeroed := hinput.zeroed
    fits := hinput.fits
    locals := hinput.locals
    count := by
      rw [hcalls]
      decide
    ranges := by
      rw [hcalls]
      exact nineCalls_inRange
    disjoint := by
      rw [hcalls]
      exact nineCalls_disjoint
    run := by
      rw [hfile]
      exact hinput.run }⟩

/-- The sevens are where they were, the job is as it was at the end, and the region not touched
is zero. -/
theorem replay_finds_sevens :
    ∃ s s' ctx, ninePages.foldlM recorderStep (grContextInit []) = some s ∧
      postTerm endMem (fun _ => [0x9000]) s = .ok s' ∧
      SetUpFrom s' ⟨false, false⟩
        (Bytes.words (pgtWords (pageMem chainWord) ⟨4096 * 1, 0, 0⟩ (4096 * 1) 4)) (Bytes.le 4 0)
        (some []) chainJunk nineMachine ctx ∧
      gpuReads ctx.machine.mem ctx.newTranstab 5000 = some 7 ∧
      gpuReads ctx.machine.mem ctx.newTranstab 32768 = some 1 ∧
      gpuReads ctx.machine.mem ctx.newTranstab 36864 = some 0 := by
  obtain ⟨s, s', hrun, hrec, hterm, hcalls⟩ := ninePages_recorded
  obtain ⟨hfile, hpages⟩ := hrec.dumped hterm
  rw [hcalls] at hfile hpages
  have hwf : ∀ rec ∈ nineCalls.map DumpCall.record, rec.WF := fun rec hr => by
    obtain ⟨c, hc, rfl⟩ := List.mem_map.mp hr
    exact recordOf_wf (nineCalls_inRange c hc) (hpages c hc)
  obtain ⟨ctx, hset⟩ := nineCalls_setUp hcalls hfile hwf rfl
  have hend : s'.calls.getLast? =
      some (pageCall 8 (0x206e ||| 0x10) false .inout endMem) := by
    rw [hcalls]
    rfl
  obtain ⟨hmain, hlast⟩ := replay_finds_recording hrec hterm hset hend
  rw [hcalls] at hmain
  refine ⟨s, s', ctx, hrun, hterm, hset, ?_, ?_, ?_⟩
  · exact hmain (pageCall 0 _ _ _ _) List.mem_cons_self 5000 ⟨by decide, by decide⟩
      fun h => absurd h.1 (by decide)
  · exact hmain (pageCall 7 0x606e true .computeJob endMem)
      (List.mem_append_right _ List.mem_cons_self) 32768 ⟨by decide, by decide⟩
      fun h => absurd h.1 (by decide)
  · exact hlast 36864 ⟨by decide, by decide⟩

end GpuReplay
