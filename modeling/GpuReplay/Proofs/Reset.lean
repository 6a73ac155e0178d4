/-
Putting memory back after a replay.

Whatever the GPU did to the pages and leaf entries it can reach is undone by the passes of
`cleanAfterReplay`, with one exception: the region that loading the dump makes once too
often.  `gr_mem_contents_check` restores its frames as it restores the others, but
`gr_clean_invalid_region` finds the region it repeats in their place.
-/
import GpuReplay.Proofs.RecordFrames

namespace GpuReplay.Replayer

open Stdio ByteMem RadixTree

/-! ### What the GPU sees -/

/-- The byte the GPU reads at an address. -/
def gpuByte (mem : ByteMem) (pgd gaddr : Nat) : UInt8 :=
  mem (pteToPhysAddr (gpuLookup mem pgd gaddr) + gaddr % 4096)

/-- The bytes the GPU may have changed: the pages the leaf entries of the records lead to, and
the entries themselves. -/
def GpuWritable (mem : ByteMem) (pgd : Nat) (recs : List McRecord) (p : Nat) : Prop :=
  ∃ rec ∈ recs, ∃ gaddr, rec.Backed gaddr ∧
    (pageStart p = pteToPhysAddr (gpuLookup mem pgd gaddr) ∨
      ∃ q, leafPage tableAt (entries mem) (gpuIndex gaddr) 3 pgd = some q ∧
        q + 8 * gpuIndex gaddr 0 ≤ p ∧ p < q + 8 * gpuIndex gaddr 0 + 8)

/-- Memory after the GPU has run: anything in the bytes it may change. -/
def GpuModified (ctx : ReplayContext) (recs : List McRecord) (mem : ByteMem) : Prop :=
  ∀ p, ¬GpuWritable ctx.machine.mem ctx.newTranstab recs p → mem p = ctx.machine.mem p

/-- Cleaning after a replay always returns, and the GPU reads what it read after `gr_mem_init`
in every page of a record, whatever the GPU has done and the variables of
`gr_mem_contents_check` hold at first. -/
def Resets (ctx : ReplayContext) (recs : List McRecord) : Prop :=
  ∀ (unused : List Region) (locals : Locals) (mem : ByteMem),
    locals.paddr < 2 ^ 64 → locals.buf.length = 4096 → GpuModified ctx recs mem →
    ∃ mem', (∀ fuel, 2 ^ 32 ≤ fuel →
        cleanAfterReplay ctx unused fuel locals (dump recs) mem = some (.ok mem')) ∧
      ∀ rec ∈ recs, ∀ gaddr, rec.Backed gaddr →
        gpuByte mem' ctx.newTranstab gaddr = gpuByte ctx.machine.mem ctx.newTranstab gaddr

section Loaded

variable {ctx : ReplayContext} {recs : List McRecord} {start : ByteMem} {base : List Placed}
  {dup orig : Placed} (h : DumpLoaded ctx recs start base dup orig)

/-- The frames `gr_clean_invalid_region` clears. -/
def clearedFrames (base : List Placed) (dup orig : Placed) : List Nat :=
  invalidFrames base ++ if dup.record.isValid then [] else orig.frames

include h

theorem DumpLoaded.cleared : ∀ frame ∈ clearedFrames base dup orig,
    ∃ t ∈ base, t.record.isValid = false ∧ frame ∈ t.frames := by
  intro frame hframe
  rcases List.mem_append.mp hframe with hframe | hframe
  · obtain ⟨t, ht, hframe⟩ := List.mem_flatMap.mp hframe
    split at hframe
    · exact absurd hframe List.not_mem_nil
    next hinvalid => exact ⟨t, ht, Bool.eq_false_iff.mpr hinvalid, hframe⟩
  · split at hframe
    · exact absurd hframe List.not_mem_nil
    next hinvalid =>
      rw [h.orig.2] at hinvalid
      exact ⟨orig, h.orig.1, Bool.eq_false_iff.mpr hinvalid, hframe⟩

theorem DumpLoaded.cleared_all : ∀ frame ∈ clearedFrames base dup orig,
    ∃ t ∈ base ++ [dup], t.record.isValid = false ∧ frame ∈ t.frames := by
  intro frame hframe
  obtain ⟨t, ht, hinvalid, hin⟩ := h.cleared frame hframe
  exact ⟨t, List.mem_append_left _ ht, hinvalid, hin⟩

theorem DumpLoaded.record_mem {t : Placed} (ht : t ∈ base ++ [dup]) : t.record ∈ recs := by
  rcases List.mem_append.mp ht with ht | ht
  · rw [← h.records]
    exact List.mem_map_of_mem ht
  · rw [List.mem_singleton.mp ht]
    exact List.mem_of_getLast? h.last

/-- **The three passes**, whatever they find. -/
theorem DumpLoaded.cleanAfterReplay_eq
    (hdisjoint : recs.Pairwise fun r t => r.gmEnd ≤ t.gmStart ∨ t.gmEnd ≤ r.gmStart)
    (unused : List Region) {locals : Locals} (hpaddr : locals.paddr < 2 ^ 64)
    (hbuf : locals.buf.length = 4096) (mem : ByteMem) {fuel : Nat} (hfuel : 2 ^ 32 ≤ fuel) :
    cleanAfterReplay ctx unused fuel locals (dump recs) mem
      = some (.ok (resetMem (leafSlot ctx.machine.heap ctx.userPgt) (base ++ [dup])
          (clearedFrames base dup orig) mem)) := by
  obtain ⟨rs, r, hregions, hmade, hr⟩ := h.regions
  have hsound : ∀ t ∈ base, t.Sound := fun t ht => h.loaded.sound t (List.mem_append_left _ ht)
  have hdup : dup.Sound := h.loaded.sound dup (List.mem_append_right _ List.mem_cons_self)
  have hall : List.Forall₂ Made (rs ++ [r]) (base ++ [dup]) :=
    List.rel_append hmade (.cons hr .nil)
  have hcheck := (grMemContentsCheck_eq hfuel hmade hr
    (fun t ht => ⟨hsound t ht, h.contents t ht⟩) hdup (by rw [h.records]; exact h.last)
    (by rw [h.records]; exact h.again locals.buf) hpaddr hbuf unused mem).2
    fun t ht _ => h.few t.record (h.record_mem ht)
  have hregion : ∀ s ∈ rs ++ [r], s.pages.length = s.nrPages ∧ s.nrPages < 2 ^ 32 := by
    intro s hs
    obtain ⟨t, ht, sync, rfl⟩ := exists_made hall hs
    exact ⟨(h.loaded.sound t ht).length, h.few t.record (h.record_mem ht)⟩
  have hrestore := @grRestorePteUncounted_eq _ _ _ _ (writes (allPages (base ++ [dup])) mem) hall
    fun t ht => ⟨h.loaded.sound t ht, h.leaves t.record (h.record_mem ht)⟩
  have hclean := grCleanInvalidRegionUncounted_eq hmade hr hsound h.orig.1 h.orig.2
    (by rw [h.records]; exact hdisjoint)
    (writes (wordWrites (allEntries (leafSlot ctx.machine.heap ctx.userPgt) (base ++ [dup])))
      (writes (allPages (base ++ [dup])) mem))
  rw [h.records] at hcheck
  unfold cleanAfterReplay grCleanInvalidRegion
  rw [hregions, hcheck]
  dsimp only
  rw [grRestorePte_eq hfuel fun s hs => ⟨(hregion s hs).1,
    Nat.lt_of_le_of_lt ((length_loopAddrs_le _ _ _).trans (Nat.le_of_eq (hregion s hs).1))
      (hregion s hs).2⟩, hrestore]
  dsimp only
  rw [cleanRegions_eq fun s hs _ => ⟨(hregion s hs).2, Nat.lt_of_lt_of_le (hregion s hs).2 hfuel⟩]
  exact congrArg some hclean

/-- The leaf entry of a page of a record. -/
theorem DumpLoaded.leaf {t : Placed} (ht : t ∈ base ++ [dup]) {gaddr : Nat}
    (hbacked : t.record.Backed gaddr) : ∃ q v,
      leafPage tableAt (entries ctx.machine.mem) (gpuIndex gaddr) 3 ctx.newTranstab = some q ∧
      q % 4096 = 0 ∧ q ∉ allFrames (base ++ [dup]) ∧
      (q + 8 * gpuIndex gaddr 0, v) ∈
        allEntries (leafSlot ctx.machine.heap ctx.userPgt) (base ++ [dup]) := by
  obtain ⟨hlo, hhi⟩ := hbacked
  have hsound := h.loaded.sound t ht
  have haligned := hsound.wf.start_aligned
  let k := (gaddr - t.record.gmStart) / 4096
  have hk : k < t.record.nents := by
    show (gaddr - t.record.gmStart) / 4096 < t.record.nents
    omega
  have hpage : (t.record.gmStart + 4096 * k) / 4096 = gaddr / 4096 := by
    show (t.record.gmStart + 4096 * ((gaddr - t.record.gmStart) / 4096)) / 4096 = gaddr / 4096
    omega
  have hindex : gpuIndex (t.record.gmStart + 4096 * k) = gpuIndex gaddr := by
    funext j
    unfold gpuIndex pgdOffset
    rw [hpage]
  obtain ⟨q, hq, hslot⟩ := h.tables _ (h.leaves t.record (h.record_mem ht) k hk)
  rw [hindex] at hq hslot
  obtain ⟨hqaligned, hqframe⟩ := h.pages q (leafPage_mem (gpuIndex_lt gaddr) hq)
  obtain ⟨v, hv⟩ := @slotEntries_mem (leafSlot ctx.machine.heap ctx.userPgt) t.record.flags t.frames
    t.record.gmStart k (by rw [hsound.length]; exact hk)
  rw [hslot] at hv
  exact ⟨q, v, hq, hqaligned, hqframe, List.mem_flatMap.mpr ⟨t, ht, hv⟩⟩

/-- What the leaf entry holds. -/
theorem DumpLoaded.gpuLookup_eq {q gaddr : Nat}
    (hq : leafPage tableAt (entries ctx.machine.mem) (gpuIndex gaddr) 3 ctx.newTranstab = some q)
    (hqaligned : q % 4096 = 0) (hqframe : q ∉ allFrames (base ++ [dup])) :
    gpuLookup ctx.machine.mem ctx.newTranstab gaddr =
      read64 (writes (wordWrites (allEntries (leafSlot ctx.machine.heap ctx.userPgt)
        (base ++ [dup]))) start) (q + 8 * gpuIndex gaddr 0) := by
  have hix := gpuIndex_lt gaddr 0
  have hstart : pageStart (q + 8 * gpuIndex gaddr 0) = q := by
    unfold pageStart
    omega
  rw [← h.loaded.read64_slot (by omega) (by rw [hstart]; exact hqframe), ← h.mem, gpuLookup,
    lookup_of_leafPage hq]
  rfl

/-- The GPU reaches the frames of the regions. -/
theorem DumpLoaded.reached {t : Placed} (ht : t ∈ base ++ [dup]) {gaddr : Nat}
    (hbacked : t.record.Backed gaddr) :
    pteToPhysAddr (gpuLookup ctx.machine.mem ctx.newTranstab gaddr) ∈
      allFrames (base ++ [dup]) := by
  obtain ⟨q, v, hq, hqaligned, hqframe, hv⟩ := h.leaf ht hbacked
  rw [h.gpuLookup_eq hq hqaligned hqframe]
  rcases @read64_writes_words (q + 8 * gpuIndex gaddr 0) (by omega)
      (allEntries (leafSlot ctx.machine.heap ctx.userPgt) (base ++ [dup])) start
      (fun e he => (h.loaded.slots e he).2) with ⟨w, hw, hread⟩ | ⟨hnone, -⟩
  · obtain ⟨u, hu, hw⟩ := List.mem_flatMap.mp hw
    obtain ⟨-, frame, hframe, hword⟩ := mem_slotEntries hw
    have hin := mem_allFrames hu hframe
    dsimp only at hword
    unfold wordWrites
    rw [hread, hword, pteToPhysAddr_grEntryGetAte ((h.loaded.sound u hu).aligned _ hframe) (h.lt _ hin)]
    exact hin
  · exact absurd rfl (hnone _ hv)

/-- **Every byte comes back** that is not in the repeated region of an invalid record. -/
theorem DumpLoaded.reset_apply {mem : ByteMem} (hmem : GpuModified ctx recs mem) {p : Nat}
    (hp : dup.record.isValid = true ∨ pageStart p ∉ dup.frames) :
    resetMem (leafSlot ctx.machine.heap ctx.userPgt) (base ++ [dup]) (clearedFrames base dup orig)
      mem p = ctx.machine.mem p := by
  rw [h.mem]
  refine h.loaded.reset_same h.cleared_all ?_
  by_cases hwritable : GpuWritable ctx.machine.mem ctx.newTranstab recs p
  · right
    obtain ⟨rec, hrec, gaddr, hbacked, hpage | ⟨q, hq, hle, hlt⟩⟩ := hwritable
    · right
      obtain ⟨t, ht, rfl⟩ : ∃ t ∈ base, t.record = rec := by
        rw [← h.records] at hrec
        exact List.mem_map.mp hrec
      have hframe := h.reached (List.mem_append_left _ ht) hbacked
      rw [← hpage] at hframe
      obtain ⟨u, hu, hin⟩ := List.mem_flatMap.mp hframe
      by_cases hvalid : u.record.isValid = true
      · exact Or.inl ⟨u, hu, hvalid, hin⟩
      · right
        rcases List.mem_append.mp hu with hu | hu
        · refine List.mem_append_left _ (List.mem_flatMap.mpr ⟨u, hu, ?_⟩)
          rw [if_neg hvalid]
          exact hin
        · rw [List.mem_singleton.mp hu] at hvalid hin
          rcases hp with hp | hp
          · exact absurd hp hvalid
          · exact absurd hin hp
    · left
      obtain ⟨t, ht, rfl⟩ : ∃ t ∈ base, t.record = rec := by
        rw [← h.records] at hrec
        exact List.mem_map.mp hrec
      obtain ⟨q', v, hq', -, -, hv⟩ := h.leaf (List.mem_append_left _ ht) hbacked
      obtain rfl : q' = q := Option.some.inj (hq'.symm.trans hq)
      refine ⟨_, List.mem_map_of_mem hv, hle, ?_⟩
      rw [Bytes.length_le]
      exact hlt
  · left
    rw [hmem p hwritable, ← h.mem]

/-- Where the repeated region is not cleared, what the GPU wrote to it stays. -/
theorem DumpLoaded.reset_dup (hinvalid : dup.record.isValid = false) {p : Nat}
    (hp : pageStart p ∈ dup.frames) (mem : ByteMem) :
    resetMem (leafSlot ctx.machine.heap ctx.userPgt) (base ++ [dup]) (clearedFrames base dup orig)
      mem p = mem p := by
  refine h.loaded.reset_kept h.cleared_all (List.mem_append_right _ List.mem_cons_self) hinvalid hp
    ?_ mem
  intro hcleared
  obtain ⟨t, ht, -, hin⟩ := h.cleared _ hcleared
  have hdistinct := h.loaded.distinct
  rw [allFrames_append] at hdistinct
  refine (List.nodup_append.mp hdistinct).2.2 _ (mem_allFrames ht hin) _ ?_ rfl
  exact mem_allFrames List.mem_cons_self hp

/-- The GPU address of the last page of the repeated region leads to its last frame. -/
theorem DumpLoaded.lastPage (hpages : dup.record.nents ≠ 0) :
    ∃ frame ∈ dup.frames, ∃ gaddr, dup.record.Backed gaddr ∧ gaddr % 4096 = 0 ∧
      pteToPhysAddr (gpuLookup ctx.machine.mem ctx.newTranstab gaddr) = frame := by
  have hdup : dup ∈ base ++ [dup] := List.mem_append_right _ List.mem_cons_self
  have hsound := h.loaded.sound dup hdup
  obtain ⟨frames, frame, hframes⟩ : ∃ fs f, dup.frames = fs ++ [f] := by
    rcases List.eq_nil_or_concat' dup.frames with hnil | hconcat
    · have hlen := hsound.length
      rw [hnil] at hlen
      exact absurd hlen.symm hpages
    · exact hconcat
  have hin : frame ∈ dup.frames := by
    rw [hframes]
    exact List.mem_append_right _ List.mem_cons_self
  have hlow := h.lt frame (mem_allFrames hdup hin)
  have hcount : frames.length + 1 = dup.record.nents := by
    rw [← hsound.length, hframes, List.length_append]
    rfl
  have haligned := hsound.wf.start_aligned
  have hbacked : dup.record.Backed (dup.record.gmStart + 4096 * frames.length) :=
    ⟨Nat.le_add_right _ _, by omega⟩
  refine ⟨frame, hin, _, hbacked, by omega, ?_⟩
  generalize hgaddr : dup.record.gmStart + 4096 * frames.length = gaddr at hbacked ⊢
  obtain ⟨q, v, hq, hqaligned, hqframe, -⟩ := h.leaf hdup hbacked
  have hslot : leafSlot ctx.machine.heap ctx.userPgt gaddr = q + 8 * gpuIndex gaddr 0 := by
    have hleaf := h.leaves dup.record (h.record_mem hdup) frames.length (by omega)
    rw [hgaddr] at hleaf
    obtain ⟨q', hq', hslot⟩ := h.tables gaddr hleaf
    rw [hslot, Option.some.inj (hq'.symm.trans hq)]
  -- its entry is the last one written
  have hentries : allEntries (leafSlot ctx.machine.heap ctx.userPgt) (base ++ [dup]) =
      (allEntries (leafSlot ctx.machine.heap ctx.userPgt) base ++
        slotEntries (leafSlot ctx.machine.heap ctx.userPgt) dup.record.flags dup.record.gmStart
          frames) ++ [(q + 8 * gpuIndex gaddr 0,
            grEntryGetAte frame dup.record.flags midgardMmuBottomlevel)] := by
    rw [allEntries, List.flatMap_append, List.flatMap_singleton, Placed.entries, hframes,
      slotEntries_concat, hgaddr, hslot, List.append_assoc]
    rfl
  rw [h.gpuLookup_eq hq hqaligned hqframe, hentries, wordWrites_append, writes_append]
  have hread := read64_write64_self (writes (wordWrites
    (allEntries (leafSlot ctx.machine.heap ctx.userPgt) base ++
      slotEntries (leafSlot ctx.machine.heap ctx.userPgt) dup.record.flags dup.record.gmStart
        frames)) start) (q + 8 * gpuIndex gaddr 0)
    (Nat.lt_trans (@grEntryGetAte_lt frame midgardMmuBottomlevel hlow dup.record.flags) (by decide))
  exact (congrArg pteToPhysAddr hread).trans
    (pteToPhysAddr_grEntryGetAte (hsound.aligned frame hin) hlow dup.record.flags)

/-- A byte the GPU writes to that frame stays, where the last record is invalid. -/
theorem DumpLoaded.not_resets
    (hdisjoint : recs.Pairwise fun r t => r.gmEnd ≤ t.gmStart ∨ t.gmEnd ≤ r.gmStart)
    {locals : Locals} (hpaddr : locals.paddr < 2 ^ 64) (hbuf : locals.buf.length = 4096)
    (hinvalid : dup.record.isValid = false) (hpages : dup.record.nents ≠ 0) :
    ¬Resets ctx recs := by
  intro hresets
  have hdup : dup ∈ base ++ [dup] := List.mem_append_right _ List.mem_cons_self
  have hrec : dup.record ∈ recs := h.record_mem hdup
  obtain ⟨frame, hin, gaddr, hbacked, hoffset, hphys⟩ := h.lastPage hpages
  have hstart : pageStart frame = frame := by
    have := (h.loaded.sound dup hdup).aligned frame hin
    unfold pageStart
    omega
  have hframe : pageStart frame ∈ dup.frames := by
    rw [hstart]
    exact hin
  have hmodified : GpuModified ctx recs (Function.update ctx.machine.mem frame 1) := by
    intro p hp
    refine Function.update_of_ne ?_ _ _
    rintro rfl
    exact hp ⟨dup.record, hrec, gaddr, hbacked, Or.inl (by rw [hphys, hstart])⟩
  have hreset : resetMem (leafSlot ctx.machine.heap ctx.userPgt) (base ++ [dup])
      (clearedFrames base dup orig) (Function.update ctx.machine.mem frame 1) =
        Function.update ctx.machine.mem frame 1 := by
    funext p
    by_cases hp : pageStart p ∈ dup.frames
    · exact h.reset_dup hinvalid hp _
    · rw [h.reset_apply hmodified (Or.inr hp), Function.update_of_ne]
      rintro rfl
      exact hp hframe
  obtain ⟨mem', hrun, hbytes⟩ := hresets [] locals _ hpaddr hbuf hmodified
  have hreturns := hrun (2 ^ 32) (Nat.le_refl _)
  rw [h.cleanAfterReplay_eq hdisjoint [] hpaddr hbuf _ (Nat.le_refl _), hreset] at hreturns
  obtain rfl := Except.ok.inj (Option.some.inj hreturns)
  have hbyte := hbytes dup.record hrec gaddr hbacked
  -- no table is on the frame, so the GPU still reads it
  have hlookup : gpuLookup (Function.update ctx.machine.mem frame 1) ctx.newTranstab gaddr =
      gpuLookup ctx.machine.mem ctx.newTranstab gaddr := by
    refine lookup_of_pages (gpuIndex_lt gaddr) fun r hr i hi => ?_
    obtain ⟨hraligned, hrframe⟩ := h.pages r hr
    refine read64_congr fun k hk => Function.update_of_ne ?_ _ _
    intro heq
    have hrpage : pageStart (r + 8 * i + k) = r := by
      unfold pageStart
      omega
    rw [heq, hstart] at hrpage
    exact hrframe (hrpage ▸ mem_allFrames hdup hin)
  unfold gpuByte at hbyte
  rw [hlookup, hphys, hoffset, Nat.add_zero, Function.update_self, h.mem,
    h.loaded.invalid_zero hdup hinvalid hframe] at hbyte
  exact absurd hbyte (by decide)

end Loaded

/-- **Replay reset.**  Cleaning after a replay undoes whatever the GPU has done if and only if
the last record of the dump is valid or has no pages. -/
theorem resets_iff {config : GrConfig} {pgtFile sasFile : List UInt8}
    {snapshot : Option (List UInt8)} {junk : InitJunk} {m : Machine} {recs : List McRecord}
    {ctx : ReplayContext} (h : ResetInput config pgtFile sasFile snapshot junk m recs ctx)
    {last : McRecord} (hlast : recs.getLast? = some last) :
    Resets ctx recs ↔ last.isValid = true ∨ last.nents = 0 := by
  obtain ⟨start, base, dup, orig, hloaded⟩ := grMemInit_loaded h
  obtain rfl : dup.record = last := Option.some.inj (hloaded.last.symm.trans hlast)
  have hsound := hloaded.loaded.sound dup (List.mem_append_right _ List.mem_cons_self)
  constructor
  · intro hresets
    by_contra hnot
    rw [not_or] at hnot
    exact hloaded.not_resets h.disjoint h.locals.1 h.locals.2 (Bool.eq_false_iff.mpr hnot.1) hnot.2
      hresets
  · intro hcondition unused locals mem hpaddr hbuf hmodified
    refine ⟨_, fun fuel hfuel =>
      hloaded.cleanAfterReplay_eq h.disjoint unused hpaddr hbuf mem hfuel, ?_⟩
    have hreset : resetMem (leafSlot ctx.machine.heap ctx.userPgt) (base ++ [dup])
        (clearedFrames base dup orig) mem = ctx.machine.mem := by
      funext p
      refine hloaded.reset_apply hmodified ?_
      rcases hcondition with hvalid | hnone
      · exact Or.inl hvalid
      · right
        rw [List.eq_nil_of_length_eq_zero (hsound.length.trans hnone)]
        exact List.not_mem_nil
    rw [hreset]
    exact fun _ _ _ _ => rfl

/-- The chain of tables, with dumps below 2 MiB, sets up a replay to reset, from a pool that holds
the tables, the pages and those of the last dump once more. -/
theorem resetInput_frames {recs : List McRecord} {last : McRecord} {n : Nat}
    (hcount : recs.length < 128) (hwf : ∀ rec ∈ recs, rec.WF)
    (hlow : ∀ rec ∈ recs, rec.gmEnd ≤ 2 ^ 21)
    (hdisjoint : recs.Pairwise fun r t => r.gmEnd ≤ t.gmStart ∨ t.gmEnd ≤ r.gmStart)
    (hlast : recs.getLast? = some last) (hroom : 4 + totalNents recs + last.nents ≤ n)
    (hn : n < 2 ^ 20) :
    ∃ ctx, ResetInput ⟨false, false⟩
      (Bytes.words (pgtWords (pageMem chainWord) ⟨4096 * 1, 0, 0⟩ (4096 * 1) 4)) (Bytes.le 4 0)
      (some []) chainJunk ⟨fun _ => 0, frames 1 n, []⟩ recs ctx := by
  have hsome : 1 ≤ recs.length := List.length_pos_iff.mpr fun h => by
    rw [h] at hlast
    cases hlast
  have hlocals : chainJunk.mc.paddr < 2 ^ 64 ∧ chainJunk.mc.buf.length = 4096 :=
    ⟨Nat.two_pow_pos 64, List.length_replicate⟩
  have hleaves : ∀ rec ∈ recs, ∀ k, k < rec.nents → ∃ q,
      leafPage tableAt (entries (pageMem chainWord)) (gpuIndex (rec.gmStart + 4096 * k)) 3
        (4096 * 1) = some q := by
    intro rec hrec k hk
    have hrecroom := (hwf rec hrec).room
    have hreclow := hlow rec hrec
    exact ⟨_, leafPage_chain (by omega)⟩
  obtain ⟨ctx, hrun⟩ := grMemInit_recorded (pgtInput_frames (by omega) hn) ⟨false, false⟩ []
    chainJunk ⟨hsome, hcount⟩ hwf hdisjoint hleaves hlocals hlast (by
      rw [laidOut_chain.length]
      show 4 + totalNents recs + last.nents ≤ (frames 1 n).length
      rw [length_frames_range]
      exact hroom)
  exact ⟨ctx, {
    pool := poolOk_frames (by omega)
    lt := fun frame hframe => by
      obtain ⟨k, hk, rfl⟩ := List.mem_map.mp hframe
      have hlt := (List.mem_range'_1.mp hk).2
      omega
    zeroed := fun _ _ => rfl
    fits := chainJunk_ok
    locals := hlocals
    count := ⟨hsome, hcount⟩
    wf := hwf
    disjoint := hdisjoint
    run := hrun }⟩

/-- The same with one page, on the pool of the chain. -/
theorem resetInput_chain {rec : McRecord} (hwf : rec.WF) (hlow : rec.gmEnd ≤ 2 ^ 21)
    (hpages : rec.nents ≤ 1) :
    ∃ ctx, ResetInput ⟨false, false⟩
      (Bytes.words (pgtWords (pageMem chainWord) ⟨4096 * 1, 0, 0⟩ (4096 * 1) 4)) (Bytes.le 4 0)
      (some []) chainJunk chainMachine [rec] ctx := by
  have hrec : ∀ r ∈ [rec], r = rec := fun r hr => List.mem_singleton.mp hr
  refine resetInput_frames (show 1 < 128 by decide) (fun r hr => hrec r hr ▸ hwf)
    (fun r hr => hrec r hr ▸ hlow) (List.pairwise_singleton ..) rfl ?_ (by decide)
  show 4 + (rec.nents + 0) + rec.nents ≤ 6
  omega

/-- A touched page is reset. -/
theorem onePage_resets :
    ∃ ctx, ResetInput ⟨false, false⟩
      (Bytes.words (pgtWords (pageMem chainWord) ⟨4096 * 1, 0, 0⟩ (4096 * 1) 4)) (Bytes.le 4 0)
      (some []) chainJunk chainMachine [onePage] ctx ∧ Resets ctx [onePage] := by
  obtain ⟨ctx, h⟩ := resetInput_chain wf_onePage (by decide) (Nat.le_refl 1)
  exact ⟨ctx, h, (resets_iff h rfl).mpr (Or.inl rfl)⟩

/-- A page that was not touched is not. -/
theorem untouchedPage_not_reset :
    ∃ ctx, ResetInput ⟨false, false⟩
      (Bytes.words (pgtWords (pageMem chainWord) ⟨4096 * 1, 0, 0⟩ (4096 * 1) 4)) (Bytes.le 4 0)
      (some []) chainJunk chainMachine [untouchedPage] ctx ∧ ¬Resets ctx [untouchedPage] := by
  obtain ⟨ctx, h⟩ := resetInput_chain wf_untouchedPage (by decide) (Nat.le_refl 1)
  obtain ⟨start, base, dup, orig, hloaded⟩ := grMemInit_loaded h
  have hrecord : dup.record = untouchedPage := Option.some.inj hloaded.last.symm
  refine ⟨ctx, h, hloaded.not_resets h.disjoint h.locals.1 h.locals.2 ?_ ?_⟩
  · rw [hrecord]
    rfl
  · rw [hrecord]
    exact Nat.one_ne_zero

end GpuReplay.Replayer
