/-
What becomes of the list of synced ranges.

The list has each range once, in the order of their first syncs.  Dumped and read again it is
the same, as long as its length fits into the count, which is 32 bits wide: `syncAs_roundTrip`.

The range synced last is the last of the list only if no other has been synced for the first
time since its own first sync: `outputLast_iff`.
-/
import GpuReplay.Driver.SyncList
import GpuReplay.Proofs.Session
import GpuReplay.Proofs.SyncAs
import Mathlib.Data.List.Induction
import Mathlib.Data.List.Nodup

namespace GpuReplay.Driver

open Stdio Replayer RadixTree

def SyncEntry.range (e : SyncEntry) : Nat × Nat := (e.vmStart, e.vmEnd)

def Syncset.range (sset : Syncset) : Nat × Nat := (sset.userAddr, sset.vmEnd)

def SyncContext.ranges (s : SyncContext) : List (Nat × Nat) := s.syncAsList.map SyncEntry.range

/-- The ranges of the calls for which there was memory, should they have needed it. -/
def listed (calls : List SyncCall) : List (Nat × Nat) :=
  (calls.filter SyncCall.alloc).map fun call => call.sset.range

/-! ### The list -/

variable {s : SyncContext} {sset : Syncset}

/-- What an update keeps of an entry is kept of the list. -/
theorem map_modify_eq {α β : Type} (l : List α) (i : Nat) {f : α → α} {g : α → β}
    (hf : ∀ e, g (f e) = g e) : (l.modify i f).map g = l.map g := by
  apply List.ext_getElem?
  intro j
  rw [List.getElem?_map, List.getElem?_map, List.getElem?_modify]
  cases l[j]? with
  | none => rfl
  | some e =>
      simp only [Option.map_eq_map, Option.map_some, Option.some.injEq]
      split
      · exact hf e
      · rfl

/-- Counting a sync leaves the ranges. -/
theorem ranges_countSync (s : SyncContext) (type i : Nat) :
    (countSync s type i).2.ranges = s.ranges ∧ (countSync s type i).2.syncAsCnt = s.syncAsCnt := by
  unfold countSync
  split
  · exact ⟨map_modify_eq _ _ fun _ => rfl, rfl⟩
  split
  · exact ⟨map_modify_eq _ _ fun _ => rfl, rfl⟩
  · exact ⟨rfl, rfl⟩

/-- **One sync.**  A new range is added at the end. -/
theorem ranges_grAsAddSync (s : SyncContext) (sset : Syncset) (alloc : Bool) :
    (s.grAsAddSync sset alloc).2.ranges =
      if sset.range ∈ s.ranges ∨ alloc = false then s.ranges else s.ranges ++ [sset.range] := by
  unfold SyncContext.grAsAddSync
  split
  next i hfound =>
    obtain ⟨hi, hmatch, -⟩ := List.findIdx?_eq_some_iff_getElem.mp hfound
    have hmem : sset.range ∈ s.ranges :=
      List.mem_map.mpr ⟨_, List.getElem_mem hi, Prod.ext (of_decide_eq_true hmatch).1
        (of_decide_eq_true hmatch).2⟩
    rw [if_pos (Or.inl hmem)]
    exact (ranges_countSync s sset.type i).1
  next hnone =>
    have hnew : sset.range ∉ s.ranges := by
      intro hmem
      obtain ⟨e, he, hrange⟩ := List.mem_map.mp hmem
      obtain ⟨hstart, hend⟩ := Prod.mk.inj hrange
      exact absurd (decide_eq_true ⟨hstart, hend⟩)
        (Bool.eq_false_iff.mp (List.findIdx?_eq_none_iff.mp hnone e he))
    cases alloc with
    | false => rw [if_neg Bool.false_ne_true, if_pos (Or.inr rfl)]
    | true =>
        rw [if_pos (show true = true from rfl), (ranges_countSync _ _ _).1,
          if_neg (not_or.mpr ⟨hnew, Bool.true_eq_false.mp⟩)]
        exact List.map_append

theorem cnt_grAsAddSync (hcnt : s.syncAsCnt = s.ranges.length % 2 ^ 32) (alloc : Bool) :
    (s.grAsAddSync sset alloc).2.syncAsCnt =
      (s.grAsAddSync sset alloc).2.ranges.length % 2 ^ 32 := by
  unfold SyncContext.grAsAddSync
  split
  · rw [(ranges_countSync _ _ _).1, (ranges_countSync _ _ _).2, hcnt]
  · cases alloc with
    | false => exact hcnt
    | true =>
        rw [if_pos rfl, (ranges_countSync _ _ _).1, (ranges_countSync _ _ _).2]
        simp only [SyncContext.ranges, List.length_map, List.length_append, List.length_singleton]
          at hcnt ⊢
        omega

theorem syncAll_snoc (calls : List SyncCall) (call : SyncCall) :
    syncAll (calls ++ [call]) = ((syncAll calls).grAsAddSync call.sset call.alloc).2 := by
  rw [syncAll, List.foldl_append]
  rfl

/-- **The list of a session**: each range once, at its first sync. -/
theorem ranges_syncAll (calls : List SyncCall) :
    (syncAll calls).ranges = (listed calls).eraseDups := by
  induction calls using List.reverseRecOn with
  | nil => rfl
  | append_singleton calls call ih =>
      simp only [syncAll_snoc, ranges_grAsAddSync, ih, List.mem_eraseDups]
      cases halloc : call.alloc with
      | false => simp [listed, halloc]
      | true =>
          have hlisted : listed (calls ++ [call]) = listed calls ++ [call.sset.range] := by
            simp [listed, halloc]
          rw [hlisted, List.eraseDups_append]
          by_cases hmem : call.sset.range ∈ listed calls
          · simp [hmem, List.removeAll]
          · have hone : [call.sset.range].eraseDups = [call.sset.range] := by
              rw [List.eraseDups_cons, List.filter_nil, List.eraseDups_nil]
            simp [hmem, List.removeAll, hone]

theorem nodup_eraseDups {α : Type} [BEq α] [LawfulBEq α] : ∀ (l : List α), l.eraseDups.Nodup
  | [] => List.nodup_nil
  | a :: l => by
      rw [List.eraseDups_cons, List.nodup_cons]
      refine ⟨by simp, nodup_eraseDups _⟩
termination_by l => l.length
decreasing_by exact Nat.lt_succ_of_le (List.length_filter_le _ _)

theorem cnt_syncAll (calls : List SyncCall) :
    (syncAll calls).syncAsCnt = (syncAll calls).ranges.length % 2 ^ 32 := by
  induction calls using List.reverseRecOn with
  | nil => rfl
  | append_singleton calls call ih =>
      rw [syncAll_snoc]
      exact cnt_grAsAddSync ih call.alloc

theorem forall_mem_modify {α : Type} {P : α → Prop} {l : List α} {f : α → α} (i : Nat)
    (hl : ∀ e ∈ l, P e) (hf : ∀ e, P e → P (f e)) : ∀ e ∈ l.modify i f, P e := by
  intro e he
  obtain ⟨j, hj⟩ := List.mem_iff_getElem?.mp he
  rw [List.getElem?_modify, Option.map_eq_map, Option.map_eq_some_iff] at hj
  obtain ⟨e', he', rfl⟩ := hj
  have hmem := hl e' (List.mem_of_getElem? he')
  split
  · exact hf e' hmem
  · exact hmem

/-- The fields are 64 bits wide. -/
structure SyncEntry.Fits (e : SyncEntry) : Prop where
  vmStart : e.vmStart < 2 ^ 64
  vmEnd : e.vmEnd < 2 ^ 64
  size : e.size < 2 ^ 64

theorem fits_countSync (type i : Nat) (h : ∀ e ∈ s.syncAsList, e.Fits) :
    ∀ e ∈ (countSync s type i).2.syncAsList, e.Fits := by
  have hkeep : ∀ e : SyncEntry, e.Fits → ∀ m n, SyncEntry.Fits ⟨⟨e.vmStart, e.vmEnd, e.size⟩, m, n⟩ :=
    fun e he _ _ => ⟨he.vmStart, he.vmEnd, he.size⟩
  unfold countSync
  split
  · exact forall_mem_modify i h fun e he => hkeep e he _ _
  split
  · exact forall_mem_modify i h fun e he => hkeep e he _ _
  · exact h

theorem fits_syncAll (calls : List SyncCall) : ∀ e ∈ (syncAll calls).syncAsList, e.Fits := by
  induction calls using List.reverseRecOn with
  | nil => exact fun e he => absurd he List.not_mem_nil
  | append_singleton calls call ih =>
      rw [syncAll_snoc, SyncContext.grAsAddSync]
      split
      · exact fits_countSync _ _ ih
      split
      · refine fits_countSync _ _ fun e he => ?_
        rcases List.mem_append.mp he with he | he
        · exact ih e he
        · obtain rfl := List.mem_singleton.mp he
          exact ⟨call.sset.addr_lt, Nat.mod_lt _ (by decide), call.sset.size_lt⟩
      · exact ih

/-! ### The file -/

/-- A record of the file. -/
def SyncEntry.bytes (e : SyncEntry) : List UInt8 :=
  Bytes.le 8 e.vmStart ++ (Bytes.le 8 e.vmEnd ++ Bytes.le 8 e.size)

/-- **The file of a dump**: the count and the records, over what was in it. -/
theorem bytes_grDumpSyncAs (s : SyncContext) (old : List UInt8) :
    ∃ rest, (s.grDumpSyncAs (OutFile.reopen old)).bytes =
      Bytes.le 4 s.syncAsCnt ++ (s.syncAsList.flatMap SyncEntry.bytes ++ rest) := by
  have hbytes : syncBytes s = Bytes.le 4 s.syncAsCnt ++ s.syncAsList.flatMap SyncEntry.bytes := rfl
  rw [grDumpSyncAs_eq s (OutFile.wf_reopen old), hbytes]
  simp only [OutFile.write, OutFile.reopen, Bytes.splice, List.take_zero, List.nil_append,
    List.append_assoc]
  exact ⟨_, rfl⟩

/-! ### Reading it -/

theorem readSas_bytes {e : SyncEntry} (he : e.Fits) (l : SasLocals) (rest : List UInt8) :
    readSas l ⟨e.bytes ++ rest, false⟩ = (⟨e.vmStart, e.vmEnd, e.size⟩, ⟨rest, false⟩) := by
  unfold readSas SyncEntry.bytes
  simp only [List.append_assoc, Stream.readWord_le (show e.vmStart < 256 ^ 8 from he.vmStart),
    Stream.readWord_le (show e.vmEnd < 256 ^ 8 from he.vmEnd),
    Stream.readWord_le (show e.size < 256 ^ 8 from he.size)]

/-- Regions with no address in common. -/
def Separate (regions : List Region) : Prop :=
  regions.Pairwise fun r s => ∀ gaddr, ¬(r.Encloses gaddr ∧ s.Encloses gaddr)

/-- The region, marked if one of the addresses is in it. -/
def markSynced (starts : List Nat) (r : Region) : Region :=
  if ∃ gaddr ∈ starts, r.Encloses gaddr then { r with isSynced := 1 } else r

theorem encloses_markSynced (starts : List Nat) (r : Region) (gaddr : Nat) :
    (markSynced starts r).Encloses gaddr ↔ r.Encloses gaddr := by
  unfold markSynced
  split
  · exact Iff.rfl
  · exact Iff.rfl

theorem markSynced_cons (gaddr : Nat) (starts : List Nat) (r : Region) :
    markSynced starts (markSynced [gaddr] r) = markSynced (gaddr :: starts) r := by
  have hrest := fun a => encloses_markSynced [gaddr] r a
  by_cases hfirst : r.Encloses gaddr
  · have hone : markSynced [gaddr] r = { r with isSynced := 1 } := by simp [markSynced, hfirst]
    rw [hone]
    simp [markSynced, hfirst]
  · have hone : markSynced [gaddr] r = r := by simp [markSynced, hfirst]
    rw [hone]
    simp [markSynced, hfirst]

theorem Separate.map {regions : List Region} (h : Separate regions) (starts : List Nat) :
    Separate (regions.map (markSynced starts)) := by
  refine List.pairwise_map.mpr (h.imp fun hne gaddr => ?_)
  rw [encloses_markSynced, encloses_markSynced]
  exact hne gaddr

/-- Where regions are separate, the one that is found is the one to be marked. -/
theorem modify_eq_map {regions : List Region} {gaddr i : Nat} (h : Separate regions)
    (hfind : grFindRegionEnclosingAddress regions gaddr = some i) :
    (regions.modify i fun r => { r with isSynced := 1 }) = regions.map (markSynced [gaddr]) := by
  obtain ⟨hi, henc, -⟩ := List.findIdx?_eq_some_iff_getElem.mp hfind
  have henc : regions[i].Encloses gaddr := of_decide_eq_true henc
  have hpair := List.pairwise_iff_getElem.mp h
  apply List.ext_getElem?
  intro j
  rw [List.getElem?_modify, List.getElem?_map]
  rcases Nat.lt_or_ge j regions.length with hj | hj
  · rw [List.getElem?_eq_getElem hj]
    simp only [Option.map_eq_map, Option.map_some, Option.some.injEq]
    rcases Nat.lt_trichotomy i j with hlt | rfl | hlt
    · have hnot : ¬regions[j].Encloses gaddr := fun hjenc => hpair i j hi hj hlt gaddr ⟨henc, hjenc⟩
      simp [markSynced, hnot, Nat.ne_of_lt hlt]
    · simp [markSynced, henc]
    · have hnot : ¬regions[j].Encloses gaddr := fun hjenc => hpair j i hj hi hlt gaddr ⟨hjenc, henc⟩
      simp [markSynced, hnot, Nat.ne_of_gt hlt]
  · rw [List.getElem?_eq_none hj]
    rfl

/-- What is loaded for the entries, `phys` being where the page table leads. -/
def loadedSas (phys : Nat → Nat) : List SyncEntry → List SyncAs
  | [] => []
  | e :: es =>
      ⟨e.vmStart, e.vmEnd, e.size, phys e.vmStart, 0, if es.length = 0 then 1 else 0⟩ ::
        loadedSas phys es

/-- **The loop reads back what was dumped.** -/
theorem readSyncAs_dumped {mem : ByteMem} {newTranstab : Nat} {phys : Nat → Nat}
    (rest : List UInt8) : ∀ {es : List SyncEntry} (l : SasLocals) {regions : List Region},
      (∀ e ∈ es, e.Fits) → Separate regions → (∀ e ∈ es, Enclosed regions e.vmStart) →
      (∀ e ∈ es, grTransVaToPa mem newTranstab e.vmStart = .ok (phys e.vmStart)) →
      readSyncAs mem newTranstab es.length l ⟨es.flatMap SyncEntry.bytes ++ rest, false⟩ regions
        = .ok (loadedSas phys es, regions.map (markSynced (es.map fun e => e.vmStart))) := by
  intro es
  induction es with
  | nil =>
      intro l regions _ _ _ _
      have hnone : ∀ r : Region, markSynced [] r = r := fun r => by simp [markSynced]
      rw [List.map_nil, List.map_congr_left fun r _ => hnone r, List.map_id']
      rfl
  | cons e es ih =>
      intro l regions hfits hsep hencl htrans
      obtain ⟨he, hfits⟩ := List.forall_mem_cons.mp hfits
      obtain ⟨hfirst, hencl⟩ := List.forall_mem_cons.mp hencl
      obtain ⟨hpm, htrans⟩ := List.forall_mem_cons.mp htrans
      obtain ⟨i, hfind⟩ : ∃ i, grFindRegionEnclosingAddress regions e.vmStart = some i := by
        refine Option.ne_none_iff_exists'.mp fun hnone => ?_
        exact grFindRegion_eq_none_iff.mp hnone hfirst
      have hread := readSas_bytes he l (es.flatMap SyncEntry.bytes ++ rest)
      rw [List.length_cons, readSyncAs_succ, List.flatMap_cons, List.append_assoc, hread]
      dsimp only
      rw [hpm, Except.ok_bind, hfind]
      dsimp only
      rw [modify_eq_map hsep hfind, ih _ hfits (hsep.map _) ?_ htrans, Except.ok_bind]
      · rw [List.map_map, List.map_cons, loadedSas]
        simp only [Function.comp_def, markSynced_cons]
      · intro e' he'
        obtain ⟨r, hr, henc⟩ := hencl e' he'
        exact ⟨_, List.mem_map_of_mem hr, (encloses_markSynced _ _ _).mpr henc⟩

/-! ### There and back -/

/-- The address is in the part of a region that is backed, and there is a bottom table for it. -/
def MappedIn (mem : ByteMem) (root : Nat) (regions : List Region) (gaddr : Nat) : Prop :=
  ∃ r ∈ regions, r.Backs gaddr ∧ ∃ q, leafPage tableAt (entries mem) (gpuIndex gaddr) 3 root = some q

/-- Where the page table leads the GPU. -/
def translation (mem : ByteMem) (root gaddr : Nat) : Nat :=
  pteToPhysAddr (gpuLookup mem root gaddr) + gaddr % 4096

structure ReadBack (mem : ByteMem) (root : Nat) (e : SyncEntry) (sas : SyncAs) : Prop where
  gmStart : sas.gmStart = e.vmStart
  gmEnd : sas.gmEnd = e.vmEnd
  size : sas.size = e.size
  pmStart : sas.pmStart = translation mem root e.vmStart

theorem readBack_loadedSas (mem : ByteMem) (root : Nat) (es : List SyncEntry) :
    List.Forall₂ (ReadBack mem root) es (loadedSas (translation mem root) es) := by
  induction es with
  | nil => exact .nil
  | cons e es ih => exact .cons ⟨rfl, rfl, rfl, rfl⟩ ih

/-- The context after syncs for whose entries there was always memory. -/
def synced (ssets : List Syncset) : SyncContext := syncAll (ssets.map fun sset => ⟨sset, true⟩)

/-- The list has the ranges synced, each once, and a replay that loads the dump has the same, with
the regions marked that the ranges start in. -/
structure RoundTrip (ssets : List Syncset) : Prop where
  cnt : (synced ssets).syncAsCnt = (synced ssets).syncAsList.length
  nodup : (synced ssets).ranges.Nodup
  mem : ∀ range, range ∈ (synced ssets).ranges ↔ ∃ sset ∈ ssets, sset.range = range
  load : ∀ (old : List UInt8) (mem : ByteMem) (root : Nat) (locals : SasLocals)
    (regions : List Region), TablesOk mem 3 root → Separate regions →
    (∀ e ∈ (synced ssets).syncAsList, MappedIn mem root regions e.vmStart) →
    ∃ sas, grGetSyncAs mem root locals regions
        ((synced ssets).grDumpSyncAs (OutFile.reopen old)).bytes
      = .ok (sas, regions.map (markSynced ((synced ssets).syncAsList.map fun e => e.vmStart))) ∧
      List.Forall₂ (ReadBack mem root) (synced ssets).syncAsList sas

theorem listed_of_alloc (ssets : List Syncset) :
    listed (ssets.map fun sset => ⟨sset, true⟩) = ssets.map Syncset.range := by
  induction ssets with
  | nil => rfl
  | cons sset ssets ih => exact congrArg (sset.range :: ·) ih

theorem ranges_synced (ssets : List Syncset) :
    (synced ssets).ranges = (ssets.map Syncset.range).eraseDups := by
  rw [synced, ranges_syncAll, listed_of_alloc]

/-- **There and back**, where there are fewer than `2 ^ 32` ranges. -/
theorem syncAs_roundTrip {ssets : List Syncset}
    (hfew : (ssets.map Syncset.range).eraseDups.length < 2 ^ 32) : RoundTrip ssets := by
  have hlen : (synced ssets).syncAsList.length < 2 ^ 32 := by
    rwa [← ranges_synced, SyncContext.ranges, List.length_map] at hfew
  have hcnt : (synced ssets).syncAsCnt = (synced ssets).syncAsList.length := by
    rw [synced, cnt_syncAll, SyncContext.ranges, List.length_map]
    exact Nat.mod_eq_of_lt hlen
  refine ⟨hcnt, ?_, ?_, ?_⟩
  · rw [ranges_synced]
    exact nodup_eraseDups _
  · intro range
    rw [ranges_synced, List.mem_eraseDups, List.mem_map]
  · intro old mem root locals regions htables hsep hmapped
    obtain ⟨rest, hfile⟩ := bytes_grDumpSyncAs (synced ssets) old
    have hencl : ∀ e ∈ (synced ssets).syncAsList, Enclosed regions e.vmStart := by
      intro e he
      obtain ⟨r, hr, hbacks, -⟩ := hmapped e he
      exact ⟨r, hr, hbacks.1⟩
    have htrans : ∀ e ∈ (synced ssets).syncAsList,
        grTransVaToPa mem root e.vmStart = .ok (translation mem root e.vmStart) := by
      intro e he
      obtain ⟨-, -, -, q, hleaf⟩ := hmapped e he
      exact (grTransVaToPa_of_leafPage htables hleaf).2
    have hread := readSyncAs_dumped rest locals (fits_syncAll _) hsep hencl htrans
    refine ⟨_, ?_, readBack_loadedSas mem root _⟩
    rw [grGetSyncAs, Stream.open, hfile,
      Stream.readWord_le (show (synced ssets).syncAsCnt < 256 ^ 4 from hcnt ▸ hlen)]
    dsimp only
    rw [hcnt]
    exact hread

theorem page_lt : 0x1000 < 2 ^ 64 := by decide

theorem secondStart_lt : 0x8000 < 2 ^ 64 := by decide

/-- Two ranges, the first of them synced again after the second. -/
def twoRanges : List Syncset :=
  [⟨0x1000, 0x1000, 1, page_lt, page_lt⟩, ⟨0x8000, 0x1000, 1, secondStart_lt, page_lt⟩,
    ⟨0x1000, 0x1000, 2, page_lt, page_lt⟩]

/-- A region for each. -/
def twoRegions : List Region :=
  [⟨0x1000, 0x2000, [0x6000], 1, 0, 1, 0⟩, ⟨0x8000, 0x9000, [0x7000], 1, 0, 1, 0⟩]

/-- Both are loaded, each once. -/
theorem syncAs_roundTrip_two :
    RoundTrip twoRanges ∧
    ∃ sas, grGetSyncAs (pageMem chainWord) (4096 * 1) ⟨0, 0, 0⟩ twoRegions
        ((synced twoRanges).grDumpSyncAs (OutFile.reopen [])).bytes
      = .ok (sas, twoRegions.map fun r => { r with isSynced := 1 }) ∧
      sas.map SyncAs.gmStart = [0x1000, 0x8000] := by
  have htrip : RoundTrip twoRanges :=
    syncAs_roundTrip (Nat.lt_of_le_of_lt (by decide : _ ≤ 2) (by decide))
  have hlist : (synced twoRanges).syncAsList.map (fun e => e.vmStart) = [0x1000, 0x8000] := by
    decide
  have hsep : Separate twoRegions :=
    List.pairwise_pair.mpr fun gaddr ⟨hone, htwo⟩ =>
      absurd (Nat.lt_of_lt_of_le hone.2 (by decide)) (Nat.not_lt_of_le htwo.1)
  have hmapped : ∀ e ∈ (synced twoRanges).syncAsList,
      MappedIn (pageMem chainWord) (4096 * 1) twoRegions e.vmStart := by
    intro e he
    have hstart : e.vmStart ∈ [0x1000, 0x8000] := hlist ▸ List.mem_map_of_mem he
    rcases List.mem_pair.mp hstart with hone | htwo
    · rw [hone]
      exact ⟨_, List.mem_cons_self, ⟨⟨by decide, by decide⟩, by decide⟩, _, leafPage_chain (by decide)⟩
    · rw [htwo]
      exact ⟨_, List.mem_cons_of_mem _ List.mem_cons_self, ⟨⟨by decide, by decide⟩, by decide⟩, _,
        leafPage_chain (by decide)⟩
  obtain ⟨sas, hrun, hback⟩ := htrip.load [] (pageMem chainWord) (4096 * 1) ⟨0, 0, 0⟩ twoRegions
    tablesOk_chain hsep hmapped
  have hmarked : twoRegions.map (markSynced ((synced twoRanges).syncAsList.map fun e => e.vmStart))
      = twoRegions.map fun r => { r with isSynced := 1 } := by
    rw [hlist, twoRegions, List.map_cons, List.map_cons, List.map_nil, markSynced, markSynced,
      if_pos ⟨_, List.mem_cons_self, by decide, by decide⟩,
      if_pos ⟨_, List.mem_cons_of_mem _ List.mem_cons_self, by decide, by decide⟩]
    rfl
  refine ⟨htrip, sas, hmarked ▸ hrun, ?_⟩
  rw [← hlist, ← List.forall₂_eq_eq_eq, List.forall₂_map_left_iff, List.forall₂_map_right_iff]
  exact hback.flip.imp fun s e h => h.gmStart

/-- As many ranges as wanted. -/
theorem exists_ssets {n : Nat} (hn : n < 2 ^ 64) :
    ∃ ssets : List Syncset, ssets.length = n ∧ (ssets.map Syncset.range).Nodup ∧
      ∀ sset ∈ ssets, sset.type = baseSyncsetOpMsync := by
  refine ⟨(List.finRange n).map fun i : Fin n =>
    ⟨i, 1, baseSyncsetOpMsync, Nat.lt_trans i.isLt hn, by decide⟩, ?_, ?_, ?_⟩
  · rw [List.length_map, List.length_finRange]
  · rw [List.map_map]
    refine (List.nodup_finRange n).map fun i j hij => ?_
    exact Fin.ext (congrArg Prod.fst hij)
  · intro sset hsset
    obtain ⟨i, -, rfl⟩ := List.mem_map.mp hsset
    rfl

/-- With `2 ^ 32` ranges the count is 0. -/
theorem syncAs_count_wraps :
    ∃ ssets : List Syncset, (∀ sset ∈ ssets, sset.type = baseSyncsetOpMsync) ∧
      (synced ssets).syncAsCnt = 0 ∧ (synced ssets).syncAsList.length = 2 ^ 32 ∧
      ¬RoundTrip ssets := by
  obtain ⟨ssets, hlen, hnodup, htype⟩ := exists_ssets (n := 2 ^ 32) (by decide)
  have hsame : (synced ssets).ranges.length = 2 ^ 32 := by
    have hperm : ((ssets.map Syncset.range).eraseDups).Perm (ssets.map Syncset.range) :=
      (List.perm_ext_iff_of_nodup (nodup_eraseDups _) hnodup).mpr fun _ => List.mem_eraseDups
    rw [ranges_synced, hperm.length_eq, List.length_map, hlen]
  have hlist : (synced ssets).syncAsList.length = 2 ^ 32 := by
    rw [← hsame, SyncContext.ranges, List.length_map]
  have hcnt : (synced ssets).syncAsCnt = 0 := by
    rw [synced, cnt_syncAll]
    exact (congrArg (· % 2 ^ 32) hsame).trans (Nat.mod_self _)
  refine ⟨ssets, htype, hcnt, hlist, fun h => ?_⟩
  have hboth := h.cnt
  rw [hcnt, hlist] at hboth
  exact absurd hboth (by decide)

/-! ### The last one -/

/-- A session that ends with the call has its range at the end of the list, and of what a replay
loads from the dump. -/
structure OutputLast (calls : List SyncCall) (call : SyncCall) : Prop where
  list : (syncAll (calls ++ [call])).ranges.getLast? = some call.sset.range
  loaded : ∀ (old : List UInt8) (mem : ByteMem) (root : Nat) (locals : SasLocals)
    (regions : List Region) (result : List SyncAs × List Region),
    (syncAll (calls ++ [call])).syncAsList.length < 2 ^ 32 →
    grGetSyncAs mem root locals regions
      ((syncAll (calls ++ [call])).grDumpSyncAs (OutFile.reopen old)).bytes = .ok result →
    result.1.getLast?.map (fun sas => (sas.gmStart, sas.gmEnd)) = some call.sset.range

/-- No other range is there for the first time after the first time of this one. -/
def NewestOf (ranges : List (Nat × Nat)) (range : Nat × Nat) : Prop :=
  ∃ before after, ranges = before ++ range :: after ∧ range ∉ before ∧
    ∀ r ∈ after, r = range ∨ r ∈ before

/-- What is there for the first time after the range. -/
def newAfter (before after : List (Nat × Nat)) (range : Nat × Nat) : List (Nat × Nat) :=
  (after.removeAll before).filter fun r => !r == range

theorem mem_newAfter {before after : List (Nat × Nat)} {range r : Nat × Nat} :
    r ∈ newAfter before after range ↔ r ∈ after ∧ r ∉ before ∧ r ≠ range := by
  simp only [newAfter, List.removeAll, List.mem_filter]
  simp [and_assoc]

theorem eraseDups_split {before after : List (Nat × Nat)} {range : Nat × Nat}
    (hnot : range ∉ before) : (before ++ range :: after).eraseDups =
      before.eraseDups ++ range :: (newAfter before after range).eraseDups := by
  rw [List.eraseDups_append, List.cons_removeAll, if_pos (by simpa using hnot), List.eraseDups_cons]
  rfl

/-- The last of a list without repetitions. -/
theorem getLast?_eraseDups_iff (ranges : List (Nat × Nat)) (range : Nat × Nat) :
    ranges.eraseDups.getLast? = some range ↔ NewestOf ranges range := by
  constructor
  · intro hlast
    have hmem : range ∈ ranges := List.mem_eraseDups.mp (List.mem_of_getLast? hlast)
    obtain ⟨before, after, rfl, hnot⟩ := List.eq_append_cons_of_mem hmem
    refine ⟨before, after, rfl, hnot, fun r hr => ?_⟩
    rw [eraseDups_split hnot, List.getLast?_append_cons] at hlast
    by_contra hother
    obtain ⟨hne, hbefore⟩ := not_or.mp hother
    -- such a range stands behind this one, and one of its kind is the last
    have hnew : r ∈ (newAfter before after range).eraseDups :=
      List.mem_eraseDups.mpr (mem_newAfter.mpr ⟨hr, hbefore, hne⟩)
    rw [List.getLast?_cons_of_ne_nil (List.ne_nil_of_mem hnew)] at hlast
    have hself := mem_newAfter.mp (List.mem_eraseDups.mp (List.mem_of_getLast? hlast))
    exact hself.2.2 rfl
  · rintro ⟨before, after, rfl, hnot, hall⟩
    have hnone : newAfter before after range = [] := by
      refine List.eq_nil_iff_forall_not_mem.mpr fun r hr => ?_
      obtain ⟨hafter, hbefore, hne⟩ := mem_newAfter.mp hr
      exact (hall r hafter).elim hne hbefore
    rw [eraseDups_split hnot, hnone, List.eraseDups_nil, List.getLast?_append_cons,
      List.getLast?_singleton]

/-- What the variables hold after a record of a dump has been read. -/
theorem sasRecord_dumped (rest : List UInt8) : ∀ {es : List SyncEntry} {k : Nat} {e : SyncEntry}
    (l : SasLocals), (∀ e ∈ es, e.Fits) → es[k]? = some e →
    sasRecord l ⟨es.flatMap SyncEntry.bytes ++ rest, false⟩ k = ⟨e.vmStart, e.vmEnd, e.size⟩ := by
  intro es
  induction es with
  | nil => exact fun _ _ hk => by cases hk
  | cons first es ih =>
      intro k e l hfits hk
      obtain ⟨hfirst, hfits⟩ := List.forall_mem_cons.mp hfits
      have hread := readSas_bytes hfirst l (es.flatMap SyncEntry.bytes ++ rest)
      rw [List.flatMap_cons, List.append_assoc]
      cases k with
      | zero =>
          obtain rfl := Option.some.inj hk
          rw [sasRecord, hread]
      | succ k =>
          rw [sasRecord, hread]
          exact ih _ hfits hk

/-- **The range synced last is the last one** if and only if no other has been put into the list
since this one was. -/
theorem outputLast_iff (calls : List SyncCall) (call : SyncCall) :
    OutputLast calls call ↔ NewestOf (listed (calls ++ [call])) call.sset.range := by
  rw [← getLast?_eraseDups_iff, ← ranges_syncAll]
  refine ⟨fun h => h.list, fun hlast => ⟨hlast, ?_⟩⟩
  intro old mem root locals regions result hlen hload
  generalize hs : syncAll (calls ++ [call]) = s at hlast hlen hload
  have hfits : ∀ e ∈ s.syncAsList, e.Fits := hs ▸ fits_syncAll _
  have hcnt : s.syncAsCnt = s.syncAsList.length := by
    rw [← hs, cnt_syncAll, hs, SyncContext.ranges, List.length_map]
    exact Nat.mod_eq_of_lt hlen
  obtain ⟨rest, hfile⟩ := bytes_grDumpSyncAs s old
  rw [grGetSyncAs, Stream.open, hfile,
    Stream.readWord_le (show s.syncAsCnt < 256 ^ 4 from hcnt ▸ hlen)] at hload
  dsimp only at hload
  rw [hcnt] at hload
  obtain ⟨hcount, -, hentries⟩ := readSyncAs_ok _ _ _ _ _ hload
  obtain ⟨e, he, hrange⟩ := Option.map_eq_some_iff.mp (List.getLast?_map.symm.trans hlast)
  rw [List.getLast?_eq_getElem?] at he ⊢
  have hlt := (List.getElem?_eq_some_iff.mp he).1
  obtain ⟨sas, hsas⟩ : ∃ sas, result.1[s.syncAsList.length - 1]? = some sas :=
    ⟨_, List.getElem?_eq_getElem (hcount ▸ hlt)⟩
  have hfields := hentries _ _ hsas
  rw [sasRecord_dumped rest locals hfits he] at hfields
  obtain ⟨hstart, hend, -⟩ := SasLocals.mk.inj hfields
  rw [hcount, hsas, Option.map_some, hstart, hend]
  exact congrArg some hrange

/-- A range that is synced first and last, with another one between. -/
theorem resynced_not_last :
    ¬OutputLast [⟨⟨0x1000, 0x1000, 2, by decide, by decide⟩, true⟩,
      ⟨⟨0x8000, 0x1000, 1, by decide, by decide⟩, true⟩]
      ⟨⟨0x1000, 0x1000, 2, by decide, by decide⟩, true⟩ := fun h =>
  absurd h.list (by decide)

end GpuReplay.Driver
