/-
What the GPU can reach through a rebuilt page table.

`gr_construct_pgt` leaves table entries that are pages of the pool and leaf entries that
are words of the dump, and `gr_mem_contents_init` overwrites the leaf entries of the pages
it loads.  So a leaf entry the memory dump has no page for is still the word of the
recording, and leads where the recorded address space led.
-/
import GpuReplay.Proofs.Patching

namespace GpuReplay.Replayer

open Stdio Driver RadixTree

/-! ### What the GPU can reach -/

/-- What a replay's page table leads to.  `taken` are the frames its set-up has obtained
from the pool, `loaded` the GPU addresses of the memory dump. -/
structure Isolated (m : Machine) (pgt : PgtInit) (loaded : List Nat) (ctx : ReplayContext)
    (taken : List Nat) : Prop where
  obtained : m.pool = taken ++ ctx.machine.pool
  /-- The root, and the table every table entry leads to. -/
  tables : ∀ p ∈ preorder ctx.machine.mem 3 ctx.newTranstab, p ∈ taken
  /-- The leaf entries of the pages of the memory dump. -/
  leaves : ∀ gaddr, (∃ a ∈ loaded, gpuPage a = gpuPage gaddr) →
    pteToPhysAddr (gpuLookup ctx.machine.mem ctx.newTranstab gaddr) ∈ taken
  /-- Every other leaf entry, block entries among them, is still a word of the dump. -/
  rest : ∀ gaddr, (∀ a ∈ loaded, gpuPage a ≠ gpuPage gaddr) →
    gpuLookup ctx.machine.mem ctx.newTranstab gaddr
        = gpuLookup pgt.machine.mem pgt.newPgd gaddr ∧
      gpuLookup ctx.machine.mem ctx.newTranstab gaddr ∈ pgt.pgtValue

/-- Two region tables that differ in what is synced. -/
def SyncedOnly (regions regions' : List Region) : Prop :=
  regions'.map (fun r => { r with isSynced := 0 }) = regions.map fun r => { r with isSynced := 0 }

theorem syncedOnly_modify (regions : List Region) (i : Nat) :
    SyncedOnly regions (regions.modify i fun r => { r with isSynced := 1 }) := by
  refine List.ext_getElem? fun j => ?_
  rw [List.getElem?_map, List.getElem?_map, List.getElem?_modify]
  cases regions[j]? with
  | none => rfl
  | some r =>
      refine congrArg some ?_
      dsimp only
      split
      · rfl
      · rfl

/-- Looking the synced address spaces up marks regions, and changes nothing else of them. -/
theorem readSyncAs_synced {mem : ByteMem} {newTranstab : Nat} :
    ∀ (n : Nat) (l : SasLocals) (f : Stream) (regions : List Region)
      (result : List SyncAs × List Region), readSyncAs mem newTranstab n l f regions = .ok result →
      SyncedOnly regions result.2 := by
  intro n
  induction n with
  | zero =>
      intro l f regions result hrun
      obtain rfl := Except.ok.inj hrun
      rfl
  | succ n ih =>
      intro l f regions result hrun
      obtain ⟨pmStart, -, hrun⟩ := Except.bind_eq_ok.mp hrun
      split at hrun
      · exact absurd hrun (Except.ok_ne_error _ _).symm
      · obtain ⟨⟨sas, regions'⟩, hrest, hdone⟩ := Except.bind_eq_ok.mp hrun
        obtain rfl := Except.ok.inj hdone
        exact (ih _ _ _ (sas, regions') hrest).trans (syncedOnly_modify _ _)

/-- Each region was there before. -/
theorem SyncedOnly.exists_of_mem {regions regions' : List Region} (h : SyncedOnly regions regions')
    {r : Region} (hr : r ∈ regions') : ∃ s ∈ regions, r = { s with isSynced := r.isSynced } := by
  have hmem : { r with isSynced := 0 } ∈ regions'.map fun r => { r with isSynced := 0 } :=
    List.mem_map.mpr ⟨r, hr, rfl⟩
  rw [h] at hmem
  obtain ⟨s, hs, heq⟩ := List.mem_map.mp hmem
  exact ⟨s, hs, (congrArg (fun t : Region => { t with isSynced := r.isSynced }) heq).symm⟩

theorem SyncedOnly.pages {regions regions' : List Region} (h : SyncedOnly regions regions') :
    regions'.map Region.pages = regions.map Region.pages := by
  have hpages := congrArg (List.map Region.pages) h
  rwa [List.map_map, List.map_map] at hpages

/-- The steps of a `gr_mem_init` that returns. -/
theorem grMemInit_ok {config : GrConfig} {pgtFile mcFile sasFile : List UInt8}
    {snapshot : Option (List UInt8)} {junk : InitJunk} {m : Machine} {ctx : ReplayContext}
    (hrun : grMemInit config ⟨some pgtFile, some mcFile, some sasFile, snapshot⟩ junk m = .ok ctx) :
    ∃ pgt mc, grPgtInit junk.pgt m pgtFile = .ok pgt ∧
      grMemContentsInit pgt.machine pgt.userPgt junk.mc mcFile = .ok mc ∧
      ctx.machine = ⟨mc.mem, mc.pool, pgt.machine.heap⟩ ∧ ctx.newTranstab = pgt.newPgd ∧
      ctx.userPgt = pgt.userPgt ∧ ∃ sas,
        grGetSyncAs mc.mem pgt.newPgd junk.sas mc.regions sasFile = .ok (sas, ctx.regions) := by
  unfold grMemInit at hrun
  obtain ⟨pgtFile', hpgtFile, hrun⟩ := Except.bind_eq_ok.mp hrun
  obtain rfl : pgtFile = pgtFile' := Except.ok.inj hpgtFile
  obtain ⟨pgt, hpgt, hrun⟩ := Except.bind_eq_ok.mp hrun
  obtain ⟨mcFile', hmcFile, hrun⟩ := Except.bind_eq_ok.mp hrun
  obtain rfl : mcFile = mcFile' := Except.ok.inj hmcFile
  obtain ⟨mc, hmc, hrun⟩ := Except.bind_eq_ok.mp hrun
  obtain ⟨sasFile', hsasFile, hrun⟩ := Except.bind_eq_ok.mp hrun
  obtain rfl : sasFile = sasFile' := Except.ok.inj hsasFile
  obtain ⟨⟨sas, regions⟩, hsas, hrun⟩ := Except.bind_eq_ok.mp hrun
  obtain ⟨regFp, -, hdone⟩ := Except.bind_eq_ok.mp hrun
  obtain rfl := Except.ok.inj hdone
  exact ⟨pgt, mc, hpgt, hmc, rfl, rfl, rfl, sas, hsas⟩

/-- What `gr_mem_init` has patched when it returns. -/
theorem grMemInit_patched {config : GrConfig} {pgtFile mcFile sasFile : List UInt8}
    {snapshot : Option (List UInt8)} {junk : InitJunk} {m : Machine} {ctx : ReplayContext}
    (hpool : PoolOk m.pool) (hlt : ∀ frame ∈ m.pool, frame < 2 ^ 48) (hjunk : junk.pgt.Ok)
    (hrun : grMemInit config ⟨some pgtFile, some mcFile, some sasFile, snapshot⟩ junk m = .ok ctx) :
    ∃ pgt tables k, grPgtInit junk.pgt m pgtFile = .ok pgt ∧
      TreeFrom pgt.pgtValue 3 tables m ⟨pgt.newPgd, pgt.userPgt, pgt.offset, pgt.machine⟩ ∧
      tables ≤ k ∧ ctx.machine.pool = m.pool.drop k ∧ ctx.newTranstab = pgt.newPgd ∧
      Patched pgt.machine.mem pgt.newPgd (m.pool.take k) (loadedPages junk.mc mcFile)
        ctx.machine.mem := by
  obtain ⟨pgt, mc, hpgt, hmc, hmachine, hroot, -⟩ := grMemInit_ok hrun
  obtain ⟨tables, h⟩ := grPgtInit_from hjunk hpool hpgt
  have hwalk : pages tableAt 512 (entries pgt.machine.mem) 3 pgt.newPgd = m.pool.take tables := h.walk
  have htree : TableTree pgt.machine.heap pgt.machine.mem pgt.newPgd pgt.userPgt := {
    nodup := by
      rw [hwalk]
      exact hpool.nodup.take
    aligned := fun q hq => by
      rw [hwalk] at hq
      exact hpool.aligned q (List.mem_of_mem_take hq)
    nodes := ⟨_, _, h.userPgd, h.tree⟩ }
  unfold grMemContentsInit at hmc
  obtain ⟨k, hpool', hk, hpatched⟩ := initRegions_patched htree hpool hlt hwalk _ _ mc tables []
    (Nat.le_refl _) h.pool (Patched.init _ _ _) hmc
  rw [List.nil_append, ← loadedPages] at hpatched
  refine ⟨pgt, tables, k, hpgt, h, hk, ?_, hroot, ?_⟩
  · rw [hmachine, ← hpool']
  · rw [hmachine]
    exact hpatched

/-- Whatever the two dumps hold, when `gr_mem_init` returns, the page table consists of frames of
the pool, and so does every page of the memory dump. -/
theorem grMemInit_isolated {config : GrConfig} {pgtFile mcFile sasFile : List UInt8}
    {snapshot : Option (List UInt8)} {junk : InitJunk} {m : Machine} {ctx : ReplayContext}
    (hpool : PoolOk m.pool) (hlt : ∀ frame ∈ m.pool, frame < 2 ^ 48) (hjunk : junk.pgt.Ok)
    (hrun : grMemInit config ⟨some pgtFile, some mcFile, some sasFile, snapshot⟩ junk m = .ok ctx) :
    ∃ pgt taken, grPgtInit junk.pgt m pgtFile = .ok pgt ∧
      Isolated m pgt (loadedPages junk.mc mcFile) ctx taken := by
  obtain ⟨pgt, tables, k, hpgt, h, hk, hrest, hroot, hpatched⟩ :=
    grMemInit_patched hpool hlt hjunk hrun
  have hwalk : pages tableAt 512 (entries pgt.machine.mem) 3 pgt.newPgd = m.pool.take tables := h.walk
  refine ⟨pgt, m.pool.take k, hpgt, {
    obtained := by rw [hrest, List.take_append_drop]
    tables := fun p hp => by
      rw [← pages_eq_preorder, hroot, hpatched.upper.pages_eq, hwalk] at hp
      exact List.take_subset_take_left m.pool hk hp
    leaves := fun gaddr hin => by
      obtain ⟨frame, hframe, flags, hword⟩ := hpatched.loaded gaddr hin
      have hframe' := List.mem_of_mem_take hframe
      rwa [hroot, hword,
        pteToPhysAddr_grEntryGetAte (hpool.aligned frame hframe') (hlt frame hframe')]
    rest := fun gaddr hnone => by
      have hkept := hpatched.kept gaddr hnone
      rw [hroot, hkept]
      exact ⟨rfl, h.words _ (gpuIndex_lt gaddr)⟩ }⟩

/-- The entry the MMU ends at is a valid leaf: an ATE of level 3, or a block of a level above. -/
def ValidLeaf (mem : ByteMem) (root gaddr : Nat) : Prop :=
  gpuLookup mem root gaddr &&& entryTypeMask =
    if (leafPage tableAt (entries mem) (gpuIndex gaddr) 3 root).isSome then entryIsAteL3
    else entryIsAteL02

/-- Every table and every valid leaf is on a frame of `taken`. -/
structure ReplayIsolated (ctx : ReplayContext) (taken : List Nat) : Prop where
  tables : ∀ p ∈ preorder ctx.machine.mem 3 ctx.newTranstab, p ∈ taken
  leaves : ∀ gaddr, ValidLeaf ctx.machine.mem ctx.newTranstab gaddr →
    pteToPhysAddr (gpuLookup ctx.machine.mem ctx.newTranstab gaddr) ∈ taken

/-- Before the memory dump is loaded: every valid leaf copied from the page-table dump is one of a
page that it loads, unless the recorded address is by chance that of a frame taken. -/
def LeavesLoaded (pgt : PgtInit) (loaded taken : List Nat) : Prop :=
  ∀ gaddr, ValidLeaf pgt.machine.mem pgt.newPgd gaddr →
    (∃ a ∈ loaded, gpuPage a = gpuPage gaddr) ∨
      pteToPhysAddr (gpuLookup pgt.machine.mem pgt.newPgd gaddr) ∈ taken

/-- **The MMU ends its walk at the entry it ended at when the table was recorded**, except
that entries of tables name the new tables. -/
theorem Copied.lookup_eq {old mem : ByteMem} {heap : List UserPgtable} {lo : Nat} {ix : Nat → Nat}
    (hix : ∀ h, ix h < 512) :
    ∀ {n oldPgd newPgd node : Nat}, Copied old mem heap lo n oldPgd newPgd node →
      lookup tableAt (entries mem) ix n newPgd = lookup tableAt (entries old) ix n oldPgd := by
  intro n
  induction n with
  | zero =>
      intro oldPgd newPgd node h
      have hnew := getElem?_tableWords_entries mem newPgd (hix 0)
      rw [h.2.2, getElem?_tableWords_entries old oldPgd (hix 0)] at hnew
      exact (Option.some.inj hnew).symm
  | succ n ih =>
      intro oldPgd newPgd node h
      obtain ⟨-, u, -, -, hentries⟩ := h
      obtain ⟨hplain, htable⟩ := hentries _ _ (getElem?_tableWords_entries old oldPgd (hix (n + 1)))
      have hnew := getElem?_tableWords_entries mem newPgd (hix (n + 1))
      rw [lookup, lookup]
      by_cases ht : isTable (entries old oldPgd (ix (n + 1))) = true
      · obtain ⟨frame, child, hframe, hword, -, hcopied⟩ := htable ht
        rw [hword] at hnew
        have hold : tableAt (entries old oldPgd (ix (n + 1)))
            = some (pageStart (entries old oldPgd (ix (n + 1)))) := if_pos ht
        rw [← Option.some.inj hnew, tableAt_relink hframe ht, hold]
        exact ih hcopied
      · rw [hplain (Bool.eq_false_iff.mpr ht)] at hnew
        have hold : tableAt (entries old oldPgd (ix (n + 1))) = none := if_neg ht
        rw [← Option.some.inj hnew, hold, Option.elim_none, Option.elim_none]

/-- It comes to a bottom table where it did then. -/
theorem Copied.leafPage_isSome {old mem : ByteMem} {heap : List UserPgtable} {lo : Nat}
    {ix : Nat → Nat} (hix : ∀ h, ix h < 512) :
    ∀ {n oldPgd newPgd node : Nat}, Copied old mem heap lo n oldPgd newPgd node →
      (leafPage tableAt (entries mem) ix n newPgd).isSome =
        (leafPage tableAt (entries old) ix n oldPgd).isSome := by
  intro n
  induction n with
  | zero =>
      intro oldPgd newPgd node _
      rw [leafPage, leafPage, Option.isSome_some, Option.isSome_some]
  | succ n ih =>
      intro oldPgd newPgd node h
      obtain ⟨-, u, -, -, hentries⟩ := h
      obtain ⟨hplain, htable⟩ := hentries _ _ (getElem?_tableWords_entries old oldPgd (hix (n + 1)))
      have hnew := getElem?_tableWords_entries mem newPgd (hix (n + 1))
      rw [leafPage, leafPage]
      by_cases ht : isTable (entries old oldPgd (ix (n + 1))) = true
      · obtain ⟨frame, child, hframe, hword, -, hcopied⟩ := htable ht
        rw [hword] at hnew
        have hold : tableAt (entries old oldPgd (ix (n + 1)))
            = some (pageStart (entries old oldPgd (ix (n + 1)))) := if_pos ht
        rw [← Option.some.inj hnew, tableAt_relink hframe ht, hold, Option.bind_some,
          Option.bind_some]
        exact ih hcopied
      · rw [hplain (Bool.eq_false_iff.mpr ht)] at hnew
        have hold : tableAt (entries old oldPgd (ix (n + 1))) = none := if_neg ht
        rw [← Option.some.inj hnew, hold, Option.bind_none, Option.bind_none]

/-- The nodes lead to a bottom table wherever the recorded table had one. -/
theorem Copied.walk {old mem : ByteMem} {heap : List UserPgtable} {lo gaddr : Nat} :
    ∀ {n : Nat}, n ≤ 3 → ∀ {oldPgd newPgd node q : Nat},
      Copied old mem heap lo n oldPgd newPgd node →
      leafPage tableAt (entries old) (gpuIndex gaddr) n oldPgd = some q →
      ∃ ptr u, walkUserPgt heap gaddr n (3 - n) (.node node) = .ok ptr ∧
        derefPgt heap ptr = .ok u := by
  intro n
  induction n with
  | zero =>
      intro _ oldPgd newPgd node q h _
      obtain ⟨-, ⟨u, hu, -⟩, -⟩ := h
      exact ⟨.node node, u, rfl, by rw [derefPgt, hu]⟩
  | succ n ih =>
      intro hn oldPgd newPgd node q h hleaf
      obtain ⟨-, u, hu, -, hentries⟩ := h
      obtain ⟨r, hr, hq⟩ := Option.bind_eq_some_iff.mp hleaf
      have hlevel : 3 - (n + 1) + 1 = 3 - n := by omega
      have hi := gpuIndex_lt gaddr (n + 1)
      obtain ⟨-, htable⟩ := hentries _ _ (getElem?_tableWords_entries old oldPgd hi)
      by_cases ht : isTable (entries old oldPgd (gpuIndex gaddr (n + 1))) = true
      · obtain ⟨frame, child, -, -, hptr, hcopied⟩ := htable ht
        have hold : tableAt (entries old oldPgd (gpuIndex gaddr (n + 1)))
            = some (pageStart (entries old oldPgd (gpuIndex gaddr (n + 1)))) := if_pos ht
        rw [hold] at hr
        obtain rfl := Option.some.inj hr
        have hptr' : u.pgd (pgdOffset gaddr (3 - (n + 1))) = .node child := hptr
        obtain ⟨ptr, v, hrun, hv⟩ := ih (Nat.le_of_succ_le hn) hcopied hq
        refine ⟨ptr, v, ?_, hv⟩
        rw [walkUserPgt, derefPgt, hu, Except.ok_bind]
        simp only
        rw [hptr', if_neg (by simp), hlevel]
        exact hrun
      · have hold : tableAt (entries old oldPgd (gpuIndex gaddr (n + 1))) = none := if_neg ht
        rw [hold] at hr
        exact absurd hr.symm (Option.some_ne_none r)

section Recorded

variable {old : ByteMem} {setup : MmuSetup} {pgd pgtNrPages : Nat} {m : Machine} {r : PgtInit}

/-- The memory dump is loaded through the nodes of the rebuilt table. -/
theorem dumpInput_rebuilt (h : PgtInput old setup pgd pgtNrPages m)
    (hr : PgtRebuilt old setup pgd m r) {locals : Locals} {recs : List McRecord}
    (hcount : 1 ≤ recs.length ∧ recs.length < 128) (hwf : ∀ rec ∈ recs, rec.WF)
    (hdisjoint : recs.Pairwise fun r t => r.gmEnd ≤ t.gmStart ∨ t.gmEnd ≤ r.gmStart)
    (hleaves : ∀ rec ∈ recs, ∀ k, k < rec.nents → ∃ q,
      leafPage tableAt (entries old) (gpuIndex (rec.gmStart + 4096 * k)) 3 pgd = some q)
    (hlocals : locals.paddr < 2 ^ 64 ∧ locals.buf.length = 4096) :
    DumpInput r.machine r.userPgt locals recs where
  count := hcount
  wf := hwf
  disjoint := hdisjoint
  leaves := fun rec hrec k hk => by
    obtain ⟨q, hq⟩ := hleaves rec hrec k hk
    obtain ⟨ptr, u, hrun, hu⟩ := hr.copied.walk (Nat.le_refl 3) hq
    rw [hr.userPgt]
    refine ⟨u.physPage + 8 * ((rec.gmStart + 4096 * k) / 4096 % 512), ?_⟩
    exact Except.bind_eq_ok.mpr ⟨ptr, hrun, Except.bind_eq_ok.mpr ⟨u, hu, rfl⟩⟩
  frames := fun frame hframe => by
    rw [hr.pool] at hframe
    exact h.pool.aligned frame (List.mem_of_mem_drop hframe)
  distinct := by
    rw [hr.pool]
    exact h.pool.nodup.drop
  locals := hlocals

/-- **The dumps of a recording set up a replay**, with enough frames in the pool. -/
theorem grMemInit_recorded (h : PgtInput old setup pgd pgtNrPages m) (config : GrConfig)
    (snapshot : List UInt8) (junk : InitJunk) {recs : List McRecord} {last : McRecord}
    (hcount : 1 ≤ recs.length ∧ recs.length < 128) (hwf : ∀ rec ∈ recs, rec.WF)
    (hdisjoint : recs.Pairwise fun r t => r.gmEnd ≤ t.gmStart ∨ t.gmEnd ≤ r.gmStart)
    (hleaves : ∀ rec ∈ recs, ∀ k, k < rec.nents → ∃ q,
      leafPage tableAt (entries old) (gpuIndex (rec.gmStart + 4096 * k)) 3 pgd = some q)
    (hlocals : junk.mc.paddr < 2 ^ 64 ∧ junk.mc.buf.length = 4096)
    (hlast : recs.getLast? = some last)
    (hroom : (preorder old 3 pgd).length + totalNents recs + last.nents ≤ m.pool.length) :
    ∃ ctx, grMemInit config ⟨some (Bytes.words (pgtWords old setup pgd pgtNrPages)),
      some (dump recs), some (Bytes.le 4 0), some snapshot⟩ junk m = .ok ctx := by
  obtain ⟨pgt, hpgt, hr⟩ := grPgtInit_complete h junk.pgt
  obtain ⟨mc, hmc, -⟩ := grMemContentsInit_dump
    (dumpInput_rebuilt h hr hcount hwf hdisjoint hleaves hlocals) hlast
    (by rw [hr.pool, List.length_drop]; omega)
  have hsas : grGetSyncAs mc.mem pgt.newPgd junk.sas mc.regions (Bytes.le 4 0)
      = .ok ([], mc.regions) := by
    have hcnt := Stream.readWord_le (show 0 < 256 ^ 4 by decide) 0 [] false
    rw [List.append_nil] at hcnt
    rw [grGetSyncAs, Stream.open, hcnt]
    rfl
  have hsnapshot : ∃ regFp, grValidationInit config (some snapshot) = .ok regFp := by
    unfold grValidationInit
    by_cases hvalidate : config.isValidate = true
    · rw [if_pos hvalidate]
      exact ⟨_, rfl⟩
    · rw [if_neg hvalidate]
      exact ⟨_, rfl⟩
  obtain ⟨regFp, hregFp⟩ := hsnapshot
  refine ⟨_, Except.bind_eq_ok.mpr ⟨_, rfl, Except.bind_eq_ok.mpr ⟨pgt, hpgt,
    Except.bind_eq_ok.mpr ⟨_, rfl, Except.bind_eq_ok.mpr ⟨mc, hmc,
      Except.bind_eq_ok.mpr ⟨_, rfl, Except.bind_eq_ok.mpr ⟨_, hsas,
        Except.bind_eq_ok.mpr ⟨regFp, hregFp, rfl⟩⟩⟩⟩⟩⟩⟩⟩

end Recorded

/-! ### A page the memory dump does not have -/

/-- A chain of four tables, in the last of which every page leads to the recorded page
`0x7000`. -/
def chainWord (p i : Nat) : Nat :=
  if p < 4 then childWord p 1 (4 - p) i else entrySetAte 0x7000 0 3

theorem laidOut_chain : LaidOut (pageMem chainWord) 3 1 4 := by
  refine laidOut_succ (c := 1) (s := 3) (fun _ _ => if_pos (by decide)) (by decide) (by decide)
    fun i hi => ?_
  obtain rfl := Nat.lt_one_iff.mp hi
  refine laidOut_succ (c := 1) (s := 2) (fun _ _ => if_pos (by decide)) (by decide) (by decide)
    fun i hi => ?_
  obtain rfl := Nat.lt_one_iff.mp hi
  refine laidOut_succ (c := 1) (s := 1) (fun _ _ => if_pos (by decide)) (by decide) (by decide)
    fun i hi => ?_
  obtain rfl := Nat.lt_one_iff.mp hi
  refine laidOut_zero (fun i _ => ?_) (by decide)
  rw [chainWord, if_neg (by decide)]
  exact .ate 0 (by decide) (by decide)

/-- The chain leads to its last table, for every address below 2 MiB. -/
theorem leafPage_chain {gaddr : Nat} (hlow : gaddr < 2 ^ 21) :
    leafPage tableAt (entries (pageMem chainWord)) (gpuIndex gaddr) 3 (4096 * 1)
      = some (4096 * 4) := by
  have hstep : ∀ p, p < 4 →
      tableAt (entries (pageMem chainWord) (4096 * p) 0) = some (4096 * (p + 1)) := by
    intro p hp
    have hword : chainWord p 0 = childWord p 1 (4 - p) 0 := if_pos hp
    have hlt : childWord p 1 (4 - p) 0 < 2 ^ 64 :=
      (writtenWord_childWord 0 0 (by omega)).lt
    have hentry : entries (pageMem chainWord) (4096 * p) 0 = childWord p 1 (4 - p) 0 := by
      rw [← hword]
      exact read64_pageMem (by decide) (by rw [hword]; exact hlt)
    rw [hentry, tableAt, isTable_childWord, if_pos (by decide), pageStart_childWord _ _ (by decide),
      Nat.zero_mul, Nat.add_zero]
  have h₁ : gpuIndex gaddr 1 = 0 := by
    show gaddr / 4096 / 2 ^ 9 % 512 = 0
    omega
  have h₂ : gpuIndex gaddr 2 = 0 := by
    show gaddr / 4096 / 2 ^ 18 % 512 = 0
    omega
  have h₃ : gpuIndex gaddr 3 = 0 := by
    show gaddr / 4096 / 2 ^ 27 % 512 = 0
    omega
  rw [leafPage, h₃, hstep 1 (by decide), Option.bind_some, leafPage, h₂, hstep 2 (by decide),
    Option.bind_some, leafPage, h₁, hstep 3 (by decide), Option.bind_some, leafPage]

theorem gpuLookup_chain (gaddr : Nat) (hlow : gaddr < 2 ^ 21) :
    gpuLookup (pageMem chainWord) (4096 * 1) gaddr = entrySetAte 0x7000 0 3 := by
  have hword : chainWord 4 (gpuIndex gaddr 0) = entrySetAte 0x7000 0 3 := if_neg (by decide)
  rw [gpuLookup, lookup_of_leafPage (leafPage_chain hlow), ← hword]
  refine read64_pageMem (gpuIndex_lt gaddr 0) ?_
  rw [hword]
  decide

/-- A region of one page, which the CPU had not touched. -/
def untouchedPage : McRecord where
  gmStart := 0
  gmEnd := 4096
  nents := 1
  flags := 0
  isValid := false
  pages := []

theorem wf_untouchedPage : untouchedPage.WF where
  start_aligned := by decide
  end_aligned := by decide
  le := by decide
  bounded := by decide
  nents_le := by decide
  flags_lt := by decide
  length_pages := rfl
  page := by simp [untouchedPage]

/-- A pool of six frames, and variables that happen to hold zeros. -/
def chainMachine : Machine := ⟨fun _ => 0, frames 1 6, []⟩

def chainJunk : InitJunk := ⟨zeroJunk, zeroLocals, ⟨0, 0, 0⟩⟩

theorem chainJunk_ok : chainJunk.pgt.Ok where
  word := fun _ => Nat.two_pow_pos 64
  node := fun _ _ _ => by simp [chainJunk, zeroJunk]

theorem chainMachine_pool :
    PoolOk chainMachine.pool ∧ ∀ frame ∈ chainMachine.pool, frame < 2 ^ 48 := by
  refine ⟨poolOk_frames (by decide), ?_⟩
  decide

/-- The recording of the chain can be loaded with any pool that holds its four tables. -/
theorem pgtInput_frames {n : Nat} (hfour : 4 ≤ n) (hn : n < 2 ^ 20) :
    PgtInput (pageMem chainWord) ⟨4096 * 1, 0, 0⟩ (4096 * 1) 4 ⟨fun _ => 0, frames 1 n, []⟩ where
  written := laidOut_chain.written
  tree := laidOut_chain.nodup
  counter := ⟨Nat.le_of_eq laidOut_chain.length, by decide⟩
  setup := ⟨by decide, by decide, by decide⟩
  pool := poolOk_frames (by omega)
  room := by
    rw [laidOut_chain.length]
    show 4 ≤ (frames 1 n).length
    rw [length_frames_range]
    exact hfour

theorem pgtInput_chain :
    PgtInput (pageMem chainWord) ⟨4096 * 1, 0, 0⟩ (4096 * 1) 4 chainMachine :=
  pgtInput_frames (by decide) (by decide)

/-- The recording of the chain and of its first page sets up a replay, however it is
configured. -/
theorem chain_sets_up (config : GrConfig) :
    ∃ ctx, grMemInit config
      ⟨some (Bytes.words (pgtWords (pageMem chainWord) ⟨4096 * 1, 0, 0⟩ (4096 * 1) 4)),
        some (dump [untouchedPage]), some (Bytes.le 4 0), some []⟩ chainJunk chainMachine
        = .ok ctx := by
  refine grMemInit_recorded pgtInput_chain config [] chainJunk (by decide) ?_
    (List.pairwise_singleton ..) ?_ ⟨by decide, List.length_replicate⟩ rfl ?_
  · intro rec hrec
    rw [List.mem_singleton.mp hrec]
    exact wf_untouchedPage
  · intro rec hrec k hk
    rw [List.mem_singleton.mp hrec] at hk ⊢
    have hk0 : k = 0 := Nat.lt_one_iff.mp hk
    rw [hk0]
    exact ⟨_, leafPage_chain (by decide)⟩
  · rw [laidOut_chain.length]
    decide

theorem chain_recorded :
    PgtInput (pageMem chainWord) ⟨4096 * 1, 0, 0⟩ (4096 * 1) 4 chainMachine ∧
    ∃ ctx, grMemInit ⟨false, false⟩
      ⟨some (Bytes.words (pgtWords (pageMem chainWord) ⟨4096 * 1, 0, 0⟩ (4096 * 1) 4)),
        some (dump [untouchedPage]), some (Bytes.le 4 0), some []⟩ chainJunk chainMachine
        = .ok ctx :=
  ⟨pgtInput_chain, chain_sets_up ⟨false, false⟩⟩

theorem loadedPages_chain : loadedPages chainJunk.mc (dump [untouchedPage]) = [0, 0] := by
  rfl

end GpuReplay.Replayer
