/-
The checkpoint: every page of every region, in the space that was allocated for them.

Three functions have to agree.  `gr_mem_contents_init` counts the pages of the regions as it
makes them, in 32 bits; `gr_mem_init` allocates that many pages; and `gr_write_checkpoint`
copies the pages of all regions, one after the other, with a counter of its own that it also
compares with the count.  As long as the count has not wrapped, the counter reaches it exactly
at the end, and what it says before a page is the number of pages of the regions before.
-/
import GpuReplay.Proofs.Replay
import GpuReplay.Proofs.UsedAtom
import Mathlib.Data.List.Perm.Subperm

namespace GpuReplay.Replayer

open Stdio

/-! ### Blocks of one size -/

section Blocks

variable {α : Type} {g : α → List UInt8} {size : Nat} (hsize : ∀ a, (g a).length = size)

include hsize

theorem length_flatMap_block (as : List α) : (as.flatMap g).length = size * as.length := by
  induction as with
  | nil => rfl
  | cons a as ih =>
      rw [List.flatMap_cons, List.length_append, hsize, ih, List.length_cons, Nat.mul_succ,
        Nat.add_comm]

/-- Block `n` begins after `n` blocks. -/
theorem take_drop_flatMap_block {as : List α} {n : Nat} {a : α} (hn : as[n]? = some a) :
    ((as.flatMap g).drop (size * n)).take size = g a := by
  induction as generalizing n with
  | nil => cases hn
  | cons b as ih =>
      rw [List.flatMap_cons]
      cases n with
      | zero =>
          obtain rfl : b = a := Option.some.inj hn
          rw [Nat.mul_zero, List.drop_zero, List.take_left' (hsize b)]
      | succ n =>
          have hdrop : (g b ++ as.flatMap g).drop (size + size * n)
              = (as.flatMap g).drop (size * n) := by
            rw [← List.drop_drop, List.drop_left' (hsize b)]
          rw [Nat.mul_succ, Nat.add_comm, hdrop]
          exact ih hn

end Blocks

/-! ### The pages of the regions -/

/-- How many pages the regions have together. -/
def totalPages (regions : List Region) : Nat := (regions.map Region.nrPages).sum

theorem totalPages_append (rs rs' : List Region) :
    totalPages (rs ++ rs') = totalPages rs + totalPages rs' := by
  rw [totalPages, List.map_append, List.sum_append]
  rfl

theorem totalPages_cons (r : Region) (regions : List Region) :
    totalPages (r :: regions) = r.nrPages + totalPages regions := List.sum_cons

section Frames

variable {regions : List Region} (hlength : ∀ r ∈ regions, r.pages.length = r.nrPages)

include hlength

theorem length_frames : (regions.flatMap Region.pages).length = totalPages regions := by
  induction regions with
  | nil => rfl
  | cons r regions ih =>
      obtain ⟨hr, hrest⟩ := List.forall_mem_cons.mp hlength
      rw [List.flatMap_cons, List.length_append, ih hrest, hr, totalPages_cons]

/-- The pages of a region come after those of the regions before it. -/
theorem frames_getElem? {i j : Nat} {r : Region} (hr : regions[i]? = some r) (hj : j < r.nrPages) :
    (regions.flatMap Region.pages)[totalPages (regions.take i) + j]? = r.pages[j]? := by
  induction regions generalizing i with
  | nil => cases hr
  | cons r₀ regions ih =>
      obtain ⟨hr₀, hrest⟩ := List.forall_mem_cons.mp hlength
      rw [List.flatMap_cons]
      cases i with
      | zero =>
          obtain rfl : r₀ = r := Option.some.inj hr
          rw [List.take_zero, show totalPages [] + j = j from Nat.zero_add j]
          exact List.getElem?_append_left (hr₀.symm ▸ hj)
      | succ i =>
          rw [List.take_succ_cons, totalPages_cons, ← hr₀, Nat.add_assoc,
            List.getElem?_append_right (Nat.le_add_right _ _), Nat.add_sub_cancel_left]
          exact ih hrest hr

/-- The loops over the regions and over the pages of each are one loop over the frames. -/
theorem flatMap_pageAt :
    (regions.flatMap fun r => (List.range r.nrPages).map (pageAt r.pages))
      = (regions.flatMap Region.pages).map Except.ok := by
  induction regions with
  | nil => rfl
  | cons r regions ih =>
      obtain ⟨hr, hrest⟩ := List.forall_mem_cons.mp hlength
      rw [List.flatMap_cons, List.flatMap_cons, List.map_append, ih hrest, ← hr]
      refine congrArg (· ++ _) (List.ext_getElem? fun j => ?_)
      rw [List.getElem?_map, List.getElem?_map]
      by_cases hj : j < r.pages.length
      · rw [List.getElem?_range hj, List.getElem?_eq_getElem hj, Option.map_some, Option.map_some]
        unfold pageAt
        rw [List.getElem?_eq_getElem hj]
      · rw [List.getElem?_eq_none (by rw [List.length_range]; exact Nat.not_lt.mp hj),
          List.getElem?_eq_none (Nat.not_lt.mp hj)]
        rfl

end Frames

/-! ### The count -/

/-- Each turn adds the pages of the region it makes. -/
theorem initRegions_totNrPages {heap : List UserPgtable} {userPgt : UserPtr} :
    ∀ (n : Nat) (s s' : McState), s.totNrPages = totalPages s.regions % 2 ^ 32 →
      initRegions heap userPgt n s = .ok s' → s'.totNrPages = totalPages s'.regions % 2 ^ 32 := by
  intro n
  induction n with
  | zero =>
      intro s s' htot hrun
      rw [initRegions] at hrun
      split_ifs at hrun
      obtain rfl := Except.ok.inj hrun
      exact htot
  | succ n ih =>
      intro s s' htot hrun
      rw [initRegions] at hrun
      split_ifs at hrun
      · obtain rfl := Except.ok.inj hrun
        exact htot
      · obtain ⟨s₁, hregion, hrest⟩ := Except.bind_eq_ok.mp hrun
        refine ih s₁ s' ?_ hrest
        unfold initRegion at hregion
        generalize readHeader s.locals s.stream = header at hregion
        obtain ⟨l, f⟩ := header
        obtain ⟨⟨taken, pool⟩, -, hregion⟩ := Except.bind_eq_ok.mp hregion
        obtain ⟨p, -, hdone⟩ := Except.bind_eq_ok.mp hregion
        obtain rfl := Except.ok.inj hdone
        dsimp only
        rw [totalPages_append, htot, Nat.mod_add_mod]
        rfl

theorem SyncedOnly.totalPages {regions regions' : List Region} (h : SyncedOnly regions regions') :
    totalPages regions' = totalPages regions := by
  have hpages := congrArg (List.map Region.nrPages) h
  rw [List.map_map, List.map_map] at hpages
  exact congrArg List.sum hpages

/-- A context that is set up has been set up from files that were opened. -/
theorem grMemInit_files {config : GrConfig} {files : Files} {junk : InitJunk} {m : Machine}
    {ctx : ReplayContext} (hrun : grMemInit config files junk m = .ok ctx) :
    ∃ pgtFile mcFile sasFile,
      files = ⟨some pgtFile, some mcFile, some sasFile, files.snapshot⟩ := by
  obtain ⟨pgt, mc, sas, snapshot⟩ := files
  unfold grMemInit at hrun
  obtain ⟨pgtFile, hpgt, hrun⟩ := Except.bind_eq_ok.mp hrun
  obtain ⟨built, -, hrun⟩ := Except.bind_eq_ok.mp hrun
  obtain ⟨mcFile, hmc, hrun⟩ := Except.bind_eq_ok.mp hrun
  obtain ⟨loaded, -, hrun⟩ := Except.bind_eq_ok.mp hrun
  obtain ⟨sasFile, hsas, -⟩ := Except.bind_eq_ok.mp hrun
  have hopened : ∀ {e : Stop} {file : Option (List UInt8)} {bytes : List UInt8},
      openFile e file = .ok bytes → file = some bytes := by
    intro e file bytes hopen
    cases file with
    | none => cases hopen
    | some file => rw [Except.ok.inj hopen]
  obtain rfl : pgt = some pgtFile := hopened hpgt
  obtain rfl : mc = some mcFile := hopened hmc
  obtain rfl : sas = some sasFile := hopened hsas
  exact ⟨pgtFile, mcFile, sasFile, rfl⟩

/-- What `gr_mem_init` leaves for the checkpoints: the count of the regions' pages, cut to 32
bits, and space for as many where checkpoints are configured. -/
theorem grMemInit_provision {config : GrConfig} {files : Files} {junk : InitJunk} {m : Machine}
    {ctx : ReplayContext} (hrun : grMemInit config files junk m = .ok ctx) :
    ctx.totNrPages = totalPages ctx.regions % 2 ^ 32
      ∧ ctx.provision = if config.testCheckpoint then some (4096 * ctx.totNrPages) else none := by
  unfold grMemInit at hrun
  obtain ⟨pgtFile, -, hrun⟩ := Except.bind_eq_ok.mp hrun
  obtain ⟨pgt, -, hrun⟩ := Except.bind_eq_ok.mp hrun
  obtain ⟨mcFile, -, hrun⟩ := Except.bind_eq_ok.mp hrun
  obtain ⟨mc, hmc, hrun⟩ := Except.bind_eq_ok.mp hrun
  obtain ⟨sasFile, -, hrun⟩ := Except.bind_eq_ok.mp hrun
  obtain ⟨⟨sas, regions⟩, hsas, hrun⟩ := Except.bind_eq_ok.mp hrun
  obtain ⟨regFp, -, hdone⟩ := Except.bind_eq_ok.mp hrun
  obtain rfl := Except.ok.inj hdone
  refine ⟨?_, rfl⟩
  dsimp only
  rw [(readSyncAs_synced _ _ _ mc.regions (sas, regions) hsas).totalPages]
  exact initRegions_totNrPages nrVaRegion _ mc rfl hmc

/-- The regions have no more pages than the pool had frames. -/
theorem totalPages_le_pool {config : GrConfig} {files : Files} {junk : InitJunk} {m : Machine}
    {ctx : ReplayContext} (hpool : PoolOk m.pool) (hjunk : junk.pgt.Ok)
    (hrun : grMemInit config files junk m = .ok ctx) :
    totalPages ctx.regions ≤ m.pool.length := by
  have hok := grMemInit_pagesOk hpool hjunk hrun
  obtain ⟨pgtFile, mcFile, sasFile, hfiles⟩ := grMemInit_files hrun
  rw [hfiles] at hrun
  have hsubset : ctx.regions.flatMap Region.pages ⊆ m.pool := by
    intro f hf
    obtain ⟨r, hr, hin⟩ := List.mem_flatMap.mp hf
    exact (grMemInit_backed hrun r hr).frames f hin
  rw [← length_frames hok.length]
  exact (List.subperm_of_subset hok.nodup hsubset).length_le

/-! ### The copying -/

/-- **The loop over the pages**, as long as there is room for them: it writes the frames' pages
one after the other from the counter's place on. -/
theorem checkpointPages_eq {tot : Nat} (htot : tot < 2 ^ 32) :
    ∀ {frames : List Nat} {s : ReplayState} {space : List UInt8},
      s.provision = some space → space.length = 4096 * tot →
      s.nrWrittenPages + frames.length ≤ tot → (∀ f ∈ frames, f % 4096 = 0) →
      checkpointPages tot (frames.map Except.ok) s = .ok () { s with
        provision := some (Bytes.splice space (4096 * s.nrWrittenPages)
          (frames.flatMap fun f => s.mem.read f 4096))
        nrWrittenPages := s.nrWrittenPages + frames.length } := by
  intro frames
  induction frames with
  | nil =>
      intro s space hspace _ _ _
      rw [List.flatMap_nil, Bytes.splice_nil, ← hspace]
      rfl
  | cons f frames ih =>
      intro s space hspace hlen hroom haligned
      obtain ⟨hf, hrest⟩ := List.forall_mem_cons.mp haligned
      rw [List.length_cons] at hroom
      have hfull : ¬tot ≤ s.nrWrittenPages := by omega
      have hcount : (s.nrWrittenPages + 1) % 2 ^ 32 = s.nrWrittenPages + 1 :=
        Nat.mod_eq_of_lt (by omega)
      have hmap : ((Except.ok f : Except Stop Nat) >>= grMapPage) = .ok f :=
        if_neg (not_not.mpr hf)
      -- the state once this page is written
      obtain ⟨s₁, hs₁⟩ : ∃ s₁, s₁ = { s with
          provision := some (Bytes.splice space (4096 * s.nrWrittenPages) (s.mem.read f 4096))
          nrWrittenPages := s.nrWrittenPages + 1 } := ⟨_, rfl⟩
      have hpage : checkpointPage (.ok f) s = .ok () s₁ := by
        unfold checkpointPage
        rw [hmap, hs₁]
        dsimp only
        rw [hspace, Option.map_some, hcount, Nat.mul_comm s.nrWrittenPages]
      have hnext := @ih s₁ (Bytes.splice space (4096 * s.nrWrittenPages) (s.mem.read f 4096))
        (by rw [hs₁])
        (by rw [Bytes.length_splice (by rw [ByteMem.length_read]; omega), hlen])
        (by rw [hs₁]; show s.nrWrittenPages + 1 + frames.length ≤ tot; omega) hrest
      rw [List.map_cons, checkpointPages]
      refine EStateM.bind_eq_ok.mpr ⟨s, s, rfl, ?_⟩
      rw [onlyIf_false hfull]
      refine EStateM.bind_eq_ok.mpr ⟨(), s, rfl, ?_⟩
      refine EStateM.bind_eq_ok.mpr ⟨(), s₁, hpage, ?_⟩
      rw [hnext, hs₁]
      refine congrArg (EStateM.Result.ok ()) ?_
      have hjoin := @Bytes.splice_splice space (4096 * s.nrWrittenPages) (by omega)
        (s.mem.read f 4096) (frames.flatMap fun f => s.mem.read f 4096)
      rw [ByteMem.length_read] at hjoin
      dsimp only
      rw [Nat.mul_succ, hjoin, List.flatMap_cons, List.length_cons, Nat.add_assoc,
        Nat.add_comm 1]

/-- **The checkpoint is complete.**  For a context that `gr_mem_init` has set up for checkpoints,
from any files and with a count of pages that has not wrapped, each of the first two calls
returns from any state whose space is the one that was allocated, in which page `j` of region
`i` then lies behind the pages of the regions before and the `j` pages before it; of everything
else it changes only its counters. -/
theorem checkpoint_complete {files : Files} {junk : InitJunk} {m : Machine} {ctx : ReplayContext}
    {cfg : ReplayConfig} (hpool : ∀ frame ∈ m.pool, frame % 4096 = 0)
    (hinit : grMemInit cfg.toGrConfig files junk m = .ok ctx) (hconfig : cfg.testCheckpoint = true)
    (htotal : totalPages ctx.regions < 2 ^ 32) {s : ReplayState} (hcall : s.checkpoints < 2)
    (hspace : s.provision.map List.length = ctx.provision) :
    ∃ space : List UInt8,
      grWriteCheckpoint cfg ctx s = .ok () { s with
        checkpoints := s.checkpoints + 1
        provision := some space
        nrWrittenPages := ctx.totNrPages }
      ∧ some space.length = ctx.provision
      ∧ ctx.totNrPages = totalPages ctx.regions
      ∧ ∀ i j r, ctx.regions[i]? = some r → j < r.nrPages →
          ∃ page, r.pages[j]? = some page
            ∧ (space.drop (4096 * (totalPages (ctx.regions.take i) + j))).take 4096
              = s.mem.read page 4096 := by
  obtain ⟨htot, hprovision⟩ := grMemInit_provision hinit
  rw [Nat.mod_eq_of_lt htotal] at htot
  rw [hconfig, if_pos rfl] at hprovision
  obtain ⟨pgtFile, mcFile, sasFile, hfiles⟩ := grMemInit_files hinit
  rw [hfiles] at hinit
  have hbacked := grMemInit_backed hinit
  have hlength : ∀ r ∈ ctx.regions, r.pages.length = r.nrPages := fun r hr => (hbacked r hr).length
  have haligned : ∀ f ∈ ctx.regions.flatMap Region.pages, f % 4096 = 0 := by
    intro f hf
    obtain ⟨r, hr, hin⟩ := List.mem_flatMap.mp hf
    exact hpool f ((hbacked r hr).frames f hin)
  have hblock : ∀ f, (s.mem.read f 4096).length = 4096 := fun f => ByteMem.length_read ..
  have hcopied := length_flatMap_block hblock (ctx.regions.flatMap Region.pages)
  rw [length_frames hlength] at hcopied
  rw [hprovision] at hspace
  obtain ⟨space, hsome, hlen⟩ := Option.map_eq_some_iff.mp hspace
  refine ⟨(ctx.regions.flatMap Region.pages).flatMap fun f => s.mem.read f 4096, ?_, ?_, htot, ?_⟩
  · obtain ⟨s₁, hs₁⟩ : ∃ s₁, s₁ = { s with
        checkpoints := s.checkpoints + 1, nrWrittenPages := 0 } := ⟨_, rfl⟩
    have hrun := @checkpointPages_eq ctx.totNrPages (htot ▸ htotal)
      (ctx.regions.flatMap Region.pages) s₁ space (by rw [hs₁]; exact hsome) hlen
      (by rw [hs₁, length_frames hlength, htot]; exact Nat.le_of_eq (Nat.zero_add _)) haligned
    unfold grWriteCheckpoint
    refine EStateM.bind_eq_ok.mpr ⟨s, s, rfl, EStateM.bind_eq_ok.mpr ⟨(), _, rfl, ?_⟩⟩
    rw [onlyIf_true hcall, onlyIf_false (by rw [hconfig]; exact Bool.true_eq_false_eq_False.elim),
      onlyIf_false (by rw [hsome]; exact Bool.false_ne_true),
      Nat.mod_eq_of_lt (show s.checkpoints + 1 < 2 ^ 32 by omega)]
    refine EStateM.bind_eq_ok.mpr ⟨(), _, rfl, EStateM.bind_eq_ok.mpr ⟨(), _, rfl, ?_⟩⟩
    refine EStateM.bind_eq_ok.mpr ⟨(), s₁, by rw [hs₁]; rfl, ?_⟩
    rw [flatMap_pageAt hlength, hrun, hs₁, length_frames hlength, Nat.zero_add, htot, Nat.mul_zero,
      Bytes.splice_zero_of_length_le (by rw [hcopied, hlen, htot])]
  · rw [hcopied, hprovision, htot]
  · intro i j r hr hj
    have hmem : r ∈ ctx.regions := List.mem_of_getElem? hr
    have hin : j < r.pages.length := by rw [hlength r hmem]; exact hj
    have hframe := frames_getElem? hlength hr hj
    rw [List.getElem?_eq_getElem hin] at hframe
    exact ⟨_, List.getElem?_eq_getElem hin, take_drop_flatMap_block hblock hframe⟩

/-- A replay of the chain that takes checkpoints. -/
def checkpointConfig : ReplayConfig := ⟨⟨true, false⟩, 0, 1⟩

/-- Its first checkpoint. -/
theorem chain_checkpoint :
    ∃ ctx, grMemInit checkpointConfig.toGrConfig
      ⟨some (Bytes.words (pgtWords (pageMem chainWord) ⟨4096 * 1, 0, 0⟩ (4096 * 1) 4)),
        some (dump [untouchedPage]), some (Bytes.le 4 0), some []⟩ chainJunk chainMachine
        = .ok ctx ∧
      ∃ space s', grWriteCheckpoint checkpointConfig ctx
          { blankState with provision := some (List.replicate (4096 * ctx.totNrPages) 0) }
          = .ok () s'
        ∧ s'.provision = some space ∧ some space.length = ctx.provision
        ∧ s'.nrWrittenPages = ctx.totNrPages := by
  obtain ⟨ctx, hinit⟩ := chain_sets_up checkpointConfig.toGrConfig
  have htotal : totalPages ctx.regions < 2 ^ 32 :=
    Nat.lt_of_le_of_lt (totalPages_le_pool chainMachine_pool.1 chainJunk_ok hinit) (by decide)
  have hspace : (some (List.replicate (4096 * ctx.totNrPages) (0 : UInt8))).map List.length
      = ctx.provision := by
    rw [(grMemInit_provision hinit).2, Option.map_some, List.length_replicate]
    rfl
  obtain ⟨space, hrun, hlen, -⟩ := @checkpoint_complete _ chainJunk chainMachine ctx
    checkpointConfig chainMachine_pool.1.aligned hinit rfl htotal
    { blankState with provision := some (List.replicate (4096 * ctx.totNrPages) 0) }
    (show 0 < 2 by decide) hspace
  exact ⟨ctx, hinit, space, _, hrun, rfl, hlen, rfl⟩

end GpuReplay.Replayer
