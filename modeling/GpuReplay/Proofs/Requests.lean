/-
The pool as the replayer sees it, and the pool of the driver.

To the replayer the pool is a list of frames, of which it takes the first ones.  The driver has a
list of its own, that it takes from at the end it adds to, and a page is there only because it
has just been asked for.  The frames the replayer takes are those the driver hands out: of every
request the pages that the kernel gave last come first.
-/
import GpuReplay.NanoDriver.Requests
import GpuReplay.Proofs.Confinement
import GpuReplay.Proofs.PoolGrow
import GpuReplay.Proofs.Reset

namespace GpuReplay.NanoDriver

/-- The frame that was allocated and mapped. -/
def AllocResult.frame? : AllocResult → Option Nat
  | .page pfn (some _) => some pfn
  | _ => none

/-- The frames of some answers, the last one first. -/
def framesOf (results : List AllocResult) : List Nat := (results.filterMap (·.frame?)).reverse

/-- The addresses a request gets. -/
def PageRequest.pages (r : PageRequest) : List Nat := (framesOf r.results).map (· * 4096)

variable {wild : Option Node → Nat} {pool : Mempool} {ps us : List Node}

theorem framesOf_cons (pfn dmaAddr : Nat) (results : List AllocResult) :
    framesOf (.page pfn (some dmaAddr) :: results) = framesOf results ++ [pfn] := by
  simp [framesOf, AllocResult.frame?]

theorem length_framesOf {results : List AllocResult} (hok : ∀ r ∈ results, r.Succeeds) :
    (framesOf results).length = results.length := by
  induction results with
  | nil => rfl
  | cons result results ih =>
      obtain ⟨pfn, dmaAddr, rfl⟩ := AllocResult.exists_of_succeeds (hok result List.mem_cons_self)
      rw [framesOf_cons, List.length_append, ih fun r hr => hok r (List.mem_cons_of_mem _ hr)]
      rfl

/-! ### Fresh pages -/

theorem Fresh.anti {results : List AllocResult} :
    ∀ {live live' : List Nat}, (∀ pfn ∈ live', pfn ∈ live) → Fresh live results →
      Fresh live' results := by
  induction results with
  | nil => exact fun _ _ => trivial
  | cons result results ih =>
      intro live live' hsub h
      cases result with
      | null => exact trivial
      | page pfn dmaAddr =>
          cases dmaAddr with
          | none => exact fun hmem => h (hsub pfn hmem)
          | some dmaAddr =>
              refine ⟨fun hmem => h.1 (hsub pfn hmem), ih (fun x hx => ?_) h.2⟩
              rcases List.mem_cons.mp hx with rfl | hx
              · exact List.mem_cons_self
              · exact List.mem_cons_of_mem _ (hsub x hx)

theorem fresh_append {results rest : List AllocResult} :
    ∀ {live : List Nat}, Fresh live (results ++ rest) → (∀ r ∈ results, r.Succeeds) →
      Fresh live results ∧ Fresh (framesOf results ++ live) rest := by
  induction results with
  | nil => exact fun h _ => ⟨trivial, h⟩
  | cons result results ih =>
      intro live h hok
      obtain ⟨pfn, dmaAddr, rfl⟩ := AllocResult.exists_of_succeeds (hok result List.mem_cons_self)
      obtain ⟨hnew, hmore⟩ := h
      obtain ⟨hfront, hrest⟩ := ih hmore fun r hr => hok r (List.mem_cons_of_mem _ hr)
      refine ⟨⟨hnew, hfront⟩, ?_⟩
      rw [framesOf_cons, List.append_assoc]
      exact hrest

theorem PoolInv.mem_live (h : PoolInv wild pool ps us) {pfn : Nat} :
    pfn ∈ pool.live ↔ Node.page pfn ∈ ps ++ us := by
  rw [h.live]
  constructor
  · exact fun hpfn => ⟨pfn, hpfn, rfl⟩
  · rintro ⟨pfn', hpfn', heq⟩
    rwa [Node.page.inj heq]

/-! ### One request -/

/-- **Growing**, with the pages it comes to. -/
theorem PoolInv.grow_frames {results : List AllocResult} :
    ∀ {pool : Mempool} {ps : List Node}, PoolInv wild pool ps us → Fresh pool.live results →
      (∀ r ∈ results, r.Succeeds) → ∃ pool', grMempoolGrow results pool = .ok (0, pool') ∧
        PoolInv wild pool' ((framesOf results).map Node.page ++ ps) us := by
  induction results with
  | nil => exact fun h _ _ => ⟨_, rfl, h⟩
  | cons result results ih =>
      intro pool ps h hfresh hok
      obtain ⟨pfn, dmaAddr, rfl⟩ := AllocResult.exists_of_succeeds (hok result List.mem_cons_self)
      obtain ⟨hnew, hrest⟩ := hfresh
      obtain ⟨pool', hgrow, hinv⟩ := ih (h.add hnew dmaAddr) hrest
        fun r hr => hok r (List.mem_cons_of_mem _ hr)
      refine ⟨pool', hgrow, ?_⟩
      rw [framesOf_cons, List.map_append, List.append_assoc]
      exact hinv

/-- **Taking all the pages**, with the addresses that are stored. -/
theorem PoolInv.getPages_all :
    ∀ {ps : List Node} {pool : Mempool} {us : List Node}, PoolInv wild pool ps us →
      ∃ pool', getPagesLoop wild ps.length pool
          = (ps.map fun p => pageToPhys wild (some p), pool') ∧
        PoolInv wild pool' [] (ps.reverse ++ us) := by
  intro ps
  induction ps with
  | nil => exact fun h => ⟨_, rfl, h⟩
  | cons p ps ih =>
      intro pool us h
      obtain ⟨pool₁, hremove, -, hinv⟩ := h.remove
      obtain ⟨pool', hloop, hinv'⟩ := ih hinv
      refine ⟨pool', ?_, ?_⟩
      · rw [List.length_cons]
        unfold getPagesLoop grMempoolAlloc
        rw [hremove]
        dsimp only
        rw [hloop]
        rfl
      · rw [List.reverse_cons, List.append_assoc]
        exact hinv'

/-- The kernel has the pages, and the driver counts them right. -/
structure PageRequest.Granted (live : List Nat) (r : PageRequest) : Prop where
  fresh : Fresh live r.results
  succeeds : ∀ result ∈ r.results, result.Succeeds
  few : r.results.length ≤ 2 ^ 31

/-- **One request** gets its pages, and leaves none in the pool. -/
theorem PoolInv.request (h : PoolInv wild pool [] us) {r : PageRequest}
    (hr : r.Granted pool.live) : ∃ pool', ioctls wild r.ops pool = .ok (r.pages, pool') ∧
      PoolInv wild pool' [] (((framesOf r.results).map Node.page).reverse ++ us) := by
  obtain ⟨pool₁, hgrow, hinv⟩ := h.grow_frames hr.fresh hr.succeeds
  rw [List.append_nil] at hinv
  obtain ⟨pool', hloop, hinv'⟩ := hinv.getPages_all
  have hlength : ((framesOf r.results).map Node.page).length = r.results.length := by
    rw [List.length_map, length_framesOf hr.succeeds]
  have hpages : ((framesOf r.results).map Node.page).map (fun p => pageToPhys wild (some p))
      = r.pages := by
    rw [List.map_map]
    rfl
  rw [hlength, hpages] at hloop
  refine ⟨pool', ?_, hinv'⟩
  cases r with
  | single result =>
      have hone : getPagesLoop wild 1 pool₁ = (PageRequest.pages (.single result), pool') := hloop
      simp [PageRequest.ops, ioctls, grIoctl, show grMempoolGrow [result] pool = .ok (0, pool₁)
        from hgrow, hone]
  | region results =>
      have hturns : getPagesTurns results.length = results.length := if_pos hr.few
      have hall : getPagesLoop wild results.length pool₁
          = (PageRequest.pages (.region results), pool') := hloop
      simp [PageRequest.ops, ioctls, grIoctl, show grMempoolGrow results pool = .ok (0, pool₁)
        from hgrow, hturns, hall]

/-! ### All requests -/

/-- The kernel has the pages for all of them. -/
structure AllGranted (live : List Nat) (rs : List PageRequest) : Prop where
  fresh : Fresh live (rs.flatMap PageRequest.results)
  succeeds : ∀ r ∈ rs, ∀ result ∈ r.results, result.Succeeds
  few : ∀ r ∈ rs, r.results.length ≤ 2 ^ 31

/-- **Every request gets its pages**, and all that have been handed out are still allocated. -/
theorem PoolInv.serve {rs : List PageRequest} :
    ∀ {pool : Mempool} {us : List Node}, PoolInv wild pool [] us → AllGranted pool.live rs →
      ∃ pool' us', NanoDriver.serve wild rs pool = .ok (rs.map PageRequest.pages, pool') ∧
        PoolInv wild pool' [] us' ∧
        pool'.stored = (rs.flatMap PageRequest.pages).reverse ++ pool.stored := by
  induction rs with
  | nil => exact fun h _ => ⟨_, _, rfl, h, rfl⟩
  | cons r rs ih =>
      intro pool us h hgranted
      have hfresh := hgranted.fresh
      rw [List.flatMap_cons] at hfresh
      have hok := hgranted.succeeds r List.mem_cons_self
      obtain ⟨hfront, hrest⟩ := fresh_append hfresh hok
      obtain ⟨pool₁, hone, hinv⟩ := h.request ⟨hfront, hok, hgranted.few r List.mem_cons_self⟩
      have hlive : ∀ pfn ∈ pool₁.live, pfn ∈ framesOf r.results ++ pool.live := by
        intro pfn hpfn
        have hmem := hinv.mem_live.mp hpfn
        rw [List.nil_append] at hmem
        rcases List.mem_append.mp hmem with hmem | hmem
        · obtain ⟨pfn', hpfn', heq⟩ := List.mem_map.mp (List.mem_reverse.mp hmem)
          exact List.mem_append_left _ (Node.page.inj heq ▸ hpfn')
        · exact List.mem_append_right _ (h.mem_live.mpr hmem)
      obtain ⟨pool', us', hall, hinv', hstored⟩ := ih hinv
        ⟨hrest.anti hlive, fun r' hr' => hgranted.succeeds r' (List.mem_cons_of_mem _ hr'),
          fun r' hr' => hgranted.few r' (List.mem_cons_of_mem _ hr')⟩
      refine ⟨pool', us', ?_, hinv', ?_⟩
      · simp [NanoDriver.serve, hone, hall]
      · have hsame : pool₁.stored = r.pages.reverse ++ pool.stored := by
          rw [hinv.stored, h.stored, List.map_append, List.map_reverse, List.map_map]
          rfl
        rw [hstored, hsame]
        simp

/-! ### What `gr_mem_init` is given -/

open Replayer

/-- The requests of a `gr_mem_init` that has set up the context: a page for each table, then the
pages of each region. -/
structure AskedBy (ctx : ReplayContext) (singles : List AllocResult)
    (regionals : List (List AllocResult)) : Prop where
  tables : singles.length = (preorder ctx.machine.mem 3 ctx.newTranstab).length
  regions : regionals.map List.length = ctx.regions.map Region.nrPages

/-- The two kinds of requests, one after the other. -/
def requestsOf (singles : List AllocResult) (regionals : List (List AllocResult)) :
    List PageRequest := singles.map .single ++ regionals.map .region

/-- What has been handed out is a pool for the replayer. -/
theorem PoolInv.poolOk {rs : List PageRequest} (h : PoolInv wild pool [] us)
    (hstored : pool.stored = (rs.flatMap PageRequest.pages).reverse)
    (hlt : ∀ r ∈ rs, ∀ page ∈ r.pages, page < 2 ^ 48) : PoolOk (rs.flatMap PageRequest.pages) where
  aligned := fun page hpage => by
    rw [← List.mem_reverse, ← hstored] at hpage
    obtain ⟨pfn, -, rfl⟩ := h.stored_live hpage
    exact Nat.mul_mod_left pfn 4096
  bounded := fun page hpage => by
    obtain ⟨r, hr, hpage⟩ := List.mem_flatMap.mp hpage
    exact Nat.lt_of_lt_of_le (hlt r hr page hpage) (by decide)
  nodup := by
    have hnodup := h.stored_nodup
    rw [hstored] at hnodup
    exact List.nodup_reverse.mp hnodup

/-- Lists cut at the same places are the same. -/
theorem chunks_eq {α : Type} {as bs : List (List α)} {rest : List α}
    (hflat : as.flatten = bs.flatten ++ rest) (hlength : as.map List.length = bs.map List.length) :
    as = bs := by
  have hsum : as.flatten.length = bs.flatten.length := by
    rw [List.length_flatten, List.length_flatten, hlength]
  have hrest : rest = [] := by
    rw [hflat, List.length_append] at hsum
    exact List.eq_nil_of_length_eq_zero (by omega)
  rw [hrest, List.append_nil] at hflat
  exact List.eq_iff_flatten_eq.mpr ⟨hflat, hlength⟩

theorem AskedBy.lengths {ctx : ReplayContext} {singles : List AllocResult}
    {regionals : List (List AllocResult)} (h : AskedBy ctx singles regionals)
    (hgranted : AllGranted [] (requestsOf singles regionals))
    (hpages : ∀ r ∈ ctx.regions, r.pages.length = r.nrPages) :
    ((requestsOf singles regionals).map PageRequest.pages).map List.length
      = ((preorder ctx.machine.mem 3 ctx.newTranstab).map ([·]) ++
          ctx.regions.map Region.pages).map List.length := by
  have hlength : ∀ r ∈ requestsOf singles regionals, r.pages.length = r.results.length :=
    fun r hr => by
      rw [PageRequest.pages, List.length_map]
      exact length_framesOf (hgranted.succeeds r hr)
  have hleft : ((requestsOf singles regionals).map PageRequest.pages).map List.length
      = (requestsOf singles regionals).map fun r => r.results.length := by
    rw [List.map_map]
    exact List.map_congr_left hlength
  have hregions : ctx.regions.map (fun r => r.pages.length) = ctx.regions.map Region.nrPages :=
    List.map_congr_left hpages
  rw [hleft, requestsOf, List.map_append, List.map_append, List.map_map, List.map_map,
    List.map_map, List.map_map]
  congr 1
  · have hones : ∀ (as : List AllocResult) (ps : List Nat), as.length = ps.length →
        as.map (fun _ => 1) = ps.map fun _ => 1 := by
      intro as ps hlen
      rw [List.map_const', List.map_const', hlen]
    exact hones singles _ h.tables
  · exact h.regions.trans hregions.symm

/-- **The replayer's pool is the driver's.**  A `gr_mem_init` that takes its pages from a list of
what the kernel gives has its tables and regions on the pages that the ioctls hand out, request by
request, on a pool that has just been set up.  They are all different, and still allocated when
the last one has been handed out. -/
theorem gr_mem_init_served {singles : List AllocResult} {regionals : List (List AllocResult)}
    {links : LinkedList.Links Node} {private_ : Node → Nat} {config : GrConfig}
    {pgtFile mcFile sasFile : List UInt8} {snapshot : Option (List UInt8)} {junk : InitJunk}
    {m : Machine} {ctx : ReplayContext}
    (hgranted : AllGranted [] (requestsOf singles regionals))
    (hlt : ∀ r ∈ requestsOf singles regionals, ∀ page ∈ r.pages, page < 2 ^ 48)
    (hjunk : junk.pgt.Ok)
    (hpool : m.pool = (requestsOf singles regionals).flatMap PageRequest.pages)
    (hrun : grMemInit config ⟨some pgtFile, some mcFile, some sasFile, snapshot⟩ junk m = .ok ctx)
    (hasked : AskedBy ctx singles regionals) :
    ∃ pool', serve wild (requestsOf singles regionals) (grMempoolInit links private_)
        = .ok ((preorder ctx.machine.mem 3 ctx.newTranstab).map ([·]) ++
            ctx.regions.map Region.pages, pool') ∧
      m.pool.Nodup ∧ ∀ page ∈ m.pool, page % 4096 = 0 ∧ page / 4096 ∈ pool'.live := by
  have hinit := poolInv_init wild links private_
  have hlive : (grMempoolInit links private_).live = [] := rfl
  obtain ⟨pool', us', hserve, hinv, hstored⟩ := hinit.serve (hlive ▸ hgranted)
  have hstored' : pool'.stored
      = ((requestsOf singles regionals).flatMap PageRequest.pages).reverse := by
    rw [hstored]
    exact List.append_nil _
  have hok := hinv.poolOk hstored' hlt
  rw [← hpool] at hok
  have hlt' : ∀ page ∈ m.pool, page < 2 ^ 48 := fun page hpage => by
    rw [hpool] at hpage
    obtain ⟨r, hr, hpage⟩ := List.mem_flatMap.mp hpage
    exact hlt r hr page hpage
  have hlayout := (grMemInit_layout hok hlt' hjunk hrun).pool
  have hpagesOk := grMemInit_pagesOk hok hjunk hrun
  have hsame : (requestsOf singles regionals).map PageRequest.pages
      = (preorder ctx.machine.mem 3 ctx.newTranstab).map ([·]) ++ ctx.regions.map Region.pages := by
    have hflat : ((requestsOf singles regionals).map PageRequest.pages).flatten
        = ((preorder ctx.machine.mem 3 ctx.newTranstab).map ([·]) ++
            ctx.regions.map Region.pages).flatten ++ ctx.machine.pool := by
      rw [← List.flatMap_def, ← hpool, hlayout, List.flatten_append, ← List.flatMap_def,
        ← List.flatMap_def, List.append_assoc, List.flatMap_singleton']
    exact chunks_eq hflat (hasked.lengths hgranted hpagesOk.length)
  refine ⟨pool', by rw [hserve, hsame], hok.nodup, fun page hpage => ⟨hok.aligned page hpage, ?_⟩⟩
  have hmem : page ∈ pool'.stored := by
    rw [hstored', List.mem_reverse, ← hpool]
    exact hpage
  obtain ⟨pfn, hpfn, rfl⟩ := hinv.stored_live hmem
  rwa [Nat.mul_div_cancel pfn (by decide)]

/-- Four tables, and the page of a region that is loaded twice. -/
def chainSingles : List AllocResult := [1, 2, 3, 4].map fun pfn => .page pfn (some (4096 * pfn))

def chainRegionals : List (List AllocResult) :=
  [[.page 5 (some 20480)], [.page 6 (some 24576)]]

theorem chain_granted : AllGranted [] (requestsOf chainSingles chainRegionals) where
  fresh := by simp [requestsOf, chainSingles, chainRegionals, PageRequest.results, Fresh]
  succeeds := by
    simp [requestsOf, chainSingles, chainRegionals, PageRequest.results, AllocResult.Succeeds]
  few := by simp [requestsOf, chainSingles, chainRegionals, PageRequest.results]

theorem chain_asked {ctx : ReplayContext}
    (h : ResetInput ⟨false, false⟩
      (Bytes.words (pgtWords (pageMem chainWord) ⟨4096 * 1, 0, 0⟩ (4096 * 1) 4)) (Bytes.le 4 0)
      (some []) chainJunk chainMachine [untouchedPage] ctx) :
    AskedBy ctx chainSingles chainRegionals where
  tables := by
    obtain ⟨pgt, tables, k, hpgt, -, -, -, hroot, hpatched⟩ :=
      grMemInit_patched h.pool h.lt h.fits h.run
    obtain ⟨pgt', hpgt', hr⟩ := grPgtInit_complete pgtInput_chain chainJunk.pgt
    obtain rfl : pgt' = pgt := Except.ok.inj (hpgt'.symm.trans hpgt)
    rw [hroot, ← pages_eq_preorder, hpatched.upper.pages_eq, pages_eq_preorder, hr.frames,
      laidOut_chain.length]
    rfl
  regions := by
    obtain ⟨start, base, dup, orig, hloaded⟩ := grMemInit_loaded h
    obtain ⟨rs, r, hregions, hbase, hdup⟩ := hloaded.regions
    have hrecords := hloaded.records
    have hlast := hloaded.last
    obtain ⟨i, rfl⟩ := hdup
    cases hbase with
    | nil => cases hrecords
    | cons hmade hrest =>
        obtain ⟨j, rfl⟩ := hmade
        cases hrest with
        | cons _ _ => simp at hrecords
        | nil =>
            have hone : _ = untouchedPage := List.singleton_injective hrecords
            have htwo : untouchedPage = dup.record := Option.some.inj hlast
            rw [hregions]
            simp [Placed.region, hone, ← htwo, chainRegionals, untouchedPage]

/-- Six requests, and what they get. -/
theorem gr_mem_init_served_chain :
    ∃ (ctx : ReplayContext) (pool' : Mempool),
      serve nullAtZero (requestsOf chainSingles chainRegionals) clearedPool
      = .ok ((preorder ctx.machine.mem 3 ctx.newTranstab).map ([·]) ++
          ctx.regions.map Region.pages, pool') ∧ ctx.regions.length = 2 := by
  obtain ⟨ctx, h⟩ := resetInput_chain wf_untouchedPage (by decide) (Nat.le_refl 1)
  have hasked := chain_asked h
  obtain ⟨pool', hserve, -⟩ := gr_mem_init_served chain_granted (by decide) h.fits (by decide)
    h.run hasked
  refine ⟨ctx, pool', hserve, ?_⟩
  have hlength := congrArg List.length hasked.regions
  rw [List.length_map, List.length_map] at hlength
  exact hlength.symm

end GpuReplay.NanoDriver
