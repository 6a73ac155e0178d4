/-
Growing the pool where something fails.

A null page is mapped before it is looked at, and a page that could not be mapped is unmapped
on its way back.  So `gr_mempool_grow` is safe only where nothing fails: `grMempoolGrow_safe_iff`.
-/
import GpuReplay.NanoDriver.PoolCalls
import GpuReplay.Proofs.Mempool

namespace GpuReplay.NanoDriver

/-- What the last `dma_map_page` of the page has returned, if it has been mapped. -/
def lastMapping (p : Option Nat) (calls : List PoolCall) : Option Nat :=
  calls.foldl (fun addr call =>
    match call with
    | .dmaMapPage q dmaAddr => if q = p then dmaAddr else addr
    | _ => addr) none

/-- The page of an answer, with its DMA address. -/
def AllocResult.mapped : AllocResult → Option (Node × Nat)
  | .page pfn (some dmaAddr) => some (.page pfn, dmaAddr)
  | _ => none

/-- The first failure is at page `j`. -/
def FailsAt (results : List AllocResult) (j : Nat) : Prop :=
  (∃ result, results[j]? = some result ∧ ¬result.Succeeds) ∧
    ∀ result ∈ results.take j, result.Succeeds

/-- The pool grows by as many pages as were asked for, or by those before the first failure, and
nothing is done to a page that is null or has not been mapped. -/
structure GrowSafe (results : List AllocResult) (pool : Mempool) : Prop where
  returns : ∃ ret pool', grMempoolGrow results pool = .ok (ret, pool') ∧
    (ret = 0 ↔ pool'.added.length = pool.added.length + results.length) ∧
    ∀ j, FailsAt results j → ret < 0 ∧
      pool'.added = ((results.take j).filterMap AllocResult.mapped).reverse ++ pool.added ∧
      pool'.curSize = pool.curSize + j ∧ pool'.totSize = pool.totSize + j
  not_null : ∀ call ∈ (grMempoolGrowLog results pool).calls, call.page ≠ none
  unmaps : ∀ before p after,
    (grMempoolGrowLog results pool).calls = before ++ .dmaUnmapPage p :: after →
      lastMapping p before ≠ none

/-! ### The calls -/

/-- The calls are those of the function. -/
theorem grMempoolGrowLog_result : ∀ (results : List AllocResult) (pool : Mempool),
    (grMempoolGrowLog results pool).result = grMempoolGrow results pool := by
  intro results
  induction results with
  | nil => exact fun _ => rfl
  | cons result results ih =>
      intro pool
      match result with
      | .null => rfl
      | .page pfn none => rfl
      | .page pfn (some dmaAddr) => exact ih _

/-- The calls for a page that is mapped. -/
def addCalls (pfn dmaAddr : Nat) : List PoolCall :=
  [.dmaMapPage (some pfn) (some dmaAddr), .setPagePrivate (some pfn), .add (some pfn)]

theorem calls_cons_mapped (pfn dmaAddr : Nat) (results : List AllocResult) (pool : Mempool) :
    ∃ pool', (grMempoolGrowLog (.page pfn (some dmaAddr) :: results) pool).calls =
      addCalls pfn dmaAddr ++ (grMempoolGrowLog results pool').calls :=
  ⟨_, rfl⟩

theorem AllocResult.exists_of_succeeds {result : AllocResult} (h : result.Succeeds) :
    ∃ pfn dmaAddr, result = .page pfn (some dmaAddr) := by
  match result, h with
  | .page pfn (some dmaAddr), _ => exact ⟨pfn, dmaAddr, rfl⟩

/-- Up to the first failure there are pages mapped and added. -/
theorem calls_append : ∀ (front : List AllocResult) (rest : List AllocResult) (pool : Mempool),
    (∀ result ∈ front, result.Succeeds) →
    ∃ before pool', (grMempoolGrowLog (front ++ rest) pool).calls =
        before ++ (grMempoolGrowLog rest pool').calls ∧
      ∀ call ∈ before, call.page ≠ none ∧ ∀ p, call ≠ .dmaUnmapPage p := by
  intro front
  induction front with
  | nil => exact fun rest pool _ => ⟨[], pool, rfl, fun _ hcall => absurd hcall List.not_mem_nil⟩
  | cons result front ih =>
      intro rest pool hfront
      obtain ⟨hresult, hothers⟩ := List.forall_mem_cons.mp hfront
      obtain ⟨pfn, dmaAddr, rfl⟩ := AllocResult.exists_of_succeeds hresult
      obtain ⟨pool₁, hcons⟩ := calls_cons_mapped pfn dmaAddr (front ++ rest) pool
      obtain ⟨before, pool', hcalls, hbefore⟩ := ih rest pool₁ hothers
      refine ⟨addCalls pfn dmaAddr ++ before, pool', ?_, fun call hcall => ?_⟩
      · rw [List.cons_append, hcons, hcalls, List.append_assoc]
      · rcases List.mem_append.mp hcall with hcall | hcall
        · simp only [addCalls, List.mem_cons, List.not_mem_nil, or_false] at hcall
          rcases hcall with rfl | rfl | rfl <;> simp [PoolCall.page]
        · exact hbefore call hcall

/-! ### What is safe -/

/-- Where nothing fails, all pages are added. -/
theorem grMempoolGrow_succeeds : ∀ {results : List AllocResult} (pool : Mempool),
    (∀ result ∈ results, result.Succeeds) →
    ∃ pool', grMempoolGrow results pool = .ok (0, pool') ∧
      pool'.added.length = pool.added.length + results.length := by
  intro results
  induction results with
  | nil => exact fun pool _ => ⟨pool, rfl, rfl⟩
  | cons result results ih =>
      intro pool hall
      obtain ⟨hresult, hothers⟩ := List.forall_mem_cons.mp hall
      obtain ⟨pfn, dmaAddr, rfl⟩ := AllocResult.exists_of_succeeds hresult
      obtain ⟨pool', hgrow, hadded⟩ := ih (grMempoolAdd { pool with
        live := pfn :: pool.live,
        private_ := Function.update pool.private_ (.page pfn) dmaAddr } (.page pfn)) hothers
      refine ⟨pool', hgrow, ?_⟩
      rw [hadded, List.length_cons]
      simp only [grMempoolAdd, List.length_cons]
      omega

theorem growSafe_of_succeeds {results : List AllocResult} (pool : Mempool)
    (hall : ∀ result ∈ results, result.Succeeds) : GrowSafe results pool := by
  obtain ⟨before, pool', hcalls, hbefore⟩ := calls_append results [] pool hall
  rw [List.append_nil, show (grMempoolGrowLog [] pool').calls = [] from rfl, List.append_nil] at hcalls
  obtain ⟨pool₁, hgrow, hadded⟩ := grMempoolGrow_succeeds pool hall
  refine ⟨⟨0, pool₁, hgrow, iff_of_true rfl hadded, ?_⟩, ?_, ?_⟩
  · rintro j ⟨⟨result, hj, hfails⟩, -⟩
    exact absurd (hall result (List.mem_of_getElem? hj)) hfails
  · exact fun call hcall => (hbefore call (hcalls ▸ hcall)).1
  · intro front p after hsplit
    have hmem : PoolCall.dmaUnmapPage p ∈ before := by
      rw [← hcalls, hsplit]
      exact List.mem_append_right _ List.mem_cons_self
    exact absurd rfl ((hbefore _ hmem).2 p)

/-- The first failure of those there are. -/
theorem exists_failsAt {results : List AllocResult}
    (h : ¬∀ result ∈ results, result.Succeeds) :
    ∃ front result rest, results = front ++ result :: rest ∧ ¬result.Succeeds ∧
      ∀ r ∈ front, r.Succeeds := by
  induction results with
  | nil => exact absurd (fun _ hr => absurd hr List.not_mem_nil) h
  | cons first results ih =>
      by_cases hfirst : first.Succeeds
      · obtain ⟨front, result, rest, rfl, hfails, hfront⟩ :=
          ih fun hall => h (List.forall_mem_cons.mpr ⟨hfirst, hall⟩)
        exact ⟨first :: front, result, rest, rfl, hfails, List.forall_mem_cons.mpr ⟨hfirst, hfront⟩⟩
      · exact ⟨[], first, results, rfl, hfirst, fun _ hr => absurd hr List.not_mem_nil⟩

/-- **Growing is safe** if and only if no page and no mapping fails. -/
theorem grMempoolGrow_safe_iff (results : List AllocResult) (pool : Mempool) :
    GrowSafe results pool ↔ ∀ result ∈ results, result.Succeeds := by
  refine ⟨fun h => ?_, growSafe_of_succeeds pool⟩
  by_contra hfails
  obtain ⟨front, result, rest, rfl, hresult, hfront⟩ := exists_failsAt hfails
  obtain ⟨before, pool', hcalls, -⟩ := calls_append front (result :: rest) pool hfront
  match result, hresult with
  | .page pfn (some dmaAddr), hresult => exact hresult trivial
  | .null, _ =>
      have hmem : PoolCall.dmaMapPage none none ∈
        (grMempoolGrowLog (front ++ .null :: rest) pool).calls := by
        rw [hcalls]
        exact List.mem_append_right _ List.mem_cons_self
      exact h.not_null _ hmem rfl
  | .page pfn none, _ =>
      have hsplit : (grMempoolGrowLog (front ++ .page pfn none :: rest) pool).calls =
          (before ++ [.dmaMapPage (some pfn) none]) ++
            .dmaUnmapPage (some pfn) :: [.freePages (some pfn)] := by
        rw [hcalls, List.append_assoc]
        rfl
      refine h.unmaps _ _ _ hsplit ?_
      rw [lastMapping, List.foldl_append]
      exact if_pos rfl

/-- The second page is null; the second page cannot be mapped. -/
theorem grow_unsafe_second :
    ¬GrowSafe [.page 1 (some 0x1000), .null] (grMempoolInit ⟨id, id⟩ fun _ => 0) ∧
      ¬GrowSafe [.page 1 (some 0x1000), .page 2 none] (grMempoolInit ⟨id, id⟩ fun _ => 0) := by
  constructor
  · intro h
    exact h.not_null (.dmaMapPage none none) (by decide) rfl
  · intro h
    exact h.unmaps [.dmaMapPage (some 1) (some 0x1000), .setPagePrivate (some 1), .add (some 1),
      .dmaMapPage (some 2) none] (some 2) [.freePages (some 2)] rfl (by decide)

end GpuReplay.NanoDriver
