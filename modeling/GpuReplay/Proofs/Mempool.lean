/-
The page pool, from `GR_MEMPOOL_INIT` to `GR_MEMPOOL_TERM`.

As long as every allocation succeeds and no more pages are asked for than are pooled, the
two lists are what the operations mean them to be, `PoolInv`.

`gr_mempool_term` frees the pages of both lists.  Those still in `page_list` it takes with
`gr_mempool_remove`, which has put them into `used_list` already, and links them into another
list over that.  The head of `used_list` is left pointing to the last of them; once freed, that
page is linked to itself, and the loop over `used_list` frees it for ever.
-/
import GpuReplay.Lib.Run
import GpuReplay.NanoDriver.Mempool
import Mathlib.Data.List.Nodup

namespace GpuReplay.NanoDriver

open LinkedList

/-- The lists hold the pages added so far, each in one of them. -/
structure PoolLists (pool : Mempool) (ps us : List Node) : Prop where
  pageList : IsList pool.links .pageList ps
  usedList : IsList pool.links .usedList us
  nodup : (ps ++ us).Nodup
  curSize : pool.curSize = ps.length
  added : (ps ++ us).Perm (pool.added.map Prod.fst)

/-- The pool is torn down in finitely many steps, and every page added is unmapped, at the
address it was mapped at, and freed once. -/
def TermFrees (pool : Mempool) : Prop :=
  ∃ fuel pool' freed, grMempoolTerm fuel pool = some pool' ∧
    pool'.freed = freed ++ pool.freed ∧ freed.Perm pool.added

/-! ### The conditions of a run -/

/-- `alloc_pages` and `dma_map_page` succeed. -/
def AllocResult.Succeeds : AllocResult → Prop
  | .page _ (some _) => True
  | _ => False

/-- `alloc_pages` does not return a page that it has not got back. -/
def Fresh : List Nat → List AllocResult → Prop
  | _, [] => True
  | _, .null :: _ => True
  | live, .page pfn none :: _ => pfn ∉ live
  | live, .page pfn (some _) :: results => pfn ∉ live ∧ Fresh (pfn :: live) results

def MempoolOp.results : MempoolOp → List AllocResult
  | .getPage result => [result]
  | .grow results => results
  | .getPages _ => []

/-- No more pages are asked for than are pooled. -/
def MempoolOp.Within (pool : Mempool) : MempoolOp → Prop
  | .getPages nrPages => nrPages ≤ pool.curSize
  | _ => True

/-- Every allocation succeeds and no request exceeds the pool. -/
structure Supplied (pool : Mempool) (op : MempoolOp) : Prop where
  fresh : Fresh pool.live op.results
  succeeds : ∀ result ∈ op.results, result.Succeeds
  within : op.Within pool

/-- The pools of runs of which this holds. -/
def PoolReached (wild : Option Node → Nat) (pool : Mempool) : Prop :=
  Reached (mempoolStep wild) (fun pool => ∃ junk private_, pool = grMempoolInit junk private_)
    Supplied pool

/-! ### The invariant -/

/-- What the operations keep. -/
structure PoolInv (wild : Option Node → Nat) (pool : Mempool) (ps us : List Node) : Prop
    extends PoolLists pool ps us where
  live : ∀ p, p ∈ ps ++ us ↔ ∃ pfn ∈ pool.live, p = .page pfn
  dma : ∀ e ∈ pool.added, pool.private_ e.1 = e.2
  stored : pool.stored = us.map fun p => pageToPhys wild (some p)

variable {wild : Option Node → Nat} {pool : Mempool} {ps us : List Node} {p : Node}

theorem PoolInv.isPage (h : PoolInv wild pool ps us) (hp : p ∈ ps ++ us) :
    ∃ pfn, p = .page pfn := by
  obtain ⟨pfn, -, heq⟩ := (h.live p).mp hp
  exact ⟨pfn, heq⟩

theorem poolInv_init (wild : Option Node → Nat) (junk : Links Node) (private_ : Node → Nat) :
    PoolInv wild (grMempoolInit junk private_) [] [] where
  pageList := (isList_initListHead junk Node.pageList).frame
    (frame_initListHead _ Node.usedList) (by simp)
  usedList := isList_initListHead (initListHead junk .pageList) Node.usedList
  nodup := List.nodup_nil
  curSize := rfl
  added := List.Perm.nil
  live := by simp [grMempoolInit]
  dma := by simp [grMempoolInit]
  stored := rfl

/-- A page taken from `alloc_pages` is added. -/
theorem PoolInv.add (h : PoolInv wild pool ps us) {pfn : Nat} (hfresh : pfn ∉ pool.live)
    (dmaAddr : Nat) :
    PoolInv wild (grMempoolAdd { pool with
        live := pfn :: pool.live,
        private_ := Function.update pool.private_ (.page pfn) dmaAddr } (.page pfn))
      (.page pfn :: ps) us := by
  have hnew : Node.page pfn ∉ ps ++ us := by
    intro hmem
    obtain ⟨pfn', hlive, heq⟩ := (h.live _).mp hmem
    exact hfresh (Node.page.inj heq ▸ hlive)
  have hps : Node.page pfn ∉ ps := fun hmem => hnew (List.mem_append_left us hmem)
  have hus : Node.page pfn ∉ us := fun hmem => hnew (List.mem_append_right ps hmem)
  have hdisjoint := List.nodup_append.mp h.nodup
  refine { pageList := h.pageList.listAdd (by simpa using hps), usedList := ?_, nodup := ?_,
           curSize := congrArg (· + 1) h.curSize, added := ?_, live := ?_, dma := ?_,
           stored := h.stored }
  · refine h.usedList.frame (h.pageList.frame_listAdd (.page pfn)) ?_
    intro z hz hmem
    simp only [List.mem_cons] at hz hmem
    rcases hz with rfl | hz
    · obtain ⟨pfn', heq⟩ := h.isPage (List.mem_append_left us (by simpa using hmem))
      cases heq
    · rcases hmem with rfl | rfl | hmem
      · exact hus hz
      · obtain ⟨pfn', heq⟩ := h.isPage (List.mem_append_right ps hz)
        cases heq
      · exact hdisjoint.2.2 z hmem z hz rfl
  · rw [List.cons_append, List.nodup_cons]
    exact ⟨hnew, h.nodup⟩
  · simpa [grMempoolAdd] using h.added
  · intro q
    rw [List.cons_append, List.mem_cons, h.live]
    simp [grMempoolAdd]
  · intro e he
    simp only [grMempoolAdd, List.mem_cons] at he ⊢
    rcases he with rfl | he
    · rfl
    · have hmem : e.1 ∈ ps ++ us := h.added.mem_iff.mpr (List.mem_map_of_mem he)
      have hne : e.1 ≠ .page pfn := fun heq => hnew (heq ▸ hmem)
      rw [Function.update_of_ne hne]
      exact h.dma e he

/-- **Growing**, when every allocation succeeds. -/
theorem PoolInv.grow : ∀ {results : List AllocResult} {pool : Mempool} {ps : List Node},
    PoolInv wild pool ps us → Fresh pool.live results → (∀ r ∈ results, r.Succeeds) →
    ∃ pool' ps', grMempoolGrow results pool = .ok (0, pool') ∧ PoolInv wild pool' ps' us ∧
      pool'.curSize = pool.curSize + results.length := by
  intro results
  induction results with
  | nil => exact fun h _ _ => ⟨_, _, rfl, h, rfl⟩
  | cons result results ih =>
      intro pool ps h hfresh hok
      have hresult := hok result List.mem_cons_self
      match result, hresult with
      | .page pfn (some dmaAddr), _ =>
          obtain ⟨hnew, hrest⟩ := hfresh
          obtain ⟨pool', ps', hgrow, hinv, hsize⟩ := ih (h.add hnew dmaAddr) hrest
            fun r hr => hok r (List.mem_cons_of_mem _ hr)
          refine ⟨pool', ps', hgrow, hinv, ?_⟩
          rw [hsize, List.length_cons]
          simp only [grMempoolAdd]
          omega

/-- **Taking a page.** -/
theorem PoolInv.remove (h : PoolInv wild pool (p :: ps) us) :
    ∃ pool', grMempoolRemove pool = (some p, pool') ∧ pool'.curSize = ps.length ∧
      PoolInv wild { pool' with stored := pageToPhys wild (some p) :: pool'.stored } ps (p :: us) := by
  have hfirst := h.pageList.next_cons
  have hempty : grMempoolIsEmpty pool = false := by simp [grMempoolIsEmpty, h.curSize]
  have hperm : (ps ++ p :: us).Perm (p :: ps ++ us) := List.perm_middle
  have hnodup := h.nodup
  simp only [List.cons_append, List.nodup_cons, List.mem_append, not_or] at hnodup
  obtain ⟨⟨hps, hus⟩, hboth⟩ := hnodup
  have hdisjoint := (List.nodup_append.mp hboth).2.2
  have hpage : ∀ z, z ∈ ps ∨ z ∈ us ∨ z = p → ∃ pfn, z = .page pfn := by
    rintro z (hz | hz | rfl)
    · exact h.isPage (List.mem_append_left us (List.mem_cons_of_mem p hz))
    · exact h.isPage (List.mem_append_right _ hz)
    · exact h.isPage (List.mem_append_left us List.mem_cons_self)
  have hhead : ∀ z, z ∈ ps ∨ z ∈ us ∨ z = p → z ≠ .pageList ∧ z ≠ .usedList := by
    intro z hz
    obtain ⟨pfn, rfl⟩ := hpage z hz
    exact ⟨Node.noConfusion, Node.noConfusion⟩
  have hdel := h.pageList.listDelInit.1
  have hframe := h.pageList.frame_listDelInit
  have hused : IsList (listDelInit pool.links p) .usedList us := by
    refine h.usedList.frame hframe ?_
    intro z hz hmem
    simp only [List.mem_cons] at hz hmem
    rcases hz with rfl | hz
    · rcases hmem with heq | heq | hmem
      · exact Node.noConfusion heq
      · exact (hhead p (Or.inr (Or.inr rfl))).2 heq.symm
      · exact (hhead _ (Or.inl hmem)).2 rfl
    · rcases hmem with rfl | rfl | hmem
      · exact (hhead _ (Or.inr (Or.inl hz))).1 rfl
      · exact hus hz
      · exact hdisjoint z hmem z hz rfl
  have hnew : p ∉ Node.usedList :: us := by
    rw [List.mem_cons, not_or]
    exact ⟨(hhead p (Or.inr (Or.inr rfl))).2, hus⟩
  refine ⟨{ pool with links := listAdd (listDelInit pool.links p) p .usedList,
                      curSize := pool.curSize - 1 }, ?_, ?_, ?_⟩
  · unfold grMempoolRemove
    rw [hempty, if_neg Bool.false_ne_true]
    simp only [hfirst]
  · simp [h.curSize]
  · refine { pageList := ?_, usedList := hused.listAdd hnew, nodup := hperm.nodup_iff.mpr h.nodup,
             curSize := by simp [h.curSize], added := hperm.trans h.added, live := ?_,
             dma := h.dma, stored := ?_ }
    · refine hdel.frame (hused.frame_listAdd p) ?_
      intro z hz hmem
      simp only [List.mem_cons] at hz hmem
      rcases hz with rfl | hz
      · rcases hmem with heq | heq | hmem
        · exact (hhead p (Or.inr (Or.inr rfl))).1 heq.symm
        · exact Node.noConfusion heq
        · exact (hhead _ (Or.inr (Or.inl hmem))).1 rfl
      · rcases hmem with rfl | rfl | hmem
        · exact hps hz
        · exact (hhead _ (Or.inl hz)).2 rfl
        · exact hdisjoint z hz z hmem rfl
    · intro q
      rw [hperm.mem_iff]
      exact h.live q
    · simp [h.stored]

/-- Taking pages that are there. -/
theorem PoolInv.getPages : ∀ {n : Nat} {pool : Mempool} {ps us : List Node},
    PoolInv wild pool ps us → n ≤ ps.length →
    ∃ pas pool' us', getPagesLoop wild n pool = (pas, pool') ∧
      PoolInv wild pool' (ps.drop n) us' ∧ pool'.stored = pas.reverse ++ pool.stored := by
  intro n
  induction n with
  | zero => exact fun h _ => ⟨[], _, _, rfl, h, rfl⟩
  | succ n ih =>
      intro pool ps us h hn
      cases ps with
      | nil => exact absurd hn (Nat.not_succ_le_zero n)
      | cons p ps =>
          obtain ⟨pool₁, hremove, -, hinv⟩ := h.remove
          obtain ⟨pas, pool', us', hloop, hinv', hstored⟩ := ih hinv (Nat.le_of_succ_le_succ hn)
          have hsame : pool₁.stored = pool.stored := by
            have h₁ := hinv.stored
            have h₂ := h.stored
            simp only [List.map_cons, List.cons.injEq, true_and] at h₁
            rw [h₁, h₂]
          refine ⟨pageToPhys wild (some p) :: pas, pool', us', ?_, hinv', ?_⟩
          · unfold getPagesLoop grMempoolAlloc
            rw [hremove]
            dsimp only
            rw [hloop]
          · rw [hstored, hsame]
            simp

theorem getPagesTurns_le (n : Nat) : getPagesTurns n ≤ n := by
  unfold getPagesTurns
  split
  · exact Nat.le_refl n
  split <;> omega

theorem grIoctl_getPages {nrPages : Nat} {pas : List Nat} {pool' : Mempool}
    (hloop : getPagesLoop wild (getPagesTurns nrPages) pool = (pas, pool')) :
    grIoctl wild pool (.getPages nrPages) = .ok (⟨0, pas⟩, pool') := by
  unfold grIoctl
  dsimp only
  rw [hloop]
  rfl

/-- **What an ioctl does** where the pool is supplied: it returns 0, and keeps the invariant. -/
theorem PoolInv.ioctl (h : PoolInv wild pool ps us) {op : MempoolOp} (hop : Supplied pool op) :
    ∃ pas pool' ps' us', grIoctl wild pool op = .ok (⟨0, pas⟩, pool') ∧
      PoolInv wild pool' ps' us' ∧ pool'.stored = pas.reverse ++ pool.stored := by
  cases op with
  | getPage result =>
      obtain ⟨pool₁, ps₁, hgrow, hinv, hsize⟩ := h.grow hop.fresh hop.succeeds
      have hone : 1 ≤ ps₁.length := by
        rw [← hinv.curSize, hsize]
        exact Nat.le_add_left 1 _
      obtain ⟨pas, pool', us', hloop, hinv', hstored⟩ := hinv.getPages hone
      refine ⟨pas, pool', _, us', ?_, hinv', hstored.trans ?_⟩
      · unfold grIoctl
        dsimp only
        rw [show grMempoolGrow [result] pool = .ok (0, pool₁) from hgrow, Except.ok_bind]
        dsimp only
        rw [hloop]
        rfl
      · rw [hinv.stored, h.stored]
  | grow results =>
      obtain ⟨pool', ps', hgrow, hinv, -⟩ := h.grow hop.fresh hop.succeeds
      refine ⟨[], pool', ps', us, ?_, hinv, ?_⟩
      · unfold grIoctl
        dsimp only
        rw [show grMempoolGrow results pool = .ok (0, pool') from hgrow, Except.ok_bind]
        rfl
      · rw [hinv.stored, h.stored]
        rfl
  | getPages nrPages =>
      have hwithin : nrPages ≤ pool.curSize := hop.within
      rw [h.curSize] at hwithin
      have hle := Nat.le_trans (getPagesTurns_le nrPages) hwithin
      obtain ⟨pas, pool', us', hloop, hinv', hstored⟩ := h.getPages hle
      exact ⟨pas, pool', _, us', grIoctl_getPages hloop, hinv', hstored⟩

/-- **The lists in every run** that is supplied. -/
theorem PoolReached.inv (h : PoolReached wild pool) : ∃ ps us, PoolInv wild pool ps us := by
  refine h.invariant (P := fun pool => ∃ ps us, PoolInv wild pool ps us) ?_ ?_
  · rintro pool ⟨junk, private_, rfl⟩
    exact ⟨[], [], poolInv_init wild junk private_⟩
  · rintro pool op pool' ⟨ps, us, hinv⟩ hop hstep
    obtain ⟨pas, pool₁, ps', us', hioctl, hinv', -⟩ := hinv.ioctl hop
    unfold mempoolStep at hstep
    rw [hioctl] at hstep
    obtain rfl := Option.some.inj hstep
    exact ⟨ps', us', hinv'⟩

/-! ### Tearing it down -/

/-- **The loop over a list** takes out and frees its pages, one turn each and one to end. -/
theorem freeEntries_isList {head : Node} : ∀ {xs : List Node} {pool : Mempool},
    IsList pool.links head xs → ∃ pool',
      (∀ fuel, freeEntries fuel head pool = if xs.length < fuel then some pool' else none) ∧
      pool'.freed = (xs.map fun p => (p, pool.private_ p)).reverse ++ pool.freed ∧
      pool'.private_ = pool.private_ ∧ Frame pool.links pool'.links (head :: xs) ∧
      ∀ p ∈ xs, pool'.links.next p = p ∧ pool'.links.prev p = p := by
  intro xs
  induction xs with
  | nil =>
      intro pool h
      refine ⟨pool, fun fuel => ?_, rfl, rfl, fun _ _ => ⟨rfl, rfl⟩, by simp⟩
      unfold freeEntries
      rw [h.next_nil]
      cases fuel with
      | zero => rfl
      | succ fuel =>
          exact (if_pos rfl).trans (if_pos (Nat.zero_lt_succ fuel)).symm
  | cons x xs ih =>
      intro pool h
      obtain ⟨hrest, hnext, hprev⟩ := h.listDelInit
      obtain ⟨pool₁, hpool₁⟩ : ∃ pool₁, pool₁ =
          grMempoolFreePage { pool with links := listDelInit pool.links x } x := ⟨_, rfl⟩
      have hlinks : pool₁.links = listDelInit pool.links x := by rw [hpool₁]; rfl
      have hrest₁ : IsList pool₁.links head xs := hlinks ▸ hrest
      obtain ⟨pool', hloop, hfreed, hprivate, hframe, hself⟩ := ih hrest₁
      have hnodup := h.nodup
      simp only [List.nodup_cons, List.mem_cons, not_or] at hnodup
      obtain ⟨⟨hheadx, -⟩, hxxs, -⟩ := hnodup
      refine ⟨pool', fun fuel => ?_, ?_, ?_, ?_, ?_⟩
      · unfold freeEntries
        rw [h.next_cons]
        cases fuel with
        | zero => rfl
        | succ fuel =>
            have hturn : freeLoop head (fuel + 1) x (pool.links.next x) pool =
                freeEntries fuel head pool₁ := by
              have hsecond : pool.links.next x = pool₁.links.next head := by
                rw [hlinks]
                cases xs with
                | nil => rw [hrest.next_nil, h.seg.2.1]
                | cons y ys => rw [hrest.next_cons, h.seg.2.1.1]
              rw [freeLoop, if_neg (fun heq => hheadx heq.symm)]
              dsimp only
              rw [← hpool₁, hsecond]
              rfl
            rw [hturn, hloop]
            simp only [List.length_cons, Nat.add_lt_add_iff_right]
      · rw [hfreed, hpool₁]
        simp [grMempoolFreePage]
      · rw [hprivate, hpool₁]
        rfl
      · intro z hz
        have hz' : z ∉ head :: xs := fun hmem => hz (by
          simp only [List.mem_cons] at hmem ⊢
          tauto)
        obtain ⟨hn, hp⟩ := hframe z hz'
        obtain ⟨hn', hp'⟩ := h.frame_listDelInit z hz
        rw [hn, hp, hlinks]
        exact ⟨hn', hp'⟩
      · intro q hq
        rcases List.mem_cons.mp hq with rfl | hq
        · have hout : q ∉ head :: xs := by
            rw [List.mem_cons, not_or]
            exact ⟨fun heq => hheadx heq.symm, hxxs⟩
          obtain ⟨hn, hp⟩ := hframe q hout
          rw [hn, hp, hlinks]
          exact ⟨hnext, hprev⟩
        · exact hself q hq

/-- A page that is linked to itself is freed for ever. -/
theorem freeLoop_self {head p : Node} (hne : p ≠ head) : ∀ {fuel : Nat} {pool : Mempool},
    pool.links.next p = p → pool.links.prev p = p → freeLoop head fuel p p pool = none := by
  intro fuel
  induction fuel with
  | zero => exact fun _ _ => rfl
  | succ fuel ih =>
      intro pool hnext hprev
      rw [freeLoop, if_neg hne]
      dsimp only
      have hlinks : (grMempoolFreePage { pool with links := listDelInit pool.links p } p).links =
          pool.links := listDelInit_self hnext hprev
      rw [hlinks, hnext]
      refine ih ?_ ?_
      · rw [hlinks]
        exact hnext
      · rw [hlinks]
        exact hprev

/-- The pages still pooled, `ps`, and those taken from it, `fs`, while they are moved.  The head
of `used_list` leads to a page of the other list, the first one, as soon as there is one. -/
structure Draining (pool : Mempool) (ps fs : List Node) : Prop where
  pageList : IsList pool.links .pageList ps
  freeList : IsList pool.links .freeList fs
  nodup : (ps ++ fs).Nodup
  isPage : ∀ p ∈ ps ++ fs, ∃ pfn, p = .page pfn
  curSize : pool.curSize = ps.length
  usedNext : ∀ w ∈ .freeList :: fs, w = pool.links.next .usedList → w = pool.links.next .freeList
  usedOut : pool.links.next .usedList ∉ .pageList :: ps
  usedFirst : fs ≠ [] → pool.links.next .usedList ∈ fs

theorem Draining.not_head {ps fs : List Node} (h : Draining pool ps fs) {z : Node}
    (hz : z ∈ ps ++ fs) : z ≠ .pageList ∧ z ≠ .usedList ∧ z ≠ .freeList := by
  obtain ⟨pfn, rfl⟩ := h.isPage z hz
  exact ⟨Node.noConfusion, Node.noConfusion, Node.noConfusion⟩

/-- The first page is neither among the others nor among those taken, which have none in common. -/
theorem Draining.distinct {fs : List Node} (h : Draining pool (p :: ps) fs) :
    p ∉ ps ∧ p ∉ fs ∧ ∀ z ∈ ps, z ∉ fs := by
  have hnodup := h.nodup
  simp only [List.cons_append, List.nodup_cons, List.mem_append, not_or] at hnodup
  obtain ⟨⟨hps, hfs⟩, hboth⟩ := hnodup
  exact ⟨hps, hfs, fun z hz hmem => (List.nodup_append.mp hboth).2.2 z hz z hmem rfl⟩

/-- The first page goes out of its list.  The two other lists are not touched. -/
theorem Draining.del {fs : List Node} (h : Draining pool (p :: ps) fs) :
    IsList (listDelInit pool.links p) .pageList ps ∧ IsList (listDelInit pool.links p) .freeList fs ∧
      (listDelInit pool.links p).next .usedList = pool.links.next .usedList ∧
      (listDelInit pool.links p).next .freeList = pool.links.next .freeList := by
  obtain ⟨hps, hfs, hdisjoint⟩ := h.distinct
  have hp := h.not_head List.mem_cons_self
  have hpsHead : ∀ z ∈ ps, z ≠ .pageList ∧ z ≠ .usedList ∧ z ≠ .freeList := fun z hz =>
    h.not_head (List.mem_append_left _ (List.mem_cons_of_mem _ hz))
  have hframe := h.pageList.frame_listDelInit
  refine ⟨h.pageList.listDelInit.1, h.freeList.frame hframe ?_, (hframe _ ?_).1, (hframe _ ?_).1⟩
  · intro z hz hmem
    simp only [List.mem_cons] at hz hmem
    rcases hz with rfl | hz
    · rcases hmem with heq | heq | hmem
      · exact Node.noConfusion heq
      · exact hp.2.2 heq.symm
      · exact (hpsHead _ hmem).2.2 rfl
    · rcases hmem with rfl | rfl | hmem
      · exact (h.not_head (List.mem_append_right _ hz)).1 rfl
      · exact hfs hz
      · exact hdisjoint z hmem hz
  · simp only [List.mem_cons, not_or]
    exact ⟨Node.noConfusion, fun heq => hp.2.1 heq.symm, fun hmem => (hpsHead _ hmem).2.1 rfl⟩
  · simp only [List.mem_cons, not_or]
    exact ⟨Node.noConfusion, fun heq => hp.2.2 heq.symm, fun hmem => (hpsHead _ hmem).2.2 rfl⟩

/-- The page goes into `used_list`, where it is forgotten. -/
theorem Draining.forget {fs : List Node} {k : Links Node} (h : Draining pool (p :: ps) fs)
    (hpages : IsList k .pageList ps) (hused : k.next .usedList = pool.links.next .usedList)
    (hfree : k.next .freeList = pool.links.next .freeList) :
    IsList (listAdd k p .usedList) .pageList ps ∧
      (∀ z ∈ Node.freeList :: fs, (listAdd k p .usedList).next z = k.next z) ∧
      ∀ z ∈ Node.freeList :: fs, z ≠ k.next .freeList →
        (listAdd k p .usedList).prev z = k.prev z := by
  obtain ⟨hps, hfs, -⟩ := h.distinct
  have hp := h.not_head List.mem_cons_self
  have hout := h.usedOut
  simp only [List.mem_cons, not_or] at hout
  have hne : ∀ z ∈ Node.freeList :: fs, z ≠ p := by
    intro z hz heq
    rcases List.mem_cons.mp hz with rfl | hz
    · exact hp.2.2 heq.symm
    · exact hfs (heq ▸ hz)
  refine ⟨hpages.frame (frame_listAdd k p .usedList) ?_, fun z hz => ?_, fun z hz hfirst => ?_⟩
  · intro z hz hmem
    simp only [List.mem_cons, List.not_mem_nil, or_false, hused] at hz hmem
    rcases hz with rfl | hz
    · rcases hmem with heq | heq | heq
      · exact hp.1 heq.symm
      · exact Node.noConfusion heq
      · exact hout.1 heq.symm
    · rcases hmem with rfl | rfl | rfl
      · exact hps hz
      · exact (h.not_head (List.mem_append_left _ (List.mem_cons_of_mem _ hz))).2.1 rfl
      · exact hout.2.2 hz
  · refine next_listAdd k (hne z hz) ?_
    rcases List.mem_cons.mp hz with rfl | hz
    · exact Node.noConfusion
    · exact (h.not_head (List.mem_append_right _ hz)).2.1
  · refine prev_listAdd k (hne z hz) fun heq => ?_
    rw [hused] at heq
    rw [hfree] at hfirst
    exact hfirst (h.usedNext z hz heq)

/-- One turn of the draining loop. -/
theorem Draining.turn {fs : List Node} (h : Draining pool (p :: ps) fs) :
    ∃ pool₁, grMempoolRemove pool = (some p, pool₁) ∧ pool₁.freed = pool.freed ∧
      Draining { pool₁ with links := listAdd pool₁.links p .freeList } ps (p :: fs) := by
  have hempty : grMempoolIsEmpty pool = false := by simp [grMempoolIsEmpty, h.curSize]
  obtain ⟨hps, hfs, hdisjoint⟩ := h.distinct
  have hp := h.not_head List.mem_cons_self
  obtain ⟨k₁, hk₁⟩ : ∃ k₁, k₁ = listDelInit pool.links p := ⟨_, rfl⟩
  obtain ⟨k₂, hk₂⟩ : ∃ k₂, k₂ = listAdd k₁ p Node.usedList := ⟨_, rfl⟩
  obtain ⟨hdel, hfree, hused, hfirst⟩ := h.del
  rw [← hk₁] at hdel hfree hused hfirst
  obtain ⟨hpages₂, hnext₂, hprev₂⟩ := h.forget hdel hused hfirst
  rw [← hk₂] at hpages₂ hnext₂ hprev₂
  have hnew : p ∉ Node.freeList :: fs := by
    rw [List.mem_cons, not_or]
    exact ⟨hp.2.2, hfs⟩
  have hnext₃ : (listAdd k₂ p Node.freeList).next .usedList = p := by
    rw [next_listAdd k₂ (fun heq => hp.2.1 heq.symm) Node.noConfusion, hk₂]
    exact next_head_listAdd k₁ p .usedList
  refine ⟨{ pool with links := k₂, curSize := pool.curSize - 1 }, ?_, rfl, ?_⟩
  · unfold grMempoolRemove
    rw [hempty, if_neg Bool.false_ne_true]
    simp only [h.pageList.next_cons, ← hk₁, ← hk₂]
  · refine { pageList := ?_, freeList := hfree.listAdd_of hnew hnext₂ hprev₂,
             nodup := List.perm_middle.nodup_iff.mpr h.nodup,
             isPage := fun q hq => h.isPage q (List.perm_middle.mem_iff.mp hq),
             curSize := by simp [h.curSize], usedNext := ?_, usedOut := ?_, usedFirst := ?_ }
    · refine hpages₂.frame (frame_listAdd k₂ p .freeList) ?_
      have hmemFirst : k₂.next .freeList ∈ Node.freeList :: fs := by
        rw [hnext₂ _ List.mem_cons_self]
        exact hfree.next_mem
      intro z hz hmem
      simp only [List.mem_cons, List.not_mem_nil, or_false] at hz hmem hmemFirst
      have hznot : z ≠ .freeList ∧ z ∉ fs ∧ z ≠ p := by
        rcases hz with rfl | hz
        · exact ⟨Node.noConfusion, fun hmem => (h.not_head (List.mem_append_right _ hmem)).1 rfl,
            hp.1.symm⟩
        · exact ⟨(h.not_head (List.mem_append_left _ (List.mem_cons_of_mem _ hz))).2.2,
            hdisjoint z hz, fun heq => hps (heq ▸ hz)⟩
      rcases hmem with heq | heq | heq
      · exact hznot.2.2 heq
      · exact hznot.1 heq
      · rw [← heq] at hmemFirst
        exact hmemFirst.elim hznot.1 hznot.2.1
    · intro w _ heq
      dsimp only at heq ⊢
      rw [hnext₃] at heq
      rw [heq, next_head_listAdd]
    · dsimp only
      rw [hnext₃, List.mem_cons, not_or]
      exact ⟨hp.1, hps⟩
    · intro _
      dsimp only
      rw [hnext₃]
      exact List.mem_cons_self

/-- **The draining loop** ends, with all pages in the list to free. -/
theorem Draining.loop : ∀ {ps fs : List Node} {pool : Mempool}, Draining pool ps fs → ∃ pool',
    (∀ fuel, drainLoop fuel pool = if ps.length < fuel then some pool' else none) ∧
    Draining pool' [] (ps.reverse ++ fs) ∧ pool'.freed = pool.freed := by
  intro ps
  induction ps with
  | nil =>
      intro fs pool h
      refine ⟨pool, fun fuel => ?_, h, rfl⟩
      cases fuel with
      | zero => rfl
      | succ fuel =>
          have hempty : grMempoolIsEmpty pool = true := by simp [grMempoolIsEmpty, h.curSize]
          exact (if_pos hempty).trans (if_pos (Nat.zero_lt_succ fuel)).symm
  | cons p ps ih =>
      intro fs pool h
      obtain ⟨pool₁, hremove, hfreed, hturn⟩ := h.turn
      obtain ⟨pool', hloop, hdrained, hfreed'⟩ := ih hturn
      refine ⟨pool', fun fuel => ?_, ?_, hfreed'.trans hfreed⟩
      · cases fuel with
        | zero => rfl
        | succ fuel =>
            have hempty : ¬ grMempoolIsEmpty pool = true := by simp [grMempoolIsEmpty, h.curSize]
            rw [drainLoop, if_neg hempty, hremove]
            dsimp only
            rw [hloop]
            simp only [List.length_cons, Nat.add_lt_add_iff_right]
      · simpa using hdrained

/-- The pool as `gr_mempool_term` finds it, with the head of its own list. -/
theorem PoolInv.draining (h : PoolInv wild pool ps us) :
    Draining { pool with links := initListHead pool.links .freeList } ps [] := by
  have hout : ∀ {head : Node} {xs : List Node}, head ≠ .freeList → (∀ p ∈ xs, p ∈ ps ++ us) →
      ∀ z ∈ head :: xs, z ∉ [Node.freeList] := by
    intro head xs hhead hxs z hz hmem
    rw [List.mem_singleton.mp hmem] at hz
    rcases List.mem_cons.mp hz with heq | hz
    · exact hhead heq.symm
    · obtain ⟨pfn, heq⟩ := h.isPage (hxs _ hz)
      cases heq
  have hframe := frame_initListHead pool.links Node.freeList
  have hused := h.usedList.frame hframe
    (hout Node.noConfusion fun p hp => List.mem_append_right ps hp)
  have hnext := hused.next_mem
  have hnot : ∀ z, z ∈ Node.usedList :: us → z ≠ .pageList ∧ z ≠ .freeList ∧ z ∉ ps := by
    intro z hz
    rcases List.mem_cons.mp hz with rfl | hz
    · refine ⟨Node.noConfusion, Node.noConfusion, fun hmem => ?_⟩
      obtain ⟨pfn, heq⟩ := h.isPage (List.mem_append_left us hmem)
      cases heq
    · obtain ⟨pfn, rfl⟩ := h.isPage (List.mem_append_right ps hz)
      exact ⟨Node.noConfusion, Node.noConfusion, fun hmem =>
        (List.nodup_append.mp h.nodup).2.2 _ hmem _ hz rfl⟩
  obtain ⟨hnextPage, hnextFree, hnextPs⟩ := hnot _ hnext
  refine { pageList := ?_, freeList := isList_initListHead pool.links Node.freeList,
           nodup := ?_, isPage := ?_, curSize := h.curSize, usedNext := ?_, usedOut := ?_,
           usedFirst := fun hne => absurd rfl hne }
  · exact h.pageList.frame hframe (hout Node.noConfusion fun p hp => List.mem_append_left us hp)
  · rw [List.append_nil]
    exact (List.nodup_append.mp h.nodup).1
  · intro p hp
    rw [List.append_nil] at hp
    exact h.isPage (List.mem_append_left us hp)
  · intro w hw heq
    rw [List.mem_singleton.mp hw] at heq
    exact absurd heq.symm hnextFree
  · rw [List.mem_cons, not_or]
    exact ⟨hnextPage, hnextPs⟩

/-- A drained pool is torn down right. -/
theorem PoolInv.termFrees (h : PoolInv wild pool [] us) : TermFrees pool := by
  have hdraining := h.draining
  obtain ⟨pool₀, hpool₀⟩ : ∃ pool₀, pool₀ =
      { pool with links := initListHead pool.links .freeList } := ⟨_, rfl⟩
  rw [← hpool₀] at hdraining
  have hused : IsList pool₀.links .usedList us := by
    rw [hpool₀]
    refine h.usedList.frame (frame_initListHead pool.links Node.freeList) fun z hz hmem => ?_
    rw [List.mem_singleton.mp hmem] at hz
    rcases List.mem_cons.mp hz with heq | hz
    · exact Node.noConfusion heq
    · obtain ⟨pfn, heq⟩ := h.isPage (List.mem_append_right [] hz)
      cases heq
  have hempty : grMempoolIsEmpty pool₀ = true := by
    rw [hpool₀]
    simp [grMempoolIsEmpty, h.curSize]
  obtain ⟨pool', hloop, hfreed, -⟩ := freeEntries_isList hused
  refine ⟨us.length + 1, pool', (us.map fun p => (p, pool.private_ p)).reverse, ?_, ?_, ?_⟩
  · have hdrain : drainLoop (us.length + 1) pool₀ = some pool₀ := by rw [drainLoop, if_pos hempty]
    have hnone : freeEntries (us.length + 1) .freeList pool₀ = some pool₀ := by
      rw [freeEntries, hdraining.freeList.next_nil]
      exact if_pos rfl
    unfold grMempoolTerm
    dsimp only
    rw [← hpool₀, hdrain]
    change (freeEntries (us.length + 1) .freeList pool₀).bind _ = _
    rw [hnone]
    change freeEntries (us.length + 1) .usedList pool₀ = _
    rw [hloop, if_pos (Nat.lt_succ_self _)]
  · rw [hfreed, hpool₀]
  · -- each page was added with the address that it has kept
    have hentries : pool.added = (pool.added.map Prod.fst).map fun p => (p, pool.private_ p) := by
      rw [List.map_map]
      refine (List.map_id' _).symm.trans (List.map_congr_left fun e he => ?_)
      exact Prod.ext rfl (h.dma e he).symm
    rw [hentries]
    exact (List.reverse_perm _).trans (h.added.map _)

/-- **With pages pooled it is not torn down**, whatever the fuel. -/
theorem PoolInv.not_termFrees (h : PoolInv wild pool (p :: ps) us) (fuel : Nat) :
    grMempoolTerm fuel pool = none := by
  obtain ⟨pool₁, hdrain, hdrained, -⟩ := h.draining.loop
  obtain ⟨pool₂, hfree, -, -, hframe, hself⟩ := freeEntries_isList hdrained.freeList
  -- the head of `used_list` leads to a page of the other list, which is freed first
  have hfirst := hdrained.usedFirst (by simp)
  have hnot : Node.usedList ∉ Node.freeList :: ((p :: ps).reverse ++ []) := by
    rw [List.mem_cons, not_or]
    refine ⟨Node.noConfusion, fun hmem => ?_⟩
    obtain ⟨pfn, heq⟩ := hdrained.isPage _ (List.mem_append_right [] hmem)
    cases heq
  have hnext := (hframe _ hnot).1
  obtain ⟨hselfNext, hselfPrev⟩ := hself _ hfirst
  have hne : pool₁.links.next .usedList ≠ .usedList := fun heq =>
    hnot (List.mem_cons_of_mem _ (heq ▸ hfirst))
  have hforever : freeEntries fuel .usedList pool₂ = none := by
    unfold freeEntries
    dsimp only
    rw [hnext, hselfNext]
    exact freeLoop_self hne hselfNext hselfPrev
  unfold grMempoolTerm
  dsimp only
  rw [hdrain]
  split
  · change (freeEntries fuel .freeList pool₁).bind _ = none
    rw [hfree]
    split
    · exact hforever
    · rfl
  · rfl

theorem PoolInv.termFrees_iff (h : PoolInv wild pool ps us) :
    TermFrees pool ↔ pool.curSize = 0 := by
  cases ps with
  | nil => exact ⟨fun _ => h.curSize, fun _ => h.termFrees⟩
  | cons p ps =>
      refine ⟨?_, fun hzero => ?_⟩
      · rintro ⟨fuel, pool', freed, hterm, -⟩
        rw [h.not_termFrees fuel] at hterm
        exact absurd hterm.symm (Option.some_ne_none _)
      · rw [h.curSize] at hzero
        exact absurd hzero (Nat.succ_ne_zero _)

/-- **The pool's life**, up to its end: the lists are right at every step, and the pool is torn
down right if and only if it has been drained. -/
theorem mempool_lifecycle (h : PoolReached wild pool) :
    (∃ ps us, PoolLists pool ps us) ∧ (TermFrees pool ↔ pool.curSize = 0) := by
  obtain ⟨ps, us, hinv⟩ := h.inv
  exact ⟨⟨ps, us, hinv.toPoolLists⟩, hinv.termFrees_iff⟩

/-- A pool in cleared memory. -/
def clearedPool : Mempool := grMempoolInit ⟨fun _ => .pageList, fun _ => .pageList⟩ fun _ => 0

def nullAtZero : Option Node → Nat := fun _ => 0

theorem clearedPool_reached : PoolReached nullAtZero clearedPool := .start ⟨_, _, rfl⟩

/-- A page allocated and mapped. -/
def onePage : AllocResult := .page 5 (some 20480)

theorem supplied_onePage : Supplied clearedPool (.grow [onePage]) where
  fresh := ⟨List.not_mem_nil, trivial⟩
  succeeds := by simp [MempoolOp.results, onePage, AllocResult.Succeeds]
  within := trivial

theorem grown_reached : ∃ pool, mempoolStep nullAtZero clearedPool (.grow [onePage]) = some pool ∧
    PoolReached nullAtZero pool ∧ pool.curSize = 1 :=
  ⟨_, rfl, .next clearedPool_reached supplied_onePage rfl, rfl⟩

/-- A page that is added and taken is freed. -/
theorem mempool_lifecycle_drained :
    ∃ pool, [MempoolOp.grow [onePage], .getPages 1].foldlM (mempoolStep nullAtZero) clearedPool =
      some pool ∧ (∃ ps us, PoolLists pool ps us) ∧ (TermFrees pool ↔ pool.curSize = 0) := by
  obtain ⟨pool₁, hstep, hreached, hsize⟩ := grown_reached
  obtain ⟨ps, us, hinv⟩ := hreached.inv
  have hsupplied : Supplied pool₁ (.getPages 1) :=
    ⟨trivial, fun r hr => absurd hr List.not_mem_nil, Nat.le_of_eq hsize.symm⟩
  obtain ⟨pas, pool₂, ps', us', hioctl, -⟩ := hinv.ioctl hsupplied
  have hstep₂ : mempoolStep nullAtZero pool₁ (.getPages 1) = some pool₂ := by
    unfold mempoolStep
    rw [hioctl]
  refine ⟨pool₂, ?_, mempool_lifecycle (.next hreached hsupplied hstep₂)⟩
  rw [List.foldlM_cons, hstep]
  change ([MempoolOp.getPages 1].foldlM (mempoolStep nullAtZero) pool₁) = some pool₂
  rw [List.foldlM_cons, hstep₂]
  rfl

/-- A page that is added only is not, or not once. -/
theorem pooled_not_termFrees :
    ∃ pool, mempoolStep nullAtZero clearedPool (.grow [onePage]) = some pool ∧
      ¬TermFrees pool := by
  obtain ⟨pool, hstep, hreached, hsize⟩ := grown_reached
  obtain ⟨ps, us, hinv⟩ := hreached.inv
  refine ⟨pool, hstep, fun hterm => ?_⟩
  rw [hinv.termFrees_iff, hsize] at hterm
  exact absurd hterm Nat.one_ne_zero

/-! ### Whose pages are handed out -/

/-- The pool cannot supply what is asked for: a page was not allocated or not mapped, or more
pages are asked for than are pooled. -/
def Short (pool : Mempool) (op : MempoolOp) : Prop :=
  (∃ result ∈ op.results, ¬result.Succeeds) ∨ ¬op.Within pool

/-- The caller in user space is told of an error: what it gets is no page's address, and not what
it gets otherwise. -/
def CallerTold (result : IoctlResult) : MempoolOp → Prop
  | .getPage _ => ∀ junk, grManagerAllocGetSinglePage junk result % 4096 ≠ 0
  | .grow _ => True
  | .getPages _ => grManagerGetPages result ≠ 1

/-- An ioctl that hands out live pages, none twice, and fails if it is short of them. -/
def HandsOut (wild : Option Node → Nat) (pool : Mempool) (op : MempoolOp) : Prop :=
  match grIoctl wild pool op with
  | .error _ => False
  | .ok (result, pool') =>
      (Short pool op → result.retval ≠ 0 ∧ CallerTold result op) ∧
      (∀ pa ∈ result.pa, ∃ pfn ∈ pool'.live, pa = pfn * 4096) ∧ pool'.stored.Nodup

/-- No ioctl of the pool ever returns an error. -/
theorem grIoctl_retval {op : MempoolOp} {result : IoctlResult} {pool' : Mempool}
    (h : grIoctl wild pool op = .ok (result, pool')) : result.retval = 0 := by
  cases op with
  | getPage r =>
      unfold grIoctl at h
      dsimp only at h
      cases hgrow : grMempoolGrow [r] pool with
      | error e =>
          rw [hgrow, Except.error_bind] at h
          cases h
      | ok grown =>
          rw [hgrow, Except.ok_bind] at h
          rw [← (Prod.mk.inj (Except.ok.inj h)).1]
  | grow rs =>
      unfold grIoctl at h
      dsimp only at h
      cases hgrow : grMempoolGrow rs pool with
      | error e =>
          rw [hgrow, Except.error_bind] at h
          cases h
      | ok grown =>
          rw [hgrow, Except.ok_bind] at h
          rw [← (Prod.mk.inj (Except.ok.inj h)).1]
  | getPages n =>
      obtain ⟨pas, pool₁, hloop⟩ : ∃ pas pool₁,
          getPagesLoop wild (getPagesTurns n) pool = (pas, pool₁) := ⟨_, _, rfl⟩
      rw [grIoctl_getPages hloop] at h
      rw [← (Prod.mk.inj (Except.ok.inj h)).1]

/-- The addresses stored are those of pages in `used_list`. -/
theorem PoolInv.stored_live (h : PoolInv wild pool ps us) {pa : Nat} (hpa : pa ∈ pool.stored) :
    ∃ pfn ∈ pool.live, pa = pfn * 4096 := by
  rw [h.stored] at hpa
  obtain ⟨p, hp, rfl⟩ := List.mem_map.mp hpa
  obtain ⟨pfn, hlive, rfl⟩ := (h.live p).mp (List.mem_append_right ps hp)
  exact ⟨pfn, hlive, rfl⟩

theorem PoolInv.stored_nodup (h : PoolInv wild pool ps us) : pool.stored.Nodup := by
  rw [h.stored]
  refine List.Nodup.map_on ?_ (List.nodup_append.mp h.nodup).2.1
  intro p hp q hq heq
  obtain ⟨i, rfl⟩ := h.isPage (List.mem_append_right ps hp)
  obtain ⟨j, rfl⟩ := h.isPage (List.mem_append_right ps hq)
  exact congrArg Node.page (Nat.eq_of_mul_eq_mul_right (by decide) heq)

/-- **Page ownership**: in a run that was never short, the next ioctl hands out pages as it should
if and only if it is not short either. -/
theorem mempool_handsOut_iff (h : PoolReached wild pool) {op : MempoolOp}
    (hfresh : Fresh pool.live op.results) : HandsOut wild pool op ↔ ¬Short pool op := by
  obtain ⟨ps, us, hinv⟩ := h.inv
  constructor
  · intro hright hshort
    unfold HandsOut at hright
    split at hright
    · exact hright
    next result pool' heq => exact (hright.1 hshort).1 (grIoctl_retval heq)
  · intro hshort
    rw [Short, not_or, not_not] at hshort
    have hop : Supplied pool op := ⟨hfresh, fun result hresult => by
      by_contra hfails
      exact hshort.1 ⟨result, hresult, hfails⟩, hshort.2⟩
    obtain ⟨pas, pool', ps', us', hioctl, hinv', hstored⟩ := hinv.ioctl hop
    unfold HandsOut
    rw [hioctl]
    refine ⟨fun hshort' => ?_, fun pa hpa => ?_, hinv'.stored_nodup⟩
    · exact absurd hshort' (by rw [Short, not_or, not_not]; exact hshort)
    · refine hinv'.stored_live ?_
      rw [hstored]
      exact List.mem_append_left _ (List.mem_reverse.mpr hpa)

/-- One page, allocated for the request. -/
theorem mempool_handsOut_onePage :
    HandsOut nullAtZero clearedPool (.getPage onePage) ↔ ¬Short clearedPool (.getPage onePage) :=
  mempool_handsOut_iff clearedPool_reached ⟨List.not_mem_nil, trivial⟩

/-- A page that cannot be mapped: the ioctl returns 0 and an address that is no page's. -/
theorem unmapped_not_handsOut :
    PoolReached nullAtZero clearedPool ∧ Fresh clearedPool.live [.page 5 none] ∧
      ¬HandsOut nullAtZero clearedPool (.getPage (.page 5 none)) := by
  refine ⟨clearedPool_reached, List.not_mem_nil, fun h => ?_⟩
  have hshort : Short clearedPool (.getPage (.page 5 none)) :=
    Or.inl ⟨_, List.mem_singleton_self _, fun h => h⟩
  exact (h.1 hshort).1 rfl

end GpuReplay.NanoDriver
