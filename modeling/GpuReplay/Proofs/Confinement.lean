/-
Where a replay and the GPU beside it can write.

The GPU writes where the page table lets it, and the page table is in the memory it writes to:
a leaf entry that led to a table would let it exchange the rest.  The replayer writes through the
region table.  Both lead to the frames that `gr_mem_init` has obtained for the pages of the memory
dump, with one exception, the leaf entries of the page-table dump that no page of the memory dump
has replaced.  As long as none of those leads to a table, nobody ever writes to one, so for any
number of turns, whatever the GPU does, all other memory stays what it was and every address is
translated as it was at first.
-/
import GpuReplay.Lib.Confined
import GpuReplay.Proofs.EntryEncoding
import GpuReplay.Proofs.Frames
import GpuReplay.Proofs.PhysCalls
import GpuReplay.Proofs.UsedAtom
import GpuReplay.Replayer.Demo

namespace GpuReplay.Replayer

open Stdio RadixTree Confined

/-! ### The MMU -/

/-- The physical address the MMU makes of a GPU address.  A leaf entry `h` levels above the
bottom maps a block of `512 ^ h` pages. -/
def mmuTranslate (mem : ByteMem) (pgd gaddr : Nat) : Option Nat :=
  let (h, w) := ending tableAt (entries mem) (gpuIndex gaddr) 3 pgd
  if Driver.ateIsValid w (3 - h) then
    some (pteToPhysAddr w / (4096 * 512 ^ h) * (4096 * 512 ^ h) + gaddr % (4096 * 512 ^ h))
  else none

/-- The physical addresses the GPU can access. -/
def gpuReach (pgd : Nat) (mem : ByteMem) : Set Nat := {p | ∃ gaddr, mmuTranslate mem pgd gaddr = some p}

/-- What is on a page of the list. -/
def onPages (frames : List Nat) : Set Nat := {p | pageStart p ∈ frames}

/-- A table in memory that has not changed translates what it translated. -/
theorem mmuTranslate_congr {mem mem' : ByteMem} {pgd : Nat}
    (halign : ∀ q ∈ preorder mem 3 pgd, q % 4096 = 0)
    (hsame : ∀ p ∈ onPages (preorder mem 3 pgd), mem' p = mem p) (gaddr : Nat) :
    mmuTranslate mem' pgd gaddr = mmuTranslate mem pgd gaddr := by
  have hend : ending tableAt (entries mem') (gpuIndex gaddr) 3 pgd
      = ending tableAt (entries mem) (gpuIndex gaddr) 3 pgd := by
    refine ending_of_pages (gpuIndex_lt gaddr) fun q hq i hi => ?_
    rw [pages_eq_preorder] at hq
    refine ByteMem.read64_congr fun k hk => hsame _ ?_
    have hpage : pageStart (q + 8 * i + k) = q := by
      have := halign q hq
      unfold pageStart
      omega
    show pageStart (q + 8 * i + k) ∈ preorder mem 3 pgd
    rwa [hpage]
  unfold mmuTranslate
  rw [hend]

/-- A GPU that writes where the page table lets it. -/
def GpuConfined (pgd : Nat) (gpu : Gpu) : Prop :=
  ∀ i mem, ChangesOnly (gpuReach pgd mem) mem (gpu i mem)

/-! ### What the replayer writes to -/

theorem grWritePhys_within {frames : List Nat} {mem mem' : ByteMem} {paddr : Nat}
    {buf : List UInt8} (hframe : pageStart paddr ∈ frames)
    (hrun : grWritePhys mem paddr buf = .ok mem') : ChangesOnly (onPages frames) mem mem' := by
  unfold grWritePhys at hrun
  obtain ⟨page, hpage, hrun⟩ := Except.bind_eq_ok.mp hrun
  unfold grMapPage at hpage
  split_ifs at hpage with haligned
  obtain rfl := Except.ok.inj hpage
  split_ifs at hrun with hroom
  obtain rfl := Except.ok.inj hrun
  intro p hp
  refine ByteMem.write_apply_of_not_mem mem ?_
  by_contra hin
  have hsame : pageStart p = pageStart paddr := by
    unfold pageStart at *
    omega
  exact hp (show pageStart p ∈ frames by rwa [hsame])

theorem gpuMemIo_within {frames : List Nat} {isRead : Bool} {paddr sz : Nat} {s s' : IoState}
    (hframe : pageStart paddr ∈ frames) (hrun : gpuMemIo isRead paddr sz s = .ok s') :
    ChangesOnly (onPages frames) s.mem s'.mem := by
  unfold gpuMemIo at hrun
  split_ifs at hrun
  · obtain ⟨bs, -, hdone⟩ := Except.bind_eq_ok.mp hrun
    obtain rfl := Except.ok.inj hdone
    exact ChangesOnly.refl _ _
  · obtain ⟨mem, hwrite, hdone⟩ := Except.bind_eq_ok.mp hrun
    obtain rfl := Except.ok.inj hdone
    exact grWritePhys_within hframe hwrite

theorem pageAt_mem {pages : List Nat} {i page : Nat} (h : pageAt pages i = .ok page) :
    page ∈ pages := by
  unfold pageAt at h
  split at h
  · next heq =>
      obtain rfl := Except.ok.inj h
      exact List.mem_of_getElem? heq
  · cases h

section Transfer

variable {frames pages : List Nat} (haligned : ∀ f ∈ pages, f % 4096 = 0)
  (hsub : ∀ f ∈ pages, f ∈ frames)

include haligned hsub

theorem pageStart_of_page {i page : Nat} (h : pageAt pages i = .ok page) {offset : Nat}
    (hoffset : offset < 4096) : pageStart (page + offset) ∈ frames := by
  have hpage := pageAt_mem h
  have hstart : pageStart (page + offset) = page := by
    have := haligned page hpage
    unfold pageStart
    omega
  rw [hstart]
  exact hsub page hpage

theorem middlePages_within {isRead : Bool} {pageOffset : Nat} :
    ∀ {n i : Nat} {s s' : IoState}, middlePages isRead pages pageOffset n i s = .ok s' →
      ChangesOnly (onPages frames) s.mem s'.mem := by
  intro n
  induction n with
  | zero =>
      intro i s s' hrun
      obtain rfl := Except.ok.inj hrun
      exact ChangesOnly.refl _ _
  | succ n ih =>
      intro i s s' hrun
      unfold middlePages at hrun
      obtain ⟨page, hpage, hrun⟩ := Except.bind_eq_ok.mp hrun
      obtain ⟨s₁, hio, hrun⟩ := Except.bind_eq_ok.mp hrun
      have hstart := pageStart_of_page haligned hsub hpage (by decide : 0 < 4096)
      rw [Nat.add_zero] at hstart
      split_ifs at hrun
      · cases hrun
      · have hrest : ChangesOnly (onPages frames) s₁.mem s'.mem :=
          ih (s := s₁.advance 4096) hrun
        exact (gpuMemIo_within hstart hio).trans hrest

theorem lastPage_within {isRead : Bool} {pageOffset pageCount : Nat} {s s' : IoState}
    (hrun : lastPage isRead pages pageOffset pageCount s = .ok s') :
    ChangesOnly (onPages frames) s.mem s'.mem := by
  unfold lastPage at hrun
  split_ifs at hrun
  · cases hrun
  · obtain ⟨page, hpage, hio⟩ := Except.bind_eq_ok.mp hrun
    have hstart := pageStart_of_page haligned hsub hpage (by decide : 0 < 4096)
    rw [Nat.add_zero] at hstart
    exact gpuMemIo_within hstart hio
  · obtain rfl := Except.ok.inj hrun
    exact ChangesOnly.refl _ _

end Transfer

section Regions

variable {regions : List Region} (haligned : ∀ r ∈ regions, ∀ f ∈ r.pages, f % 4096 = 0)

include haligned

/-- **A transfer writes to frames of the regions only.** -/
theorem grGpuMemIo_within {mem mem' : ByteMem} {gaddr size : Nat} {buf buf' : List UInt8}
    {isRead : Bool} (hrun : grGpuMemIo regions mem gaddr buf size isRead = .ok (mem', buf')) :
    ChangesOnly (onPages (regions.flatMap Region.pages)) mem mem' := by
  unfold grGpuMemIo at hrun
  split at hrun
  · cases hrun
  · next r hfind =>
      obtain ⟨i, -, hi⟩ := Option.bind_eq_some_iff.mp hfind
      have hr : r ∈ regions := List.mem_of_getElem? hi
      have hsub : ∀ f ∈ r.pages, f ∈ regions.flatMap Region.pages :=
        fun f hf => List.mem_flatMap.mpr ⟨r, hr, hf⟩
      split_ifs at hrun
      · cases hrun
      · obtain ⟨page, hpage, hrun⟩ := Except.bind_eq_ok.mp hrun
        obtain ⟨s₁, hfirst, hrun⟩ := Except.bind_eq_ok.mp hrun
        obtain ⟨s₂, hmiddle, hrun⟩ := Except.bind_eq_ok.mp hrun
        obtain ⟨s₃, hlast, hdone⟩ := Except.bind_eq_ok.mp hrun
        obtain ⟨rfl, -⟩ := Prod.mk.inj (Except.ok.inj hdone)
        have hstart := pageStart_of_page (haligned r hr) hsub hpage (Nat.mod_lt gaddr (by decide))
        have hmiddle' : ChangesOnly (onPages (regions.flatMap Region.pages)) s₁.mem s₂.mem :=
          middlePages_within (haligned r hr) hsub
            (s := s₁.advance (min (4096 - gaddr % 4096) size)) hmiddle
        exact ((gpuMemIo_within hstart hfirst).trans hmiddle').trans
          (lastPage_within (haligned r hr) hsub hlast)

/-- So does the cleaning of used atoms. -/
theorem cleanUsedAtoms_within {frames : List Nat}
    (hsub : ∀ r ∈ regions, ∀ f ∈ r.pages, f ∈ frames) :
    ∀ {i : Nat} {mem : ByteMem} {c : List Nat × ByteMem}, cleanUsedAtoms i regions mem = .ok c →
      ChangesOnly (onPages frames) mem c.2 := by
  induction regions with
  | nil =>
      intro i mem c hrun
      obtain rfl := Except.ok.inj hrun
      exact ChangesOnly.refl _ _
  | cons r regions ih =>
      have hrest : ∀ {i : Nat} {mem : ByteMem} {c : List Nat × ByteMem},
          cleanUsedAtoms i regions mem = .ok c → ChangesOnly (onPages frames) mem c.2 :=
        ih (fun s hs => haligned s (List.mem_cons_of_mem _ hs))
          fun s hs => hsub s (List.mem_cons_of_mem _ hs)
      intro i mem c hrun
      unfold cleanUsedAtoms at hrun
      split_ifs at hrun
      · obtain ⟨page, hpage, hrun⟩ := Except.bind_eq_ok.mp hrun
        obtain ⟨buf, -, hrun⟩ := Except.bind_eq_ok.mp hrun
        obtain ⟨⟨words, isUsed⟩, -, hrun⟩ := Except.bind_eq_ok.mp hrun
        have hstart := pageStart_of_page (haligned r List.mem_cons_self)
          (hsub r List.mem_cons_self) hpage (by decide : 0 < 4096)
        rw [Nat.add_zero] at hstart
        dsimp only at hrun
        split_ifs at hrun
        · obtain ⟨mem₁, hwrite, hrun⟩ := Except.bind_eq_ok.mp hrun
          obtain ⟨c₁, hclean, hdone⟩ := Except.bind_eq_ok.mp hrun
          obtain rfl := Except.ok.inj hdone
          have hlater : ChangesOnly (onPages frames) mem₁ c₁.2 := hrest hclean
          exact (grWritePhys_within hstart hwrite).trans hlater
        · rw [Except.pure_eq_ok, Except.ok_bind] at hrun
          obtain ⟨c₁, hclean, hdone⟩ := Except.bind_eq_ok.mp hrun
          obtain rfl := Except.ok.inj hdone
          have hlater : ChangesOnly (onPages frames) mem c₁.2 := hrest hclean
          exact hlater
      · exact hrest hrun

end Regions

/-! ### Any number of turns -/

/-- Writes of the GPU and of the replayer, one after the other. -/
def Wrote (reach : ByteMem → Set Nat) (own : Set Nat) (s s' : ReplayState) : Prop :=
  Relation.ReflTransGen (Step reach own) s.mem s'.mem

instance (reach : ByteMem → Set Nat) (own : Set Nat) : AccessBlind (Wrote reach own) where
  refl _ := .refl
  trans _ _ _ h h' := Relation.ReflTransGen.trans h h'
  event _ _ _ _ := .refl
  latest _ _ := .refl

instance (reach : ByteMem → Set Nat) (own : Set Nat) : TimeBlind (Wrote reach own) where
  clock _ := .refl
  accounts _ _ _ _ _ _ _ := .refl

instance (reach : ByteMem → Set Nat) (own : Set Nat) : SpaceBlind (Wrote reach own) where
  checkpoint _ _ _ _ := .refl

instance (reach : ByteMem → Set Nat) (own : Set Nat) : CheckBlind (Wrote reach own) where
  snapshot _ _ _ := .refl
  checked _ _ _ := .refl

theorem Wrote.totals {reach : ByteMem → Set Nat} {own : Set Nat} (s : ReplayState)
    (prep comp : Nat) : Wrote reach own s { s with totPrepTime := prep, totCompTime := comp } := .refl

section Turns

variable {reach : ByteMem → Set Nat} {own : Set Nat} {gpu : Gpu}
  (hgpu : ∀ i mem, ChangesOnly (reach mem) mem (gpu i mem))

theorem moves_onMem_within {f : ByteMem → Except Stop ByteMem}
    (hf : ∀ mem mem', f mem = .ok mem' → ChangesOnly own mem mem') :
    Moves (Wrote reach own) (onMem f) := by
  intro s
  unfold Post onMem
  cases hmem : f s.mem with
  | ok mem => exact .single ((hf _ _ hmem).mono Set.subset_union_right)
  | error e => exact .refl

theorem moves_ofExcept {α : Type} {R : ReplayState → ReplayState → Prop} [Std.Refl R]
    (x : Except Stop α) : Moves R (ofExcept x) := by
  intro s
  cases x with
  | ok a => exact Std.Refl.refl s
  | error e => exact Std.Refl.refl s

section Replay

variable {cfg : ReplayConfig} {rctx : ReplayContext} {env : Env}
  (haligned : ∀ r ∈ rctx.regions, ∀ f ∈ r.pages, f % 4096 = 0)
  (hown : onPages (rctx.regions.flatMap Region.pages) ⊆ own)

include haligned hown

theorem moves_copyToGpu_within (gaddr size : Nat) (buf : List UInt8) :
    Moves (Wrote reach own)
      (onMem fun mem => (grCopyToGpu rctx.regions mem gaddr buf size).map Prod.fst) := by
  refine moves_onMem_within fun mem mem' hrun => ?_
  cases hcopy : grCopyToGpu rctx.regions mem gaddr buf size with
  | error e =>
      rw [hcopy] at hrun
      cases hrun
  | ok c =>
      rw [hcopy] at hrun
      obtain rfl := Except.ok.inj hrun
      exact (grGpuMemIo_within haligned hcopy).mono hown

theorem moves_entry_within (i : Nat) (io : RegIo) :
    Moves (Wrote reach own) (replayEntry cfg rctx env i io) := by
  refine moves_replayEntry i fun _ _ => Moves.ite (fun _ => ?_) fun _ => ?_
  · exact Moves.modifyGet fun s => .refl
  · exact Moves.get.bind fun _ => moves_copyToGpu_within haligned hown _ _ _

include hgpu

theorem moves_entriesBeside (log : List RegIo) :
    ∀ i, Moves (Wrote reach own) (replayEntriesBeside gpu cfg rctx env i log) := by
  induction log with
  | nil => exact fun _ => Moves.pure ()
  | cons io log ih =>
      intro i
      refine (moves_entry_within haligned hown i io).bind fun _ => Moves.bind ?_ fun _ => ih (i + 1)
      exact Moves.modifyGet fun s => .single ((hgpu i s.mem).mono Set.subset_union_left)

theorem moves_replayRunBeside (log : List RegIo) :
    Moves (Wrote reach own) (grReplayRunBeside gpu cfg rctx env log) := by
  refine Moves.bind (Moves.modifyGet fun s => .refl) fun _ => (moves_measure env).bind fun _ => ?_
  refine (moves_entriesBeside hgpu haligned hown log 0).bind fun _ => ?_
  exact Moves.modifyGet fun s => Wrote.totals s _ _

theorem moves_replayTurn (log : List RegIo) (inputAs outputAs : SyncAs) (inputBuf : List UInt8) :
    Moves (Wrote reach own) (replayTurn gpu cfg rctx env log inputAs outputAs inputBuf) := by
  have hclean : Moves (Wrote reach own)
      (onMem fun mem => (grCleanUsedAtom rctx.regions mem).map Prod.snd) := by
    refine moves_onMem_within fun mem mem' hrun => ?_
    cases hc : grCleanUsedAtom rctx.regions mem with
    | error e =>
        rw [hc] at hrun
        cases hrun
    | ok c =>
        rw [hc] at hrun
        obtain rfl := Except.ok.inj hrun
        refine (cleanUsedAtoms_within haligned (fun r hr f hf => ?_) hc).mono hown
        exact List.mem_flatMap.mpr ⟨r, hr, hf⟩
  refine Moves.bind ?_ fun _ => (moves_replayRunBeside hgpu haligned hown log).bind fun _ => ?_
  · refine hclean.bind fun _ => (moves_copyToGpu_within haligned hown _ _ _).bind fun _ => ?_
    exact moves_copyToGpu_within haligned hown _ _ _
  · exact Moves.get.bind fun s => (moves_ofExcept _).bind fun _ => Moves.pure _

end Replay

/-- **Whatever a demo does to memory** is a sequence of such writes. -/
theorem moves_demoRun {cfg : ReplayConfig} {rctx : ReplayContext} {env : Env} {gpu : Nat → Gpu}
    (hgpu : ∀ turn i mem, ChangesOnly (reach mem) mem (gpu turn i mem))
    (haligned : ∀ r ∈ rctx.regions, ∀ f ∈ r.pages, f % 4096 = 0)
    (hown : onPages (rctx.regions.flatMap Region.pages) ⊆ own) (log : List RegIo)
    (inputBuf : List UInt8) (numIter : Nat) :
    Moves (Wrote reach own) (demoRun gpu cfg rctx env log inputBuf numIter) := by
  unfold demoRun
  split
  · next outputAs inputAs _ _ =>
      generalize 0 = i
      induction numIter generalizing i with
      | zero => exact Moves.pure []
      | succ n ih =>
          refine (moves_replayTurn (hgpu i) haligned hown log _ _ _).bind fun _ => ?_
          exact (ih (i + 1)).bind fun _ => Moves.pure _
  · exact Moves.throw _

end Turns

/-! ### The frames of a context -/

theorem initRegions_suffix {heap : List UserPgtable} {userPgt : UserPtr} :
    ∀ (n : Nat) (s s' : McState), initRegions heap userPgt n s = .ok s' →
      ∀ f ∈ s'.pool, f ∈ s.pool := by
  intro n
  induction n with
  | zero =>
      intro s s' hrun
      rw [initRegions] at hrun
      split_ifs at hrun
      obtain rfl := Except.ok.inj hrun
      exact fun f hf => hf
  | succ n ih =>
      intro s s' hrun
      rw [initRegions] at hrun
      split_ifs at hrun
      · obtain rfl := Except.ok.inj hrun
        exact fun f hf => hf
      · obtain ⟨s₁, hregion, hrest⟩ := Except.bind_eq_ok.mp hrun
        obtain ⟨p, -, -, -, -, hpool, -⟩ := initRegion_ok hregion
        intro f hf
        have hmem := ih s₁ s' hrest f hf
        rw [hpool] at hmem
        exact List.mem_of_mem_drop hmem

section Loaded

variable {heap : List UserPgtable} {mem₀ : ByteMem} {root : Nat} {userPgt : UserPtr}
  (htree : TableTree heap mem₀ root userPgt) {frames : List Nat}

include htree

/-- The records of a memory dump exchange leaf entries for entries of the frames they take. -/
theorem initRegions_loaded :
    ∀ (n : Nat) (s s' : McState) (addrs : List Nat), s.pool.Nodup →
      (∀ f ∈ s.pool, f ∉ s'.pool → Fresh mem₀ root frames f) →
      Patched mem₀ root frames addrs s.mem → initRegions heap userPgt n s = .ok s' →
      Patched mem₀ root frames (addrs ++ visitedRegions n s.locals s.stream) s'.mem := by
  intro n
  induction n with
  | zero =>
      intro s s' addrs _ _ h hrun
      rw [initRegions] at hrun
      split_ifs at hrun
      obtain rfl := Except.ok.inj hrun
      rwa [visitedRegions, List.append_nil]
  | succ n ih =>
      intro s s' addrs hnodup hfresh h hrun
      rw [initRegions] at hrun
      rw [visitedRegions]
      by_cases hf : s.stream.eof = true
      · rw [if_pos hf] at hrun ⊢
        obtain rfl := Except.ok.inj hrun
        rwa [List.append_nil]
      · rw [if_neg hf] at hrun ⊢
        obtain ⟨s₁, hregion, hrest⟩ := Except.bind_eq_ok.mp hrun
        have hlater := initRegions_suffix n s₁ s' hrest
        obtain ⟨p, hroom, hpages, hstream, hmem, hpool₁, hlocals⟩ := initRegion_ok hregion
        have hcong := visitedRegions_congr n (readHeader s.locals s.stream).1 p.stream p.paddr p.buf
        generalize readHeader s.locals s.stream = header at hroom hpages hpool₁ hlocals hcong ⊢
        obtain ⟨l, f⟩ := header
        simp only at hroom hpages hpool₁ hlocals hcong ⊢
        have hlength : (s.pool.take l.nents).length = l.nents := List.length_take_of_le hroom
        have htaken : ∀ q ∈ s.pool.take l.nents, Fresh mem₀ root frames q := by
          intro q hq
          refine hfresh q (List.mem_of_mem_take hq) fun hq' => ?_
          have hdrop := hlater q hq'
          rw [hpool₁] at hdrop
          exact List.disjoint_take_drop hnodup (Nat.le_refl _) hq hdrop
        obtain ⟨hpatched, hafter⟩ :=
          initPages_patched htree frames (s.pool.take l.nents) addrs _ p htaken h hpages
        rw [hlength] at hpatched hafter
        have hdone := ih s₁ s' _ (by rw [hpool₁]; exact hnodup.drop)
          (fun q hq => hfresh q (List.mem_of_mem_drop (by rwa [hpool₁] at hq)))
          (by rw [hmem]; exact hpatched) hrest
        rwa [hlocals, hstream, hcong, hafter, List.append_assoc] at hdone

end Loaded

/-- **What a context is made of.**  The frames it has obtained from the pool are its tables and
then the pages of its regions, and the GPU finds every page of the memory dump on the latter. -/
structure Layout (m : Machine) (loaded : List Nat) (ctx : ReplayContext) : Prop where
  pool : m.pool = preorder ctx.machine.mem 3 ctx.newTranstab ++
    (ctx.regions.flatMap Region.pages ++ ctx.machine.pool)
  leaves : ∀ gaddr, (∃ a ∈ loaded, gpuPage a = gpuPage gaddr) →
    ∃ frame ∈ ctx.regions.flatMap Region.pages,
      mmuTranslate ctx.machine.mem ctx.newTranstab gaddr = some (frame + gaddr % 4096)

/-- The walk for an entry of a frame ends at the bottom. -/
theorem mmuTranslate_of_lookup {mem : ByteMem} {pgd gaddr frame flags : Nat}
    (haligned : frame % 4096 = 0) (hlt : frame < 2 ^ 48)
    (hword : gpuLookup mem pgd gaddr = grEntryGetAte frame flags midgardMmuBottomlevel) :
    mmuTranslate mem pgd gaddr = some (frame + gaddr % 4096) := by
  have htype : grEntryGetAte frame flags midgardMmuBottomlevel &&& 3 = 3 := by
    rw [grEntryGetAte_and_type haligned, if_pos rfl]
    rfl
  have hentry := @ending_lookup _ _ tableAt (entries mem) (gpuIndex gaddr) 3 pgd
  have hbottom : (ending tableAt (entries mem) (gpuIndex gaddr) 3 pgd).1 = 0 := by
    by_contra hne
    have hnone := child_ending hne
    rw [hentry, show lookup tableAt (entries mem) (gpuIndex gaddr) 3 pgd = _ from hword, tableAt,
      isTable, decide_eq_true htype, if_pos rfl] at hnone
    cases hnone
  unfold mmuTranslate
  generalize ending tableAt (entries mem) (gpuIndex gaddr) 3 pgd = last at hentry hbottom ⊢
  obtain ⟨h, w⟩ := last
  obtain rfl : h = 0 := hbottom
  obtain rfl : w = grEntryGetAte frame flags midgardMmuBottomlevel := hentry.trans hword
  have hvalid : Driver.ateIsValid (grEntryGetAte frame flags midgardMmuBottomlevel) (3 - 0) = true :=
    ateIsValid_grEntryGetAte haligned flags midgardMmuBottomlevel
  dsimp only
  rw [if_pos hvalid, pteToPhysAddr_grEntryGetAte haligned hlt, Nat.pow_zero, Nat.mul_one,
    Nat.div_mul_cancel (Nat.dvd_of_mod_eq_zero haligned)]

theorem grMemInit_layout {config : GrConfig} {pgtFile mcFile sasFile : List UInt8}
    {snapshot : Option (List UInt8)} {junk : InitJunk} {m : Machine} {ctx : ReplayContext}
    (hpool : PoolOk m.pool) (hlt : ∀ frame ∈ m.pool, frame < 2 ^ 48) (hjunk : junk.pgt.Ok)
    (hrun : grMemInit config ⟨some pgtFile, some mcFile, some sasFile, snapshot⟩ junk m = .ok ctx) :
    Layout m (loadedPages junk.mc mcFile) ctx := by
  obtain ⟨pgt, mc, hpgt, hmc, hmachine, hroot, -, sas, hsas⟩ := grMemInit_ok hrun
  obtain ⟨tables, h⟩ := grPgtInit_from hjunk hpool hpgt
  have hwalk : pages tableAt 512 (entries pgt.machine.mem) 3 pgt.newPgd = m.pool.take tables :=
    h.walk
  have hrest : pgt.machine.pool = m.pool.drop tables := h.pool
  have htree : TableTree pgt.machine.heap pgt.machine.mem pgt.newPgd pgt.userPgt := {
    nodup := by
      rw [hwalk]
      exact hpool.nodup.take
    aligned := fun q hq => by
      rw [hwalk] at hq
      exact hpool.aligned q (List.mem_of_mem_take hq)
    nodes := ⟨_, _, h.userPgd, h.tree⟩ }
  have hframes : ctx.regions.flatMap Region.pages = mc.regions.flatMap Region.pages := by
    have hsynced := readSyncAs_synced _ _ _ mc.regions (sas, ctx.regions) hsas
    rw [List.flatMap_def, hsynced.pages, ← List.flatMap_def]
  unfold grMemContentsInit at hmc
  have hflat := initRegions_flatMap nrVaRegion _ mc hmc
  simp only [List.flatMap_nil, List.nil_append] at hflat
  have hsplit : m.pool.take tables ++ (mc.regions.flatMap Region.pages ++ mc.pool) = m.pool := by
    rw [hflat, hrest, List.take_append_drop]
  have hnodup := hpool.nodup
  rw [← hsplit] at hnodup
  have hin : ∀ f ∈ mc.regions.flatMap Region.pages, f ∈ m.pool := fun f hf => by
    rw [← hsplit]
    exact List.mem_append_right _ (List.mem_append_left _ hf)
  have hfresh : ∀ f ∈ pgt.machine.pool, f ∉ mc.pool →
      Fresh pgt.machine.mem pgt.newPgd (mc.regions.flatMap Region.pages) f := by
    intro f hf hnot
    rw [← hflat] at hf
    have htaken := (List.mem_append.mp hf).resolve_right hnot
    refine ⟨htaken, hpool.aligned f (hin f htaken), hlt f (hin f htaken), fun htable => ?_⟩
    rw [hwalk] at htable
    exact List.disjoint_of_nodup_append hnodup htable (List.mem_append_left _ htaken)
  have hpatched := initRegions_loaded htree nrVaRegion _ mc []
    (by rw [hrest]; exact hpool.nodup.drop) hfresh (Patched.init _ _ _) hmc
  rw [List.nil_append, ← loadedPages] at hpatched
  refine ⟨?_, fun gaddr hloaded => ?_⟩
  · rw [hframes, hmachine, hroot, ← pages_eq_preorder, hpatched.upper.pages_eq, hwalk]
    exact hsplit.symm
  · obtain ⟨frame, hframe, flags, hword⟩ := hpatched.loaded gaddr hloaded
    rw [hframes, hmachine, hroot]
    exact ⟨frame, hframe, mmuTranslate_of_lookup (hpool.aligned frame (hin frame hframe))
      (hlt frame (hin frame hframe)) hword⟩

/-! ### Nobody writes to a table -/

/-- What the GPU can access through the entries that no page of the memory dump has replaced. -/
def strayReach (loaded : List Nat) (ctx : ReplayContext) : Set Nat :=
  {p | ∃ gaddr, (∀ a ∈ loaded, gpuPage a ≠ gpuPage gaddr) ∧
    mmuTranslate ctx.machine.mem ctx.newTranstab gaddr = some p}

/-- What has not changed since the context was set up. -/
structure Stays (loaded : List Nat) (ctx : ReplayContext) (mem : ByteMem) : Prop where
  memory : ChangesOnly (onPages (ctx.regions.flatMap Region.pages) ∪ strayReach loaded ctx)
    ctx.machine.mem mem
  translation : ∀ gaddr, mmuTranslate mem ctx.newTranstab gaddr
    = mmuTranslate ctx.machine.mem ctx.newTranstab gaddr

section Context

variable {m : Machine} {loaded : List Nat} {ctx : ReplayContext} (hpool : PoolOk m.pool)
  (h : Layout m loaded ctx)

include hpool h

theorem Layout.disjoint {f : Nat} (htable : f ∈ preorder ctx.machine.mem 3 ctx.newTranstab) :
    f ∉ ctx.regions.flatMap Region.pages := by
  have hnodup := hpool.nodup
  rw [h.pool] at hnodup
  exact fun hf => List.disjoint_of_nodup_append hnodup htable (List.mem_append_left _ hf)

theorem Layout.table_aligned {f : Nat}
    (htable : f ∈ preorder ctx.machine.mem 3 ctx.newTranstab) : f % 4096 = 0 :=
  hpool.aligned f (by rw [h.pool]; exact List.mem_append_left _ htable)

theorem Layout.page_aligned {f : Nat} (hf : f ∈ ctx.regions.flatMap Region.pages) :
    f % 4096 = 0 :=
  hpool.aligned f (by rw [h.pool]; exact List.mem_append_right _ (List.mem_append_left _ hf))

theorem Layout.reach_subset : gpuReach ctx.newTranstab ctx.machine.mem ⊆
    onPages (ctx.regions.flatMap Region.pages) ∪ strayReach loaded ctx := by
  rintro p ⟨gaddr, hp⟩
  by_cases hloaded : ∃ a ∈ loaded, gpuPage a = gpuPage gaddr
  · obtain ⟨frame, hframe, htranslate⟩ := h.leaves gaddr hloaded
    obtain rfl := Option.some.inj (hp.symm.trans htranslate)
    have haligned := h.page_aligned hpool hframe
    have hstart : pageStart (frame + gaddr % 4096) = frame := by
      unfold pageStart
      omega
    refine Or.inl ?_
    show pageStart (frame + gaddr % 4096) ∈ ctx.regions.flatMap Region.pages
    rwa [hstart]
  · push Not at hloaded
    exact Or.inr ⟨gaddr, hloaded, hp⟩

/-- The tables are out of reach as long as no stray entry leads to one. -/
theorem Layout.closed
    (hstray : ∀ p ∈ strayReach loaded ctx,
      pageStart p ∉ preorder ctx.machine.mem 3 ctx.newTranstab) :
    Closed (gpuReach ctx.newTranstab) (onPages (ctx.regions.flatMap Region.pages))
      (onPages (preorder ctx.machine.mem 3 ctx.newTranstab)) ctx.machine.mem where
  decided := fun mem' hsame => by
    have htranslate := mmuTranslate_congr (fun q hq => h.table_aligned hpool hq) hsame
    unfold gpuReach
    simp only [htranslate]
  reach := fun p hp hin =>
    (h.reach_subset hpool hin).elim (h.disjoint hpool hp) fun hs => hstray p hs hp
  own := fun p hp hin => h.disjoint hpool hp hin

end Context

/-- **Confinement.**  In a demo of any number of turns, whatever the GPU does within the page
table that is in memory at the time, only the pages of the regions and those that stray entries
lead to ever change, and no address is translated to another page, provided that no stray entry
leads to a table. -/
theorem demoRun_confined {config : GrConfig} {pgtFile mcFile sasFile : List UInt8}
    {snapshot : Option (List UInt8)} {junk : InitJunk} {m : Machine} {ctx : ReplayContext}
    (hpool : PoolOk m.pool) (hlt : ∀ frame ∈ m.pool, frame < 2 ^ 48) (hjunk : junk.pgt.Ok)
    (hrun : grMemInit config ⟨some pgtFile, some mcFile, some sasFile, snapshot⟩ junk m = .ok ctx)
    (hstray : ∀ p ∈ strayReach (loadedPages junk.mc mcFile) ctx,
      pageStart p ∉ preorder ctx.machine.mem 3 ctx.newTranstab)
    {gpu : Nat → Gpu} (hgpu : ∀ turn, GpuConfined ctx.newTranstab (gpu turn)) (cfg : ReplayConfig)
    (env : Env) (log : List RegIo) (inputBuf : List UInt8) (numIter : Nat) {s : ReplayState}
    (hs : s.mem = ctx.machine.mem) :
    Post (demoRun gpu cfg ctx env log inputBuf numIter) s
      (fun _ s' => Stays (loadedPages junk.mc mcFile) ctx s'.mem)
      (fun _ s' => Stays (loadedPages junk.mc mcFile) ctx s'.mem) := by
  have hlayout := grMemInit_layout hpool hlt hjunk hrun
  have hclosed := hlayout.closed hpool hstray
  have haligned : ∀ r ∈ ctx.regions, ∀ f ∈ r.pages, f % 4096 = 0 := fun r hr f hf =>
    hlayout.page_aligned hpool (List.mem_flatMap.mpr ⟨r, hr, hf⟩)
  have hstays : ∀ s', Wrote (gpuReach ctx.newTranstab)
      (onPages (ctx.regions.flatMap Region.pages)) s s' →
      Stays (loadedPages junk.mc mcFile) ctx s'.mem := by
    intro s' hwrote
    unfold Wrote at hwrote
    rw [hs] at hwrote
    have hchanges := hclosed.run hwrote
    refine ⟨hchanges.mono ?_, mmuTranslate_congr ?_ (hclosed.same hchanges)⟩
    · exact Set.union_subset (hlayout.reach_subset hpool) Set.subset_union_left
    · exact fun q hq => hlayout.table_aligned hpool hq
  exact (moves_demoRun hgpu haligned (Set.Subset.refl _) log inputBuf numIter s).mono
    (fun _ s' => hstays s') fun _ s' => hstays s'

/-! ### The chain of tables once more -/

/-- A table of the chain leads to the next one at index `0`, and nowhere at any other. -/
theorem lookup_chain_step {p n i : Nat} (hp : p < 4) (hi : i < 512) {ix : Nat → Nat}
    (hix : ix (n + 1) = i) :
    lookup tableAt (entries (pageMem chainWord)) ix (n + 1) (4096 * p) =
      if i = 0 then lookup tableAt (entries (pageMem chainWord)) ix n (4096 * (p + 1))
      else Driver.entryInvalidate := by
  have hword : chainWord p i = childWord p 1 (4 - p) i := if_pos hp
  have hlt : childWord p 1 (4 - p) i < 2 ^ 64 := by
    by_cases hzero : i = 0
    · rw [hzero]
      exact (writtenWord_childWord 0 0 (by omega)).lt
    · rw [childWord, if_neg (by omega)]
      decide
  have hentry : entries (pageMem chainWord) (4096 * p) i = childWord p 1 (4 - p) i := by
    rw [← hword]
    exact read64_pageMem hi (by rw [hword]; exact hlt)
  rw [show lookup tableAt (entries (pageMem chainWord)) ix (n + 1) (4096 * p) =
    (tableAt (entries (pageMem chainWord) (4096 * p) (ix (n + 1)))).elim
      (entries (pageMem chainWord) (4096 * p) (ix (n + 1)))
      (lookup tableAt (entries (pageMem chainWord)) ix n) from rfl]
  rw [hix, hentry, tableAt, isTable_childWord]
  by_cases hzero : i = 0
  · rw [if_pos hzero, if_pos (by rw [hzero]; decide), hzero, pageStart_childWord _ _ (by decide),
      Nat.zero_mul, Nat.add_zero]
    rfl
  · rw [if_neg hzero, if_neg (by rw [decide_eq_true_eq]; omega), childWord, if_neg (by omega)]
    rfl

/-- Every address of the recorded chain ends at the recorded page or at an invalid entry. -/
theorem gpuLookup_chain_cases (gaddr : Nat) :
    gpuLookup (pageMem chainWord) (4096 * 1) gaddr = Driver.entrySetAte 0x7000 0 3 ∨
      gpuLookup (pageMem chainWord) (4096 * 1) gaddr = Driver.entryInvalidate := by
  have hbottom : lookup tableAt (entries (pageMem chainWord)) (gpuIndex gaddr) 0 (4096 * 4)
      = Driver.entrySetAte 0x7000 0 3 := by
    have hword : chainWord 4 (gpuIndex gaddr 0) = Driver.entrySetAte 0x7000 0 3 :=
      if_neg (by decide)
    unfold lookup
    rw [← hword]
    refine read64_pageMem (gpuIndex_lt gaddr 0) ?_
    rw [hword]
    decide
  unfold gpuLookup
  rw [lookup_chain_step (by decide) (gpuIndex_lt gaddr 3) rfl,
    lookup_chain_step (by decide) (gpuIndex_lt gaddr 2) rfl,
    lookup_chain_step (by decide) (gpuIndex_lt gaddr 1) rfl, hbottom]
  split_ifs
  · exact Or.inl rfl
  all_goals exact Or.inr rfl

/-- A GPU that writes a byte at its address `0`. -/
def pokeGpu (pgd : Nat) : Gpu := fun _ mem =>
  match mmuTranslate mem pgd 0 with
  | some p => Function.update mem p 1
  | none => mem

theorem pokeGpu_confined (pgd : Nat) : GpuConfined pgd (pokeGpu pgd) := by
  intro i mem p hp
  unfold pokeGpu
  cases hq : mmuTranslate mem pgd 0 with
  | none => rfl
  | some q =>
      refine Function.update_of_ne ?_ _ _
      rintro rfl
      exact hp ⟨0, hq⟩

/-- Two ranges of eight bytes in the first page: the input, and the output after it. -/
def twoSynced : List UInt8 :=
  Bytes.le 4 2 ++ ((Bytes.le 8 0 ++ (Bytes.le 8 4096 ++ Bytes.le 8 8)) ++
    (Bytes.le 8 8 ++ (Bytes.le 8 4096 ++ Bytes.le 8 8)))

/-- The stray entries of the chain lead to the recorded page, which is no table.  The turns copy
in an input and an output, and replay a read and the submission of a job. -/
theorem chain_confined :
    ∃ ctx, grMemInit ⟨false, false⟩ (chainFiles twoSynced) chainJunk chainMachine = .ok ctx ∧
      (∃ inputAs outputAs, ctx.sas = [inputAs, outputAs] ∧
        inputAs.gmStart = 0 ∧ outputAs.gmStart = 8) ∧
      Post (demoRun (fun _ => pokeGpu ctx.newTranstab) ⟨⟨false, false⟩, 0, 0⟩ ctx
          ⟨fun _ => 0, fun _ => 0, fun _ => true⟩
          [⟨0, 'R', latestFlush, 0⟩, ⟨1, 'W', jsHeadNextLo, 0⟩, ⟨2, 'W', jsHeadNextHi, 0⟩,
            ⟨3, 'W', jsCommandNext, 1⟩] (List.replicate 8 7) 10)
        { blankState with mem := ctx.machine.mem }
        (fun _ s' => Stays (loadedPages chainJunk.mc (dump [untouchedPage])) ctx s'.mem)
        (fun _ s' => Stays (loadedPages chainJunk.mc (dump [untouchedPage])) ctx s'.mem) := by
  have hinput := chain_recorded.1
  have hstarts : ∀ k < 2, sasStart chainJunk.sas twoSynced k = 8 * k := by decide
  obtain ⟨ctx, hrun, hlen, hentries⟩ := @chain_synced twoSynced 2 (by decide) fun k hk => by
    rw [hstarts k hk]
    omega
  obtain ⟨inputAs, outputAs, hsas⟩ := List.length_eq_two.mp hlen
  have hin := (hentries 0 inputAs (by rw [hsas]; rfl)).trans (hstarts 0 (by decide))
  have hout := (hentries 1 outputAs (by rw [hsas]; rfl)).trans (hstarts 1 (by decide))
  obtain ⟨hpool, hlt⟩ := chainMachine_pool
  refine ⟨ctx, hrun, ⟨inputAs, outputAs, hsas, hin, hout⟩,
    demoRun_confined hpool hlt chainJunk_ok hrun (fun p hp htable => ?_)
      (fun _ => pokeGpu_confined _) _ _ _ _ _ rfl⟩
  have hlayout := grMemInit_layout hpool hlt chainJunk_ok hrun
  have hin : pageStart p ∈ chainMachine.pool := by
    rw [hlayout.pool]
    exact List.mem_append_left _ htable
  obtain ⟨gaddr, hunloaded, hp⟩ := hp
  obtain ⟨pgt, tables, k, hpgt, -, -, -, hroot, hpatched⟩ :=
    grMemInit_patched hpool hlt chainJunk_ok hrun
  obtain ⟨pgt', hpgt', hr⟩ := grPgtInit_complete hinput chainJunk.pgt
  obtain rfl : pgt' = pgt := Except.ok.inj (hpgt'.symm.trans hpgt)
  have hword : gpuLookup ctx.machine.mem ctx.newTranstab gaddr =
      gpuLookup (pageMem chainWord) (4096 * 1) gaddr := by
    rw [hroot, hpatched.kept gaddr hunloaded]
    exact hr.copied.lookup_eq (gpuIndex_lt gaddr)
  rcases gpuLookup_chain_cases gaddr with hpage | hinval
  · have htranslate := mmuTranslate_of_lookup (by decide) (by decide)
      (hword.trans (hpage.trans (show _ = grEntryGetAte 0x7000 0 midgardMmuBottomlevel from rfl)))
    obtain rfl := Option.some.inj (hp.symm.trans htranslate)
    have hstart : pageStart (0x7000 + gaddr % 4096) = 0x7000 := by
      unfold pageStart
      omega
    rw [hstart] at hin
    exact absurd hin (by decide)
  · have hentry := @ending_lookup _ _ tableAt (entries ctx.machine.mem) (gpuIndex gaddr) 3
      ctx.newTranstab
    unfold mmuTranslate at hp
    generalize ending tableAt (entries ctx.machine.mem) (gpuIndex gaddr) 3 ctx.newTranstab = last
      at hentry hp
    obtain ⟨h, w⟩ := last
    obtain rfl : w = Driver.entryInvalidate := hentry.trans (hword.trans hinval)
    dsimp only at hp
    rw [if_neg] at hp
    · cases hp
    · unfold Driver.ateIsValid
      split_ifs
      · decide
      · decide

end GpuReplay.Replayer
