/-
The calls of `gr_read_phys` and `gr_write_phys`, function by function.

The calls are those of the functions with a log, which without it are the functions of the
model (`grMemInitLog_result` and the like).  All the callers but `gr_find_sync_as` ask for a
page at the start of a frame, or split a transfer at the frames; `gr_mem_contents_check`
does so as long as its dump does not lead it past the pages of a region.
-/
import GpuReplay.Replayer.PhysCalls
import GpuReplay.Proofs.Contents
import GpuReplay.Proofs.IoBounds
import GpuReplay.Proofs.Translation

namespace GpuReplay.Replayer

open Stdio

/-! ### Without the log -/

theorem grFindSyncAsLog_result (mem : ByteMem) (buf : List UInt8) (size : Nat) :
    ∀ sas : List SyncAs,
      (grFindSyncAsLog mem buf size sas).result = grFindSyncAs mem buf size sas := by
  intro sas
  induction sas with
  | nil => rfl
  | cons sas rest ih =>
      refine bind_congr fun sasBuf => bind_congr fun same => ?_
      cases same with
      | false => exact ih
      | true => rfl

theorem middlePagesLog_result (isRead : Bool) (pages : List Nat) (pageOffset : Nat) :
    ∀ (n i : Nat) (s : IoState), (middlePagesLog isRead pages pageOffset n i s).result
      = middlePages isRead pages pageOffset n i s := by
  intro n
  induction n with
  | zero => exact fun _ _ => rfl
  | succ n ih =>
      intro i s
      refine bind_congr fun paddr => bind_congr fun s => ?_
      dsimp only
      split
      · rfl
      · exact ih _ _

theorem lastPageLog_result (isRead : Bool) (pages : List Nat) (pageOffset pageCount : Nat)
    (s : IoState) : (lastPageLog isRead pages pageOffset pageCount s).result
      = lastPage isRead pages pageOffset pageCount s := by
  unfold lastPageLog lastPage
  split
  · split
    · rfl
    · rfl
  · rfl

theorem grGpuMemIoLog_result (regions : List Region) (mem : ByteMem) (gaddr : Nat)
    (buf : List UInt8) (size : Nat) (isRead : Bool) :
    (grGpuMemIoLog regions mem gaddr buf size isRead).result
      = grGpuMemIo regions mem gaddr buf size isRead := by
  unfold grGpuMemIoLog grGpuMemIo
  cases (grFindRegionEnclosingAddress regions gaddr).bind (regions[·]?) with
  | none => rfl
  | some gmRegion =>
      dsimp only
      split
      · rfl
      · refine bind_congr fun page => bind_congr fun s => ?_
        simp only [Logged.result_bind, middlePagesLog_result, lastPageLog_result]
        rfl

theorem cleanUsedAtomsLog_result :
    ∀ (i : Nat) (regions : List Region) (mem : ByteMem),
      (cleanUsedAtomsLog i regions mem).result = cleanUsedAtoms i regions mem := by
  intro i regions
  induction regions generalizing i with
  | nil => exact fun _ => rfl
  | cons region regions ih =>
      intro mem
      unfold cleanUsedAtomsLog cleanUsedAtoms
      split
      · refine bind_congr fun page => bind_congr fun buf => bind_congr fun r => ?_
        obtain ⟨words, isUsed⟩ := r
        have hlater : ∀ mem : ByteMem,
            (cleanUsedAtomsLog (i + 1) regions mem >>= fun rest =>
              (pure (i :: rest.1, rest.2) : Phys _)).result
              = cleanUsedAtoms (i + 1) regions mem >>= fun rest => pure (i :: rest.1, rest.2) := by
          intro mem
          rw [Logged.result_bind, ih]
          rfl
        cases isUsed with
        | false => exact hlater mem
        | true => exact bind_congr hlater
      · exact ih _ _

theorem checkPageLog_result (newPage : Nat) (s : CheckState) :
    (checkPageLog newPage s).result = checkPage newPage s := by
  refine bind_congr fun replayed => ?_
  dsimp only
  split
  · rfl
  · rfl

/-- A run with fuel, as one that may come to nothing. -/
def outcome {α : Type} : Option (Except Stop α) → Except Stop (Option α)
  | none => .ok none
  | some (.ok a) => .ok (some a)
  | some (.error e) => .error e

theorem checkPagesLog_result (region : Region) :
    ∀ (fuel pageCnt : Nat) (s : CheckState),
      (checkPagesLog region fuel pageCnt s).result
        = outcome (checkPages region fuel pageCnt s) := by
  intro fuel
  induction fuel with
  | zero => exact fun _ _ => rfl
  | succ fuel ih =>
      intro pageCnt s
      rw [checkPagesLog, checkPages]
      split
      · rw [Logged.result_bind, Logged.result_quiet]
        cases pageAt region.pages pageCnt with
        | error e => rfl
        | ok newPage =>
            rw [Except.ok_bind, Except.ok_bind, Logged.result_bind, checkPageLog_result]
            cases checkPage newPage s with
            | error e => rfl
            | ok s => exact ih _ _
      · rfl

theorem checkRegionLog_result (region : Region) (fuel : Nat) (l : Locals) (f : Stream)
    (mem : ByteMem) :
    (checkRegionLog region fuel l f mem).result = outcome (checkRegion region fuel l f mem) := by
  unfold checkRegionLog checkRegion
  dsimp only
  split
  · rw [Logged.result_bind, checkPagesLog_result]
    cases checkPages region fuel 0 ⟨(readHeader l f).2, region.gmStart, (readHeader l f).1.paddr,
      (readHeader l f).1.buf, false, mem⟩ with
    | none => rfl
    | some out =>
        cases out with
        | error e => rfl
        | ok s => rfl
  · rfl

/-- **`gr_mem_contents_check` without its log** is the function of the model. -/
theorem checkRegionsLog_result (fuel : Nat) :
    ∀ (regions : List Region) (l : Locals) (f : Stream) (mem : ByteMem),
      (checkRegionsLog fuel regions l f mem).result
        = outcome (checkRegions fuel regions l f mem) := by
  intro regions
  induction regions with
  | nil =>
      intro l f mem
      rw [checkRegionsLog, checkRegions]
      split
      · rfl
      · rfl
  | cons region regions ih =>
      intro l f mem
      rw [checkRegionsLog, checkRegions]
      split
      · rfl
      · rw [Logged.result_bind, checkRegionLog_result]
        cases checkRegion region fuel l f mem with
        | none => rfl
        | some out =>
            cases out with
            | error e => rfl
            | ok r => exact ih _ _ _

theorem finishTableLog_result (newPgd node : Nat) (r : List Nat × Nat × Machine) :
    (finishTableLog newPgd node r).result = finishTable newPgd node r := rfl

theorem constructEntriesLog_result {nextLog : Nat → Machine → Phys Built}
    {next : Nat → Machine → Except Stop Built} (hnext : ∀ o m, (nextLog o m).result = next o m)
    (level node : Nat) :
    ∀ (words : List Nat) (i offset : Nat) (m : Machine),
      (constructEntriesLog nextLog level node i words offset m).result
        = constructEntries next level node i words offset m := by
  intro words
  induction words with
  | nil => exact fun _ _ _ => rfl
  | cons w words ih =>
      intro i offset m
      unfold constructEntriesLog constructEntries
      split
      · rw [Logged.result_bind, hnext]
        refine bind_congr fun b => ?_
        rw [Logged.result_bind, ih]
        rfl
      · rw [Logged.result_bind, ih]
        rfl

theorem grConstructPgtLog_result (junk : Nat → Nat → UserPtr) (pgtValue : List Nat) :
    ∀ (below offset : Nat) (m : Machine),
      (grConstructPgtLog junk pgtValue below offset m).result
        = grConstructPgt junk pgtValue below offset m := by
  intro below
  induction below with
  | zero => exact fun _ _ => rfl
  | succ below ih =>
      intro offset m
      refine bind_congr fun t => bind_congr fun old => ?_
      rw [Logged.result_bind, constructEntriesLog_result ih]
      rfl

theorem grPgtInitLog_result (junk : PgtJunk) (m : Machine) (file : List UInt8) :
    (grPgtInitLog junk m file).result = grPgtInit junk m file := by
  refine bind_congr fun r => ?_
  rw [Logged.result_bind, grConstructPgtLog_result]
  rfl

theorem initPageLog_result (heap : List UserPgtable) (userPgt : UserPtr)
    (flags isValid newPage : Nat) (s : PageState) :
    (initPageLog heap userPgt flags isValid newPage s).result
      = initPage heap userPgt flags isValid newPage s := by
  refine bind_congr fun targetPgt => bind_congr fun pgdPage => ?_
  dsimp only
  split
  · rfl
  · rfl

theorem initPagesLog_result (heap : List UserPgtable) (userPgt : UserPtr)
    (gmEnd flags isValid : Nat) :
    ∀ (pages : List Nat) (s : PageState),
      (initPagesLog heap userPgt gmEnd flags isValid pages s).result
        = initPages heap userPgt gmEnd flags isValid pages s := by
  intro pages
  induction pages with
  | nil => exact fun _ => rfl
  | cons newPage pages ih =>
      intro s
      unfold initPagesLog initPages
      split
      · rw [Logged.result_bind, initPageLog_result]
        exact bind_congr fun s => ih _
      · rfl

theorem initRegionLog_result (heap : List UserPgtable) (userPgt : UserPtr) (s : McState) :
    (initRegionLog heap userPgt s).result = initRegion heap userPgt s := by
  refine bind_congr fun taken => ?_
  rw [Logged.result_bind, initPagesLog_result]
  rfl

theorem initRegionsLog_result (heap : List UserPgtable) (userPgt : UserPtr) :
    ∀ (n : Nat) (s : McState),
      (initRegionsLog heap userPgt n s).result = initRegions heap userPgt n s := by
  intro n
  induction n with
  | zero => exact fun _ => rfl
  | succ n ih =>
      intro s
      unfold initRegionsLog initRegions
      split
      · rfl
      · rw [Logged.result_bind, initRegionLog_result]
        exact bind_congr fun s => ih _

theorem grMemContentsInitLog_result (m : Machine) (userPgt : UserPtr) (locals : Locals)
    (file : List UInt8) :
    (grMemContentsInitLog m userPgt locals file).result = grMemContentsInit m userPgt locals file :=
  initRegionsLog_result _ _ _ _

theorem grMemInitLog_result (config : GrConfig) (files : Files) (junk : InitJunk) (m : Machine) :
    (grMemInitLog config files junk m).result = grMemInit config files junk m := by
  refine bind_congr fun pgtFile => ?_
  rw [Logged.result_bind, grPgtInitLog_result]
  refine bind_congr fun pgt => bind_congr fun mcFile => ?_
  rw [Logged.result_bind, grMemContentsInitLog_result]
  rfl

/-! ### One call -/

/-- Every call of the run stays in its page. -/
abbrev InPages {α : Type} (x : Phys α) : Prop := Logged.All PhysCall.InPage x

/-- A page from the start of a frame. -/
theorem inPage_frame {page : Nat} (hpage : page % 4096 = 0) : PhysCall.InPage ⟨page, 4096⟩ := by
  show page % 4096 + 4096 ≤ 4096
  rw [hpage]

/-- A page from anywhere else is not in one page. -/
theorem inPage_page_iff {paddr : Nat} : PhysCall.InPage ⟨paddr, 4096⟩ ↔ paddr % 4096 = 0 := by
  show paddr % 4096 + 4096 ≤ 4096 ↔ _
  omega

theorem grReadPhysLog_inPages (mem : ByteMem) {page : Nat} (hpage : page % 4096 = 0) :
    InPages (grReadPhysLog mem page 4096) :=
  (Logged.all_call _ _).mpr (inPage_frame hpage)

theorem grWritePhysLog_inPages (mem : ByteMem) {page : Nat} (hpage : page % 4096 = 0)
    {buf : List UInt8} (hbuf : buf.length = 4096) : InPages (grWritePhysLog mem page buf) := by
  refine (Logged.all_call _ _).mpr ?_
  rw [hbuf]
  exact inPage_frame hpage

theorem mem_of_pageAt {pages : List Nat} {i page : Nat} (h : pageAt pages i = .ok page) :
    page ∈ pages := by
  unfold pageAt at h
  split at h
  next page' hpage =>
    obtain rfl := Except.ok.inj h
    exact List.mem_of_getElem? hpage
  next => exact absurd h.symm (Except.ok_ne_error _ _)

/-! ### The transfers -/

section Transfer

variable {pages : List Nat} (haligned : ∀ page ∈ pages, page % 4096 = 0) (isRead : Bool)
  (pageOffset : Nat)

include haligned

theorem middlePagesLog_inPages :
    ∀ (n i : Nat) (s : IoState), InPages (middlePagesLog isRead pages pageOffset n i s) := by
  intro n
  induction n with
  | zero => exact fun _ _ => Logged.all_pure _
  | succ n ih =>
      intro i s
      refine Logged.all_quiet_bind.mpr fun page hpage => ?_
      have hframe := haligned page (mem_of_pageAt hpage)
      refine Logged.All.bind ((Logged.all_call _ _).mpr (inPage_frame hframe)) fun s _ => ?_
      split
      · exact Logged.all_quiet _
      · exact ih _ _

/-- The size of the last piece is checked. -/
theorem lastPageLog_inPages (pageCount : Nat) (s : IoState) :
    InPages (lastPageLog isRead pages pageOffset pageCount s) := by
  unfold lastPageLog
  split
  · split
    · exact Logged.all_quiet _
    · next hsize =>
        refine Logged.all_quiet_bind.mpr fun page hpage => (Logged.all_call _ _).mpr ?_
        have hframe := haligned page (mem_of_pageAt hpage)
        show page % 4096 + s.size ≤ 4096
        omega
  · exact Logged.all_pure _

end Transfer

/-- **A transfer is split at the pages.** -/
theorem grGpuMemIoLog_inPages {regions : List Region}
    (haligned : ∀ r ∈ regions, ∀ page ∈ r.pages, page % 4096 = 0) (mem : ByteMem) (gaddr : Nat)
    (buf : List UInt8) (size : Nat) (isRead : Bool) :
    InPages (grGpuMemIoLog regions mem gaddr buf size isRead) := by
  unfold grGpuMemIoLog
  cases hfind : (grFindRegionEnclosingAddress regions gaddr).bind (regions[·]?) with
  | none => exact Logged.all_quiet _
  | some gmRegion =>
      have hin : gmRegion ∈ regions := by
        obtain ⟨i, -, hi⟩ := Option.bind_eq_some_iff.mp hfind
        exact List.mem_of_getElem? hi
      dsimp only
      split
      · exact Logged.all_quiet _
      · refine Logged.all_quiet_bind.mpr fun page hpage => ?_
        have hframe := haligned gmRegion hin page (mem_of_pageAt hpage)
        have hfirst : PhysCall.InPage ⟨page + gaddr % 4096, min (4096 - gaddr % 4096) size⟩ := by
          show (page + gaddr % 4096) % 4096 + min (4096 - gaddr % 4096) size ≤ 4096
          omega
        refine Logged.All.bind ((Logged.all_call _ _).mpr hfirst) fun s _ => ?_
        refine Logged.All.bind
          (middlePagesLog_inPages (haligned gmRegion hin) isRead _ _ _ _) fun s _ => ?_
        exact Logged.All.bind (lastPageLog_inPages (haligned gmRegion hin) isRead _ _ _)
          fun s _ => Logged.all_pure _

/-! ### The job pages -/

theorem length_cleanAtoms :
    ∀ {ws : List Nat} {r : List Nat × Bool}, cleanAtoms ws = .ok r → r.1.length = ws.length := by
  intro ws
  induction ws with
  | nil =>
      intro r hrun
      obtain rfl := Except.ok.inj hrun
      rfl
  | cons word rest ih =>
      intro r hrun
      unfold cleanAtoms at hrun
      split at hrun
      · split at hrun
        · exact absurd hrun.symm (Except.ok_ne_error _ _)
        · obtain ⟨r', hrest, hdone⟩ := Except.bind_eq_ok.mp hrun
          dsimp only at hdone
          split at hdone
          · obtain rfl := Except.ok.inj hdone
            exact congrArg (· + 1) (ih hrest)
          · obtain rfl := Except.ok.inj hdone
            exact congrArg (· + 1) (ih hrest)
      · obtain ⟨r', hrest, hdone⟩ := Except.bind_eq_ok.mp hrun
        obtain rfl := Except.ok.inj hdone
        exact congrArg (· + 1) (ih hrest)

theorem cleanUsedAtomsLog_inPages :
    ∀ (i : Nat) (regions : List Region) (mem : ByteMem),
      (∀ r ∈ regions, ∀ page ∈ r.pages, page % 4096 = 0) →
      InPages (cleanUsedAtomsLog i regions mem) := by
  intro i regions
  induction regions generalizing i with
  | nil => exact fun _ _ => Logged.all_pure _
  | cons region regions ih =>
      intro mem haligned
      have hlater := fun mem => ih (i + 1) mem fun r hr => haligned r (List.mem_cons_of_mem _ hr)
      unfold cleanUsedAtomsLog
      split
      · refine Logged.all_quiet_bind.mpr fun page hpage => ?_
        have hframe := haligned region List.mem_cons_self page (mem_of_pageAt hpage)
        refine Logged.All.bind (grReadPhysLog_inPages mem hframe) fun buf hbuf => ?_
        have hread : grReadPhys mem page 4096 = .ok buf := hbuf
        rw [grReadPhys_eq (by rw [hframe])] at hread
        obtain rfl := Except.ok.inj hread
        refine Logged.all_quiet_bind.mpr fun r hr => ?_
        have hlength : (Bytes.words r.1).length = 4096 := by
          rw [Bytes.length_words, length_cleanAtoms hr, wordsOf_read, length_tableWords]
        dsimp only
        split
        · exact Logged.All.bind (grWritePhysLog_inPages mem hframe hlength) fun mem _ =>
            Logged.All.bind (hlater mem) fun _ _ => Logged.all_pure _
        · exact Logged.All.bind (Logged.all_pure _) fun mem _ =>
            Logged.All.bind (hlater mem) fun _ _ => Logged.all_pure _
      · exact hlater mem

/-! ### Setting up -/

theorem length_constructEntries {next : Nat → Machine → Except Stop Built} {level node : Nat} :
    ∀ (words : List Nat) (i offset : Nat) (m : Machine) (r : List Nat × Nat × Machine),
      constructEntries next level node i words offset m = .ok r → r.1.length = words.length := by
  intro words
  induction words with
  | nil =>
      intro i offset m r hrun
      obtain rfl := Except.ok.inj hrun
      rfl
  | cons w words ih =>
      intro i offset m r hrun
      unfold constructEntries at hrun
      split at hrun
      · obtain ⟨b, -, hrun⟩ := Except.bind_eq_ok.mp hrun
        obtain ⟨rest, hrest, hdone⟩ := Except.bind_eq_ok.mp hrun
        obtain rfl := Except.ok.inj hdone
        exact congrArg (· + 1) (ih _ _ _ rest hrest)
      · obtain ⟨rest, hrest, hdone⟩ := Except.bind_eq_ok.mp hrun
        obtain rfl := Except.ok.inj hdone
        exact congrArg (· + 1) (ih _ _ _ rest hrest)

theorem finishTableLog_inPages {newPgd : Nat} (hframe : newPgd % 4096 = 0) (node : Nat)
    {r : List Nat × Nat × Machine} (hlength : r.1.length = 512) :
    InPages (finishTableLog newPgd node r) := by
  have hbytes : (r.1.flatMap (Bytes.le 8)).length = 4096 :=
    (Bytes.length_words r.1).trans (by rw [hlength])
  exact Logged.All.bind (grWritePhysLog_inPages _ hframe hbytes) fun _ _ => Logged.all_pure _

theorem constructEntriesLog_inPages {next : Nat → Machine → Phys Built}
    (hnext : ∀ o m, InPages (next o m)) (level node : Nat) :
    ∀ (words : List Nat) (i offset : Nat) (m : Machine),
      InPages (constructEntriesLog next level node i words offset m) := by
  intro words
  induction words with
  | nil => exact fun _ _ _ => Logged.all_pure _
  | cons w words ih =>
      intro i offset m
      unfold constructEntriesLog
      split
      · exact Logged.All.bind (hnext _ _) fun b _ =>
          Logged.All.bind (ih _ _ _) fun _ _ => Logged.all_pure _
      · exact Logged.All.bind (ih _ _ _) fun _ _ => Logged.all_pure _

/-- **A table is written to its frame, which has been mapped.** -/
theorem grConstructPgtLog_inPages (junk : Nat → Nat → UserPtr) (pgtValue : List Nat) :
    ∀ (below offset : Nat) (m : Machine),
      InPages (grConstructPgtLog junk pgtValue below offset m) := by
  intro below
  induction below with
  | zero =>
      intro offset m
      refine Logged.all_quiet_bind.mpr fun t ht => Logged.all_quiet_bind.mpr fun old hold => ?_
      obtain ⟨frame, pool, -, hframe, rfl⟩ := newTable_ok junk ht
      exact finishTableLog_inPages hframe _ (oldPteValue_ok hold).1
  | succ below ih =>
      intro offset m
      refine Logged.all_quiet_bind.mpr fun t ht => Logged.all_quiet_bind.mpr fun old hold => ?_
      refine Logged.All.bind (constructEntriesLog_inPages ih _ _ _ _ _ _) fun r hr => ?_
      rw [constructEntriesLog_result (grConstructPgtLog_result junk pgtValue below)] at hr
      obtain ⟨frame, pool, -, hframe, rfl⟩ := newTable_ok junk ht
      exact finishTableLog_inPages hframe _
        ((length_constructEntries _ _ _ _ r hr).trans (oldPteValue_ok hold).1)

theorem initPageLog_inPages {heap : List UserPgtable} {userPgt : UserPtr}
    {flags isValid newPage : Nat} (hframe : newPage % 4096 = 0) {s : PageState}
    (hbuf : s.buf.length = 4096) :
    InPages (initPageLog heap userPgt flags isValid newPage s) ∧
      ∀ s', initPage heap userPgt flags isValid newPage s = .ok s' → s'.buf.length = 4096 := by
  have hlen := length_read hbuf ((s.stream.readWord 8 s.vaddr).2.readWord 8 s.paddr).2
  constructor
  · refine Logged.all_quiet_bind.mpr fun targetPgt _ => ?_
    refine Logged.all_quiet_bind.mpr fun pgdPage _ => ?_
    dsimp only
    split
    · exact Logged.All.bind (grWritePhysLog_inPages _ hframe hlen) fun _ _ => Logged.all_pure _
    · exact Logged.All.bind (Logged.all_pure _) fun _ _ => Logged.all_pure _
  · intro s' hrun
    obtain ⟨targetPgt, -, hrun⟩ := Except.bind_eq_ok.mp hrun
    obtain ⟨pgdPage, -, hrun⟩ := Except.bind_eq_ok.mp hrun
    dsimp only at hrun
    split at hrun
    · obtain ⟨mem, -, hdone⟩ := Except.bind_eq_ok.mp hrun
      obtain rfl := Except.ok.inj hdone
      exact hlen
    · obtain rfl := Except.ok.inj hrun
      exact hbuf

theorem initPagesLog_inPages {heap : List UserPgtable} {userPgt : UserPtr}
    {gmEnd flags isValid : Nat} :
    ∀ (pages : List Nat) (s : PageState), (∀ page ∈ pages, page % 4096 = 0) →
      s.buf.length = 4096 →
      InPages (initPagesLog heap userPgt gmEnd flags isValid pages s) ∧
        ∀ s', initPages heap userPgt gmEnd flags isValid pages s = .ok s' →
          s'.buf.length = 4096 := by
  intro pages
  induction pages with
  | nil => exact fun s _ hbuf => ⟨Logged.all_pure _, fun s' hs => Except.ok.inj hs ▸ hbuf⟩
  | cons newPage pages ih =>
      intro s haligned hbuf
      obtain ⟨hpage, hkeep⟩ := @initPageLog_inPages heap userPgt flags isValid newPage
        (haligned newPage List.mem_cons_self) s hbuf
      have hlater := fun s => ih s fun page hpage => haligned page (List.mem_cons_of_mem _ hpage)
      unfold initPagesLog initPages
      split
      · constructor
        · refine Logged.All.bind hpage fun s₁ hs => ?_
          rw [initPageLog_result] at hs
          exact (hlater { s₁ with vaddr := (s₁.vaddr + 4096) % 2 ^ 64 } (hkeep s₁ hs)).1
        · intro s' hrun
          obtain ⟨s₁, hs, hrun⟩ := Except.bind_eq_ok.mp hrun
          exact (hlater { s₁ with vaddr := (s₁.vaddr + 4096) % 2 ^ 64 } (hkeep s₁ hs)).2 s' hrun
      · exact ⟨Logged.all_pure _, fun s' hs => Except.ok.inj hs ▸ hbuf⟩

theorem initRegionsLog_inPages {heap : List UserPgtable} {userPgt : UserPtr} :
    ∀ (n : Nat) (s : McState), (∀ frame ∈ s.pool, frame % 4096 = 0) →
      s.locals.buf.length = 4096 → InPages (initRegionsLog heap userPgt n s) := by
  intro n
  induction n with
  | zero => exact fun _ _ _ => Logged.all_quiet _
  | succ n ih =>
      intro s haligned hbuf
      have hheader : (readHeader s.locals s.stream).1.buf.length = 4096 := hbuf
      unfold initRegionsLog
      split
      · exact Logged.all_pure _
      · have htaken : ∀ r, takePages (readHeader s.locals s.stream).1.nents s.pool = .ok r →
            (∀ frame ∈ r.1, frame % 4096 = 0) ∧ ∀ frame ∈ r.2, frame % 4096 = 0 := by
          intro r hr
          unfold takePages at hr
          split_ifs at hr
          obtain rfl := Except.ok.inj hr
          exact ⟨fun frame hf => haligned frame (List.mem_of_mem_take hf),
            fun frame hf => haligned frame (List.mem_of_mem_drop hf)⟩
        refine Logged.All.bind ?_ fun s₁ hs => ?_
        · refine Logged.all_quiet_bind.mpr fun r hr => ?_
          exact Logged.All.bind (initPagesLog_inPages r.1 _ (htaken r hr).1 hheader).1
            fun _ _ => Logged.all_pure _
        · rw [initRegionLog_result] at hs
          obtain ⟨⟨taken, pool⟩, htake, hs⟩ := Except.bind_eq_ok.mp hs
          obtain ⟨p, hp, hdone⟩ := Except.bind_eq_ok.mp hs
          obtain rfl := Except.ok.inj hdone
          exact ih _ (htaken _ htake).2
            ((initPagesLog_inPages taken _ (htaken _ htake).1 hheader).2 p hp)

/-- **Setting up asks for whole frames**, also when it does not come to an end. -/
theorem grMemInitLog_inPages (config : GrConfig) (files : Files) {junk : InitJunk} {m : Machine}
    (hpool : ∀ frame ∈ m.pool, frame % 4096 = 0) (hbuf : junk.mc.buf.length = 4096) :
    InPages (grMemInitLog config files junk m) := by
  refine Logged.all_quiet_bind.mpr fun pgtFile _ => ?_
  refine Logged.All.bind ?_ fun pgt hpgt => ?_
  · refine Logged.all_quiet_bind.mpr fun r _ => ?_
    exact Logged.All.bind (grConstructPgtLog_inPages _ _ _ _ _) fun _ _ => Logged.all_pure _
  rw [grPgtInitLog_result] at hpgt
  have hlater : ∀ frame ∈ pgt.machine.pool, frame % 4096 = 0 := by
    obtain ⟨value, -, hrun⟩ := Except.bind_eq_ok.mp hpgt
    obtain ⟨b, hb, hdone⟩ := Except.bind_eq_ok.mp hrun
    obtain rfl := Except.ok.inj hdone
    exact fun frame hf => hpool frame (grConstructPgt_pool 3 hb frame hf)
  refine Logged.all_quiet_bind.mpr fun mcFile _ => ?_
  refine Logged.All.bind (initRegionsLog_inPages _ _ hlater hbuf) fun mc _ => ?_
  refine Logged.all_quiet_bind.mpr fun sasFile _ => Logged.all_quiet_bind.mpr fun found _ => ?_
  exact Logged.all_quiet_bind.mpr fun regFp _ => Logged.all_pure _

/-! ### Checking the contents

The check goes through the dump with one entry of `gm_region` for each record.  Past the
regions it comes to entries that nothing has been written to; what they hold decides where a
valid record makes it look.
-/

/-- Reading a header, as far as it decides what is read next. -/
def readIsValid (isValid : Nat) (f : Stream) : Nat × Stream :=
  ((readHeader ⟨0, 0, 0, 0, isValid, 0, []⟩ f).1.isValid,
    (readHeader ⟨0, 0, 0, 0, isValid, 0, []⟩ f).2)

/-- Where the page loop of a region leaves the file, from page `pageCnt` on, if it ends. -/
def passPages (r : Region) (isValid : Nat) : Nat → Nat → Stream → Nat → Option Stream
  | 0, _, _, _ => none
  | fuel + 1, pageCnt, f, gaddr =>
      if gaddr < r.gmEnd ∧ pageCnt < r.nrPages then
        passPages r isValid fuel ((pageCnt + 1) % 2 ^ 32) (nextTriple isValid f gaddr).1
          (((nextTriple isValid f gaddr).2 + 4096) % 2 ^ 64)
      else some f

/-- Where the turns for the regions leave `is_valid` and the file, if the file lasts. -/
def passRegions (fuel : Nat) : List Region → Nat → Stream → Option (Nat × Stream)
  | [], isValid, f => some (isValid, f)
  | r :: regions, isValid, f =>
      if f.eof then none
      else if (readIsValid isValid f).1 ≠ 0 then
        (passPages r (readIsValid isValid f).1 fuel 0 (readIsValid isValid f).2 r.gmStart).bind
          (passRegions fuel regions (readIsValid isValid f).1)
      else passRegions fuel regions (readIsValid isValid f).1 (readIsValid isValid f).2

/-- One of the next `n` records is valid. -/
def ValidWithin : Nat → Nat → Stream → Prop
  | 0, _, _ => False
  | n + 1, isValid, f => f.eof = false ∧
      ((readIsValid isValid f).1 ≠ 0 ∨
        ValidWithin n (readIsValid isValid f).1 (readIsValid isValid f).2)

/-- The dump has a valid record for an entry past the regions. -/
def ValidPast (regions : List Region) (isValid : Nat) (file : List UInt8) : Prop :=
  ∃ fuel v f, 0 < fuel ∧ passRegions fuel regions isValid (Stream.open file) = some (v, f) ∧
    ValidWithin (nrVaRegion - regions.length) v f

/-- One page of the check, from a frame. -/
theorem checkPageLog_inPages {newPage : Nat} (hframe : newPage % 4096 = 0) {s : CheckState}
    (hbuf : s.buf.length = 4096) :
    InPages (checkPageLog newPage s) ∧ ∃ s', checkPage newPage s = .ok s' ∧
      s'.buf.length = 4096 ∧ ∀ isValid, isValid ≠ 0 →
        (s'.stream, s'.gaddr) = nextTriple isValid s.stream s.gaddr := by
  have hlen := length_read hbuf ((s.stream.readWord 8 s.gaddr).2.readWord 8 s.paddr).2
  have hread : grReadPhys s.mem newPage 4096 = .ok (s.mem.read newPage 4096) :=
    grReadPhys_eq (by rw [hframe])
  have hwrite : ∀ buf : List UInt8, buf.length = 4096 →
      grWritePhys s.mem newPage buf = .ok (s.mem.write newPage buf) :=
    fun buf hb => grWritePhys_eq (by rw [hframe, hb])
  constructor
  · refine Logged.All.bind (grReadPhysLog_inPages _ hframe) fun replayed _ => ?_
    dsimp only
    split
    · exact Logged.All.bind (grWritePhysLog_inPages _ hframe hlen) fun _ _ => Logged.all_pure _
    · exact Logged.All.bind (Logged.all_pure _) fun _ _ => Logged.all_pure _
  · unfold checkPage
    dsimp only
    rw [hread, Except.ok_bind]
    split
    · rw [hwrite _ hlen]
      exact ⟨_, rfl, hlen, fun isValid hvalid => (if_pos hvalid).symm⟩
    · exact ⟨_, rfl, hlen, fun isValid hvalid => (if_pos hvalid).symm⟩

/-- The page loop of a region of frames. -/
theorem checkPagesLog_inPages {region : Region}
    (haligned : ∀ page ∈ region.pages, page % 4096 = 0)
    (hlength : region.pages.length = region.nrPages) {isValid : Nat} (hvalid : isValid ≠ 0) :
    ∀ (fuel pageCnt : Nat) (s : CheckState), s.buf.length = 4096 →
      InPages (checkPagesLog region fuel pageCnt s) ∧
        ((checkPages region fuel pageCnt s = none ∧
          passPages region isValid fuel pageCnt s.stream s.gaddr = none) ∨
        ∃ s', checkPages region fuel pageCnt s = some (.ok s') ∧ s'.buf.length = 4096 ∧
          passPages region isValid fuel pageCnt s.stream s.gaddr = some s'.stream) := by
  intro fuel
  induction fuel with
  | zero => exact fun pageCnt s _ => ⟨Logged.all_pure _, .inl ⟨rfl, rfl⟩⟩
  | succ fuel ih =>
      intro pageCnt s hbuf
      rw [checkPagesLog, checkPages, passPages]
      by_cases hlt : s.gaddr < region.gmEnd ∧ pageCnt < region.nrPages
      · obtain ⟨newPage, hpage⟩ : ∃ newPage, region.pages[pageCnt]? = some newPage :=
          ⟨_, List.getElem?_eq_getElem (hlength ▸ hlt.2)⟩
        have hat : pageAt region.pages pageCnt = .ok newPage := by
          unfold pageAt
          rw [hpage]
        obtain ⟨hcalls, s₁, hrun, hbuf₁, hnext⟩ :=
          @checkPageLog_inPages newPage (haligned newPage (List.mem_of_getElem? hpage)) s hbuf
        obtain ⟨hlater, hends⟩ := ih ((pageCnt + 1) % 2 ^ 32)
          { s₁ with gaddr := (s₁.gaddr + 4096) % 2 ^ 64 } hbuf₁
        have hstep := hnext isValid hvalid
        rw [if_pos hlt, if_pos hlt, if_pos hlt, hat, Except.ok_bind, hrun, ← hstep]
        refine ⟨Logged.all_quiet_bind.mpr fun page hp => ?_, hends⟩
        obtain rfl := Except.ok.inj hp
        refine Logged.All.bind hcalls fun t ht => ?_
        rw [checkPageLog_result, hrun] at ht
        obtain rfl := Except.ok.inj ht
        exact hlater
      · rw [if_neg hlt, if_neg hlt, if_neg hlt]
        exact ⟨Logged.all_pure _, .inr ⟨s, rfl, hbuf, rfl⟩⟩

/-- One turn for a region of frames. -/
theorem checkRegionLog_inPages {region : Region}
    (haligned : ∀ page ∈ region.pages, page % 4096 = 0)
    (hlength : region.pages.length = region.nrPages) (fuel : Nat) {l : Locals}
    (hbuf : l.buf.length = 4096) (f : Stream) (mem : ByteMem) (regions : List Region) :
    InPages (checkRegionLog region fuel l f mem) ∧
      ((checkRegion region fuel l f mem = none ∧
        (f.eof = false → passRegions fuel (region :: regions) l.isValid f = none)) ∨
      ∃ l' f' mem', checkRegion region fuel l f mem = some (.ok (l', f', mem')) ∧
        l'.buf.length = 4096 ∧
        (f.eof = false → passRegions fuel (region :: regions) l.isValid f
          = passRegions fuel regions l'.isValid f')) := by
  have hheader : (readHeader l f).1.buf.length = 4096 := hbuf
  have hvalid : (readIsValid l.isValid f).1 = (readHeader l f).1.isValid := rfl
  have hstream : (readIsValid l.isValid f).2 = (readHeader l f).2 := rfl
  rw [passRegions, hvalid, hstream]
  unfold checkRegionLog checkRegion
  generalize readHeader l f = header at hheader ⊢
  obtain ⟨l₁, f₁⟩ := header
  dsimp only at hheader ⊢
  by_cases hne : l₁.isValid ≠ 0
  · obtain ⟨hpages, hends⟩ := checkPagesLog_inPages haligned hlength hne fuel 0
      ⟨f₁, region.gmStart, l₁.paddr, l₁.buf, false, mem⟩ hheader
    rw [if_pos hne, if_pos hne, if_pos hne]
    refine ⟨Logged.All.bind hpages fun _ _ => Logged.all_pure _, ?_⟩
    rcases hends with ⟨hrun, hpass⟩ | ⟨s', hrun, hbuf', hpass⟩
    · rw [hrun, hpass]
      exact .inl ⟨rfl, fun heof => if_neg (by rw [heof]; exact Bool.false_ne_true)⟩
    · rw [hrun, hpass]
      exact .inr ⟨{ l₁ with paddr := s'.paddr, buf := s'.buf }, s'.stream, s'.mem, rfl, hbuf',
        fun heof => if_neg (by rw [heof]; exact Bool.false_ne_true)⟩
  · rw [if_neg hne, if_neg hne, if_neg hne]
    exact ⟨Logged.all_pure _, .inr ⟨l₁, f₁, mem, rfl, hheader,
      fun heof => if_neg (by rw [heof]; exact Bool.false_ne_true)⟩⟩

/-- **The turns for the regions stay in their pages**, and then it is about the entries after
them. -/
theorem checkRegionsLog_append (fuel : Nat) :
    ∀ (regions : List Region) (l : Locals) (f : Stream) (mem : ByteMem),
      (∀ r ∈ regions, (∀ page ∈ r.pages, page % 4096 = 0) ∧ r.pages.length = r.nrPages) →
      l.buf.length = 4096 →
      (passRegions fuel regions l.isValid f = none ∧
        ∀ unused, InPages (checkRegionsLog fuel (regions ++ unused) l f mem)) ∨
      ∃ l' f' mem', passRegions fuel regions l.isValid f = some (l'.isValid, f') ∧
        ∀ unused, InPages (checkRegionsLog fuel (regions ++ unused) l f mem) ↔
          InPages (checkRegionsLog fuel unused l' f' mem') := by
  intro regions
  induction regions with
  | nil => exact fun l f mem _ _ => .inr ⟨l, f, mem, rfl, fun _ => Iff.rfl⟩
  | cons region regions ih =>
      intro l f mem hall hbuf
      by_cases heof : f.eof = true
      · refine .inl ⟨if_pos heof, fun unused => ?_⟩
        rw [List.cons_append, checkRegionsLog, if_pos heof]
        exact Logged.all_pure _
      · obtain ⟨⟨haligned, hlength⟩, hothers⟩ := List.forall_mem_cons.mp hall
        obtain ⟨hregion, hends⟩ :=
          checkRegionLog_inPages haligned hlength fuel hbuf f mem regions
        have hmore : f.eof = false := Bool.eq_false_iff.mpr heof
        rcases hends with ⟨hrun, hpass⟩ | ⟨l₁, f₁, mem₁, hrun, hbuf₁, hpass⟩
        · refine .inl ⟨hpass hmore, fun unused => ?_⟩
          rw [List.cons_append, checkRegionsLog, if_neg heof]
          refine Logged.All.bind hregion fun r hr => ?_
          rw [checkRegionLog_result, hrun] at hr
          obtain rfl := Except.ok.inj hr
          exact Logged.all_pure _
        · have hstep : ∀ unused,
              InPages (checkRegionsLog fuel (region :: regions ++ unused) l f mem) ↔
                InPages (checkRegionsLog fuel (regions ++ unused) l₁ f₁ mem₁) := by
            intro unused
            rw [List.cons_append, checkRegionsLog, if_neg heof]
            have hresult : (checkRegionLog region fuel l f mem).result
                = .ok (some (l₁, f₁, mem₁)) := by
              rw [checkRegionLog_result, hrun]
              rfl
            refine Logged.all_bind_iff.trans ⟨fun h => h.2 _ hresult, fun h =>
              ⟨hregion, fun r hr => ?_⟩⟩
            obtain rfl := Except.ok.inj (hresult.symm.trans hr)
            exact h
          rcases ih l₁ f₁ mem₁ hothers hbuf₁ with
            ⟨hnone, hlater⟩ | ⟨l', f', mem', hsome, hiff⟩
          · exact .inl ⟨(hpass hmore).trans hnone, fun unused => (hstep unused).mpr (hlater unused)⟩
          · exact .inr ⟨l', f', mem', (hpass hmore).trans hsome,
              fun unused => (hstep unused).trans (hiff unused)⟩

/-- An entry with a page that no frame starts at. -/
def staleRegion : Region := ⟨0, 1, [1], 1, 0, 0, 0⟩

/-- Past the regions everything hangs on whether a record is valid. -/
theorem checkRegionsLog_unused_iff (fuel : Nat) :
    ∀ (n : Nat) (l : Locals) (f : Stream) (mem : ByteMem),
      (∀ unused : List Region, unused.length = n →
        InPages (checkRegionsLog (fuel + 1) unused l f mem)) ↔
        ¬ValidWithin n l.isValid f := by
  intro n
  induction n with
  | zero =>
      intro l f mem
      refine ⟨fun _ h => h, fun _ unused hlen => ?_⟩
      obtain rfl := List.length_eq_zero_iff.mp hlen
      exact Logged.all_quiet _
  | succ n ih =>
      intro l f mem
      have hvalid : (readIsValid l.isValid f).1 = (readHeader l f).1.isValid := rfl
      have hstream : (readIsValid l.isValid f).2 = (readHeader l f).2 := rfl
      rw [ValidWithin, hvalid, hstream]
      by_cases heof : f.eof = true
      · refine ⟨fun _ h => ?_, fun _ unused hlen => ?_⟩
        · rw [heof] at h
          exact Bool.noConfusion h.1
        · obtain ⟨r, rest, rfl⟩ := List.exists_cons_of_length_eq_add_one hlen
          rw [checkRegionsLog, if_pos heof]
          exact Logged.all_pure _
      · have hturn : ∀ r : Region, (readHeader l f).1.isValid = 0 →
            checkRegionLog r (fuel + 1) l f mem
              = pure (some ((readHeader l f).1, (readHeader l f).2, mem)) :=
          fun r hzero => if_neg (not_not.mpr hzero)
        by_cases hne : (readHeader l f).1.isValid ≠ 0
        · refine ⟨fun h => absurd (h (List.replicate (n + 1) staleRegion) List.length_replicate) ?_,
            fun h => absurd ⟨Bool.eq_false_iff.mpr heof, Or.inl hne⟩ h⟩
          rw [List.replicate_succ, checkRegionsLog, if_neg heof]
          intro h
          have hregion := (Logged.all_bind_iff.mp h).1
          unfold checkRegionLog at hregion
          dsimp only at hregion
          rw [if_pos hne] at hregion
          have hpages := (Logged.all_bind_iff.mp hregion).1
          have hpage : InPages (checkPageLog 1 ⟨(readHeader l f).2, 0, (readHeader l f).1.paddr,
              (readHeader l f).1.buf, false, mem⟩) :=
            (Logged.all_bind_iff.mp (Logged.all_quiet_bind.mp hpages 1 rfl)).1
          have hcall := (Logged.all_call _ _).mp (Logged.all_bind_iff.mp hpage).1
          exact absurd (inPage_page_iff.mp hcall) (by decide)
        · have hzero := not_not.mp hne
          have hlater := ih (readHeader l f).1 (readHeader l f).2 mem
          have hrest : (∀ unused : List Region, unused.length = n + 1 →
              InPages (checkRegionsLog (fuel + 1) unused l f mem)) ↔
              ∀ unused : List Region, unused.length = n →
                InPages (checkRegionsLog (fuel + 1) unused (readHeader l f).1 (readHeader l f).2 mem) := by
            constructor
            · intro h unused hlen
              have hcons := h (staleRegion :: unused) (congrArg (· + 1) hlen)
              rw [checkRegionsLog, if_neg heof, hturn _ hzero] at hcons
              exact (Logged.all_bind_iff.mp hcons).2 _ rfl
            · intro h unused hlen
              obtain ⟨r, rest, rfl⟩ := List.exists_cons_of_length_eq_add_one hlen
              rw [checkRegionsLog, if_neg heof, hturn _ hzero]
              refine Logged.All.bind (Logged.all_pure _) fun a ha => ?_
              obtain rfl := Except.ok.inj ha
              exact h rest (Nat.succ.inj hlen)
          rw [hrest, hlater]
          exact not_congr ⟨fun h => ⟨Bool.eq_false_iff.mpr heof, .inr h⟩,
            fun h => h.2.resolve_left hne⟩

/-- **The check stays in its pages, whatever the entries past the regions hold, exactly when the
dump has no valid record for one of them.** -/
theorem grMemContentsCheckLog_inPages_iff {regions : List Region}
    (hok : ∀ r ∈ regions, (∀ page ∈ r.pages, page % 4096 = 0) ∧ r.pages.length = r.nrPages)
    {locals : Locals} (hbuf : locals.buf.length = 4096) (file : List UInt8) (mem : ByteMem) :
    (∀ (fuel : Nat) (unused : List Region), 0 < fuel → unused.length = nrVaRegion - regions.length →
        InPages (grMemContentsCheckLog regions unused fuel locals file mem)) ↔
      ¬ValidPast regions locals.isValid file := by
  unfold grMemContentsCheckLog ValidPast
  constructor
  · rintro h ⟨fuel, v, f, hfuel, hpass, hwithin⟩
    obtain ⟨fuel, rfl⟩ := Nat.exists_eq_succ_of_ne_zero (Nat.ne_of_gt hfuel)
    rcases checkRegionsLog_append (fuel + 1) regions locals (Stream.open file) mem hok hbuf with
      ⟨hnone, -⟩ | ⟨l', f', mem', hsome, hiff⟩
    · cases hnone.symm.trans hpass
    · obtain ⟨rfl, rfl⟩ := Prod.mk.inj (Option.some.inj (hsome.symm.trans hpass))
      exact (checkRegionsLog_unused_iff fuel (nrVaRegion - regions.length) l' f' mem').mp
        (fun unused hlen => (hiff unused).mp (h (fuel + 1) unused hfuel hlen)) hwithin
  · intro h fuel unused hfuel hlen
    obtain ⟨fuel, rfl⟩ := Nat.exists_eq_succ_of_ne_zero (Nat.ne_of_gt hfuel)
    rcases checkRegionsLog_append (fuel + 1) regions locals (Stream.open file) mem hok hbuf with
      ⟨-, hall⟩ | ⟨l', f', mem', hsome, hiff⟩
    · exact hall unused
    · exact (hiff unused).mpr ((checkRegionsLog_unused_iff fuel (nrVaRegion - regions.length) l' f'
        mem').mpr (fun hwithin => h ⟨_, _, _, hfuel, hsome, hwithin⟩) unused hlen)

end GpuReplay.Replayer
