/-
Which calls of `gr_read_phys` and `gr_write_phys` stay in the page they map.

The two copy whatever size they are given, so it is their callers who have to ask for no
more than is left of the page.  All but one of them do; `gr_find_sync_as` asks for a page
from wherever a range starts, and the ranges start wherever the application synced.
`singlePage_iff` says which runs stay in their pages.
-/
import GpuReplay.Proofs.LoggedCalls

namespace GpuReplay.Replayer

open Stdio

/-! ### Finding the range of an input -/

/-- The range starts with the first `size` bytes of the buffer. -/
def SyncAs.Holds (mem : ByteMem) (buf : List UInt8) (size : Nat) (sas : SyncAs) : Prop :=
  mem.read sas.pmStart size = buf.take size

instance (mem : ByteMem) (buf : List UInt8) (size : Nat) :
    DecidablePred (SyncAs.Holds mem buf size) :=
  fun _ => inferInstanceAs (Decidable (_ = _))

/-- The first range that holds the bytes, and those before it, start on a page. -/
def StartsAligned (mem : ByteMem) (buf : List UInt8) (size : Nat) : List SyncAs → Prop
  | [] => True
  | sas :: rest =>
      sas.gmStart % 4096 = 0 ∧ (sas.Holds mem buf size ∨ StartsAligned mem buf size rest)

/-- The search does what it is for: it stays in its pages, and it finds the first range that
holds the bytes, if there is one. -/
def FindsSyncAs (mem : ByteMem) (buf : List UInt8) (size : Nat) (sas : List SyncAs) : Prop :=
  InPages (grFindSyncAsLog mem buf size sas) ∧
    grFindSyncAs mem buf size sas = .ok (sas.find? fun s => decide (s.Holds mem buf size))

theorem take_read {mem : ByteMem} {a n size : Nat} (hsize : size ≤ n) :
    (mem.read a n).take size = mem.read a size := by
  have hsplit : n = size + (n - size) := by omega
  rw [hsplit, ByteMem.read_add, List.take_left' (ByteMem.length_read ..)]

/-- **The search** stays in its pages and is right exactly when the ranges it comes to start on
a page. -/
theorem findsSyncAs_iff {mem : ByteMem} {buf : List UInt8} {size : Nat} (hsize : size ≤ 4096)
    (hbuf : size ≤ buf.length) :
    ∀ sas : List SyncAs, (∀ s ∈ sas, s.pmStart % 4096 = s.gmStart % 4096) →
      (FindsSyncAs mem buf size sas ↔ StartsAligned mem buf size sas) := by
  intro sas
  induction sas with
  | nil => exact fun _ => ⟨fun _ => trivial, fun _ => ⟨Logged.all_pure _, rfl⟩⟩
  | cons s rest ih =>
      intro hstarts
      have hrest := ih fun t ht => hstarts t (List.mem_cons_of_mem _ ht)
      have hstart := hstarts s List.mem_cons_self
      rw [StartsAligned, FindsSyncAs]
      by_cases hpage : s.gmStart % 4096 = 0
      · have hframe : s.pmStart % 4096 = 0 := hstart.trans hpage
        have hread : grReadPhys mem s.pmStart 4096 = .ok (mem.read s.pmStart 4096) :=
          grReadPhys_eq (by rw [hframe])
        have hsame : sameBytes buf (mem.read s.pmStart 4096) size
            = .ok (decide (s.Holds mem buf size)) := by
          unfold sameBytes SyncAs.Holds
          rw [if_pos ⟨hbuf, by rw [ByteMem.length_read]; exact hsize⟩, take_read hsize]
          exact congrArg Except.ok (decide_eq_decide.mpr eq_comm)
        have hcalls : InPages (grFindSyncAsLog mem buf size (s :: rest)) ↔
            (s.Holds mem buf size ∨ InPages (grFindSyncAsLog mem buf size rest)) := by
          refine Logged.all_bind_iff.trans ?_
          refine (and_iff_right (grReadPhysLog_inPages mem hframe)).trans ?_
          constructor
          · intro h
            have hnext := Logged.all_quiet_bind.mp (h _ hread) _ hsame
            by_cases hholds : s.Holds mem buf size
            · exact .inl hholds
            · rw [decide_eq_false hholds, if_neg Bool.false_ne_true] at hnext
              exact .inr hnext
          · intro h a ha
            obtain rfl := Except.ok.inj (hread.symm.trans ha)
            refine Logged.all_quiet_bind.mpr fun same hs => ?_
            obtain rfl := Except.ok.inj (hsame.symm.trans hs)
            by_cases hholds : s.Holds mem buf size
            · rw [decide_eq_true hholds, if_pos rfl]
              exact Logged.all_pure _
            · rw [decide_eq_false hholds, if_neg Bool.false_ne_true]
              exact h.resolve_left hholds
        have hrun : grFindSyncAs mem buf size (s :: rest)
            = if s.Holds mem buf size then .ok (some s) else grFindSyncAs mem buf size rest := by
          rw [grFindSyncAs, hread, Except.ok_bind, hsame, Except.ok_bind]
          by_cases hholds : s.Holds mem buf size
          · rw [decide_eq_true hholds, if_pos hholds]
            rfl
          · rw [decide_eq_false hholds, if_neg hholds]
            rfl
        rw [hcalls, hrun, and_iff_right hpage]
        by_cases hholds : s.Holds mem buf size
        · rw [if_pos hholds, List.find?_cons_of_pos (by exact decide_eq_true hholds)]
          exact ⟨fun _ => .inl hholds, fun _ => ⟨.inl hholds, rfl⟩⟩
        · rw [if_neg hholds, List.find?_cons_of_neg (by rw [decide_eq_false hholds]; decide),
            or_iff_right hholds, or_iff_right hholds]
          exact hrest
      · refine ⟨fun h => ?_, fun h => absurd h.1 hpage⟩
        have hcall := (Logged.all_call _ _).mp (Logged.all_bind_iff.mp h.1).1
        exact absurd (hstart.symm.trans (inPage_page_iff.mp hcall)) hpage

/-- A range starts where its first page is, at the same offset. -/
theorem readSyncAs_pmStart {mem : ByteMem} {newTranstab : Nat} :
    ∀ (n : Nat) (l : SasLocals) (f : Stream) (regions : List Region)
      (result : List SyncAs × List Region), readSyncAs mem newTranstab n l f regions = .ok result →
      ∀ s ∈ result.1, s.pmStart % 4096 = s.gmStart % 4096 := by
  intro n
  induction n with
  | zero =>
      intro l f regions result hrun
      obtain rfl := Except.ok.inj hrun
      exact fun s hs => absurd hs List.not_mem_nil
  | succ n ih =>
      intro l f regions result hrun
      rw [readSyncAs_succ] at hrun
      obtain ⟨pmStart, htrans, hrun⟩ := Except.bind_eq_ok.mp hrun
      split at hrun
      · exact absurd hrun (Except.ok_ne_error _ _).symm
      · obtain ⟨rest, hrest, hdone⟩ := Except.bind_eq_ok.mp hrun
        obtain rfl := Except.ok.inj hdone
        refine List.forall_mem_cons.mpr ⟨?_, ih _ _ _ rest hrest⟩
        obtain ⟨targetPgd, -, htrans⟩ := Except.bind_eq_ok.mp htrans
        obtain ⟨pgdPage, -, htrans⟩ := Except.bind_eq_ok.mp htrans
        have hstart := Except.ok.inj htrans
        have hpage := pteToPhysAddr_aligned
          (mem.read64 (pgdPage + 8 * ((readSas l f).1.gmStart / 4096 % 512)))
        show pmStart % 4096 = (readSas l f).1.gmStart % 4096
        omega

/-! ### All of them -/

/-- A call of one of the functions that use a context: with its arguments, and for the check with
what its variables hold at first. -/
inductive PhysRun
  | gpuMemIo (gaddr : Nat) (buf : List UInt8) (size : Nat) (isRead : Bool)
  | findSyncAs (buf : List UInt8) (size : Nat)
  | cleanUsedAtom
  | memContentsCheck (locals : Locals) (file : List UInt8)

/-- The sizes of what it is called with: a size of a transfer is a `size_t`, the bytes to look for
are in the buffer and at most a page, and the check's own buffer is a page. -/
def PhysRun.Sized : PhysRun → Prop
  | .gpuMemIo _ _ size _ => size < 2 ^ 64
  | .findSyncAs buf size => size ≤ 4096 ∧ size ≤ buf.length
  | .memContentsCheck locals _ => locals.buf.length = 4096
  | _ => True

/-- It stays in its pages, and a search finds what it is to find.  A transfer takes no page from
outside `pages[]`, where nothing says what it would be.  The check does so whatever the entries of
`gm_region` hold that have never been written. -/
def PhysRun.SinglePage (ctx : ReplayContext) (mem : ByteMem) : PhysRun → Prop
  | .gpuMemIo gaddr buf size isRead =>
      grGpuMemIo ctx.regions mem gaddr buf size isRead ≠ .error .undefined ∧
        InPages (grGpuMemIoLog ctx.regions mem gaddr buf size isRead)
  | .findSyncAs buf size => FindsSyncAs mem buf size ctx.sas
  | .cleanUsedAtom => InPages (grCleanUsedAtomLog ctx.regions mem)
  | .memContentsCheck locals file => ∀ (fuel : Nat) (unused : List Region), 0 < fuel →
      unused.length = nrVaRegion - ctx.regions.length →
        InPages (grMemContentsCheckLog ctx.regions unused fuel locals file mem)

/-- What that takes. -/
def PhysRun.Fits (ctx : ReplayContext) (mem : ByteMem) : PhysRun → Prop
  | .gpuMemIo gaddr _ size _ => InBounds ctx.regions gaddr size
  | .findSyncAs buf size => StartsAligned mem buf size ctx.sas
  | .memContentsCheck locals file => ¬ValidPast ctx.regions locals.isValid file
  | .cleanUsedAtom => True

/-- What a context that `gr_mem_init` returns has of that. -/
theorem grMemInit_starts {config : GrConfig} {files : Files} {junk : InitJunk} {m : Machine}
    {ctx : ReplayContext} (hpool : ∀ frame ∈ m.pool, frame % 4096 = 0)
    (hrun : grMemInit config files junk m = .ok ctx) :
    (∀ r ∈ ctx.regions, (∀ page ∈ r.pages, page % 4096 = 0) ∧ r.pages.length = r.nrPages) ∧
      ∀ s ∈ ctx.sas, s.pmStart % 4096 = s.gmStart % 4096 := by
  obtain ⟨pgtFile, hpgtFile, hrest⟩ := Except.bind_eq_ok.mp hrun
  obtain ⟨pgt, hpgt, hrest⟩ := Except.bind_eq_ok.mp hrest
  obtain ⟨mcFile, hmcFile, hrest⟩ := Except.bind_eq_ok.mp hrest
  obtain ⟨mc, hmc, hrest⟩ := Except.bind_eq_ok.mp hrest
  obtain ⟨sasFile, hsasFile, hrest⟩ := Except.bind_eq_ok.mp hrest
  obtain ⟨⟨sas, regions⟩, hsas, hrest⟩ := Except.bind_eq_ok.mp hrest
  obtain ⟨regFp, -, hdone⟩ := Except.bind_eq_ok.mp hrest
  have hopen : ∀ {e : Stop} {file : Option (List UInt8)} {bytes : List UInt8},
      openFile e file = .ok bytes → file = some bytes := by
    intro e file bytes h
    cases file with
    | none => exact absurd h.symm (Except.ok_ne_error _ _)
    | some bytes' => rw [Except.ok.inj h]
  obtain ⟨pgtFile', mcFile', sasFile', snapshot⟩ := files
  obtain rfl := hopen hpgtFile
  obtain rfl := hopen hmcFile
  obtain rfl := hopen hsasFile
  have hbacked := grMemInit_backed hrun
  obtain rfl := Except.ok.inj hdone
  exact ⟨fun r hr => ⟨fun page hpage => hpool page ((hbacked r hr).frames page hpage),
    (hbacked r hr).length⟩, readSyncAs_pmStart _ _ _ _ _ hsas⟩

/-- **Single pages.**  `gr_mem_init` stays in its pages, and so does every use of the context it
leaves, except a transfer that is not in bounds, a search that comes to a range with a start inside
a page, and a check with a valid record past the regions. -/
theorem singlePage_iff {config : GrConfig} {files : Files} {junk : InitJunk} {m : Machine}
    (hpool : ∀ frame ∈ m.pool, frame % 4096 = 0) (hbuf : junk.mc.buf.length = 4096)
    (mem : ByteMem) {run : PhysRun} (hsized : run.Sized) :
    (InPages (grMemInitLog config files junk m) ∧
      ∀ ctx, grMemInit config files junk m = .ok ctx → run.SinglePage ctx mem) ↔
      ∀ ctx, grMemInit config files junk m = .ok ctx → run.Fits ctx mem := by
  rw [and_iff_right (grMemInitLog_inPages config files hpool hbuf)]
  refine forall_congr' fun ctx => forall_congr' fun hrun => ?_
  obtain ⟨hok, hstarts⟩ := grMemInit_starts hpool hrun
  have haligned := fun r hr => (hok r hr).1
  cases run with
  | gpuMemIo gaddr buf size isRead =>
      refine (and_iff_left (grGpuMemIoLog_inPages haligned _ _ _ _ _)).trans ?_
      exact grGpuMemIo_defined_iff (fun r hr => (hok r hr).2) haligned mem hsized buf isRead
  | findSyncAs buf size => exact findsSyncAs_iff hsized.1 hsized.2 ctx.sas hstarts
  | cleanUsedAtom => exact iff_of_true (cleanUsedAtomsLog_inPages _ _ _ haligned) trivial
  | memContentsCheck locals file =>
      exact grMemContentsCheckLog_inPages_iff hok hsized file mem

/-! ### A range that starts inside a page -/

/-- The same set-up with another file of synced ranges. -/
theorem grMemInit_sas {config : GrConfig} {pgtFile mcFile sasFile : List UInt8}
    {snapshot : Option (List UInt8)} {junk : InitJunk} {m : Machine} {ctx : ReplayContext}
    (hrun : grMemInit config ⟨some pgtFile, some mcFile, some (Bytes.le 4 0), snapshot⟩ junk m
      = .ok ctx) {result : List SyncAs × List Region}
    (hsas : grGetSyncAs ctx.machine.mem ctx.newTranstab junk.sas ctx.regions sasFile = .ok result) :
    grMemInit config ⟨some pgtFile, some mcFile, some sasFile, snapshot⟩ junk m
      = .ok { ctx with sas := result.1, regions := result.2 } := by
  obtain ⟨pgtFile', hpgtFile, hrun⟩ := Except.bind_eq_ok.mp hrun
  obtain ⟨pgt, hpgt, hrun⟩ := Except.bind_eq_ok.mp hrun
  obtain ⟨mcFile', hmcFile, hrun⟩ := Except.bind_eq_ok.mp hrun
  obtain ⟨mc, hmc, hrun⟩ := Except.bind_eq_ok.mp hrun
  obtain ⟨sasFile', hsasFile, hrun⟩ := Except.bind_eq_ok.mp hrun
  obtain ⟨found, hfound, hrun⟩ := Except.bind_eq_ok.mp hrun
  obtain ⟨regFp, hregFp, hdone⟩ := Except.bind_eq_ok.mp hrun
  obtain rfl := Except.ok.inj hsasFile
  have hcnt := Stream.readWord_le (show 0 < 256 ^ 4 by decide) 0 [] false
  rw [List.append_nil] at hcnt
  rw [grGetSyncAs, Stream.open, hcnt] at hfound
  obtain rfl := Except.ok.inj hfound
  obtain rfl := Except.ok.inj hdone
  exact Except.bind_eq_ok.mpr ⟨_, hpgtFile, Except.bind_eq_ok.mpr ⟨pgt, hpgt,
    Except.bind_eq_ok.mpr ⟨_, hmcFile, Except.bind_eq_ok.mpr ⟨mc, hmc,
      Except.bind_eq_ok.mpr ⟨sasFile, rfl, Except.bind_eq_ok.mpr ⟨result, hsas,
        Except.bind_eq_ok.mpr ⟨regFp, hregFp, rfl⟩⟩⟩⟩⟩⟩⟩

/-- The recording of the chain of tables, with a file of synced ranges. -/
def chainFiles (sasFile : List UInt8) : Files :=
  ⟨some (Bytes.words (pgtWords (pageMem chainWord) ⟨4096 * 1, 0, 0⟩ (4096 * 1) 4)),
    some (dump [untouchedPage]), some sasFile, some []⟩

/-- Ranges that start in the page of the chain are all found. -/
theorem chain_synced {sasFile : List UInt8} {n : Nat}
    (hcount : ((Stream.open sasFile).readWord 4 0).1 = n)
    (hstart : ∀ k < n, sasStart chainJunk.sas sasFile k < 4096) :
    ∃ ctx, grMemInit ⟨false, false⟩ (chainFiles sasFile) chainJunk chainMachine = .ok ctx ∧
      ctx.sas.length = n ∧
      ∀ k s, ctx.sas[k]? = some s → s.gmStart = sasStart chainJunk.sas sasFile k := by
  obtain ⟨ctx, h⟩ := resetInput_chain wf_untouchedPage (by decide) (by decide)
  obtain ⟨start, base, dup, orig, hloaded⟩ := grMemInit_loaded h
  obtain ⟨pgt, taken, -, hisolated⟩ := grMemInit_isolated h.pool h.lt h.fits h.run
  have hok : TablesOk ctx.machine.mem 3 ctx.newTranstab := by
    intro p hp
    have hframes : ∀ f ∈ chainMachine.pool, f % 4096 = 0 ∧ 0 < f ∧ f < 2 ^ 48 := by decide
    refine hframes p ?_
    rw [hisolated.obtained]
    exact List.mem_append_left _ (hisolated.tables p (pages_eq_preorder .. ▸ hp))
  have htrans : ∀ a < 4096, Translates ctx.machine.mem ctx.newTranstab a := by
    intro a ha
    have hleaf := hloaded.leaves untouchedPage List.mem_cons_self 0 (by decide)
    obtain ⟨q, hq, -⟩ := hloaded.tables _ hleaf
    have hsame : gpuIndex a = gpuIndex (untouchedPage.gmStart + 4096 * 0) := by
      refine gpuIndex_congr ?_
      rw [Nat.div_eq_of_lt ha]
      rfl
    exact ⟨_, (grTransVaToPa_of_leafPage hok (hsame ▸ hq)).2⟩
  have hencl : ∀ a < 4096, Enclosed ctx.regions a := by
    intro a ha
    obtain ⟨rs, r, hregions, hmade, -⟩ := hloaded.regions
    obtain ⟨t, hbase, hrec⟩ := List.map_eq_singleton_iff.mp hloaded.records
    rw [hbase] at hmade
    cases hmade with
    | cons hfirst _ =>
        obtain ⟨isSynced, rfl⟩ := hfirst
        refine ⟨_, by rw [hregions]; exact List.mem_append_left _ List.mem_cons_self, ?_⟩
        show t.record.gmStart ≤ a ∧ a < t.record.gmEnd
        rw [hrec]
        exact ⟨Nat.zero_le a, ha⟩
  obtain ⟨result, hsas⟩ := (readSyncAs_returns_iff n chainJunk.sas
    ((Stream.open sasFile).readWord 4 0).2 ctx.regions).mpr fun k hk =>
      ⟨htrans _ (hstart k hk), hencl _ (hstart k hk)⟩
  have hget : grGetSyncAs ctx.machine.mem ctx.newTranstab chainJunk.sas ctx.regions sasFile
      = .ok result := by
    unfold grGetSyncAs
    dsimp only
    rw [hcount]
    exact hsas
  obtain ⟨hlen, -, hentries⟩ := readSyncAs_ok _ _ _ _ _ hsas
  exact ⟨_, grMemInit_sas h.run hget, hlen, fun k s hs =>
    congrArg SasLocals.gmStart (hentries k s hs)⟩

/-- One range, which starts 8 bytes into the first page. -/
def unalignedSas : List UInt8 := Bytes.le 4 1 ++ (Bytes.le 8 8 ++ (Bytes.le 8 4096 ++ Bytes.le 8 8))

/-- The chain of tables with a range that starts inside its page. -/
def unalignedFiles : Files := chainFiles unalignedSas

theorem unaligned_returns : ∃ ctx,
    grMemInit ⟨false, false⟩ unalignedFiles chainJunk chainMachine = .ok ctx ∧
      ∃ s rest, ctx.sas = s :: rest ∧ s.gmStart = 8 := by
  have hstart : sasStart chainJunk.sas unalignedSas 0 = 8 := by decide
  obtain ⟨ctx, hrun, hlen, hentries⟩ := @chain_synced unalignedSas 1 (by decide)
    fun k hk => by
      rw [Nat.lt_one_iff.mp hk, hstart]
      decide
  obtain ⟨s, rest, hcons⟩ := List.exists_cons_of_length_eq_add_one hlen
  exact ⟨ctx, hrun, s, rest, hcons, (hentries 0 s (by rw [hcons]; rfl)).trans hstart⟩

/-- **A search in it reads past the page.** -/
theorem unaligned_not_single : ∃ ctx,
    grMemInit ⟨false, false⟩ unalignedFiles chainJunk chainMachine = .ok ctx ∧
      ¬PhysRun.SinglePage ctx ctx.machine.mem (.findSyncAs (List.replicate 8 0) 8) := by
  obtain ⟨ctx, hrun, s, rest, hsas, hstart⟩ := unaligned_returns
  have hstarts := (grMemInit_starts chainMachine_pool.1.aligned hrun).2
  refine ⟨ctx, hrun, fun h => ?_⟩
  have haligned := (findsSyncAs_iff (by decide) (by decide) ctx.sas hstarts).mp h
  rw [hsas, StartsAligned, hstart] at haligned
  exact absurd haligned.1 (by decide)

/-- Which the condition says. -/
theorem singlePage_unaligned :
    ((∀ frame ∈ chainMachine.pool, frame % 4096 = 0) ∧ chainJunk.mc.buf.length = 4096 ∧
      (PhysRun.findSyncAs (List.replicate 8 0) 8).Sized) ∧
    ((InPages (grMemInitLog ⟨false, false⟩ unalignedFiles chainJunk chainMachine) ∧
      ∀ ctx, grMemInit ⟨false, false⟩ unalignedFiles chainJunk chainMachine = .ok ctx →
        (PhysRun.findSyncAs (List.replicate 8 0) 8).SinglePage ctx (fun _ => 0)) ↔
      ∀ ctx, grMemInit ⟨false, false⟩ unalignedFiles chainJunk chainMachine = .ok ctx →
        (PhysRun.findSyncAs (List.replicate 8 0) 8).Fits ctx (fun _ => 0)) := by
  have hpool := chainMachine_pool.1.aligned
  have hbuf : chainJunk.mc.buf.length = 4096 := List.length_replicate
  have hsized : (PhysRun.findSyncAs (List.replicate 8 0) 8).Sized := ⟨by decide, by decide⟩
  exact ⟨⟨hpool, hbuf, hsized⟩, singlePage_iff hpool hbuf (fun _ => 0) hsized⟩

end GpuReplay.Replayer
