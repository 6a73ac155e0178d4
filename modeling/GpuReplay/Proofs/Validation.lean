/-
The check after each entry of the log.

Everything else a replay does leaves the file of snapshots and the register map read from it
alone (`Aside`), so the cursor in the file is at snapshot `i` when entry `i` is checked: each
check reads one snapshot, also where it compares nothing.  A check that compares reads all
registers and prints those that differ.  What it returns is `1` whether or not any do, so that
nothing is ever reported.
-/
import GpuReplay.Proofs.Frames

namespace GpuReplay.Replayer

open Stdio

/-! ### Everything but the check -/

/-- Nothing was checked, and the file was not read. -/
structure Aside (s s' : ReplayState) : Prop where
  regFp : s'.regFp = s.regFp
  regmap : s'.regmap = s.regmap
  trace : ∃ seg, (∀ e ∈ seg, ¬e.Validating) ∧ s'.trace = s.trace ++ seg

theorem aside_of_trace_eq {s s' : ReplayState} (hfile : s'.regFp = s.regFp)
    (hmap : s'.regmap = s.regmap) (htrace : s'.trace = s.trace) : Aside s s' :=
  ⟨hfile, hmap, [], fun _ he => absurd he List.not_mem_nil, htrace.trans (List.append_nil _).symm⟩

theorem aside_of_event {s s' : ReplayState} {e : Event} (he : ¬e.Validating)
    (hfile : s'.regFp = s.regFp) (hmap : s'.regmap = s.regmap) (htrace : s'.trace = s.trace ++ [e]) :
    Aside s s' :=
  ⟨hfile, hmap, [e], fun e' he' => by rwa [List.mem_singleton.mp he'], htrace⟩

instance : AccessBlind Aside where
  refl _ := aside_of_trace_eq rfl rfl rfl
  trans _ _ _ h h' := by
    obtain ⟨hfile, hmap, seg, hseg, htrace⟩ := h
    obtain ⟨hfile', hmap', seg', hseg', htrace'⟩ := h'
    refine ⟨hfile'.trans hfile, hmap'.trans hmap, seg ++ seg', fun e he => ?_, ?_⟩
    · exact (List.mem_append.mp he).elim (hseg e) (hseg' e)
    · rw [htrace', htrace, List.append_assoc]
  event _ _ _ he := aside_of_event he rfl rfl rfl
  latest _ _ := aside_of_trace_eq rfl rfl rfl

instance : TimeBlind Aside where
  clock _ := aside_of_trace_eq rfl rfl rfl
  accounts _ _ _ _ _ _ _ := aside_of_trace_eq rfl rfl rfl

instance : SpaceBlind Aside where
  checkpoint _ _ _ _ := aside_of_trace_eq rfl rfl rfl

theorem aside_jsTune (rctx : ReplayContext) (type val : Nat) :
    Moves Aside (grJsTune rctx type val) :=
  moves_grJsTune (fun _ _ => aside_of_trace_eq rfl rfl rfl) fun _ _ =>
    aside_of_trace_eq rfl rfl rfl

/-! ### The check -/

/-- The registers in the order the check reads them. -/
def regOffsets : List Nat := (List.range (gpuRegPaSize / 4)).map (4 * ·)

/-- Registers with what they answer, from the `r`-th read on. -/
def registersRead (env : Env) (r : Nat) (offsets : List Nat) : List (Nat × Nat) :=
  (offsets.zipIdx r).map fun (offset, n) => (offset, env.hw n % 2 ^ 32)

/-- A register that is compared, and has another value than in the snapshot. -/
def Differs (regmap : List UInt8) (reg : Nat × Nat) : Prop :=
  ¬(reg.1 = asTranstabLo ∨ reg.1 = asTranstabHi) ∧ regmapWord regmap reg.1 ≠ reg.2

instance (regmap : List UInt8) (reg : Nat × Nat) : Decidable (Differs regmap reg) :=
  inferInstanceAs (Decidable (_ ∧ _))

/-- What is seen of one register. -/
def regEvents (regmap : List UInt8) (reg : Nat × Nat) : List Event :=
  .read .validate reg.1 reg.2 ::
    if Differs regmap reg then [.notMatched reg.1 reg.2 (regmapWord regmap reg.1)] else []

/-- What is seen of the check of entry `i`, if `r` reads have been made before it. -/
def checkEvents (env : Env) (curIo : RegIo) (i : Nat) (regmap : List UInt8) (r : Nat) : List Event :=
  if curIo.NotCompared then []
  else (registersRead env r regOffsets).flatMap (regEvents regmap) ++
    if (registersRead env r regOffsets).any fun reg => Differs regmap reg then
      [.givenCmd i curIo.offset curIo.value] else []

theorem compareRegs_eq (env : Env) {offsets : List Nat} :
    ∀ {ret : Nat} {s : ReplayState}, (∀ offset ∈ offsets, offset + 4 ≤ gpuRegPaSize) →
      compareRegs env offsets ret s =
        .ok (if (registersRead env s.reads offsets).any fun reg => Differs s.regmap reg then 0 else ret)
          { s with
            reads := s.reads + offsets.length
            trace := s.trace ++
              (registersRead env s.reads offsets).flatMap (regEvents s.regmap) } := by
  induction offsets with
  | nil =>
      intro ret s _
      simp [registersRead, compareRegs, pure, EStateM.pure]
  | cons offset offsets ih =>
      intro ret s hin
      obtain ⟨hoffset, hrest⟩ := List.forall_mem_cons.mp hin
      have hregs : registersRead env s.reads (offset :: offsets) =
          (offset, s.answer env) :: registersRead env (s.reads + 1) offsets := rfl
      have hread : grRegRead env .validate offset s =
          .ok (s.answer env) (s.afterRead env .validate offset) := if_pos hoffset
      rw [hregs, List.any_cons, List.flatMap_cons]
      refine EStateM.bind_eq_ok.mpr ⟨_, _, hread, ?_⟩
      by_cases htranstab : offset = asTranstabLo ∨ offset = asTranstabHi
      · have hsame : ¬Differs s.regmap (offset, s.answer env) := fun h => h.1 htranstab
        rw [if_pos htranstab, ih hrest, decide_eq_false hsame, Bool.false_or]
        refine congrArg₂ EStateM.Result.ok rfl ?_
        simp [ReplayState.afterRead, regEvents, hsame, Nat.add_assoc, Nat.add_comm 1]
      · rw [if_neg htranstab]
        refine EStateM.bind_eq_ok.mpr ⟨_, _, rfl, ?_⟩
        by_cases hne : regmapWord s.regmap offset = s.answer env
        · have hsame : ¬Differs s.regmap (offset, s.answer env) := fun h => h.2 hne
          rw [show (s.afterRead env .validate offset).regmap = s.regmap from rfl,
            if_neg (not_not.mpr hne), ih hrest, decide_eq_false hsame, Bool.false_or]
          refine congrArg₂ EStateM.Result.ok rfl ?_
          simp [ReplayState.afterRead, regEvents, hsame, Nat.add_assoc, Nat.add_comm 1]
        · have hdiff : Differs s.regmap (offset, s.answer env) := ⟨htranstab, hne⟩
          rw [show (s.afterRead env .validate offset).regmap = s.regmap from rfl, if_pos hne]
          refine EStateM.bind_eq_ok.mpr ⟨_, _, rfl, ?_⟩
          rw [ih hrest, decide_eq_true hdiff, Bool.true_or, if_pos rfl]
          refine congrArg₂ EStateM.Result.ok (ite_self _) ?_
          simp [ReplayState.afterRead, ReplayState.emit, regEvents, hdiff, Nat.add_assoc,
            Nat.add_comm 1]

/-- **A check reads one snapshot**, whatever it compares, and it returns `1`. -/
theorem validateEntry_eq (env : Env) (curIo : RegIo) (i : Nat) {s : ReplayState}
    {snapshot more : List UInt8} (hsize : snapshot.length = gpuRegPaSize)
    (hrest : s.regFp.rest = snapshot ++ more) (hmap : s.regmap.length ≤ gpuRegPaSize) :
    ∃ s', validateEntry env curIo i s = .ok () s' ∧ s'.regFp.rest = more ∧ s'.regmap = snapshot ∧
      s'.trace = s.trace ++ checkEvents env curIo i snapshot s.reads := by
  have hread : s.regFp.read gpuRegPaSize s.regmap = (snapshot, ⟨more, s.regFp.eof⟩) := by
    have hfp : s.regFp = ⟨snapshot ++ more, s.regFp.eof⟩ := by rw [← hrest]
    rw [hfp]
    exact Stream.read_append hsize hmap more _
  have hin : ∀ offset ∈ regOffsets, offset + 4 ≤ gpuRegPaSize := by
    intro offset hoffset
    obtain ⟨n, hn, rfl⟩ := List.mem_map.mp hoffset
    have hlt := List.mem_range.mp hn
    unfold gpuRegPaSize at hlt ⊢
    omega
  -- the state once the snapshot has been read
  obtain ⟨s₁, hs₁⟩ : ∃ s₁, s₁ = { s with regmap := snapshot, regFp := ⟨more, s.regFp.eof⟩ } := ⟨_, rfl⟩
  have hsame : ∃ s', grIsSameRegmap env curIo i s = .ok 1 s' ∧ s'.regFp.rest = more ∧
      s'.regmap = snapshot ∧ s'.trace = s.trace ++ checkEvents env curIo i snapshot s.reads := by
    have hfread : (modify fun s : ReplayState => { s with
        regmap := (s.regFp.read gpuRegPaSize s.regmap).1
        regFp := (s.regFp.read gpuRegPaSize s.regmap).2 } : Replay Unit) s = .ok () s₁ := by
      rw [hs₁]
      change EStateM.Result.ok () _ = _
      dsimp only
      rw [hread]
    have htrace : s₁.trace = s.trace ++ [] := hs₁ ▸ (List.append_nil _).symm
    by_cases hexempt : curIo.NotCompared
    · refine ⟨s₁, EStateM.bind_eq_ok.mpr ⟨(), s₁, hfread, ?_⟩, hs₁ ▸ rfl, hs₁ ▸ rfl, ?_⟩
      · rcases hexempt with hjob | has
        · rw [if_pos hjob]
          rfl
        · rw [if_pos has, ite_self]
          rfl
      · unfold checkEvents
        rw [if_pos hexempt]
        exact htrace
    · obtain ⟨hjob, has⟩ := not_or.mp hexempt
      obtain ⟨s₂, hcompare, hfile₂, hmap₂, htrace₂⟩ : ∃ s₂, compareRegs env regOffsets 1 s₁ =
            .ok (if (registersRead env s.reads regOffsets).any fun reg => Differs snapshot reg then 0
              else 1) s₂ ∧
          s₂.regFp.rest = more ∧ s₂.regmap = snapshot ∧ s₂.trace = s.trace ++
            (registersRead env s.reads regOffsets).flatMap (regEvents snapshot) := by
        rw [@compareRegs_eq env regOffsets 1 s₁ hin, hs₁]
        exact ⟨_, rfl, rfl, rfl, rfl⟩
      unfold checkEvents
      rw [if_neg hexempt]
      by_cases hbad : ((registersRead env s.reads regOffsets).any
          fun reg => Differs snapshot reg) = true
      · rw [if_pos hbad] at hcompare ⊢
        refine ⟨s₂.emit (.givenCmd i curIo.offset curIo.value),
          EStateM.bind_eq_ok.mpr ⟨(), s₁, hfread, ?_⟩, hfile₂, hmap₂, ?_⟩
        · rw [if_neg hjob, if_neg has]
          refine EStateM.bind_eq_ok.mpr ⟨0, s₂, hcompare, ?_⟩
          rfl
        · rw [ReplayState.emit, htrace₂, List.append_assoc]
      · rw [if_neg hbad] at hcompare ⊢
        refine ⟨s₂, EStateM.bind_eq_ok.mpr ⟨(), s₁, hfread, ?_⟩, hfile₂, hmap₂, ?_⟩
        · rw [if_neg hjob, if_neg has]
          refine EStateM.bind_eq_ok.mpr ⟨1, s₂, hcompare, ?_⟩
          rfl
        · rw [htrace₂, List.append_nil]
  obtain ⟨s', hrun, hs'⟩ := hsame
  refine ⟨s', EStateM.bind_eq_ok.mpr ⟨1, s', hrun, ?_⟩, hs'⟩
  rw [onlyIf_false Nat.one_ne_zero]
  rfl

/-! ### A log and its snapshots -/

/-- The events of entry `i`: it was replayed, and then checked against `snapshot`. -/
def EntryChecked (env : Env) (curIo : RegIo) (i : Nat) (snapshot : List UInt8) (seg : List Event) :
    Prop :=
  ∃ replayed r, (∀ e ∈ replayed, ¬e.Validating) ∧
    seg = replayed ++ checkEvents env curIo i snapshot r

/-- An entry that is not exempt, after which a register was not as in the snapshot. -/
def Mismatch (curIo : RegIo) (snapshot : List UInt8) (seg : List Event) : Prop :=
  ¬curIo.NotCompared ∧
    ∃ offset value, .read .validate offset value ∈ seg ∧ Differs snapshot (offset, value)

/-- Entries from `i` on were checked against their snapshots. -/
def ChecksFrom (env : Env) (i : Nat) (log : List RegIo) (snapshots : List (List UInt8))
    (segs : List (List Event)) : Prop :=
  ∀ j curIo snapshot seg, log[j]? = some curIo → snapshots[j]? = some snapshot →
    segs[j]? = some seg → EntryChecked env curIo (i + j) snapshot seg

section Run

variable {cfg : ReplayConfig} {rctx : ReplayContext} {env : Env}

theorem checksFrom_nil {i : Nat} {log : List RegIo} {snapshots : List (List UInt8)} :
    ChecksFrom env i log snapshots [] :=
  fun _ _ _ _ _ _ h => by cases h

theorem ChecksFrom.cons {i : Nat} {curIo : RegIo} {log : List RegIo} {snapshot : List UInt8}
    {snapshots : List (List UInt8)} {seg : List Event} {segs : List (List Event)}
    (hfirst : EntryChecked env curIo i snapshot seg)
    (hrest : ChecksFrom env (i + 1) log snapshots segs) :
    ChecksFrom env i (curIo :: log) (snapshot :: snapshots) (seg :: segs) := by
  intro j curIo' snapshot' seg' hio hsnapshot hseg
  cases j with
  | zero =>
      obtain rfl := Option.some.inj hio
      obtain rfl := Option.some.inj hsnapshot
      obtain rfl := Option.some.inj hseg
      exact hfirst
  | succ j =>
      have hnext := hrest j curIo' snapshot' seg' hio hsnapshot hseg
      rwa [Nat.add_right_comm] at hnext

/-- One entry reads one snapshot. -/
theorem post_replayEntry (hvalidate : cfg.isValidate = true) (curIo : RegIo) (i : Nat)
    {s : ReplayState} {snapshot more : List UInt8} (hsize : snapshot.length = gpuRegPaSize)
    (hrest : s.regFp.rest = snapshot ++ more) (hmap : s.regmap.length ≤ gpuRegPaSize) :
    Post (replayEntry cfg rctx env i curIo) s
      (fun _ s' => s'.regFp.rest = more ∧ s'.regmap = snapshot ∧
        ∃ seg, EntryChecked env curIo i snapshot seg ∧ s'.trace = s.trace ++ seg)
      (fun _ s' => ∃ rest, (∀ e ∈ rest, ¬e.Validating) ∧ s'.trace = s.trace ++ rest) := by
  have hmain : Moves Aside (if curIo.isRead = 'R' then replayRead env curIo
      else replayWrite cfg rctx env curIo) :=
    Moves.ite (fun _ => moves_replayRead env curIo) fun _ =>
      moves_replayWrite (fun _ => aside_jsTune rctx _ _) (fun _ => moves_checkpointJob cfg rctx env)
        fun _ => moves_jobSubmitted cfg env
  refine Post.bind ((hmain s).mono (fun _ s₁ h => ?_) fun _ s₁ h => h.trace)
  obtain ⟨replayed, hreplayed, htrace⟩ := h.trace
  rw [onlyIf_true hvalidate]
  obtain ⟨s', hrun, hfile, hregmap, hcheck⟩ := validateEntry_eq env curIo i hsize
    ((congrArg Stream.rest h.regFp).trans hrest) (h.regmap ▸ hmap)
  refine Post.of_eq_ok hrun ⟨hfile, hregmap, _, ⟨replayed, s₁.reads, hreplayed, rfl⟩, ?_⟩
  rw [hcheck, htrace, List.append_assoc]

/-- **Entry by entry the cursor in the file keeps step with the log.** -/
theorem post_replayEntries (hvalidate : cfg.isValidate = true) {log : List RegIo} :
    ∀ {i : Nat} {snapshots : List (List UInt8)} {more : List UInt8} {s : ReplayState},
      snapshots.length = log.length → (∀ snapshot ∈ snapshots, snapshot.length = gpuRegPaSize) →
      s.regFp.rest = snapshots.flatten ++ more → s.regmap.length ≤ gpuRegPaSize →
      Post (replayEntries cfg rctx env i log) s
        (fun _ s' => ∃ segs, segs.length = log.length ∧ s'.trace = s.trace ++ segs.flatten ∧
          ChecksFrom env i log snapshots segs)
        (fun _ s' => ∃ segs rest, segs.length ≤ log.length ∧ (∀ e ∈ rest, ¬e.Validating) ∧
          s'.trace = s.trace ++ (segs.flatten ++ rest) ∧ ChecksFrom env i log snapshots segs) := by
  induction log with
  | nil =>
      intro i snapshots more s _ _ _ _
      exact Post.pure ⟨[], rfl, (List.append_nil _).symm, checksFrom_nil⟩
  | cons curIo log ih =>
      intro i snapshots more s hlength hsizes hrest hmap
      obtain ⟨snapshot, snapshots, rfl⟩ : ∃ a as, snapshots = a :: as :=
        List.exists_cons_of_length_eq_add_one hlength
      obtain ⟨hsize, hsizes⟩ := List.forall_mem_cons.mp hsizes
      rw [List.flatten_cons, List.append_assoc] at hrest
      refine Post.bind ((post_replayEntry hvalidate curIo i hsize hrest hmap).mono
        (fun _ s₁ h => ?_) fun _ s₁ h => ?_)
      · obtain ⟨hfile, hregmap, seg, hseg, htrace⟩ := h
        refine (ih (Nat.succ.inj hlength) hsizes hfile (Nat.le_of_eq (hregmap ▸ hsize))).mono
          (fun _ s' h' => ?_) fun _ s' h' => ?_
        · obtain ⟨segs, hsegs, htrace', hchecks⟩ := h'
          refine ⟨seg :: segs, congrArg (· + 1) hsegs, ?_, ChecksFrom.cons hseg hchecks⟩
          rw [htrace', htrace, List.flatten_cons, List.append_assoc]
        · obtain ⟨segs, rest, hsegs, hstop, htrace', hchecks⟩ := h'
          refine ⟨seg :: segs, rest, Nat.succ_le_succ hsegs, hstop, ?_, ChecksFrom.cons hseg hchecks⟩
          rw [htrace', htrace, List.flatten_cons, List.append_assoc, List.append_assoc]
      · obtain ⟨rest, hstop, htrace⟩ := h
        exact ⟨[], rest, Nat.zero_le _, hstop, htrace, checksFrom_nil⟩

end Run

/-! ### The verdict -/

theorem EntryChecked.not_failed {env : Env} {curIo : RegIo} {i : Nat} {snapshot : List UInt8}
    {seg : List Event} (h : EntryChecked env curIo i snapshot seg) : .validationFailed ∉ seg := by
  obtain ⟨replayed, r, hreplayed, rfl⟩ := h
  intro hmem
  rcases List.mem_append.mp hmem with hmem | hmem
  · exact hreplayed _ hmem trivial
  · unfold checkEvents regEvents at hmem
    split at hmem
    · exact List.not_mem_nil hmem
    · rcases List.mem_append.mp hmem with hmem | hmem
      · obtain ⟨reg, -, hmem⟩ := List.mem_flatMap.mp hmem
        split at hmem <;> simp at hmem
      · split at hmem <;> simp at hmem

/-- What is printed after the comparison is right. -/
theorem EntryChecked.givenCmd_iff {env : Env} {curIo : RegIo} {i : Nat} {snapshot : List UInt8}
    {seg : List Event} (h : EntryChecked env curIo i snapshot seg) :
    .givenCmd i curIo.offset curIo.value ∈ seg ↔ Mismatch curIo snapshot seg := by
  obtain ⟨replayed, r, hreplayed, rfl⟩ := h
  unfold checkEvents
  constructor
  · intro hmem
    have hmem := (List.mem_append.mp hmem).resolve_left fun h => hreplayed _ h trivial
    split at hmem
    next => exact absurd hmem List.not_mem_nil
    next hexempt =>
      rcases List.mem_append.mp hmem with hmem | hmem
      · obtain ⟨reg, -, hmem⟩ := List.mem_flatMap.mp hmem
        unfold regEvents at hmem
        split at hmem <;> simp at hmem
      · split at hmem
        next hany =>
          obtain ⟨reg, hreg, hdiffers⟩ := List.any_eq_true.mp hany
          refine ⟨hexempt, reg.1, reg.2, ?_, of_decide_eq_true hdiffers⟩
          rw [if_neg hexempt]
          refine List.mem_append_right _ (List.mem_append_left _ ?_)
          exact List.mem_flatMap.mpr ⟨reg, hreg, List.mem_cons_self⟩
        next => exact absurd hmem List.not_mem_nil
  · rintro ⟨hexempt, offset, value, hmem, hdiffers⟩
    rw [if_neg hexempt] at hmem ⊢
    have hmem := (List.mem_append.mp hmem).resolve_left fun h => hreplayed _ h rfl
    have hreg : (offset, value) ∈ registersRead env r regOffsets := by
      rcases List.mem_append.mp hmem with hmem | hmem
      · obtain ⟨reg, hreg, hmem⟩ := List.mem_flatMap.mp hmem
        rcases List.mem_cons.mp hmem with hread | hmem
        · obtain ⟨-, hoffset, hvalue⟩ := Event.read.inj hread
          rw [hoffset, hvalue]
          exact hreg
        · split at hmem <;> simp at hmem
      · split at hmem <;> simp at hmem
    have hany : ((registersRead env r regOffsets).any fun reg => Differs snapshot reg) = true :=
      List.any_eq_true.mpr ⟨_, hreg, decide_eq_true hdiffers⟩
    rw [if_pos hany]
    exact List.mem_append_right _ (List.mem_append_right _ (List.mem_singleton.mpr rfl))

/-- Of the entries that were replayed: each was checked against its snapshot, what is printed tells
whether it mismatched, and the failure that is to be reported is reported where it should be
exactly when there is none. -/
structure Checked (env : Env) (log : List RegIo) (snapshots : List (List UInt8))
    (segs : List (List Event)) : Prop where
  compared : ChecksFrom env 0 log snapshots segs
  printed : ∀ (i : Nat) curIo snapshot seg, log[i]? = some curIo → snapshots[i]? = some snapshot →
    segs[i]? = some seg →
    (.givenCmd i curIo.offset curIo.value ∈ seg ↔ Mismatch curIo snapshot seg)
  verdict : ∀ (i : Nat) curIo snapshot seg, log[i]? = some curIo → snapshots[i]? = some snapshot →
    segs[i]? = some seg →
    ((.validationFailed ∈ seg ↔ Mismatch curIo snapshot seg) ↔ ¬Mismatch curIo snapshot seg)

theorem checked_of_checksFrom {env : Env} {log : List RegIo} {snapshots : List (List UInt8)}
    {segs : List (List Event)} (h : ChecksFrom env 0 log snapshots segs) :
    Checked env log snapshots segs where
  compared := h
  printed i curIo snapshot seg hio hsnapshot hseg := by
    have hentry := h i curIo snapshot seg hio hsnapshot hseg
    rw [Nat.zero_add] at hentry
    exact hentry.givenCmd_iff
  verdict i curIo snapshot seg hio hsnapshot hseg := by
    rw [iff_false_left (h i curIo snapshot seg hio hsnapshot hseg).not_failed]

/-- **A failure is reported where it should be exactly when there is none to report**: in a run
with a snapshot for each entry, whether it returns or aborts, of each entry that was replayed. -/
theorem grReplayRun_verdict {cfg : ReplayConfig} (rctx : ReplayContext) (env : Env)
    {log : List RegIo} {snapshots : List (List UInt8)} {more : List UInt8} {s : ReplayState}
    (hvalidate : cfg.isValidate = true) (hlength : snapshots.length = log.length)
    (hsizes : ∀ snapshot ∈ snapshots, snapshot.length = gpuRegPaSize)
    (hfile : s.regFp.rest = snapshots.flatten ++ more) (hmap : s.regmap.length = gpuRegPaSize) :
    Post (grReplayRun cfg rctx env log) s
      (fun _ s' => ∃ segs, segs.length = log.length ∧ s.ran s' = segs.flatten ∧
        Checked env log snapshots segs)
      (fun _ s' => ∃ segs rest, segs.length ≤ log.length ∧ (∀ e ∈ rest, ¬e.Validating) ∧
        s.ran s' = segs.flatten ++ rest ∧ Checked env log snapshots segs) := by
  refine Post.bind (Post.of_eq_ok rfl (Post.bind (Post.of_eq_ok rfl ?_)))
  refine Post.bind (Post.mono (post_replayEntries hvalidate hlength hsizes hfile
    (Nat.le_of_eq hmap)) (fun _ s' h => ?_) fun _ s' h => ?_)
  · obtain ⟨segs, hsegs, htrace, hchecks⟩ := h
    exact Post.of_eq_ok rfl
      ⟨segs, hsegs, ReplayState.ran_eq htrace, checked_of_checksFrom hchecks⟩
  · obtain ⟨segs, rest, hsegs, hrest, htrace, hchecks⟩ := h
    exact ⟨segs, rest, hsegs, hrest, ReplayState.ran_eq htrace, checked_of_checksFrom hchecks⟩

/-- A state with one snapshot to come. -/
def snapshotState (snapshot : List UInt8) : ReplayState :=
  { blankState with regFp := Stream.open snapshot, regmap := snapshot }

/-- A snapshot of zeros. -/
def zeroSnapshot : List UInt8 := List.replicate gpuRegPaSize 0

theorem length_zeroSnapshot : zeroSnapshot.length = gpuRegPaSize := List.length_replicate

theorem regmapWord_zeroSnapshot : regmapWord zeroSnapshot 0 = 0 := by
  unfold regmapWord zeroSnapshot
  rw [List.drop_zero, List.take_replicate]
  rfl

/-- One entry, which reads a register. -/
def oneRead : List RegIo := [⟨0, 'R', 0, 0⟩]

/-- All registers are `1`. -/
theorem grReplayRun_verdict_one :
    Post (grReplayRun { plainConfig with isValidate := true } blankContext (answering fun _ => 1)
        oneRead) (snapshotState zeroSnapshot)
      (fun _ s' => ∃ segs, segs.length = oneRead.length ∧
        (snapshotState zeroSnapshot).ran s' = segs.flatten ∧
        Checked (answering fun _ => 1) oneRead [zeroSnapshot] segs)
      (fun _ s' => ∃ segs rest, segs.length ≤ oneRead.length ∧ (∀ e ∈ rest, ¬e.Validating) ∧
        (snapshotState zeroSnapshot).ran s' = segs.flatten ++ rest ∧
        Checked (answering fun _ => 1) oneRead [zeroSnapshot] segs) := by
  have hsizes : ∀ snapshot ∈ [zeroSnapshot], snapshot.length = gpuRegPaSize := by
    intro snapshot h
    rw [List.mem_singleton.mp h, length_zeroSnapshot]
  have hmap := length_zeroSnapshot
  have hlength : [zeroSnapshot].length = oneRead.length := rfl
  -- neither the snapshot nor the run is to be evaluated
  generalize zeroSnapshot = snapshot at hsizes hmap hlength ⊢
  generalize oneRead = log at hlength ⊢
  have hfile : (snapshotState snapshot).regFp.rest = [snapshot].flatten ++ [] := by
    rw [List.append_nil, List.flatten_singleton]
    rfl
  exact grReplayRun_verdict blankContext (answering fun _ => 1) rfl hlength hsizes hfile hmap

/-- A run returns when its loop does. -/
theorem grReplayRun_ok {cfg : ReplayConfig} {rctx : ReplayContext} {env : Env} {log : List RegIo}
    {s s₂ : ReplayState} (h : replayEntries cfg rctx env 0 log
      { s with jobSubmitCnt := 1, compTime := 0, clocks := s.clocks + 1 } = .ok () s₂) :
    ∃ s', grReplayRun cfg rctx env log s = .ok () s' ∧ s'.trace = s₂.trace :=
  ⟨_, EStateM.bind_eq_ok.mpr ⟨(), _, rfl, EStateM.bind_eq_ok.mpr ⟨_, _, rfl,
    EStateM.bind_eq_ok.mpr ⟨(), s₂, h, rfl⟩⟩⟩, rfl⟩

/-- A register that is `1` after the entry, and another word in the snapshot. -/
theorem not_reported {snapshot : List UInt8} (hsize : snapshot.length = gpuRegPaSize)
    (hword : regmapWord snapshot 0 ≠ 1) :
    ∃ s', grReplayRun { plainConfig with isValidate := true } blankContext (answering fun _ => 1)
        oneRead (snapshotState snapshot) = .ok () s' ∧
      Mismatch ⟨0, 'R', 0, 0⟩ snapshot ((snapshotState snapshot).ran s') ∧
      .validationFailed ∉ (snapshotState snapshot).ran s' := by
  -- the entry is replayed, and then checked
  obtain ⟨s₁, hread, hfile, hmap, htrace⟩ : ∃ s₁, replayRead (answering fun _ => 1) ⟨0, 'R', 0, 0⟩
      { snapshotState snapshot with jobSubmitCnt := 1, compTime := 0, clocks := 1 } = .ok () s₁ ∧
      s₁.regFp.rest = snapshot ∧ s₁.regmap = snapshot ∧ s₁.trace = [.read .entry 0 1] :=
    ⟨_, rfl, rfl, rfl, rfl⟩
  obtain ⟨s₂, hcheck, -, -, htrace₂⟩ := validateEntry_eq (answering fun _ => 1) ⟨0, 'R', 0, 0⟩ 0 hsize
    (hfile.trans (List.append_nil _).symm) (Nat.le_of_eq (hmap ▸ hsize))
  have hentries : replayEntries { plainConfig with isValidate := true } blankContext
      (answering fun _ => 1) 0 oneRead
      { snapshotState snapshot with jobSubmitCnt := 1, compTime := 0, clocks := 1 } = .ok () s₂ := by
    refine EStateM.bind_eq_ok.mpr ⟨(), s₂, EStateM.bind_eq_ok.mpr ⟨(), s₁, hread, ?_⟩, rfl⟩
    rw [onlyIf_true rfl]
    exact hcheck
  have hran : (snapshotState snapshot).ran s₂ =
      [.read .entry 0 1] ++ checkEvents (answering fun _ => 1) ⟨0, 'R', 0, 0⟩ 0 snapshot s₁.reads := by
    refine ReplayState.ran_eq ?_
    rw [htrace₂, htrace]
    rfl
  have hchecked : EntryChecked (answering fun _ => 1) ⟨0, 'R', 0, 0⟩ 0 snapshot
      ((snapshotState snapshot).ran s₂) := by
    refine ⟨[.read .entry 0 1], s₁.reads, fun e he => ?_, hran⟩
    rw [List.mem_singleton.mp he]
    exact fun h => Site.noConfusion h
  have hexempt : ¬RegIo.NotCompared ⟨0, 'R', 0, 0⟩ := by decide
  have hreg : (0, 1) ∈ registersRead (answering fun _ => 1) s₁.reads regOffsets := by
    refine List.mem_map.mpr ⟨(0, s₁.reads), ?_, rfl⟩
    refine List.mem_of_getElem? (i := 0) ?_
    rw [List.getElem?_zipIdx]
    unfold regOffsets
    rw [List.getElem?_map, List.getElem?_range (by decide)]
    rfl
  have hmem : Event.read .validate 0 1 ∈ (snapshotState snapshot).ran s₂ := by
    rw [hran]
    unfold checkEvents
    rw [if_neg hexempt]
    refine List.mem_append_right _ (List.mem_append_left _ ?_)
    exact List.mem_flatMap.mpr ⟨_, hreg, List.mem_cons_self⟩
  obtain ⟨s', hrun, htrace'⟩ := grReplayRun_ok hentries
  have hran' : (snapshotState snapshot).ran s' = (snapshotState snapshot).ran s₂ :=
    congrArg (List.drop _) htrace'
  rw [← hran'] at hchecked hmem
  exact ⟨s', hrun, ⟨hexempt, 0, 1, hmem, by decide, hword⟩, hchecked.not_failed⟩

/-- All the registers compared are `1` and recorded as `0`: nothing is reported. -/
theorem mismatch_not_reported :
    ∃ s', grReplayRun { plainConfig with isValidate := true } blankContext (answering fun _ => 1)
        oneRead (snapshotState zeroSnapshot) = .ok () s' ∧
      Mismatch ⟨0, 'R', 0, 0⟩ zeroSnapshot ((snapshotState zeroSnapshot).ran s') ∧
      .validationFailed ∉ (snapshotState zeroSnapshot).ran s' :=
  not_reported length_zeroSnapshot (by rw [regmapWord_zeroSnapshot]; decide)

end GpuReplay.Replayer
