/-
From the registers of the recorder to those of the replayer: a validated replay finds what has
changed.

The driver takes a snapshot after each access, and writes it as words in order.  The replayer reads
as many bytes for each entry of its log.  Where nothing has been lost on the way, entry `i` is
checked against the registers as access `i` left them: what is printed of the entry tells which of
them answer otherwise now, but for the translation table's, and what they were.
-/
import GpuReplay.Proofs.RegSnapshot
import GpuReplay.Proofs.Validation

namespace GpuReplay

open Stdio

namespace Driver

/-! ### The file -/

/-- What the registers hold after the step, if it is an access. -/
def SnapshotStep.readl : SnapshotStep → Option (Nat → Nat)
  | .access _ _ readl => some readl
  | .destroy _ | .write _ | .reset _ | .irq _ => none

/-- What the registers held after each access of a run. -/
def recordedRegs (steps : List SnapshotStep) : List (Nat → Nat) :=
  steps.filterMap SnapshotStep.readl

/-- A snapshot as `file_write` writes it. -/
def snapshotBytes (regs : RegMap) : List UInt8 := regs.flatMap (Bytes.le 4)

variable {regSize : Nat} {s s' : SnapshotState} {e : SnapshotStep}

/-- A snapshot is taken of each access, and of nothing else. -/
theorem taken_step (hok : Orderly s e) (h : snapshotStep regSize s e = some s') :
    s'.taken = s.taken ++ (recordedRegs [e]).map (regValues regSize) := by
  obtain ⟨actor, _, readl, next, rfl, rfl⟩ | ⟨actor, rfl, rfl⟩ | ⟨actor, rfl, rfl⟩ |
    ⟨actor, next, rfl | rfl, rfl⟩ := snapshotStep_cases h
  · unfold grRegDump
    rw [if_pos (show s.nrRegSnapshots < maxRegSnapshots from hok)]
    rfl
  all_goals exact (List.append_nil _).symm

theorem taken_run {steps : List SnapshotStep} :
    ∀ {s : SnapshotState}, AllSteps (snapshotStep regSize) Orderly s steps →
      steps.foldlM (snapshotStep regSize) s = some s' →
      s'.taken = s.taken ++ (recordedRegs steps).map (regValues regSize) := by
  induction steps with
  | nil =>
      intro s _ hrun
      obtain rfl := Option.some.inj hrun
      exact (List.append_nil _).symm
  | cons e steps ih =>
      intro s hall hrun
      rw [List.foldlM_cons] at hrun
      obtain ⟨mid, hmid, hrest⟩ := Option.bind_eq_some_iff.mp hrun
      have hcons : recordedRegs (e :: steps) = recordedRegs [e] ++ recordedRegs steps :=
        List.filterMap_append (l := [e])
      rw [ih (hall.2 mid hmid) hrest, taken_step hall.1 hmid, hcons, List.map_append,
        List.append_assoc]

/-- **The file of an orderly run**, when all has been flushed: a snapshot for each access. -/
theorem file_of_run {junk : Nat → RegMap} {steps : List SnapshotStep}
    (hrun : steps.foldlM (snapshotStep regSize) (SnapshotState.init junk) = some s)
    (horderly : AllSteps (snapshotStep regSize) Orderly (SnapshotState.init junk) steps)
    (hflushed : s.unflushed = []) : s.file = (recordedRegs steps).map (regValues regSize) := by
  have hkept : s.flushed ≤ s.nrRegSnapshots ∧ s.Kept :=
    horderly.invariant (P := fun s => s.flushed ≤ s.nrRegSnapshots ∧ s.Kept)
      (fun _ _ _ hs hok h => ⟨flushed_le_step hs.1 h, (kept_step_iff hs.1 hs.2 h).mpr hok⟩)
      hrun ⟨Nat.le_refl 0, rfl, rfl⟩
  have htaken := hkept.2.2
  rw [hflushed, List.append_nil, taken_run horderly hrun] at htaken
  exact htaken

end Driver

namespace Replayer

open Driver

/-! ### A snapshot, read back -/

theorem length_snapshotBytes (readl : Nat → Nat) :
    (snapshotBytes (regValues gpuRegPaSize readl)).length = gpuRegPaSize := by
  unfold snapshotBytes regValues
  rw [Bytes.length_flatMap_le, List.length_map, List.length_range]
  rfl

/-- A register in the snapshot is the register as it was read. -/
theorem regmapWord_snapshotBytes {readl : Nat → Nat} (hwords : ∀ offset, readl offset < 2 ^ 32)
    {offset : Nat} (hoffset : offset ∈ regOffsets) :
    regmapWord (snapshotBytes (regValues gpuRegPaSize readl)) offset = readl offset := by
  obtain ⟨i, hi, rfl⟩ := List.mem_map.mp hoffset
  have hget : (regValues gpuRegPaSize readl)[i]? = some (readl (4 * i)) := by
    unfold regValues
    rw [List.getElem?_map, List.getElem?_range (List.mem_range.mp hi)]
    rfl
  unfold regmapWord snapshotBytes
  rw [Bytes.take_drop_flatMap_le 4 hget, Bytes.val_le (hwords _)]

/-! ### One entry -/

/-- A register that is compared, and no longer answers what it did in the recording. -/
def Changed (readl : Nat → Nat) (offset value : Nat) : Prop :=
  ¬(offset = asTranstabLo ∨ offset = asTranstabHi) ∧ readl offset ≠ value

/-- Entry `i` was compared with the registers of the recording: all of them are read, unless the
entry is exempt; those that have changed are named with both values; and the entry is printed where
there are any. -/
structure ComparedWith (readl : Nat → Nat) (curIo : RegIo) (i : Nat) (seg : List Event) :
    Prop where
  whole : ∀ offset ∈ regOffsets,
    (∃ value, .read .validate offset value ∈ seg) ↔ ¬curIo.NotCompared
  named : ∀ offset value recorded, .notMatched offset value recorded ∈ seg ↔
    .read .validate offset value ∈ seg ∧ Changed readl offset value ∧ recorded = readl offset
  printed : .givenCmd i curIo.offset curIo.value ∈ seg ↔
    ∃ offset value, .read .validate offset value ∈ seg ∧ Changed readl offset value

theorem map_fst_registersRead (env : Env) (r : Nat) (offsets : List Nat) :
    (registersRead env r offsets).map Prod.fst = offsets := by
  unfold registersRead
  rw [List.map_map]
  exact List.zipIdx_map_fst r offsets

section Entry

variable {env : Env} {curIo : RegIo} {i : Nat} {snapshot : List UInt8} {seg : List Event}

theorem read_mem_regEvents {reg : Nat × Nat} {offset value : Nat} :
    .read .validate offset value ∈ regEvents snapshot reg ↔ reg = (offset, value) := by
  obtain ⟨offset', value'⟩ := reg
  unfold regEvents
  split <;> simp [eq_comm]

theorem notMatched_mem_regEvents {reg : Nat × Nat} {offset value recorded : Nat} :
    .notMatched offset value recorded ∈ regEvents snapshot reg ↔
      reg = (offset, value) ∧ Differs snapshot reg ∧ recorded = regmapWord snapshot reg.1 := by
  obtain ⟨offset', value'⟩ := reg
  unfold regEvents
  split
  case isTrue hdiffers => simp [hdiffers, eq_comm, and_assoc]
  case isFalse hsame => simp [hsame]

/-- But for the line that names the entry, what a check leaves is of one register. -/
theorem EntryChecked.mem_iff (h : EntryChecked env curIo i snapshot seg) :
    ∃ r, ∀ e : Event, e.Validating → e ≠ .givenCmd i curIo.offset curIo.value →
      (e ∈ seg ↔ ¬curIo.NotCompared ∧
        ∃ reg ∈ registersRead env r regOffsets, e ∈ regEvents snapshot reg) := by
  obtain ⟨replayed, r, hreplayed, rfl⟩ := h
  refine ⟨r, fun e he hne => ?_⟩
  have hcheck : e ∉ replayed := fun h => hreplayed e h he
  rw [List.mem_append, or_iff_right hcheck]
  unfold checkEvents
  split
  case isTrue hexempt => simp [hexempt]
  case isFalse hcompared =>
    have hline : e ∉ if (registersRead env r regOffsets).any fun reg => Differs snapshot reg then
        [Event.givenCmd i curIo.offset curIo.value] else [] := by
      split <;> simp [hne]
    rw [List.mem_append, or_iff_left hline, List.mem_flatMap, and_iff_right hcompared]

/-- What the check of an entry leaves in its segment. -/
theorem EntryChecked.events (h : EntryChecked env curIo i snapshot seg) :
    ∃ r, ∀ offset value,
      (.read .validate offset value ∈ seg ↔
        ¬curIo.NotCompared ∧ (offset, value) ∈ registersRead env r regOffsets) ∧
      ∀ recorded, .notMatched offset value recorded ∈ seg ↔
        (¬curIo.NotCompared ∧ (offset, value) ∈ registersRead env r regOffsets) ∧
          Differs snapshot (offset, value) ∧ recorded = regmapWord snapshot offset := by
  obtain ⟨r, hmem⟩ := h.mem_iff
  refine ⟨r, fun offset value => ⟨?_, fun recorded => ?_⟩⟩
  · rw [hmem (.read .validate offset value) rfl (by simp)]
    simp only [read_mem_regEvents, exists_eq_right]
  · rw [hmem (.notMatched offset value recorded) trivial (by simp), and_assoc]
    simp only [notMatched_mem_regEvents]
    refine and_congr_right fun _ => ⟨?_, ?_⟩
    · rintro ⟨_, hreg, rfl, hdiffers⟩
      exact ⟨hreg, hdiffers⟩
    · rintro ⟨hreg, hdiffers⟩
      exact ⟨_, hreg, rfl, hdiffers⟩

end Entry

/-- **An entry checked against a snapshot of the recording is compared with the registers the
recording had.** -/
theorem comparedWith_of_checked {env : Env} {curIo : RegIo} {i : Nat} {seg : List Event}
    {readl : Nat → Nat} (hwords : ∀ offset, readl offset < 2 ^ 32)
    (h : EntryChecked env curIo i (snapshotBytes (regValues gpuRegPaSize readl)) seg) :
    ComparedWith readl curIo i seg := by
  obtain ⟨r, hevents⟩ := h.events
  have hfst : ∀ {offset : Nat}, (∃ value, (offset, value) ∈ registersRead env r regOffsets) ↔
      offset ∈ regOffsets := by
    intro offset
    have hmem : offset ∈ regOffsets ↔ offset ∈ (registersRead env r regOffsets).map Prod.fst := by
      rw [map_fst_registersRead]
    rw [hmem, List.mem_map, Prod.exists]
    simp only [exists_and_right, exists_eq_right]
  have hword : ∀ {offset value : Nat}, .read .validate offset value ∈ seg →
      regmapWord (snapshotBytes (regValues gpuRegPaSize readl)) offset = readl offset := by
    intro offset value hread
    exact regmapWord_snapshotBytes hwords (hfst.mp ⟨value, ((hevents offset value).1.mp hread).2⟩)
  have hdiffers : ∀ {offset value : Nat}, .read .validate offset value ∈ seg →
      (Differs (snapshotBytes (regValues gpuRegPaSize readl)) (offset, value) ↔
        Changed readl offset value) := by
    intro offset value hread
    unfold Differs Changed
    rw [hword hread]
  refine ⟨fun offset hoffset => ?_, fun offset value recorded => ?_, ?_⟩
  · obtain ⟨value, hvalue⟩ := hfst.mpr hoffset
    refine ⟨fun ⟨value', hread⟩ => ((hevents offset value').1.mp hread).1, fun hcompared => ?_⟩
    exact ⟨value, (hevents offset value).1.mpr ⟨hcompared, hvalue⟩⟩
  · rw [(hevents offset value).2 recorded, ← (hevents offset value).1]
    refine and_congr_right fun hread => ?_
    rw [hdiffers hread, hword hread]
  · rw [h.givenCmd_iff]
    constructor
    · rintro ⟨-, offset, value, hread, hne⟩
      exact ⟨offset, value, hread, (hdiffers hread).mp hne⟩
    · rintro ⟨offset, value, hread, hchanged⟩
      exact ⟨((hevents offset value).1.mp hread).1, offset, value, hread,
        (hdiffers hread).mpr hchanged⟩

/-! ### The whole -/

/-- Each entry that was replayed was compared with the registers of its access. -/
def ComparedAll (recorded : List (Nat → Nat)) (log : List RegIo) (segs : List (List Event)) :
    Prop :=
  ∀ (i : Nat) readl curIo seg, recorded[i]? = some readl → log[i]? = some curIo →
    segs[i]? = some seg → ComparedWith readl curIo i seg

theorem comparedAll_of_checksFrom {env : Env} {recorded : List (Nat → Nat)} {log : List RegIo}
    {segs : List (List Event)} (hwords : ∀ readl ∈ recorded, ∀ offset, readl offset < 2 ^ 32)
    (h : ChecksFrom env 0 log
      (recorded.map fun readl => snapshotBytes (regValues gpuRegPaSize readl)) segs) :
    ComparedAll recorded log segs := by
  intro i readl curIo seg hreadl hio hseg
  have hsnapshot : (recorded.map fun readl => snapshotBytes (regValues gpuRegPaSize readl))[i]? =
      some (snapshotBytes (regValues gpuRegPaSize readl)) := by
    rw [List.getElem?_map, hreadl]
    rfl
  have hentry := h i curIo _ seg hio hsnapshot hseg
  rw [Nat.zero_add] at hentry
  exact comparedWith_of_checked (hwords readl (List.mem_of_getElem? hreadl)) hentry

/-- **A validated replay compares each of its entries with the registers as the recording's access
left them**: whatever turns the driver's threads and interrupt handlers took, as long as each step
was orderly and all snapshots were flushed, and whether the replay returns or aborts. -/
theorem replay_compares_recording {junk : Nat → RegMap} {steps : List SnapshotStep}
    {d : SnapshotState}
    (hrun : steps.foldlM (snapshotStep gpuRegPaSize) (SnapshotState.init junk) = some d)
    (horderly : AllSteps (snapshotStep gpuRegPaSize) Orderly (SnapshotState.init junk) steps)
    (hflushed : d.unflushed = [])
    (hwords : ∀ readl ∈ recordedRegs steps, ∀ offset, readl offset < 2 ^ 32)
    {cfg : ReplayConfig} (rctx : ReplayContext) (env : Env) {log : List RegIo}
    (hvalidate : cfg.isValidate = true) (hlog : (recordedRegs steps).length = log.length)
    {s : ReplayState} (hfile : s.regFp.rest = d.file.flatMap snapshotBytes)
    (hmap : s.regmap.length = gpuRegPaSize) :
    Post (grReplayRun cfg rctx env log) s
      (fun _ s' => ∃ segs, segs.length = log.length ∧ s.ran s' = segs.flatten ∧
        ComparedAll (recordedRegs steps) log segs)
      (fun _ s' => ∃ segs rest, segs.length ≤ log.length ∧ (∀ e ∈ rest, ¬e.Validating) ∧
        s.ran s' = segs.flatten ++ rest ∧ ComparedAll (recordedRegs steps) log segs) := by
  have hlength : ((recordedRegs steps).map fun readl =>
      snapshotBytes (regValues gpuRegPaSize readl)).length = log.length := by
    rw [List.length_map, hlog]
  have hsizes : ∀ snapshot ∈ (recordedRegs steps).map fun readl =>
      snapshotBytes (regValues gpuRegPaSize readl), snapshot.length = gpuRegPaSize := by
    intro snapshot h
    obtain ⟨readl, -, rfl⟩ := List.mem_map.mp h
    exact length_snapshotBytes readl
  have hrest : s.regFp.rest = ((recordedRegs steps).map fun readl =>
      snapshotBytes (regValues gpuRegPaSize readl)).flatten ++ [] := by
    rw [hfile, file_of_run hrun horderly hflushed, List.append_nil, List.flatMap_map,
      List.flatMap_def]
  refine Post.bind (Post.of_eq_ok rfl (Post.bind (Post.of_eq_ok rfl ?_)))
  refine Post.bind (Post.mono (post_replayEntries hvalidate hlength hsizes hrest
    (Nat.le_of_eq hmap)) (fun _ s' h => ?_) fun _ s' h => ?_)
  · obtain ⟨segs, hsegs, htrace, hchecks⟩ := h
    exact Post.of_eq_ok rfl
      ⟨segs, hsegs, ReplayState.ran_eq htrace, comparedAll_of_checksFrom hwords hchecks⟩
  · obtain ⟨segs, rest, hsegs, hstop, htrace, hchecks⟩ := h
    exact ⟨segs, rest, hsegs, hstop, ReplayState.ran_eq htrace,
      comparedAll_of_checksFrom hwords hchecks⟩

/-- An interrupt handler's access, whose snapshot a thread flushes with its own. -/
def twoSnapshots : List SnapshotStep :=
  [.access 1 true fun _ => 1, .irq 1, .access 0 false fun _ => 2, .write 0, .reset 0]

theorem orderly_twoSnapshots (junk : Nat → RegMap) :
    AllSteps (snapshotStep gpuRegPaSize) Orderly (SnapshotState.init junk) twoSnapshots := by
  refine ⟨show 0 < 500 by decide, fun s₁ h₁ => ?_⟩
  obtain rfl := Option.some.inj h₁
  refine ⟨trivial, fun s₂ h₂ => ?_⟩
  obtain rfl := Option.some.inj h₂
  refine ⟨show 1 < 500 by decide, fun s₃ h₃ => ?_⟩
  obtain rfl := Option.some.inj h₃
  refine ⟨rfl, fun s₄ h₄ => ?_⟩
  obtain rfl := Option.some.inj h₄
  exact ⟨rfl, fun _ _ => trivial⟩

/-- A replayer that has opened the recording's file. -/
def openedState (d : SnapshotState) (regmap : List UInt8) : ReplayState :=
  { blankState with regFp := Stream.open (d.file.flatMap snapshotBytes), regmap := regmap }

/-- A log of two reads, on registers that are all `1`. -/
def twoReads : List RegIo := [⟨0, 'R', 0, 1⟩, ⟨1, 'R', 4, 2⟩]

theorem replay_compares_two :
    ∃ d, twoSnapshots.foldlM (snapshotStep gpuRegPaSize) (SnapshotState.init fun _ => []) = some d ∧
      Post (grReplayRun { plainConfig with isValidate := true } blankContext (answering fun _ => 1)
          twoReads) (openedState d zeroSnapshot)
        (fun _ s' => ∃ segs, segs.length = twoReads.length ∧
          (openedState d zeroSnapshot).ran s' = segs.flatten ∧
          ComparedAll (recordedRegs twoSnapshots) twoReads segs)
        (fun _ s' => ∃ segs rest, segs.length ≤ twoReads.length ∧ (∀ e ∈ rest, ¬e.Validating) ∧
          (openedState d zeroSnapshot).ran s' = segs.flatten ++ rest ∧
          ComparedAll (recordedRegs twoSnapshots) twoReads segs) := by
  have hwords : ∀ readl ∈ recordedRegs twoSnapshots, ∀ offset, readl offset < 2 ^ 32 := by
    intro readl h offset
    obtain rfl | h := List.mem_cons.mp (show readl ∈ [fun _ => 1, fun _ => 2] from h)
    · exact show 1 < 2 ^ 32 by decide
    · obtain rfl := List.mem_singleton.mp h
      exact show 2 < 2 ^ 32 by decide
  have horderly := orderly_twoSnapshots fun _ => []
  obtain ⟨d, hrun, hflushed⟩ : ∃ d, twoSnapshots.foldlM (snapshotStep gpuRegPaSize)
      (SnapshotState.init fun _ => []) = some d ∧ d.unflushed = [] := ⟨_, rfl, rfl⟩
  refine ⟨d, hrun, ?_⟩
  have hlog : (recordedRegs twoSnapshots).length = twoReads.length := rfl
  have hfile : (openedState d zeroSnapshot).regFp.rest = d.file.flatMap snapshotBytes := rfl
  have hmap : (openedState d zeroSnapshot).regmap.length = gpuRegPaSize := length_zeroSnapshot
  -- neither the file nor the run is to be evaluated
  generalize openedState d zeroSnapshot = s at hfile hmap ⊢
  generalize twoReads = log at hlog ⊢
  exact replay_compares_recording hrun horderly hflushed hwords blankContext (answering fun _ => 1)
    rfl hlog hfile hmap

end Replayer

end GpuReplay
