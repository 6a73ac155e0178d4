/-
Which recordings are complete, told from the events.

Of an entry the events after its mapping decide.  What counts is how many pages the last fault on
it has found, and how many the last one before the first submit that came after a fault: the entry
is written at that submit, with as many pages, and never again.  An entry that is no job and no
binary is written in full where the two are the same.  A second mapping with the bounds of an
earlier one is never touched: the faults are counted for the earlier.
-/
import GpuReplay.Proofs.Recorder

namespace GpuReplay

open Stdio Driver

/-! ### What the events say -/

/-- The bounds of the mappings. -/
def mappings (events : List RecorderEvent) : List (Nat × Nat) :=
  events.filterMap fun
    | .mmap vmStart vmEnd _ => some (vmStart, vmEnd)
    | .fault _ _ _ | .submit _ _ => none

/-- Of the faults on a mapping: the pages the last one has counted, and those that had been counted
at the first submit after one of them. -/
structure Touched where
  counted : Option Nat
  submitted : Option Nat

def Touched.step (vmStart vmEnd : Nat) (t : Touched) : RecorderEvent → Touched
  | .mmap _ _ _ => t
  | .fault start stop nents =>
      if start = vmStart ∧ stop = vmEnd then { t with counted := some nents } else t
  | .submit _ _ => { t with submitted := t.submitted.or t.counted }

/-- The faults on a mapping in the events that follow it. -/
def touched (vmStart vmEnd : Nat) (events : List RecorderEvent) : Touched :=
  events.foldl (Touched.step vmStart vmEnd) ⟨none, none⟩

/-- Every mapping that is the first with its bounds and is no job and no binary: a submit follows
the first fault on it, and what had been counted by then is what the last fault has counted. -/
def FaultsSubmitted (events : List RecorderEvent) : Prop :=
  ∀ before vmStart vmEnd region after, events = before ++ .mmap vmStart vmEnd region :: after →
    (vmStart, vmEnd) ∉ mappings before →
    grAsType ((mappings before).length % 2 ^ 32) region ≠ .computeJob →
    grAsType ((mappings before).length % 2 ^ 32) region ≠ .gpuBinary →
    (touched vmStart vmEnd after).submitted = (touched vmStart vmEnd after).counted

/-! ### One entry -/

def Driver.GrAs.bounds (tas : GrAs) : Nat × Nat := (tas.vmStart, tas.vmEnd)

theorem bounds_grAsAddValid (vmStart vmEnd nents : Nat) (asList : List GrAs) :
    (grAsAddValid vmStart vmEnd nents asList).map GrAs.bounds = asList.map GrAs.bounds := by
  induction asList with
  | nil => rfl
  | cons tas rest ih =>
      rw [grAsAddValid]
      split
      · rfl
      · rw [List.map_cons, ih, List.map_cons]

/-- What an event makes of an entry that stands behind those of `earlier`. -/
def entryAfter (earlier : List (Nat × Nat)) (tas : GrAs) : RecorderEvent → GrAs
  | .mmap _ _ _ => tas
  | .fault vmStart vmEnd nents =>
      if tas.bounds = (vmStart, vmEnd) ∧ tas.bounds ∉ earlier then
        { tas with isValid := true, nents := nents }
      else tas
  | .submit _ _ => markDumped submitSel tas

/-- What an event writes of the entry in place `i`. -/
def callsAfter (i : Nat) (tas : GrAs) : RecorderEvent → List DumpCall
  | .submit mem cpuAlloc => if submitSel tas then [⟨i, tas, mem, cpuAlloc⟩] else []
  | .mmap _ _ _ | .fault _ _ _ => []

/-- A fault marks the first entry with its bounds. -/
theorem getElem?_grAsAddValid {vmStart vmEnd nents : Nat} :
    ∀ {asList : List GrAs} {i : Nat} {tas : GrAs}, asList[i]? = some tas →
      (grAsAddValid vmStart vmEnd nents asList)[i]? = some
        (entryAfter ((asList.map GrAs.bounds).take i) tas (.fault vmStart vmEnd nents)) := by
  intro asList
  induction asList with
  | nil =>
      intro i tas h
      cases h
  | cons head rest ih =>
      intro i tas h
      have hbounds : head.bounds = (vmStart, vmEnd) ↔
          head.vmStart = vmStart ∧ head.vmEnd = vmEnd := by
        rw [GrAs.bounds, Prod.mk.injEq]
      rw [grAsAddValid]
      cases i with
      | zero =>
          obtain rfl := Option.some.inj h
          rw [entryAfter]
          by_cases hhead : head.vmStart = vmStart ∧ head.vmEnd = vmEnd
          · rw [if_pos hhead, if_pos ⟨hbounds.mpr hhead, List.not_mem_nil⟩]
            rfl
          · rw [if_neg hhead, if_neg fun hh => hhead (hbounds.mp hh.1)]
            rfl
      | succ i =>
          have hih := ih (show rest[i]? = some tas from h)
          rw [entryAfter] at hih ⊢
          by_cases hhead : head.vmStart = vmStart ∧ head.vmEnd = vmEnd
          · have hmem : (vmStart, vmEnd) ∈ ((head :: rest).map GrAs.bounds).take (i + 1) :=
              List.mem_cons.mpr (Or.inl (hbounds.mpr hhead).symm)
            rw [if_pos hhead, if_neg fun hh => hh.2 (hh.1 ▸ hmem)]
            exact h
          · rw [if_neg hhead]
            refine hih.trans ?_
            by_cases hhit : tas.bounds = (vmStart, vmEnd) ∧
                tas.bounds ∉ (rest.map GrAs.bounds).take i
            · have hlater : tas.bounds ∉ ((head :: rest).map GrAs.bounds).take (i + 1) := by
                intro hmem
                rcases List.mem_cons.mp hmem with heq | hmem
                · exact hhead (hbounds.mp (heq.symm.trans hhit.1))
                · exact hhit.2 hmem
              rw [if_pos hhit, if_pos ⟨hhit.1, hlater⟩]
            · rw [if_neg hhit, if_neg fun hh => hhit ⟨hh.1, fun hmem =>
                hh.2 (List.mem_cons_of_mem _ hmem)⟩]

theorem bounds_markDumped (sel : GrAs → Bool) (tas : GrAs) :
    (markDumped sel tas).bounds = tas.bounds := by
  unfold markDumped
  split <;> rfl

variable {old : List UInt8} {s s' : GrContext} {i : Nat} {tas : GrAs}

/-- What an event does to the list: it keeps the bounds, or adds those of a mapping. -/
theorem recorderStep_bounds {e : RecorderEvent} (hwf : s.memDumpFile.WF)
    (hstep : recorderStep s e = some s') :
    s'.asList.map GrAs.bounds = s.asList.map GrAs.bounds ++ mappings [e] := by
  cases e with
  | mmap vmStart vmEnd region =>
      obtain rfl := Option.some.inj hstep
      exact List.map_append
  | fault vmStart vmEnd nents =>
      obtain rfl := Option.some.inj hstep
      exact (bounds_grAsAddValid ..).trans (List.append_nil _).symm
  | submit mem cpuAlloc =>
      cases hdump : grDumpMcValid mem cpuAlloc .allWoComputeJob s with
      | error e =>
          rw [recorderStep, hdump] at hstep
          exact absurd hstep.symm (Option.some_ne_none _)
      | ok s₁ =>
          rw [recorderStep, hdump] at hstep
          obtain rfl := Option.some.inj hstep
          have hwalk : Walk mem cpuAlloc submitSel s s₁ := dumpMc_ok hwf hdump
          rw [hwalk.asList, List.map_map]
          refine (List.map_congr_left fun tas _ => ?_).trans (List.append_nil _).symm
          exact bounds_markDumped submitSel tas

/-- **What an event does to one entry** and writes of it. -/
theorem recorderStep_entry {e : RecorderEvent} (hwf : s.memDumpFile.WF)
    (hi : s.asList[i]? = some tas) (hstep : recorderStep s e = some s') :
    s'.asList[i]? = some (entryAfter ((s.asList.map GrAs.bounds).take i) tas e) ∧
      s'.calls.filter (fun c => c.index == i) =
        s.calls.filter (fun c => c.index == i) ++ callsAfter i tas e := by
  cases e with
  | mmap vmStart vmEnd region =>
      obtain rfl := Option.some.inj hstep
      refine ⟨?_, (List.append_nil _).symm⟩
      exact (List.getElem?_append_left (List.getElem?_eq_some_iff.mp hi).1).trans hi
  | fault vmStart vmEnd nents =>
      obtain rfl := Option.some.inj hstep
      exact ⟨getElem?_grAsAddValid hi, (List.append_nil _).symm⟩
  | submit mem cpuAlloc =>
      cases hdump : grDumpMcValid mem cpuAlloc .allWoComputeJob s with
      | error e =>
          rw [recorderStep, hdump] at hstep
          exact absurd hstep.symm (Option.some_ne_none _)
      | ok s₁ =>
          rw [recorderStep, hdump] at hstep
          obtain rfl := Option.some.inj hstep
          have hwalk : Walk mem cpuAlloc submitSel s s₁ := dumpMc_ok hwf hdump
          refine ⟨?_, filter_walk hwalk hi⟩
          rw [hwalk.asList, List.getElem?_map, hi]
          rfl

/-! ### The first mapping with its bounds -/

/-- An entry, and what has been written of it, against the faults on it. -/
structure Tracks (t : Touched) (tas : GrAs) (calls : List DumpCall) : Prop where
  valid : tas.isValid = t.counted.isSome
  nents : ∀ n, t.counted = some n → tas.nents = n
  counted : t.counted = none → t.submitted = none
  dumped : tas.isJob = false → tas.isDumped = t.submitted.isSome
  written : tas.isJob = false → calls.map (fun c => c.tas.nents) = t.submitted.toList

/-- An event keeps the bounds and the type of an entry. -/
theorem entryAfter_kept (earlier : List (Nat × Nat)) (tas : GrAs) (e : RecorderEvent) :
    (entryAfter earlier tas e).bounds = tas.bounds ∧
      (entryAfter earlier tas e).asType = tas.asType := by
  cases e with
  | mmap vmStart vmEnd region => exact ⟨rfl, rfl⟩
  | fault vmStart vmEnd nents =>
      rw [entryAfter]
      split <;> exact ⟨rfl, rfl⟩
  | submit mem cpuAlloc =>
      rw [entryAfter, markDumped]
      split <;> exact ⟨rfl, rfl⟩

/-- **One event** on the first mapping with its bounds. -/
theorem Tracks.step {t : Touched} {calls : List DumpCall} {earlier : List (Nat × Nat)}
    (h : Tracks t tas calls) (hfirst : tas.bounds ∉ earlier) (e : RecorderEvent) :
    Tracks (t.step tas.vmStart tas.vmEnd e) (entryAfter earlier tas e)
      (calls ++ callsAfter i tas e) := by
  cases e with
  | mmap vmStart vmEnd region =>
      rw [callsAfter, List.append_nil]
      exact h
  | fault vmStart vmEnd nents =>
      rw [callsAfter, List.append_nil]
      rw [Touched.step, entryAfter]
      by_cases hhit : tas.bounds = (vmStart, vmEnd)
      · have hsame : vmStart = tas.vmStart ∧ vmEnd = tas.vmEnd :=
          ⟨(congrArg Prod.fst hhit).symm, (congrArg Prod.snd hhit).symm⟩
        rw [if_pos hsame, if_pos ⟨hhit, hfirst⟩]
        refine ⟨rfl, fun n hn => Option.some.inj hn, fun hn => absurd hn.symm ?_, h.dumped,
          h.written⟩
        exact Option.some_ne_none _ ∘ Eq.symm
      · have hother : ¬(vmStart = tas.vmStart ∧ vmEnd = tas.vmEnd) := fun hh =>
          hhit (by rw [GrAs.bounds, hh.1, hh.2])
        rw [if_neg hother, if_neg fun hh => hhit hh.1]
        exact h
  | submit mem cpuAlloc =>
      rw [Touched.step, entryAfter, callsAfter, markDumped]
      cases hjob : tas.isJob with
      | true =>
          have hsel : submitSel tas = false := by
            simp [submitSel, grDumpMcType, hjob]
          have hnotJob : ¬tas.isJob = false := by simp [hjob]
          rw [hsel, if_neg Bool.false_ne_true, if_neg Bool.false_ne_true, List.append_nil]
          refine ⟨h.valid, h.nents, fun hn => ?_, fun hh => absurd hh hnotJob,
            fun hh => absurd hh hnotJob⟩
          dsimp only at hn ⊢
          rw [h.counted hn, hn]
          rfl
      | false =>
          have hdumped := h.dumped hjob
          have hwritten := h.written hjob
          cases hsub : t.submitted with
          | some n =>
              rw [hsub] at hdumped hwritten
              have hsel : submitSel tas = false := by simp [submitSel, hdumped]
              rw [hsel, if_neg Bool.false_ne_true, if_neg Bool.false_ne_true, List.append_nil]
              refine ⟨h.valid, h.nents, fun hn => ?_, fun _ => hdumped, fun _ => hwritten⟩
              exact absurd (hsub.symm.trans (h.counted hn)) (Option.some_ne_none n)
          | none =>
              rw [hsub] at hdumped hwritten
              cases hcnt : t.counted with
              | none =>
                  have hvalid := h.valid
                  rw [hcnt] at hvalid
                  have hsel : submitSel tas = false := by simp [submitSel, hvalid]
                  rw [hsel, if_neg Bool.false_ne_true, if_neg Bool.false_ne_true, List.append_nil]
                  exact ⟨hvalid, fun n hn => absurd hn.symm (Option.some_ne_none n), fun _ => rfl,
                    fun _ => hdumped, fun _ => hwritten⟩
              | some n =>
                  have hvalid := h.valid
                  rw [hcnt] at hvalid
                  have hsel : submitSel tas = true := by
                    simp [submitSel, grDumpMcType, hdumped, hvalid, hjob]
                  rw [hsel, if_pos rfl, if_pos rfl]
                  refine ⟨hvalid, fun m hm => h.nents m (hcnt.trans hm),
                    fun hn => absurd hn.symm (Option.some_ne_none n ∘ Eq.symm), fun _ => rfl,
                    fun _ => ?_⟩
                  rw [List.map_append, hwritten, List.map_singleton, h.nents n hcnt]
                  rfl

/-- What is written of an entry is what it counts where the two of the faults agree. -/
theorem Tracks.settled_iff {t : Touched} {P : Prop} (hP : P)
    (h : Tracks t tas (s.calls.filter fun c => c.index == i)) :
    (tas.isValid = true → tas.isJob = false →
        ∃ c ∈ s.calls, c.index = i ∧ c.tas.nents = tas.nents) ↔
      (P → tas.isJob = false → t.submitted = t.counted) := by
  have hvalid := h.valid
  constructor
  · intro hsettled _ hother
    have hwritten := h.written hother
    cases hcnt : t.counted with
    | none => exact h.counted hcnt
    | some n =>
        rw [hcnt] at hvalid
        obtain ⟨c, hc, hci, hnents⟩ := hsettled hvalid hother
        have hmem : c.tas.nents ∈ t.submitted.toList := by
          rw [← hwritten]
          exact List.mem_map.mpr ⟨c, List.mem_filter.mpr ⟨hc, decide_eq_true hci⟩, rfl⟩
        rw [hnents, h.nents n hcnt] at hmem
        exact Option.mem_toList.mp hmem
  · intro hsame hisValid hother
    have hwritten := h.written hother
    rw [hisValid] at hvalid
    obtain ⟨n, hn⟩ := Option.isSome_iff_exists.mp hvalid.symm
    rw [hsame hP hother, hn] at hwritten
    have hmem : n ∈ (s.calls.filter fun c => c.index == i).map fun c => c.tas.nents := by
      rw [hwritten]
      exact List.mem_singleton_self n
    obtain ⟨c, hc, hnents⟩ := List.mem_map.mp hmem
    obtain ⟨hc, hci⟩ := List.mem_filter.mp hc
    exact ⟨c, hc, of_decide_eq_true hci, hnents.trans (h.nents n hn).symm⟩

/-- An event does nothing to a mapping with the bounds of an earlier one. -/
theorem entryAfter_later {earlier : List (Nat × Nat)} (hlater : tas.bounds ∈ earlier)
    (hinvalid : tas.isValid = false) (e : RecorderEvent) : entryAfter earlier tas e = tas := by
  cases e with
  | mmap vmStart vmEnd region => rfl
  | fault vmStart vmEnd nents => exact if_neg fun hh => hh.2 hlater
  | submit mem cpuAlloc =>
      have hsel : submitSel tas = false := by simp [submitSel, hinvalid]
      rw [entryAfter, markDumped, hsel]
      rfl

/-! ### A whole recording -/

theorem mappings_append (events events' : List RecorderEvent) :
    mappings (events ++ events') = mappings events ++ mappings events' :=
  List.filterMap_append

/-- The bounds in the list are those of the mappings. -/
theorem run_bounds : ∀ {events : List RecorderEvent} {s s' : GrContext}, SessionInv old s →
    events.foldlM recorderStep s = some s' →
    s'.asList.map GrAs.bounds = s.asList.map GrAs.bounds ++ mappings events ∧
      SessionInv old s' := by
  intro events
  induction events with
  | nil =>
      intro s s' hinv hrun
      obtain rfl := Option.some.inj hrun
      exact ⟨(List.append_nil _).symm, hinv⟩
  | cons e events ih =>
      intro s s' hinv hrun
      obtain ⟨s₁, hstep, hrun⟩ := Option.bind_eq_some_iff.mp hrun
      obtain ⟨hbounds, hinv'⟩ := ih (hinv.step hstep) hrun
      refine ⟨?_, hinv'⟩
      rw [hbounds, recorderStep_bounds hinv.wf hstep, List.append_assoc, ← mappings_append]
      rfl

/-- The count is that of the list. -/
theorem run_asCnt : ∀ {events : List RecorderEvent} {s s' : GrContext}, SessionInv old s →
    s.asCnt = s.asList.length % 2 ^ 32 → events.foldlM recorderStep s = some s' →
    s'.asCnt = s'.asList.length % 2 ^ 32 := by
  intro events
  induction events with
  | nil =>
      intro s s' _ hcnt hrun
      obtain rfl := Option.some.inj hrun
      exact hcnt
  | cons e events ih =>
      intro s s' hinv hcnt hrun
      obtain ⟨s₁, hstep, hrun⟩ := Option.bind_eq_some_iff.mp hrun
      refine ih (hinv.step hstep) ?_ hrun
      have hlen := congrArg List.length (recorderStep_bounds hinv.wf hstep)
      rw [List.length_append, List.length_map, List.length_map] at hlen
      cases e with
      | mmap vmStart vmEnd region =>
          obtain rfl := Option.some.inj hstep
          rw [hlen]
          show (s.asCnt + 1) % 2 ^ 32 = _
          rw [hcnt, Nat.mod_add_mod]
          rfl
      | fault vmStart vmEnd nents =>
          obtain rfl := Option.some.inj hstep
          rw [hlen]
          exact hcnt
      | submit mem cpuAlloc =>
          rw [hlen]
          cases hdump : grDumpMcValid mem cpuAlloc .allWoComputeJob s with
          | error e =>
              rw [recorderStep, hdump] at hstep
              exact absurd hstep.symm (Option.some_ne_none _)
          | ok s₂ =>
              rw [recorderStep, hdump] at hstep
              obtain rfl := Option.some.inj hstep
              obtain ⟨out, -, hout⟩ := Except.bind_eq_ok.mp hdump
              obtain rfl := Except.ok.inj hout
              exact hcnt

/-- **The first mapping with its bounds** over the events that follow it. -/
theorem run_first : ∀ {events : List RecorderEvent} {s s' : GrContext} {tas : GrAs} {t : Touched},
    SessionInv old s → s.asList[i]? = some tas →
    tas.bounds ∉ (s.asList.map GrAs.bounds).take i →
    Tracks t tas (s.calls.filter fun c => c.index == i) →
    events.foldlM recorderStep s = some s' →
    ∃ tas', s'.asList[i]? = some tas' ∧ tas'.asType = tas.asType ∧
      Tracks (events.foldl (Touched.step tas.vmStart tas.vmEnd) t) tas'
        (s'.calls.filter fun c => c.index == i) := by
  intro events
  induction events with
  | nil =>
      intro s s' tas t _ hi _ htracks hrun
      obtain rfl := Option.some.inj hrun
      exact ⟨tas, hi, rfl, htracks⟩
  | cons e events ih =>
      intro s s' tas t hinv hi hfirst htracks hrun
      obtain ⟨s₁, hstep, hrun⟩ := Option.bind_eq_some_iff.mp hrun
      obtain ⟨hi₁, hcalls⟩ := recorderStep_entry hinv.wf hi hstep
      obtain ⟨hbounds, htype⟩ :=
        entryAfter_kept ((s.asList.map GrAs.bounds).take i) tas e
      have hlt : i ≤ (s.asList.map GrAs.bounds).length := by
        rw [List.length_map]
        exact Nat.le_of_lt (List.getElem?_eq_some_iff.mp hi).1
      have htake : (s₁.asList.map GrAs.bounds).take i = (s.asList.map GrAs.bounds).take i := by
        rw [recorderStep_bounds hinv.wf hstep, List.take_append_of_le_length hlt]
      have hstarts := Prod.mk.inj hbounds
      have htracks₁ := htracks.step (i := i) hfirst e
      rw [← hcalls] at htracks₁
      obtain ⟨tas', hi', htype', htracks'⟩ := ih (hinv.step hstep) hi₁
        (by rw [htake, hbounds]; exact hfirst) htracks₁ hrun
      rw [hstarts.1, hstarts.2] at htracks'
      exact ⟨tas', hi', htype'.trans htype, htracks'⟩

/-- A mapping with the bounds of an earlier one is not touched. -/
theorem run_later : ∀ {events : List RecorderEvent} {s s' : GrContext} {tas : GrAs},
    SessionInv old s → s.asList[i]? = some tas →
    tas.bounds ∈ (s.asList.map GrAs.bounds).take i → tas.isValid = false →
    events.foldlM recorderStep s = some s' → s'.asList[i]? = some tas := by
  intro events
  induction events with
  | nil =>
      intro s s' tas _ hi _ _ hrun
      obtain rfl := Option.some.inj hrun
      exact hi
  | cons e events ih =>
      intro s s' tas hinv hi hlater hinvalid hrun
      obtain ⟨s₁, hstep, hrun⟩ := Option.bind_eq_some_iff.mp hrun
      have hi₁ := (recorderStep_entry hinv.wf hi hstep).1
      rw [entryAfter_later hlater hinvalid] at hi₁
      refine ih (hinv.step hstep) hi₁ ?_ hinvalid hrun
      have hlt : i ≤ (s.asList.map GrAs.bounds).length := by
        rw [List.length_map]
        exact Nat.le_of_lt (List.getElem?_eq_some_iff.mp hi).1
      rw [recorderStep_bounds hinv.wf hstep, List.take_append_of_le_length hlt]
      exact hlater

/-- Every entry is that of a mapping. -/
theorem run_origin : ∀ {events : List RecorderEvent} {s s' : GrContext}, SessionInv old s →
    events.foldlM recorderStep s = some s' → s.asList.length ≤ i → i < s'.asList.length →
    ∃ before vmStart vmEnd region after, events = before ++ .mmap vmStart vmEnd region :: after ∧
      s.asList.length + (mappings before).length = i := by
  intro events
  induction events with
  | nil =>
      intro s s' _ hrun hle hlt
      obtain rfl := Option.some.inj hrun
      omega
  | cons e events ih =>
      intro s s' hinv hrun hle hlt
      obtain ⟨s₁, hstep, hrun⟩ := Option.bind_eq_some_iff.mp hrun
      have hlen := congrArg List.length (recorderStep_bounds hinv.wf hstep)
      rw [List.length_append, List.length_map, List.length_map] at hlen
      by_cases hle₁ : s₁.asList.length ≤ i
      · obtain ⟨before, vmStart, vmEnd, region, after, rfl, hi⟩ := ih (hinv.step hstep) hrun hle₁ hlt
        refine ⟨e :: before, vmStart, vmEnd, region, after, rfl, ?_⟩
        rw [show e :: before = [e] ++ before from rfl, mappings_append, List.length_append]
        omega
      · cases e with
        | mmap vmStart vmEnd region =>
            refine ⟨[], vmStart, vmEnd, region, events, rfl, ?_⟩
            have hone : (mappings [.mmap vmStart vmEnd region]).length = 1 := rfl
            have hnil : (mappings []).length = 0 := rfl
            omega
        | fault vmStart vmEnd nents =>
            have hnil : (mappings [.fault vmStart vmEnd nents]).length = 0 := rfl
            omega
        | submit mem cpuAlloc =>
            have hnil : (mappings [.submit mem cpuAlloc]).length = 0 := rfl
            omega

/-- A mapping of the recording: its entry, and when that is settled at the end. -/
theorem run_mapping {before after : List RecorderEvent} {vmStart vmEnd : Nat} {region : VaRegion}
    (hrun : (before ++ .mmap vmStart vmEnd region :: after).foldlM recorderStep
      (grContextInit old) = some s) :
    ∃ tas, s.asList[(mappings before).length]? = some tas ∧
      tas.asType = grAsType ((mappings before).length % 2 ^ 32) region ∧
      ((tas.isValid = true → tas.isJob = false →
          ∃ c ∈ s.calls, c.index = (mappings before).length ∧ c.tas.nents = tas.nents) ↔
        ((vmStart, vmEnd) ∉ mappings before → tas.isJob = false →
          (touched vmStart vmEnd after).submitted = (touched vmStart vmEnd after).counted)) := by
  have hinit := sessionInv_init old
  rw [List.foldlM_append] at hrun
  obtain ⟨s₁, hbefore, hrun⟩ := Option.bind_eq_some_iff.mp hrun
  rw [List.foldlM_cons] at hrun
  obtain ⟨s₂, hstep, hafter⟩ := Option.bind_eq_some_iff.mp hrun
  obtain ⟨hbounds, hinv₁⟩ := run_bounds hinit hbefore
  have hcnt := run_asCnt hinit rfl hbefore
  have hlen : s₁.asList.length = (mappings before).length := by
    have heq := congrArg List.length hbounds
    rw [List.length_map, List.length_append] at heq
    exact heq.trans (Nat.zero_add _)
  have hinv₂ := hinv₁.step hstep
  obtain rfl := Option.some.inj hstep
  rw [hlen] at hcnt
  obtain ⟨tas, hentry, hsame, hinvalid, hdumped, htype⟩ : ∃ tas : GrAs,
      (grAsAdd s₁ vmStart vmEnd region).asList[(mappings before).length]? = some tas ∧
        tas.bounds = (vmStart, vmEnd) ∧ tas.isValid = false ∧ tas.isDumped = false ∧
        tas.asType = grAsType ((mappings before).length % 2 ^ 32) region := by
    rw [← hcnt, ← hlen]
    exact ⟨_, List.getElem?_concat_length, rfl, rfl, rfl, rfl⟩
  have htake : ((grAsAdd s₁ vmStart vmEnd region).asList.map GrAs.bounds).take
      (mappings before).length = mappings before := by
    show ((s₁.asList ++ [_]).map GrAs.bounds).take _ = _
    rw [List.map_append, hbounds]
    exact List.take_left
  have hnone : (s₁.calls.filter fun c => c.index == (mappings before).length) = [] := by
    rw [List.filter_eq_nil_iff]
    intro c hc hci
    have := hinv₁.index c hc
    have := of_decide_eq_true hci
    omega
  by_cases hlater : (vmStart, vmEnd) ∈ mappings before
  · have hi := run_later hinv₂ hentry (by rw [htake, hsame]; exact hlater) hinvalid hafter
    refine ⟨tas, hi, htype, ?_⟩
    exact ⟨fun _ hfirst => absurd hlater hfirst,
      fun _ hvalid => absurd (hinvalid.symm.trans hvalid) Bool.false_ne_true⟩
  · have htracks : Tracks ⟨none, none⟩ tas (s₁.calls.filter fun c => c.index ==
        (mappings before).length) := by
      rw [hnone]
      exact ⟨hinvalid, fun n hn => absurd hn.symm (Option.some_ne_none n), fun _ => rfl,
        fun _ => hdumped, fun _ => rfl⟩
    obtain ⟨tas', hi, htype', htracks'⟩ :=
      run_first hinv₂ hentry (by rw [htake, hsame]; exact hlater) htracks hafter
    obtain ⟨rfl, rfl⟩ := Prod.mk.inj hsame
    exact ⟨tas', hi, htype'.trans htype, htracks'.settled_iff hlater⟩

/-- **Settled, told from the events.** -/
theorem settled_iff {events : List RecorderEvent}
    (hrun : events.foldlM recorderStep (grContextInit old) = some s) :
    Settled s ↔ FaultsSubmitted events := by
  constructor
  · rintro hsettled before vmStart vmEnd region after rfl hfirst hjob hbinary
    obtain ⟨tas, hi, htype, hiff⟩ := run_mapping hrun
    refine hiff.mp (hsettled _ tas hi) hfirst ?_
    rw [GrAs.isJob, htype, Bool.or_eq_false_iff, beq_eq_false_iff_ne, beq_eq_false_iff_ne]
    exact ⟨hjob, hbinary⟩
  · intro hsubmitted i tas hi
    have hlt := (List.getElem?_eq_some_iff.mp hi).1
    obtain ⟨before, vmStart, vmEnd, region, after, rfl, hlen⟩ :=
      run_origin (sessionInv_init old) hrun (Nat.zero_le i) hlt
    obtain rfl := (Nat.zero_add _).symm.trans hlen
    obtain ⟨tas', hi', htype, hiff⟩ := run_mapping hrun
    obtain rfl := Option.some.inj (hi.symm.trans hi')
    refine hiff.mpr fun hfirst hother => ?_
    simp only [GrAs.isJob, Bool.or_eq_false_iff, beq_eq_false_iff_ne, htype] at hother
    exact hsubmitted before vmStart vmEnd region after rfl hfirst hother.1 hother.2

/-- The recordings are what the events lead to. -/
theorem recording_of_run {events : List RecorderEvent}
    (hrun : events.foldlM recorderStep (grContextInit old) = some s) : Recording old s :=
  Reached.foldlM (.start rfl) hrun fun _ _ _ => trivial

/-! ### The end -/

/-- A region both sides cache, as those of input and output are. -/
def inoutRegion : VaRegion := ⟨0, 1, 0x206e ||| 0x10, 1⟩

/-- Two mappings, the second never touched; the first is, before a submit. -/
def submittedEvents : List RecorderEvent :=
  [.mmap 4096 8192 inoutRegion, .mmap 8192 12288 inoutRegion, .fault 4096 8192 1,
    .submit (fun _ => 0) (fun _ => [0])]

end GpuReplay
