/-
Which entries the recorder dumps.

An entry is written at the first walk that selects it and never again.  The walks at the end
take the valid entries of jobs and binaries and the invalid ones of any type.  An entry of
another type is taken by the submits only, if it is valid by then: marked valid after the
last of them it is lost, and what was written earlier stays as it was.
-/
import GpuReplay.Lib.Run
import GpuReplay.Driver.Recorder
import GpuReplay.Proofs.MemInit

namespace GpuReplay

open Stdio Driver

/-- What a dump writes. -/
def Driver.DumpCall.record (c : DumpCall) : McRecord := recordOf c.mem c.cpuAlloc c.tas

/-- The entry is written once: valid, with the pages it counts, or not valid. -/
def WrittenOnce (calls : List DumpCall) (i : Nat) (tas : GrAs) : Prop :=
  ∃ c, calls.filter (fun c => c.index == i) = [c] ∧
    c.tas = { tas with nents := c.tas.nents, isDumped := false } ∧
    (tas.isValid = true → c.tas.nents = tas.nents)

/-- The file holds every entry of `s` once. -/
structure Complete (old : List UInt8) (s s' : GrContext) : Prop where
  file : s'.memDumpFile = (OutFile.reopen old).write (Replayer.dump (s'.calls.map DumpCall.record))
  pages : ∀ c ∈ s'.calls, c.record.pages.length = if c.tas.isValid then c.tas.nents else 0
  once : ∀ (i : Nat) (tas : GrAs), s.asList[i]? = some tas → WrittenOnce s'.calls i tas

/-- The contexts of a recording session before its end. -/
def Recording (old : List UInt8) (s : GrContext) : Prop :=
  Reached recorderStep (· = grContextInit old) (fun _ _ => True) s

/-! ### One dump -/

theorem dumpPhysPages_short {mem : ByteMem} {pages : List Nat} {vmStart : Nat} :
    ∀ {n i : Nat} {file file' : OutFile}, dumpPhysPages mem pages vmStart n i file = .ok file' →
      n = 0 ∨ i + n ≤ pages.length := by
  intro n
  induction n with
  | zero => exact fun _ => Or.inl rfl
  | succ n ih =>
      intro i file file' h
      rw [dumpPhysPages] at h
      cases hi : pages[i]? with
      | none =>
          rw [hi] at h
          cases h
      | some paddr =>
          rw [hi] at h
          have hlt := (List.getElem?_eq_some_iff.mp hi).1
          rcases ih h with rfl | hle
          · exact Or.inr hlt
          · right
            omega

/-- A dump that goes through had the pages it counts. -/
theorem grDumpMc_nents {mem : ByteMem} {cpuAlloc : Nat → List Nat} {tas : GrAs} {file : OutFile}
    {out : GrAs × OutFile} (h : grDumpMc mem cpuAlloc tas file = .ok out) :
    tas.isValid = true → tas.nents ≤ (cpuAlloc tas.reg).length := by
  intro hvalid
  unfold grDumpMc at h
  simp only [hvalid, if_true] at h
  cases hpages : grDumpPhysPages mem cpuAlloc tas (fileWrite (Bytes.le 1 true.toNat)
      (fileWrite (Bytes.le 4 tas.flags) (fileWrite (Bytes.le 8 tas.nents)
        (fileWrite (Bytes.le 8 tas.vmEnd) (fileWrite (Bytes.le 8 tas.vmStart) file))))) with
  | error e =>
      rw [hpages] at h
      cases h
  | ok file' =>
      rcases dumpPhysPages_short hpages with hzero | hle
      · omega
      · omega

theorem length_recordOf {mem : ByteMem} {cpuAlloc : Nat → List Nat} {tas : GrAs}
    (h : tas.isValid = true → tas.nents ≤ (cpuAlloc tas.reg).length) :
    (recordOf mem cpuAlloc tas).pages.length = if tas.isValid then tas.nents else 0 := by
  unfold recordOf
  by_cases hvalid : tas.isValid = true
  · simp [hvalid, allocPages, h hvalid]
  · simp [hvalid]

/-! ### One walk -/

/-- The dumps of a walk. -/
def callsOf (mem : ByteMem) (cpuAlloc : Nat → List Nat) (sel : GrAs → Bool) :
    Nat → List GrAs → List DumpCall
  | _, [] => []
  | i, tas :: rest =>
      if sel tas then ⟨i, tas, mem, cpuAlloc⟩ :: callsOf mem cpuAlloc sel (i + 1) rest
      else callsOf mem cpuAlloc sel (i + 1) rest

/-- What a walk does to an entry. -/
def markDumped (sel : GrAs → Bool) (tas : GrAs) : GrAs :=
  if sel tas then { tas with isDumped := true } else tas

variable {mem : ByteMem} {cpuAlloc : Nat → List Nat} {sel : GrAs → Bool}

theorem dump_append (recs recs' : List McRecord) :
    Replayer.dump (recs ++ recs') = Replayer.dump recs ++ Replayer.dump recs' :=
  List.flatMap_append

/-- **A walk** dumps what it selects. -/
theorem dumpMcLoop_ok : ∀ {asList : List GrAs} {i : Nat} {file : OutFile} {calls : List DumpCall}
    {asList' : List GrAs} {file' : OutFile} {calls' : List DumpCall}, file.WF →
    dumpMcLoop mem cpuAlloc sel i asList (file, calls) = .ok (asList', file', calls') →
    asList' = asList.map (markDumped sel) ∧ calls' = calls ++ callsOf mem cpuAlloc sel i asList ∧
      file' = file.write (Replayer.dump ((callsOf mem cpuAlloc sel i asList).map DumpCall.record)) ∧
      ∀ c ∈ callsOf mem cpuAlloc sel i asList,
        c.record.pages.length = if c.tas.isValid then c.tas.nents else 0 := by
  intro asList
  induction asList with
  | nil =>
      intro i file calls asList' file' calls' _ h
      obtain ⟨rfl, hpair⟩ := Prod.mk.inj (Except.ok.inj h)
      obtain ⟨rfl, rfl⟩ := Prod.mk.inj hpair
      exact ⟨rfl, (List.append_nil _).symm, (OutFile.write_nil _).symm, by simp [callsOf]⟩
  | cons tas rest ih =>
      intro i file calls asList' file' calls' hfile h
      rw [dumpMcLoop] at h
      by_cases hsel : sel tas = true
      · rw [if_pos hsel] at h
        cases hdump : grDumpMc mem cpuAlloc tas file with
        | error e =>
            rw [hdump] at h
            cases h
        | ok out =>
            have hnents := grDumpMc_nents hdump
            have hout := Except.ok.inj (hdump.symm.trans (grDumpMc_eq hfile mem cpuAlloc hnents))
            rw [hdump, Except.ok_bind, hout] at h
            dsimp only at h
            cases hrest : dumpMcLoop mem cpuAlloc sel (i + 1) rest
                (file.write (recordOf mem cpuAlloc tas).bytes, calls ++ [⟨i, tas, mem, cpuAlloc⟩]) with
            | error e =>
                rw [hrest] at h
                cases h
            | ok r =>
                obtain ⟨rest', file₁, calls₁⟩ := r
                rw [hrest] at h
                obtain ⟨rfl, hpair⟩ := Prod.mk.inj (Except.ok.inj h)
                obtain ⟨rfl, rfl⟩ := Prod.mk.inj hpair
                obtain ⟨hlist, hcalls, hfile', hpages⟩ := ih (OutFile.wf_write hfile _) hrest
                have hcallsOf : callsOf mem cpuAlloc sel i (tas :: rest) =
                    ⟨i, tas, mem, cpuAlloc⟩ :: callsOf mem cpuAlloc sel (i + 1) rest := if_pos hsel
                refine ⟨?_, ?_, ?_, ?_⟩
                · rw [hlist, List.map_cons, markDumped, if_pos hsel]
                · rw [hcalls, hcallsOf, List.append_assoc]
                  rfl
                · rw [hfile', OutFile.write_write hfile, hcallsOf]
                  rfl
                · rw [hcallsOf]
                  intro c hc
                  rcases List.mem_cons.mp hc with rfl | hc
                  · exact length_recordOf hnents
                  · exact hpages c hc
      · rw [if_neg hsel] at h
        cases hrest : dumpMcLoop mem cpuAlloc sel (i + 1) rest (file, calls) with
        | error e =>
            rw [hrest] at h
            cases h
        | ok r =>
            obtain ⟨rest', file₁, calls₁⟩ := r
            rw [hrest] at h
            obtain ⟨rfl, hpair⟩ := Prod.mk.inj (Except.ok.inj h)
            obtain ⟨rfl, rfl⟩ := Prod.mk.inj hpair
            obtain ⟨hlist, hcalls, hfile', hpages⟩ := ih hfile hrest
            have hcallsOf : callsOf mem cpuAlloc sel i (tas :: rest) =
                callsOf mem cpuAlloc sel (i + 1) rest := if_neg hsel
            refine ⟨?_, ?_, ?_, ?_⟩
            · rw [hlist, List.map_cons, markDumped, if_neg hsel]
            · rw [hcalls, hcallsOf]
            · rw [hfile', hcallsOf]
            · rw [hcallsOf]
              exact hpages

/-- **A walk goes through** where each valid entry it selects has the pages it counts, whatever is in
the file. -/
theorem dumpMcLoop_isOk : ∀ {asList : List GrAs} {i : Nat} {file : OutFile} {calls : List DumpCall},
    file.WF → (∀ tas ∈ asList, sel tas = true → tas.isValid = true →
      tas.nents ≤ (cpuAlloc tas.reg).length) →
    ∃ out, dumpMcLoop mem cpuAlloc sel i asList (file, calls) = .ok out := by
  intro asList
  induction asList with
  | nil => exact fun _ _ => ⟨_, rfl⟩
  | cons tas rest ih =>
      intro i file calls hfile hnents
      obtain ⟨hfirst, hrest⟩ := List.forall_mem_cons.mp hnents
      rw [dumpMcLoop]
      by_cases hsel : sel tas = true
      · obtain ⟨out, hout⟩ := @ih (i + 1) _ (calls ++ [⟨i, tas, mem, cpuAlloc⟩])
          (OutFile.wf_write hfile (recordOf mem cpuAlloc tas).bytes) hrest
        rw [if_pos hsel, grDumpMc_eq hfile mem cpuAlloc (hfirst hsel), Except.ok_bind]
        dsimp only
        rw [hout]
        exact ⟨_, rfl⟩
      · obtain ⟨out, hout⟩ := @ih (i + 1) file calls hfile hrest
        rw [if_neg hsel, hout]
        exact ⟨_, rfl⟩

/-- One that went through had these pages. -/
theorem dumpMcLoop_nents : ∀ {asList : List GrAs} {i : Nat} {file : OutFile} {calls : List DumpCall}
    {out : List GrAs × OutFile × List DumpCall},
    dumpMcLoop mem cpuAlloc sel i asList (file, calls) = .ok out →
    ∀ tas ∈ asList, sel tas = true → tas.isValid = true →
      tas.nents ≤ (cpuAlloc tas.reg).length := by
  intro asList
  induction asList with
  | nil => exact fun _ _ htas => absurd htas List.not_mem_nil
  | cons tas rest ih =>
      intro i file calls out h
      rw [dumpMcLoop] at h
      by_cases hsel : sel tas = true
      · rw [if_pos hsel] at h
        obtain ⟨dumped, hdump, h⟩ := Except.bind_eq_ok.mp h
        obtain ⟨r, hrest, -⟩ := Except.bind_eq_ok.mp h
        exact List.forall_mem_cons.mpr ⟨fun _ => grDumpMc_nents hdump, ih hrest⟩
      · rw [if_neg hsel] at h
        obtain ⟨r, hrest, -⟩ := Except.bind_eq_ok.mp h
        exact List.forall_mem_cons.mpr ⟨fun hsel' => absurd hsel' hsel, ih hrest⟩

theorem callsOf_index : ∀ {asList : List GrAs} {i : Nat},
    ∀ c ∈ callsOf mem cpuAlloc sel i asList, i ≤ c.index ∧ c.index < i + asList.length := by
  intro asList
  induction asList with
  | nil => exact fun c hc => absurd hc List.not_mem_nil
  | cons tas rest ih =>
      intro i c hc
      rw [callsOf] at hc
      rw [List.length_cons]
      by_cases hsel : sel tas = true
      · rw [if_pos hsel] at hc
        rcases List.mem_cons.mp hc with rfl | hc
        · dsimp only
          omega
        · have h := ih c hc
          omega
      · rw [if_neg hsel] at hc
        have h := ih c hc
        omega

/-- The dumps of one entry in a walk: one if it is selected. -/
theorem filter_callsOf (mem : ByteMem) (cpuAlloc : Nat → List Nat) (sel : GrAs → Bool) :
    ∀ {asList : List GrAs} (i : Nat) {k : Nat} {tas : GrAs}, asList[k]? = some tas →
      (callsOf mem cpuAlloc sel i asList).filter (fun c => c.index == i + k) =
        if sel tas then [⟨i + k, tas, mem, cpuAlloc⟩] else [] := by
  intro asList
  induction asList with
  | nil =>
      intro i k tas hk
      exact absurd hk.symm (Option.some_ne_none _)
  | cons first rest ih =>
      intro i k tas hk
      cases k with
      | zero =>
          obtain rfl := Option.some.inj hk
          have hnone : (callsOf mem cpuAlloc sel (i + 1) rest).filter (fun c => c.index == i + 0) =
              [] := by
            rw [List.filter_eq_nil_iff]
            intro c hc heq
            have hle := (callsOf_index c hc).1
            have := of_decide_eq_true heq
            omega
          rw [callsOf]
          split
          · rw [List.filter_cons_of_pos (by simp), hnone]
            rfl
          · exact hnone
      | succ k =>
          have hrest := ih (i + 1) (show rest[k]? = some tas from hk)
          rw [show i + 1 + k = i + (k + 1) by omega] at hrest
          rw [callsOf]
          split
          · rw [List.filter_cons_of_neg (by simp), hrest]
          · exact hrest

/-- What a walk over the whole list does. -/
structure Walk (mem : ByteMem) (cpuAlloc : Nat → List Nat) (sel : GrAs → Bool) (s s' : GrContext) :
    Prop where
  asList : s'.asList = s.asList.map (markDumped sel)
  calls : s'.calls = s.calls ++ callsOf mem cpuAlloc sel 0 s.asList
  file : s'.memDumpFile = s.memDumpFile.write
    (Replayer.dump ((callsOf mem cpuAlloc sel 0 s.asList).map DumpCall.record))
  pages : ∀ c ∈ callsOf mem cpuAlloc sel 0 s.asList,
    c.record.pages.length = if c.tas.isValid then c.tas.nents else 0

theorem dumpMc_ok {s s' : GrContext} (hfile : s.memDumpFile.WF)
    (h : dumpMc mem cpuAlloc sel s = .ok s') : Walk mem cpuAlloc sel s s' := by
  unfold dumpMc at h
  cases hloop : dumpMcLoop mem cpuAlloc sel 0 s.asList (s.memDumpFile, s.calls) with
  | error e =>
      rw [hloop] at h
      cases h
  | ok out =>
      obtain ⟨asList, file, calls⟩ := out
      rw [hloop] at h
      obtain rfl := Except.ok.inj h
      obtain ⟨hlist, hcalls, hfile', hpages⟩ := dumpMcLoop_ok hfile hloop
      exact ⟨hlist, hcalls, hfile', hpages⟩

/-! ### The session -/

/-- An entry against the dumps made: none yet, or one, when it was valid already. -/
structure EntryInv (calls : List DumpCall) (i : Nat) (tas : GrAs) : Prop where
  waiting : tas.isDumped = false → calls.filter (fun c => c.index == i) = []
  dumped : tas.isDumped = true → tas.isValid = true ∧ tas.isJob = false ∧
    ∃ c, calls.filter (fun c => c.index == i) = [c] ∧
      c.tas = { tas with nents := c.tas.nents, isDumped := false }

structure SessionInv (old : List UInt8) (s : GrContext) : Prop where
  entries : ∀ (i : Nat) (tas : GrAs), s.asList[i]? = some tas → EntryInv s.calls i tas
  index : ∀ c ∈ s.calls, c.index < s.asList.length
  pages : ∀ c ∈ s.calls, c.record.pages.length = if c.tas.isValid then c.tas.nents else 0
  file : s.memDumpFile = (OutFile.reopen old).write (Replayer.dump (s.calls.map DumpCall.record))

variable {old : List UInt8} {s s' : GrContext}

theorem SessionInv.wf (h : SessionInv old s) : s.memDumpFile.WF := by
  rw [h.file]
  exact OutFile.wf_write (OutFile.wf_reopen old) _

theorem sessionInv_init (old : List UInt8) : SessionInv old (grContextInit old) where
  entries := fun _ _ h => absurd h.symm (Option.some_ne_none _)
  index := fun _ hc => absurd hc List.not_mem_nil
  pages := fun _ hc => absurd hc List.not_mem_nil
  file := (OutFile.write_nil _).symm

theorem SessionInv.add (h : SessionInv old s) (vmStart vmEnd : Nat) (region : VaRegion) :
    SessionInv old (grAsAdd s vmStart vmEnd region) where
  entries := by
    intro i tas hi
    unfold grAsAdd at hi ⊢
    dsimp only at hi ⊢
    by_cases hlt : i < s.asList.length
    · rw [List.getElem?_append_left hlt] at hi
      exact h.entries i tas hi
    · have hlen := (List.getElem?_eq_some_iff.mp hi).1
      rw [List.length_append, List.length_singleton] at hlen
      have heq : i = s.asList.length := by omega
      rw [heq, List.getElem?_concat_length] at hi
      obtain rfl := Option.some.inj hi
      refine ⟨fun _ => ?_, fun hd => absurd hd Bool.false_ne_true⟩
      rw [List.filter_eq_nil_iff]
      intro c hc hci
      have := h.index c hc
      have := of_decide_eq_true hci
      omega
  index := by
    intro c hc
    unfold grAsAdd
    rw [List.length_append]
    exact Nat.lt_of_lt_of_le (h.index c hc) (Nat.le_add_right _ _)
  pages := h.pages
  file := h.file

/-- A fault marks one entry at most. -/
theorem grAsAddValid_getElem {vmStart vmEnd nents : Nat} :
    ∀ {asList : List GrAs} {i : Nat} {tas' : GrAs},
    (grAsAddValid vmStart vmEnd nents asList)[i]? = some tas' → ∃ tas, asList[i]? = some tas ∧
      (tas' = tas ∨ tas' = { tas with isValid := true, nents := nents }) := by
  intro asList
  induction asList with
  | nil => exact fun h => absurd h.symm (Option.some_ne_none _)
  | cons first rest ih =>
      intro i tas' h
      rw [grAsAddValid] at h
      split at h
      · cases i with
        | zero => exact ⟨first, rfl, Or.inr (Option.some.inj h).symm⟩
        | succ i => exact ⟨tas', h, Or.inl rfl⟩
      · cases i with
        | zero => exact ⟨first, rfl, Or.inl (Option.some.inj h).symm⟩
        | succ i => exact ih h

theorem length_grAsAddValid (vmStart vmEnd nents : Nat) (asList : List GrAs) :
    (grAsAddValid vmStart vmEnd nents asList).length = asList.length := by
  induction asList with
  | nil => rfl
  | cons first rest ih =>
      rw [grAsAddValid]
      split
      · rfl
      · rw [List.length_cons, ih, List.length_cons]

theorem SessionInv.fault (h : SessionInv old s) (vmStart vmEnd nents : Nat) :
    SessionInv old { s with asList := grAsAddValid vmStart vmEnd nents s.asList } where
  entries := by
    intro i tas' hi
    obtain ⟨tas, htas, rfl | rfl⟩ := grAsAddValid_getElem hi
    · exact h.entries i _ htas
    · have hentry := h.entries i tas htas
      refine ⟨hentry.waiting, fun hd => ?_⟩
      obtain ⟨hvalid, hjob, c, hc, hctas⟩ := hentry.dumped hd
      refine ⟨rfl, hjob, c, hc, hctas.trans ?_⟩
      rw [← hvalid]
  index := fun c hc => by
    rw [length_grAsAddValid]
    exact h.index c hc
  pages := h.pages
  file := h.file

/-- The selection of a submit, and the two of the end. -/
def submitSel (tas : GrAs) : Bool := !tas.isDumped && tas.isValid && grDumpMcType .allWoComputeJob tas

def jobSel (tas : GrAs) : Bool := !tas.isDumped && tas.isValid && grDumpMcType .computeJob tas

def invalidSel (tas : GrAs) : Bool := !tas.isDumped && !tas.isValid && grDumpMcType .all tas

theorem filter_walk (hwalk : Walk mem cpuAlloc sel s s') {i : Nat} {tas : GrAs}
    (hi : s.asList[i]? = some tas) :
    s'.calls.filter (fun c => c.index == i) = s.calls.filter (fun c => c.index == i) ++
      if sel tas then [⟨i, tas, mem, cpuAlloc⟩] else [] := by
  have hnew := filter_callsOf mem cpuAlloc sel 0 hi
  rw [Nat.zero_add] at hnew
  rw [hwalk.calls, List.filter_append, hnew]

theorem Walk.index (hwalk : Walk mem cpuAlloc sel s s')
    (h : ∀ c ∈ s.calls, c.index < s.asList.length) : ∀ c ∈ s'.calls, c.index < s'.asList.length := by
  intro c hc
  rw [hwalk.asList, List.length_map]
  rw [hwalk.calls] at hc
  rcases List.mem_append.mp hc with hc | hc
  · exact h c hc
  · have := (callsOf_index c hc).2
    omega

theorem Walk.pages' (hwalk : Walk mem cpuAlloc sel s s')
    (h : ∀ c ∈ s.calls, c.record.pages.length = if c.tas.isValid then c.tas.nents else 0) :
    ∀ c ∈ s'.calls, c.record.pages.length = if c.tas.isValid then c.tas.nents else 0 := by
  intro c hc
  rw [hwalk.calls] at hc
  rcases List.mem_append.mp hc with hc | hc
  · exact h c hc
  · exact hwalk.pages c hc

theorem Walk.file' (hwalk : Walk mem cpuAlloc sel s s')
    (h : s.memDumpFile = (OutFile.reopen old).write (Replayer.dump (s.calls.map DumpCall.record))) :
    s'.memDumpFile = (OutFile.reopen old).write (Replayer.dump (s'.calls.map DumpCall.record)) := by
  rw [hwalk.file, h, OutFile.write_write (OutFile.wf_reopen old), hwalk.calls, List.map_append, dump_append]

theorem SessionInv.submit (h : SessionInv old s) (hwalk : Walk mem cpuAlloc submitSel s s') :
    SessionInv old s' where
  entries := by
    intro i tas' hi
    rw [hwalk.asList, List.getElem?_map, Option.map_eq_some_iff] at hi
    obtain ⟨tas, htas, rfl⟩ := hi
    have hentry := h.entries i tas htas
    have hfilter := filter_walk hwalk htas
    unfold markDumped
    by_cases hsel : submitSel tas = true
    · rw [if_pos hsel] at hfilter ⊢
      simp only [submitSel, grDumpMcType, Bool.and_eq_true, Bool.not_eq_true'] at hsel
      obtain ⟨⟨hdumped, hvalid⟩, hjob⟩ := hsel
      rw [hentry.waiting hdumped] at hfilter
      refine ⟨fun hd => absurd hd.symm Bool.false_ne_true, fun _ => ⟨hvalid, hjob, _, hfilter, ?_⟩⟩
      dsimp only
      rw [← hdumped]
    · rw [if_neg hsel] at hfilter ⊢
      rw [List.append_nil] at hfilter
      refine ⟨fun hd => hfilter.trans (hentry.waiting hd), fun hd => ?_⟩
      obtain ⟨hvalid, hjob, c, hc, hctas⟩ := hentry.dumped hd
      exact ⟨hvalid, hjob, c, hfilter.trans hc, hctas⟩
  index := hwalk.index h.index
  pages := hwalk.pages' h.pages
  file := hwalk.file' h.file

/-- **What every event keeps.** -/
theorem SessionInv.step (hs : SessionInv old s) {e : RecorderEvent}
    (hstep : recorderStep s e = some s') : SessionInv old s' := by
  cases e with
  | mmap vmStart vmEnd region =>
      obtain rfl := Option.some.inj hstep
      exact hs.add vmStart vmEnd region
  | fault vmStart vmEnd nents =>
      obtain rfl := Option.some.inj hstep
      exact hs.fault vmStart vmEnd nents
  | submit mem cpuAlloc =>
      cases hdump : grDumpMcValid mem cpuAlloc .allWoComputeJob s with
      | error e =>
          rw [recorderStep, hdump] at hstep
          exact absurd hstep.symm (Option.some_ne_none _)
      | ok s₁ =>
          rw [recorderStep, hdump] at hstep
          obtain rfl := Option.some.inj hstep
          exact hs.submit (dumpMc_ok hs.wf hdump)

theorem Recording.inv (h : Recording old s) : SessionInv old s := by
  refine h.invariant (P := SessionInv old) ?_ fun s e s' hs _ hstep => hs.step hstep
  rintro s rfl
  exact sessionInv_init old

/-! ### The end -/

/-- No entry is left for a walk that will not come: a valid one of another type than job and
binary has been written, and has as many pages as then. -/
def Settled (s : GrContext) : Prop :=
  ∀ (i : Nat) (tas : GrAs), s.asList[i]? = some tas → tas.isValid = true → tas.isJob = false →
    ∃ c ∈ s.calls, c.index = i ∧ c.tas.nents = tas.nents

/-- The two walks of the end. -/
theorem postTerm_walks (hwf : s.memDumpFile.WF) (h : postTerm mem cpuAlloc s = .ok s') :
    ∃ s₁, Walk mem cpuAlloc jobSel s s₁ ∧ Walk mem cpuAlloc invalidSel s₁ s' := by
  unfold postTerm at h
  cases hjob : grDumpMcValid mem cpuAlloc .computeJob s with
  | error e =>
      rw [hjob] at h
      cases h
  | ok s₁ =>
      rw [hjob, Except.ok_bind] at h
      have hwalk := dumpMc_ok hwf hjob
      refine ⟨s₁, hwalk, dumpMc_ok ?_ h⟩
      rw [hwalk.file]
      exact OutFile.wf_write hwf _

/-- What the end makes of the dumps of one entry. -/
theorem filter_postTerm {s₁ : GrContext} (hjob : Walk mem cpuAlloc jobSel s s₁)
    (hinvalid : Walk mem cpuAlloc invalidSel s₁ s') {i : Nat} {tas : GrAs}
    (hi : s.asList[i]? = some tas) :
    s'.calls.filter (fun c => c.index == i) = s.calls.filter (fun c => c.index == i) ++
      if jobSel tas || invalidSel tas then [⟨i, tas, mem, cpuAlloc⟩] else [] := by
  have hi₁ : s₁.asList[i]? = some (markDumped jobSel tas) := by
    rw [hjob.asList, List.getElem?_map, hi]
    rfl
  rw [filter_walk hinvalid hi₁, filter_walk hjob hi, List.append_assoc]
  congr 1
  unfold markDumped
  by_cases hsel : jobSel tas = true
  · simp [hsel, invalidSel]
  · simp [hsel]

/-- **The file holds every entry once** if and only if none was left for a walk that did not
come. -/
theorem complete_iff_settled (h : Recording old s) (hterm : postTerm mem cpuAlloc s = .ok s') :
    Complete old s s' ↔ Settled s := by
  have hinv := h.inv
  obtain ⟨s₁, hjob, hinvalid⟩ := postTerm_walks hinv.wf hterm
  constructor
  · intro hcomplete i tas hi hvalid hother
    obtain ⟨c, hfilter, htas, hnents⟩ := hcomplete.once i tas hi
    rw [filter_postTerm hjob hinvalid hi] at hfilter
    have hnone : (jobSel tas || invalidSel tas) = false := by
      simp [jobSel, invalidSel, grDumpMcType, hvalid, hother]
    rw [hnone, if_neg Bool.false_ne_true, List.append_nil] at hfilter
    have hmem : c ∈ s.calls.filter (fun c => c.index == i) := hfilter ▸ List.mem_singleton_self c
    obtain ⟨hc, hci⟩ := List.mem_filter.mp hmem
    exact ⟨c, hc, of_decide_eq_true hci, hnents hvalid⟩
  · intro hsettled
    refine ⟨hinvalid.file' (hjob.file' hinv.file), hinvalid.pages' (hjob.pages' hinv.pages), ?_⟩
    intro i tas hi
    have hentry := hinv.entries i tas hi
    have hfilter := filter_postTerm hjob hinvalid hi
    cases hdumped : tas.isDumped with
    | true =>
        obtain ⟨hvalid, hother, c, hc, hctas⟩ := hentry.dumped hdumped
        have hnone : (jobSel tas || invalidSel tas) = false := by simp [jobSel, invalidSel, hdumped]
        rw [hnone, if_neg Bool.false_ne_true, List.append_nil, hc] at hfilter
        obtain ⟨c', hc', hci, hnents⟩ := hsettled i tas hi hvalid hother
        have hmem : c' ∈ s.calls.filter (fun c => c.index == i) :=
          List.mem_filter.mpr ⟨hc', decide_eq_true hci⟩
        rw [hc] at hmem
        obtain rfl := List.mem_singleton.mp hmem
        exact ⟨c', hfilter, hctas, fun _ => hnents⟩
    | false =>
        rw [hentry.waiting hdumped, List.nil_append] at hfilter
        by_cases hsel : (jobSel tas || invalidSel tas) = true
        · rw [if_pos hsel] at hfilter
          refine ⟨_, hfilter, ?_, fun _ => rfl⟩
          dsimp only
          rw [← hdumped]
        · -- valid, and of a type that the end does not take
          simp only [jobSel, invalidSel, grDumpMcType, hdumped, Bool.not_false, Bool.true_and,
            Bool.and_true, Bool.or_eq_true, Bool.and_eq_true, Bool.not_eq_true', not_or, not_and,
            Bool.not_eq_false, Bool.not_eq_true] at hsel
          obtain ⟨c, hc, hci, -⟩ := hsettled i tas hi hsel.2 (hsel.1 hsel.2)
          have hmem : c ∈ s.calls.filter (fun c => c.index == i) :=
            List.mem_filter.mpr ⟨hc, decide_eq_true hci⟩
          rw [hentry.waiting hdumped] at hmem
          exact absurd hmem List.not_mem_nil

end GpuReplay
