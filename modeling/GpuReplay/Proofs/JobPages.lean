/-
Which pages are taken for pages of jobs.

The recorder decides when a region is mapped, by how many were mapped before it.  The replayer
decides by the place of the region's record in the dump, and the dump is not in that order: what
the submits write comes first, then the valid regions of jobs and binaries, then the invalid
ones.  The two agree on a region where its place and its type do.
-/
import GpuReplay.Proofs.MemCheck
import GpuReplay.Proofs.Recorder
import GpuReplay.Proofs.UsedAtom

namespace GpuReplay

open Stdio Driver Replayer

/-! ### The place of a record -/

/-- How many records the session writes. -/
def recordCount (s : GrContext) : Nat :=
  s.calls.length + s.asList.countP jobSel + s.asList.countP invalidSel

/-- How many records come before that of entry `j`, if it has one: those before it among the
dumps of the submits, where it is one of them; all of these and the valid jobs and binaries mapped
before it, where it is a valid one itself; all of these and the untouched entries mapped before
it, where it is untouched. -/
def recordsBefore (s : GrContext) (j : Nat) (tas : GrAs) : Option Nat :=
  if tas.isDumped then s.calls.findIdx? fun c => c.index == j
  else if jobSel tas then some (s.calls.length + (s.asList.take j).countP jobSel)
  else if invalidSel tas then
    some (s.calls.length + s.asList.countP jobSel + (s.asList.take j).countP invalidSel)
  else none

section Walks

variable {mem : ByteMem} {cpuAlloc : Nat → List Nat} {sel : GrAs → Bool}

theorem length_callsOf :
    ∀ {asList : List GrAs} {i : Nat},
      (callsOf mem cpuAlloc sel i asList).length = asList.countP sel := by
  intro asList
  induction asList with
  | nil => exact fun {_} => rfl
  | cons tas rest ih =>
      intro i
      rw [callsOf, List.countP_cons]
      by_cases hsel : sel tas = true
      · rw [if_pos hsel, if_pos hsel, List.length_cons, ih]
      · rw [if_neg hsel, if_neg hsel, ih, Nat.add_zero]

/-- The dump of a selected entry comes after those of the selected entries before it. -/
theorem callsOf_getElem :
    ∀ {asList : List GrAs} {i j : Nat} {tas : GrAs}, asList[j]? = some tas → sel tas = true →
      (callsOf mem cpuAlloc sel i asList)[(asList.take j).countP sel]? =
        some ⟨i + j, tas, mem, cpuAlloc⟩ := by
  intro asList
  induction asList with
  | nil => exact fun hj => absurd hj.symm (Option.some_ne_none _)
  | cons first rest ih =>
      intro i j tas hj hsel
      cases j with
      | zero =>
          obtain rfl := Option.some.inj hj
          rw [callsOf, if_pos hsel]
          rfl
      | succ j =>
          have hrest := @ih (i + 1) j tas hj hsel
          rw [Nat.add_assoc, Nat.add_comm 1 j] at hrest
          rw [callsOf, List.take_succ_cons, List.countP_cons]
          by_cases hfirst : sel first = true
          · rw [if_pos hfirst, if_pos hfirst, List.getElem?_cons_succ]
            exact hrest
          · rw [if_neg hfirst, if_neg hfirst]
            exact hrest

/-- An index that is dumped once has one place. -/
theorem index_unique {α : Type} {p : α → Bool} {l : List α} {c : α} (hone : l.filter p = [c]) :
    ∀ {k k' : Nat} {a b : α}, l[k]? = some a → l[k']? = some b → p a = true → p b = true →
      k = k' := by
  have hcount : l.countP p = 1 := by
    rw [List.countP_eq_length_filter, hone]
    rfl
  have hbefore : ∀ {k k' : Nat} {a b : α}, l[k]? = some a → l[k']? = some b → p a = true →
      p b = true → ¬k < k' := by
    intro k k' a b hk hk' ha hb hlt
    obtain ⟨hk₁, rfl⟩ := List.getElem?_eq_some_iff.mp hk
    obtain ⟨hk₂, rfl⟩ := List.getElem?_eq_some_iff.mp hk'
    have hfirst : 0 < (l.take (k + 1)).countP p := by
      refine List.countP_pos_iff.mpr ⟨l[k], ?_, ha⟩
      rw [List.mem_take_iff_getElem]
      exact ⟨k, by omega, rfl⟩
    have hsecond : 0 < (l.drop (k + 1)).countP p := by
      refine List.countP_pos_iff.mpr ⟨l[k'], ?_, hb⟩
      rw [List.mem_drop_iff_getElem]
      exact ⟨k' - (k + 1), by omega, by congr 1; omega⟩
    have hsum : l.countP p = (l.take (k + 1)).countP p + (l.drop (k + 1)).countP p := by
      rw [← List.countP_append, List.take_append_drop]
    omega
  intro k k' a b hk hk' ha hb
  have h₁ := hbefore hk hk' ha hb
  have h₂ := hbefore hk' hk hb ha
  omega

/-- The marks of the first walk of the end do not concern the second. -/
theorem countP_markDumped (asList : List GrAs) :
    (asList.map (markDumped jobSel)).countP invalidSel = asList.countP invalidSel := by
  rw [List.countP_map]
  refine congrArg (fun p => asList.countP p) (funext fun tas => ?_)
  rw [Function.comp_apply, markDumped]
  by_cases hsel : jobSel tas = true
  · rw [if_pos hsel]
    simp only [jobSel, Bool.and_eq_true, Bool.not_eq_true'] at hsel
    simp [invalidSel, hsel.1.2]
  · rw [if_neg hsel]

end Walks

section Session

variable {s s' : GrContext} {mem : ByteMem} {cpuAlloc : Nat → List Nat} {j : Nat} {tas : GrAs}

/-- The dumps of the whole session. -/
theorem calls_postTerm {s₁ : GrContext} (hjob : Walk mem cpuAlloc jobSel s s₁)
    (hinvalid : Walk mem cpuAlloc invalidSel s₁ s') :
    s'.calls = s.calls ++ (callsOf mem cpuAlloc jobSel 0 s.asList ++
      callsOf mem cpuAlloc invalidSel 0 s₁.asList) := by
  rw [hinvalid.calls, hjob.calls, List.append_assoc]

theorem length_calls (h : Recording [] s) (hterm : postTerm mem cpuAlloc s = .ok s') :
    s'.calls.length = recordCount s := by
  obtain ⟨s₁, hjob, hinvalid⟩ := postTerm_walks h.inv.wf hterm
  rw [calls_postTerm hjob hinvalid, List.length_append, List.length_append, length_callsOf,
    length_callsOf, hjob.asList, countP_markDumped, recordCount, Nat.add_assoc]

/-- What the file holds. -/
theorem bytes_postTerm (h : Recording [] s) (hterm : postTerm mem cpuAlloc s = .ok s') :
    s'.memDumpFile.bytes = Replayer.dump (s'.calls.map DumpCall.record) := by
  have hinv := h.inv
  obtain ⟨s₁, hjob, hinvalid⟩ := postTerm_walks hinv.wf hterm
  rw [hinvalid.file' (hjob.file' hinv.file), OutFile.write, OutFile.reopen, Bytes.splice]
  simp

/-- The place that `recordsBefore` names has the record. -/
theorem calls_of_recordsBefore (h : Recording [] s) (hterm : postTerm mem cpuAlloc s = .ok s')
    (hj : s.asList[j]? = some tas) {n : Nat} (hn : recordsBefore s j tas = some n) :
    ∃ c, s'.calls[n]? = some c ∧ c.index = j := by
  obtain ⟨s₁, hjob, hinvalid⟩ := postTerm_walks h.inv.wf hterm
  have hcalls := calls_postTerm hjob hinvalid
  have hj₁ : s₁.asList[j]? = some (markDumped jobSel tas) := by
    rw [hjob.asList, List.getElem?_map, hj]
    rfl
  unfold recordsBefore at hn
  split at hn
  · obtain ⟨hlt, hindex, -⟩ := List.findIdx?_eq_some_iff_getElem.mp hn
    refine ⟨s.calls[n], ?_, of_decide_eq_true hindex⟩
    rw [hcalls, List.getElem?_append_left hlt, List.getElem?_eq_getElem hlt]
  · split at hn
    next hsel =>
      obtain rfl := Option.some.inj hn
      have hget := @callsOf_getElem mem cpuAlloc jobSel s.asList 0 j tas hj hsel
      refine ⟨⟨0 + j, tas, mem, cpuAlloc⟩, ?_, Nat.zero_add j⟩
      rw [hcalls, List.getElem?_append_right (Nat.le_add_right _ _), Nat.add_sub_cancel_left,
        List.getElem?_append_left (List.getElem?_eq_some_iff.mp hget).1]
      exact hget
    next hnot =>
      split at hn
      next hsel =>
        obtain rfl := Option.some.inj hn
        have hmark : markDumped jobSel tas = tas := if_neg hnot
        rw [hmark] at hj₁
        have hget := @callsOf_getElem mem cpuAlloc invalidSel s₁.asList 0 j tas hj₁ hsel
        rw [hjob.asList, ← List.map_take, countP_markDumped, ← hjob.asList] at hget
        refine ⟨⟨0 + j, tas, mem, cpuAlloc⟩, ?_, Nat.zero_add j⟩
        rw [hcalls, List.getElem?_append_right (by omega), Nat.add_assoc,
          Nat.add_sub_cancel_left, List.getElem?_append_right (by rw [length_callsOf]; omega),
          length_callsOf, Nat.add_sub_cancel_left]
        exact hget
      next => exact absurd hn.symm (Option.some_ne_none _)

/-- An entry with a record has one record, and `recordsBefore` names a place for it. -/
theorem recordsBefore_of_mem (h : Recording [] s) (hterm : postTerm mem cpuAlloc s = .ok s')
    (hj : s.asList[j]? = some tas) {c : DumpCall}
    (hmem : c ∈ s'.calls.filter fun c => c.index == j) :
    (∃ d, s'.calls.filter (fun c => c.index == j) = [d]) ∧
      ∃ n, recordsBefore s j tas = some n := by
  obtain ⟨s₁, hjob, hinvalid⟩ := postTerm_walks h.inv.wf hterm
  have hentry := h.inv.entries j tas hj
  have hfilter := filter_postTerm hjob hinvalid hj
  cases hdumped : tas.isDumped with
  | true =>
      obtain ⟨-, -, d, hd, -⟩ := hentry.dumped hdumped
      have hnone : (jobSel tas || invalidSel tas) = false := by
        simp [jobSel, invalidSel, hdumped]
      rw [hnone, if_neg Bool.false_ne_true, List.append_nil, hd] at hfilter
      refine ⟨⟨d, hfilter⟩, ?_⟩
      have hin : d ∈ s.calls.filter (fun c => c.index == j) := hd ▸ List.mem_singleton_self d
      obtain ⟨hin, hindex⟩ := List.mem_filter.mp hin
      unfold recordsBefore
      rw [if_pos hdumped]
      cases hfind : s.calls.findIdx? fun c => c.index == j with
      | some n => exact ⟨n, rfl⟩
      | none =>
          have hnot := List.findIdx?_eq_none_iff.mp hfind d hin
          exact absurd (hindex.symm.trans hnot) (fun heq => Bool.noConfusion heq)
  | false =>
      rw [hentry.waiting hdumped, List.nil_append] at hfilter
      unfold recordsBefore
      rw [if_neg (by rw [hdumped]; exact Bool.false_ne_true)]
      by_cases hsel : jobSel tas = true
      · rw [hsel, Bool.true_or, if_pos rfl] at hfilter
        rw [if_pos hsel]
        exact ⟨⟨_, hfilter⟩, _, rfl⟩
      · rw [Bool.eq_false_iff.mpr hsel, Bool.false_or] at hfilter
        rw [if_neg hsel]
        by_cases hsel' : invalidSel tas = true
        · rw [if_pos hsel'] at hfilter ⊢
          exact ⟨⟨_, hfilter⟩, _, rfl⟩
        · rw [if_neg hsel'] at hfilter
          rw [hfilter] at hmem
          exact absurd hmem List.not_mem_nil

/-- **Where the record of an entry is.** -/
theorem calls_getElem_iff (h : Recording [] s) (hterm : postTerm mem cpuAlloc s = .ok s')
    (hj : s.asList[j]? = some tas) {k : Nat} :
    (∃ c, s'.calls[k]? = some c ∧ c.index = j) ↔ recordsBefore s j tas = some k := by
  constructor
  · rintro ⟨c, hc, hindex⟩
    have hmem : c ∈ s'.calls.filter (fun c => c.index == j) :=
      List.mem_filter.mpr ⟨List.mem_of_getElem? hc, decide_eq_true hindex⟩
    obtain ⟨⟨d, hd⟩, n, hn⟩ := recordsBefore_of_mem h hterm hj hmem
    obtain ⟨c', hc', hindex'⟩ := calls_of_recordsBefore h hterm hj hn
    have hsame := index_unique hd hc hc' (decide_eq_true hindex) (decide_eq_true hindex')
    rw [hn, hsame]
  · exact calls_of_recordsBefore h hterm hj

/-- A record has the flags of its entry. -/
theorem flags_of_index (h : Recording [] s) (hterm : postTerm mem cpuAlloc s = .ok s')
    (hj : s.asList[j]? = some tas) {c : DumpCall} (hc : c ∈ s'.calls) (hindex : c.index = j) :
    c.tas.flags = tas.flags := by
  have hinv := h.inv
  obtain ⟨s₁, hjob, hinvalid⟩ := postTerm_walks hinv.wf hterm
  have hentry := hinv.entries j tas hj
  have hfilter := filter_postTerm hjob hinvalid hj
  have hmem : c ∈ s'.calls.filter (fun c => c.index == j) :=
    List.mem_filter.mpr ⟨hc, decide_eq_true hindex⟩
  rw [hfilter] at hmem
  rcases List.mem_append.mp hmem with hmem | hmem
  · cases hdumped : tas.isDumped with
    | true =>
        obtain ⟨-, -, d, hd, htas⟩ := hentry.dumped hdumped
        rw [hd] at hmem
        rw [List.mem_singleton.mp hmem, htas]
    | false =>
        rw [hentry.waiting hdumped] at hmem
        exact absurd hmem List.not_mem_nil
  · split at hmem
    · rw [List.mem_singleton.mp hmem]
    · exact absurd hmem List.not_mem_nil

end Session

/-! ### `gr_clean_used_atom` -/

/-- **The regions it checks**, when it returns. -/
theorem cleanUsedAtoms_checked :
    ∀ {regions : List Region} {i : Nat} {mem mem' : ByteMem} {checked : List Nat},
      cleanUsedAtoms i regions mem = .ok (checked, mem') →
      ∀ n, n ∈ checked ↔ ∃ k r, n = i + k ∧ regions[k]? = some r ∧ isJobPage n r = true := by
  intro regions
  induction regions with
  | nil =>
      intro i mem mem' checked hrun n
      obtain ⟨rfl, -⟩ := Prod.mk.inj (Except.ok.inj hrun)
      constructor
      · exact fun hn => absurd hn List.not_mem_nil
      · intro hn
        obtain ⟨k, r, -, hr, -⟩ := hn
        exact absurd hr.symm (Option.some_ne_none _)
  | cons region regions ih =>
      intro i mem mem' checked hrun n
      -- the later regions are numbered from `i + 1` on
      have hlater : (∃ k r, n = i + 1 + k ∧ regions[k]? = some r ∧ isJobPage n r = true) ↔
          ∃ k r, n = i + (k + 1) ∧ (region :: regions)[k + 1]? = some r ∧ isJobPage n r = true := by
        simp only [List.getElem?_cons_succ, Nat.add_assoc, Nat.add_comm 1]
      have hsplit : (∃ k r, n = i + k ∧ (region :: regions)[k]? = some r ∧ isJobPage n r = true) ↔
          (n = i ∧ isJobPage n region = true) ∨
            ∃ k r, n = i + (k + 1) ∧ (region :: regions)[k + 1]? = some r ∧
              isJobPage n r = true := by
        constructor
        · rintro ⟨k, r, hn, hr, hjob⟩
          cases k with
          | zero =>
              obtain rfl := Option.some.inj hr
              exact Or.inl ⟨hn, hjob⟩
          | succ k => exact Or.inr ⟨k, r, hn, hr, hjob⟩
        · rintro (⟨hn, hjob⟩ | ⟨k, r, hn, hr, hjob⟩)
          · exact ⟨0, region, hn, rfl, hjob⟩
          · exact ⟨k + 1, r, hn, hr, hjob⟩
      rw [hsplit, ← hlater]
      rw [cleanUsedAtoms] at hrun
      by_cases hpage : isJobPage i region = true
      · rw [if_pos hpage] at hrun
        obtain ⟨page, -, hrun⟩ := Except.bind_eq_ok.mp hrun
        obtain ⟨buf, -, hrun⟩ := Except.bind_eq_ok.mp hrun
        obtain ⟨⟨words, isUsed⟩, -, hrun⟩ := Except.bind_eq_ok.mp hrun
        dsimp only at hrun
        obtain ⟨mem₁, rest, mem₂, hrest, rfl⟩ : ∃ mem₁ rest mem₂,
            cleanUsedAtoms (i + 1) regions mem₁ = .ok (rest, mem₂) ∧ checked = i :: rest := by
          split at hrun
          · obtain ⟨mem₁, -, hrun⟩ := Except.bind_eq_ok.mp hrun
            obtain ⟨⟨rest, mem₂⟩, hrest, hdone⟩ := Except.bind_eq_ok.mp hrun
            obtain ⟨rfl, -⟩ := Prod.mk.inj (Except.ok.inj hdone)
            exact ⟨mem₁, rest, _, hrest, rfl⟩
          · obtain ⟨mem₁, -, hrun⟩ := Except.bind_eq_ok.mp hrun
            obtain ⟨⟨rest, mem₂⟩, hrest, hdone⟩ := Except.bind_eq_ok.mp hrun
            obtain ⟨rfl, -⟩ := Prod.mk.inj (Except.ok.inj hdone)
            exact ⟨mem₁, rest, _, hrest, rfl⟩
        rw [List.mem_cons, ih hrest n]
        constructor
        · rintro (rfl | hn)
          · exact Or.inl ⟨rfl, hpage⟩
          · exact Or.inr hn
        · rintro (⟨hn, -⟩ | hn)
          · exact Or.inl hn
          · exact Or.inr hn
      · rw [if_neg hpage] at hrun
        rw [ih hrun n]
        constructor
        · exact Or.inr
        · rintro (⟨rfl, hjob⟩ | hn)
          · exact absurd hjob hpage
          · exact hn

theorem regionsOf_getElem :
    ∀ {recs : List McRecord} {pool : List Nat} {k : Nat} {rec : McRecord}, recs[k]? = some rec →
      ∃ frames, (regionsOf recs pool)[k]? = some (rec.region frames) := by
  intro recs
  induction recs with
  | nil => exact fun hk => absurd hk.symm (Option.some_ne_none _)
  | cons first recs ih =>
      intro pool k rec hk
      cases k with
      | zero =>
          obtain rfl := Option.some.inj hk
          exact ⟨_, rfl⟩
      | succ k => exact ih hk

/-! ### The two decisions -/

/-- A session whose memory dump is loaded and searched for jobs that have run: `st` is the
context, and `checked` are the regions of it that are searched.  Entry `j` has the flags and the
one page of a region of jobs. -/
structure JobPageInput (s s' : GrContext) (j : Nat) (tas : GrAs) (m : Machine) (locals : Locals)
    (st : McState) (checked : List Nat) : Prop where
  recording : Recording [] s
  ended : ∃ mem cpuAlloc, postTerm mem cpuAlloc s = .ok s'
  entry : s.asList[j]? = some tas
  flags : tas.flags = 0x606e ∨ tas.flags = 0x604e
  onePage : ∀ c ∈ s'.calls, c.index = j → c.tas.nents = 1
  /-- The pages of every record lie in its range. -/
  wf : ∀ c ∈ s'.calls, c.record.WF
  frames : ∀ frame ∈ m.pool, frame % 4096 = 0
  fits : locals.paddr < 2 ^ 64 ∧ locals.buf.length = 4096
  loaded : ∃ userPgt, grMemContentsInit m userPgt locals s'.memDumpFile.bytes = .ok st
  cleaned : ∃ mem, grCleanUsedAtom st.regions st.mem = .ok (checked, mem)

/-- Region number `n` of the context was made from the record of entry `j`: the turn with that
number has read it, or is the one after the last record, which repeats it. -/
def MadeFrom (calls : List DumpCall) (j n : Nat) : Prop :=
  (∃ c, calls[n]? = some c ∧ c.index = j) ∨
    (n = calls.length ∧ ∃ c, calls.getLast? = some c ∧ c.index = j)

/-- The page of entry `j` is searched. -/
def Scanned (calls : List DumpCall) (checked : List Nat) (j : Nat) : Prop :=
  ∃ n ∈ checked, MadeFrom calls j n

/-- Enough records come before that of the entry: seven, or six if it is the last. -/
def LateInFile (s : GrContext) (j : Nat) (tas : GrAs) : Prop :=
  ∃ k, recordsBefore s j tas = some k ∧ (6 < k ∨ (k = 6 ∧ recordCount s = 7))

section Input

variable {s s' : GrContext} {j : Nat} {tas : GrAs} {m : Machine} {locals : Locals} {st : McState}
  {checked : List Nat} (h : JobPageInput s s' j tas m locals st checked)

include h

/-- The regions of the context that are made from the record of the entry look like a page of
jobs. -/
theorem JobPageInput.region {n : Nat} (hn : MadeFrom s'.calls j n) :
    ∃ r, st.regions[n]? = some r ∧ r.nrPages = 1 ∧ (r.flags = 0x606e ∨ r.flags = 0x604e) := by
  obtain ⟨mem, cpuAlloc, hterm⟩ := h.ended
  obtain ⟨userPgt, hrun⟩ := h.loaded
  rw [bytes_postTerm h.recording hterm] at hrun
  have hwf : ∀ rec ∈ s'.calls.map DumpCall.record, rec.WF := by
    intro rec hrec
    obtain ⟨c, hc, rfl⟩ := List.mem_map.mp hrec
    exact h.wf c hc
  have hne : s'.calls ≠ [] := by
    rintro hnil
    rcases hn with ⟨c, hc, -⟩ | ⟨-, c, hc, -⟩
    · rw [hnil] at hc
      exact absurd hc.symm (Option.some_ne_none _)
    · rw [hnil] at hc
      exact absurd hc.symm (Option.some_ne_none _)
  have hlast : (s'.calls.map DumpCall.record).getLast? =
      some (s'.calls.getLast hne).record := by
    rw [List.getLast?_map, List.getLast?_eq_some_getLast hne]
    rfl
  obtain ⟨frames, hregions⟩ : ∃ frames,
      st.regions = regionsOf (s'.calls.map DumpCall.record) m.pool
        ++ [(s'.calls.getLast hne).record.region frames] :=
    ⟨_, (grMemContentsInit_again hwf h.frames h.fits.1 h.fits.2 hlast hrun).2.2.1⟩
  have hjobPage : ∀ c ∈ s'.calls, c.index = j → ∀ frames,
      (c.record.region frames).nrPages = 1 ∧
        ((c.record.region frames).flags = 0x606e ∨ (c.record.region frames).flags = 0x604e) := by
    intro c hc hindex frames
    refine ⟨h.onePage c hc hindex, ?_⟩
    have hflags := flags_of_index h.recording hterm h.entry hc hindex
    show c.tas.flags = 0x606e ∨ c.tas.flags = 0x604e
    rw [hflags]
    exact h.flags
  rcases hn with ⟨c, hc, hindex⟩ | ⟨rfl, c, hc, hindex⟩
  · have hrec : (s'.calls.map DumpCall.record)[n]? = some c.record := by
      rw [List.getElem?_map, hc]
      rfl
    obtain ⟨fs, hget⟩ := @regionsOf_getElem _ m.pool _ _ hrec
    refine ⟨c.record.region fs, ?_, hjobPage c (List.mem_of_getElem? hc) hindex fs⟩
    rw [hregions, List.getElem?_append_left (List.getElem?_eq_some_iff.mp hget).1]
    exact hget
  · rw [List.getLast?_eq_some_getLast hne] at hc
    obtain rfl := Option.some.inj hc
    refine ⟨(s'.calls.getLast hne).record.region frames, ?_,
      hjobPage _ (List.getLast_mem hne) hindex frames⟩
    rw [hregions, List.getElem?_append_right (by rw [length_regionsOf, List.length_map]),
      length_regionsOf, List.length_map, Nat.sub_self]
    rfl

/-- **The page of an entry is searched** if and only if its record is late in the file. -/
theorem JobPageInput.scanned_iff : Scanned s'.calls checked j ↔ LateInFile s j tas := by
  obtain ⟨mem, cpuAlloc, hterm⟩ := h.ended
  obtain ⟨mem', hclean⟩ := h.cleaned
  have hchecked : ∀ n, MadeFrom s'.calls j n → (n ∈ checked ↔ 6 < n) := by
    intro n hn
    obtain ⟨r, hr, hpages, hflags⟩ := h.region hn
    rw [cleanUsedAtoms_checked hclean n]
    constructor
    · rintro ⟨k, r', -, -, hjob⟩
      simp only [isJobPage, Bool.and_eq_true, decide_eq_true_eq] at hjob
      exact hjob.1.1
    · intro hlate
      refine ⟨n, r, (Nat.zero_add n).symm, hr, ?_⟩
      simp only [isJobPage, Bool.and_eq_true, Bool.or_eq_true, decide_eq_true_eq]
      exact ⟨⟨hlate, hpages⟩, hflags⟩
  have hplace := @calls_getElem_iff s s' mem cpuAlloc j tas h.recording hterm h.entry
  have hcount := length_calls h.recording hterm
  have hlast : ∀ c, s'.calls.getLast? = some c ↔ s'.calls[s'.calls.length - 1]? = some c := by
    intro c
    rw [List.getLast?_eq_getElem?]
  unfold Scanned LateInFile
  constructor
  · intro hscanned
    obtain ⟨n, hin, hmade⟩ := hscanned
    have hlate := (hchecked n hmade).mp hin
    rcases hmade with hcall | ⟨rfl, c, hc, hindex⟩
    · exact ⟨n, hplace.mp hcall, Or.inl hlate⟩
    · refine ⟨s'.calls.length - 1, hplace.mp ⟨c, (hlast c).mp hc, hindex⟩, ?_⟩
      omega
  · intro hlate
    obtain ⟨k, hk, hlate⟩ := hlate
    obtain ⟨c, hc, hindex⟩ := hplace.mpr hk
    rcases hlate with hlate | ⟨rfl, hseven⟩
    · have hmade : MadeFrom s'.calls j k := Or.inl ⟨c, hc, hindex⟩
      exact ⟨k, (hchecked k hmade).mpr hlate, hmade⟩
    · have hmade : MadeFrom s'.calls j s'.calls.length := by
        refine Or.inr ⟨rfl, c, (hlast c).mpr ?_, hindex⟩
        rw [hcount, hseven]
        exact hc
      refine ⟨s'.calls.length, (hchecked _ hmade).mpr ?_, hmade⟩
      omega

end Input

/-! ### The type of an entry -/

/-- The entry has the type `gr_as_add` gave it. -/
def Typed (tas : GrAs) : Prop :=
  tas.asType = grAsType tas.asNum ⟨tas.reg, tas.nrPages, tas.flags, tas.nents⟩

theorem typed_step {s s' : GrContext} {e : RecorderEvent} (hs : ∀ tas ∈ s.asList, Typed tas)
    (hwf : s.memDumpFile.WF) (hstep : recorderStep s e = some s') :
    ∀ tas ∈ s'.asList, Typed tas := by
  cases e with
  | mmap vmStart vmEnd region =>
      obtain rfl := Option.some.inj hstep
      intro tas htas
      rcases List.mem_append.mp htas with htas | htas
      · exact hs tas htas
      · rw [List.mem_singleton.mp htas]
        rfl
  | fault vmStart vmEnd nents =>
      obtain rfl := Option.some.inj hstep
      intro tas htas
      obtain ⟨i, hi⟩ := List.mem_iff_getElem?.mp htas
      obtain ⟨old, hold, rfl | rfl⟩ := grAsAddValid_getElem hi
      · exact hs _ (List.mem_of_getElem? hold)
      · exact hs old (List.mem_of_getElem? hold)
  | submit mem cpuAlloc =>
      cases hdump : grDumpMcValid mem cpuAlloc .allWoComputeJob s with
      | error e =>
          rw [recorderStep, hdump] at hstep
          exact absurd hstep.symm (Option.some_ne_none _)
      | ok s₁ =>
          rw [recorderStep, hdump] at hstep
          obtain rfl := Option.some.inj hstep
          intro tas htas
          rw [(dumpMc_ok hwf hdump).asList] at htas
          obtain ⟨old, hold, rfl⟩ := List.mem_map.mp htas
          unfold markDumped
          split
          · exact hs old hold
          · exact hs old hold

theorem Recording.typed {s : GrContext} (h : Recording [] s) : ∀ tas ∈ s.asList, Typed tas := by
  have hboth : SessionInv [] s ∧ ∀ tas ∈ s.asList, Typed tas := by
    refine h.invariant (P := fun s => SessionInv [] s ∧ ∀ tas ∈ s.asList, Typed tas) ?_ ?_
    · rintro s rfl
      exact ⟨sessionInv_init [], fun tas htas => absurd htas List.not_mem_nil⟩
    · intro s e s' hs _ hstep
      exact ⟨hs.1.step hstep, typed_step hs.2 hs.1.wf hstep⟩
  exact hboth.2

/-- With those flags, a region is taken for one of jobs by the number of regions mapped before it
and the pages reserved for it. -/
theorem computeJob_iff {s : GrContext} (h : Recording [] s) {j : Nat} {tas : GrAs}
    (hj : s.asList[j]? = some tas) (hflags : tas.flags = 0x606e ∨ tas.flags = 0x604e) :
    tas.asType = .computeJob ↔ 5 < tas.asNum ∧ tas.nrPages = 1 := by
  have htyped := h.typed tas (List.mem_of_getElem? hj)
  have hnx : ¬tas.flags &&& Driver.kbaseRegGpuNx = 0 := by
    rcases hflags with hf | hf
    · rw [hf]
      decide
    · rw [hf]
      decide
  have hcached : tas.flags &&& kbaseRegCpuCached = 0 := by
    rcases hflags with hf | hf
    · rw [hf]
      rfl
    · rw [hf]
      rfl
  unfold Typed grAsType at htyped
  dsimp only at htyped
  rw [if_neg hnx] at htyped
  rw [htyped]
  by_cases hjob : 5 < tas.asNum ∧ tas.nrPages = 1
  · rw [if_pos ⟨hjob.1, hjob.2, hcached⟩]
    exact ⟨fun _ => hjob, fun _ => rfl⟩
  · rw [if_neg fun hall => hjob ⟨hall.1, hall.2.1⟩, if_neg fun hall => hall.1 hcached]
    exact ⟨fun heq => GrAsType.noConfusion heq, fun hall => absurd hall hjob⟩

/-- Region number `i` of a session, of one page; number `job` has the flags of a region of
jobs. -/
def pageRegion (job i : Nat) : VaRegion := ⟨i, 1, if i = job then 0x606e else 0x200e, 1⟩

/-- Mapping the first `n` of them, one after the other. -/
def mapPages (job n : Nat) : List RecorderEvent :=
  (List.range n).map fun i => .mmap (4096 * (i + 1)) (4096 * (i + 2)) (pageRegion job i)

/-- The dump of such a region, which was never touched. -/
def Untouched (c : DumpCall) : Prop :=
  c.tas.isValid = false ∧ c.tas.vmStart % 4096 = 0 ∧ c.tas.vmEnd = c.tas.vmStart + 4096 ∧
    c.tas.vmEnd < 2 ^ 64 ∧ c.tas.nents = 1 ∧ c.tas.flags < 2 ^ 32

instance (c : DumpCall) : Decidable (Untouched c) := inferInstanceAs (Decidable (_ ∧ _))

theorem Untouched.wf {c : DumpCall} (h : Untouched c) : c.record.WF := by
  obtain ⟨hvalid, hstart, hend, hbounded, hnents, hflags⟩ := h
  have hpages : c.record.pages = [] := by
    show (if c.tas.isValid then _ else []) = []
    rw [hvalid]
    rfl
  exact {
    start_aligned := hstart
    end_aligned := by
      show c.tas.vmEnd % 4096 = 0
      omega
    le := by
      show c.tas.vmStart ≤ c.tas.vmEnd
      omega
    bounded := hbounded
    nents_le := by
      show c.tas.nents ≤ (c.tas.vmEnd - c.tas.vmStart) / 4096
      omega
    flags_lt := hflags
    length_pages := by
      show c.record.pages.length = if c.tas.isValid then _ else 0
      rw [hpages, hvalid]
      rfl
    page := fun q hq => by
      rw [hpages] at hq
      exact absurd hq List.not_mem_nil }

/-- Four tables that every address leads through, and nine frames. -/
def pageMachine : Machine := { onePageMachine with pool := frames 5 9 }

theorem dumpInput_untouched {calls : List DumpCall}
    (hcount : 1 ≤ calls.length ∧ calls.length < 128) (hcalls : ∀ c ∈ calls, Untouched c)
    (hdisjoint : calls.Pairwise fun c d =>
      c.tas.vmEnd ≤ d.tas.vmStart ∨ d.tas.vmEnd ≤ c.tas.vmStart) :
    DumpInput pageMachine (.node 0) zeroLocals (calls.map DumpCall.record) where
  count := by rwa [List.length_map]
  wf := by
    intro rec hrec
    obtain ⟨c, hc, rfl⟩ := List.mem_map.mp hrec
    exact (hcalls c hc).wf
  disjoint := List.pairwise_map.mpr hdisjoint
  leaves := fun rec _ k _ => ⟨0x4000 + 8 * ((rec.gmStart + 4096 * k) / 4096 % 512), rfl⟩
  frames := (poolOk_frames (by decide)).aligned
  distinct := nodup_frames 5 9
  locals := ⟨by decide, List.length_replicate⟩

theorem mapPages_recording {job n : Nat} {s : GrContext}
    (h : (mapPages job n).foldlM recorderStep (grContextInit []) = some s) : Recording [] s :=
  Reached.foldlM (.start rfl) h fun _ _ _ => trivial

theorem totalNents_untouched :
    ∀ {calls : List DumpCall}, (∀ c ∈ calls, Untouched c) →
      totalNents (calls.map DumpCall.record) = calls.length := by
  intro calls
  induction calls with
  | nil => exact fun _ => rfl
  | cons c cs ih =>
      intro hcalls
      have hone : c.record.nents = 1 := (hcalls c List.mem_cons_self).2.2.2.2.1
      have hsum : totalNents ((c :: cs).map DumpCall.record) =
          c.record.nents + totalNents (cs.map DumpCall.record) := rfl
      rw [hsum, hone, ih fun d hd => hcalls d (List.mem_cons_of_mem _ hd), List.length_cons,
        Nat.add_comm]

/-- Such a session, with its dump loaded. -/
theorem mapPages_loaded {job n : Nat} {s s' : GrContext} {last : DumpCall}
    (hs : (mapPages job n).foldlM recorderStep (grContextInit []) = some s)
    (hterm : postTerm (fun _ => 0) (fun _ => []) s = .ok s')
    (hlast : s'.calls.getLast? = some last) (hcalls : ∀ c ∈ s'.calls, Untouched c)
    (hdisjoint : s'.calls.Pairwise fun c d =>
      c.tas.vmEnd ≤ d.tas.vmStart ∨ d.tas.vmEnd ≤ c.tas.vmStart)
    (henough : totalNents (s'.calls.map DumpCall.record) + last.tas.nents ≤ 9) :
    ∃ st, grMemContentsInit pageMachine (.node 0) zeroLocals s'.memDumpFile.bytes = .ok st ∧
      st.regions = regionsOf (s'.calls.map DumpCall.record) pageMachine.pool ++ [last.record.region
        ((pageMachine.pool.drop (totalNents (s'.calls.map DumpCall.record))).take
          last.record.nents)] ∧
      st.mem = storePages (leafSlot pageMachine.heap (.node 0)) last.record.flags
        last.record.gmStart
        (((pageMachine.pool.drop (totalNents (s'.calls.map DumpCall.record))).take
            last.record.nents).zip
          (last.record.again (bufAfter (s'.calls.map DumpCall.record) zeroLocals.buf)))
        (storeRecords (leafSlot pageMachine.heap (.node 0)) (s'.calls.map DumpCall.record)
          pageMachine.pool pageMachine.mem) := by
  have hpos : 1 ≤ s'.calls.length := by
    cases hc : s'.calls with
    | nil =>
        rw [hc] at hlast
        exact absurd hlast.symm (Option.some_ne_none _)
    | cons c cs => exact Nat.succ_le_succ (Nat.zero_le _)
  have hsmall := totalNents_untouched hcalls
  have hlastRecord : (s'.calls.map DumpCall.record).getLast? = some last.record := by
    rw [List.getLast?_map, hlast]
    rfl
  have hpool : pageMachine.pool.length = 9 := by simp [pageMachine, frames]
  obtain ⟨st, hrun, hregions, -, -, hmem⟩ :=
    grMemContentsInit_dump (dumpInput_untouched ⟨hpos, by omega⟩ hcalls hdisjoint) hlastRecord
      (by rw [hpool]; exact henough)
  exact ⟨st, by rw [bytes_postTerm (mapPages_recording hs) hterm]; exact hrun, hregions, hmem⟩

/-- The same, searched. -/
theorem mapPages_input {job n : Nat} {s s' : GrContext} {tas : GrAs} {st : McState}
    {checked : List Nat} {mem : ByteMem}
    (hs : (mapPages job n).foldlM recorderStep (grContextInit []) = some s)
    (hterm : postTerm (fun _ => 0) (fun _ => []) s = .ok s') (hentry : s.asList[job]? = some tas)
    (hflags : tas.flags = 0x606e) (hcalls : ∀ c ∈ s'.calls, Untouched c)
    (hrun : grMemContentsInit pageMachine (.node 0) zeroLocals s'.memDumpFile.bytes = .ok st)
    (hclean : grCleanUsedAtom st.regions st.mem = .ok (checked, mem)) :
    JobPageInput s s' job tas pageMachine zeroLocals st checked where
  recording := mapPages_recording hs
  ended := ⟨_, _, hterm⟩
  entry := hentry
  flags := Or.inl hflags
  onePage := fun c hc _ => (hcalls c hc).2.2.2.2.1
  wf := fun c hc => (hcalls c hc).wf
  frames := (poolOk_frames (by decide)).aligned
  fits := ⟨Nat.two_pow_pos 64, List.length_replicate⟩
  loaded := ⟨.node 0, hrun⟩
  cleaned := ⟨mem, hclean⟩

end GpuReplay
