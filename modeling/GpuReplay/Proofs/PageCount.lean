/-
How many pages a record has.

The recorder writes the pages of an allocation from its first one on, as many as the
allocation had at the last fault.  The replayer reads as many as that, but not past the end of
the mapping, and takes them for the pages from the mapping's start on.  The two agree where the
mapping starts with the allocation and is not shorter.
-/
import GpuReplay.Driver.CpuMap
import GpuReplay.Proofs.Uncounted
import GpuReplay.Proofs.McSafety

namespace GpuReplay

open Stdio Driver Replayer

/-- Writer and readers agree on the pages of an entry, dumped with the allocations `cpuAlloc`: the
allocation lasts for as many triples as the header says, both loops stop where the record ends, and
the triple of an address carries the page that the fault has mapped there. -/
structure PagesAgree (mem : ByteMem) (cpuAlloc : Nat → List Nat) (fault : CpuFault) (tas : GrAs) :
    Prop where
  count : (recordOf mem cpuAlloc tas).pages.length = tas.nents
  init : ∀ (heap : List UserPgtable) (userPgt : UserPtr) (frames : List Nat) (paddr : Nat)
    (buf : List UInt8) (m : ByteMem) (rest : List UInt8) (s' : PageState),
    frames.length = tas.nents → (∀ frame ∈ frames, frame % 4096 = 0) → buf.length = 4096 →
    initPages heap userPgt tas.vmEnd tas.flags 1 frames
      ⟨⟨triples tas.vmStart (recordOf mem cpuAlloc tas).pages ++ rest, false⟩, tas.vmStart, paddr,
        buf, m⟩ = .ok s' → s'.stream = ⟨rest, false⟩
  check : ∀ (region : Region) (fuel paddr : Nat) (buf : List UInt8) (m : ByteMem)
    (rest : List UInt8) (s' : CheckState), region.gmEnd = tas.vmEnd → region.nrPages = tas.nents →
    region.pages.length = tas.nents → buf.length = 4096 →
    checkPages region fuel 0
      ⟨⟨triples tas.vmStart (recordOf mem cpuAlloc tas).pages ++ rest, false⟩, tas.vmStart, paddr,
        buf, false, m⟩ = some (.ok s') → s'.stream = ⟨rest, false⟩
  triple : ∀ (i : Nat) (q : Nat × List UInt8), (recordOf mem cpuAlloc tas).pages[i]? = some q →
    fault.insertedPage i = some q.1

/-! ### Reading the triples -/

section Readers

variable {gmEnd : Nat} (hend : gmEnd < 2 ^ 64)

/-- The pages of a record are of the right size, at addresses that fit. -/
def PagesFit (pages : List (Nat × List UInt8)) : Prop :=
  ∀ q ∈ pages, q.1 < 2 ^ 64 ∧ q.2.length = 4096

include hend in
/-- The loop of `gr_mem_contents_init` reads them all, where the range has room. -/
theorem visitedPages_triples (rest : List UInt8) :
    ∀ {pages : List (Nat × List UInt8)} {vaddr : Nat}, PagesFit pages →
      vaddr + 4096 * pages.length ≤ gmEnd →
      (visitedPages gmEnd 1 pages.length ⟨triples vaddr pages ++ rest, false⟩ vaddr).2 =
        ⟨rest, false⟩ := by
  intro pages
  induction pages with
  | nil => exact fun _ _ => rfl
  | cons q pages ih =>
      intro vaddr hpages hroom
      obtain ⟨paddr, page⟩ := q
      obtain ⟨hpaddr, hpage⟩ := hpages _ List.mem_cons_self
      rw [List.length_cons] at hroom
      have hlt : vaddr < 256 ^ 8 := show vaddr < 2 ^ 64 by omega
      have hnext : nextTriple 1 ⟨triples vaddr ((paddr, page) :: pages) ++ rest, false⟩ vaddr =
          (⟨triples (vaddr + 4096) pages ++ rest, false⟩, vaddr) := by
        rw [nextTriple, if_pos Nat.one_ne_zero, triples]
        simp only [List.append_assoc, Stream.readWord_le hlt,
          Stream.readWord_le (show paddr < 256 ^ 8 from hpaddr),
          Stream.read_append hpage (show ([] : List UInt8).length ≤ 4096 from Nat.zero_le _)]
      have hwrap : (vaddr + 4096) % 2 ^ 64 = vaddr + 4096 := Nat.mod_eq_of_lt (by omega)
      rw [List.length_cons, visitedPages, if_pos (by omega), hnext]
      dsimp only
      rw [hwrap]
      exact ih (fun q hq => hpages q (List.mem_cons_of_mem _ hq)) (by omega)

/-- What is left of the file after one page of `gr_mem_contents_check`. -/
theorem checkPage_stream {newPage vaddr paddr : Nat} {page rest : List UInt8} {s s' : CheckState}
    (hvaddr : vaddr < 2 ^ 64) (hpaddr : paddr < 2 ^ 64) (hpage : page.length = 4096)
    (hstream : s.stream = ⟨Bytes.le 8 vaddr ++ (Bytes.le 8 paddr ++ (page ++ rest)), false⟩)
    (hbuf : s.buf.length ≤ 4096) (h : checkPage newPage s = .ok s') :
    s'.stream = ⟨rest, false⟩ ∧ s'.gaddr = vaddr ∧ s'.buf = page := by
  unfold checkPage at h
  simp only [hstream, Stream.readWord_le (show vaddr < 256 ^ 8 from hvaddr),
    Stream.readWord_le (show paddr < 256 ^ 8 from hpaddr), Stream.read_append hpage hbuf] at h
  cases hread : grReadPhys s.mem newPage 4096 with
  | error e =>
      rw [hread] at h
      cases h
  | ok replayed =>
      rw [hread, Except.ok_bind] at h
      split at h
      · cases hwrite : grWritePhys s.mem newPage page with
        | error e =>
            rw [hwrite] at h
            cases h
        | ok mem =>
            rw [hwrite] at h
            obtain rfl := Except.ok.inj h
            exact ⟨rfl, rfl, rfl⟩
      · obtain rfl := Except.ok.inj h
        exact ⟨rfl, rfl, rfl⟩

include hend in
/-- The loop of `gr_mem_contents_check` does as well. -/
theorem checkPagesUncounted_stream {rest : List UInt8} :
    ∀ {pages : List (Nat × List UInt8)} {frames : List Nat} {s s' : CheckState}, PagesFit pages →
      frames.length = pages.length → s.gaddr + 4096 * pages.length ≤ gmEnd →
      s.stream = ⟨triples s.gaddr pages ++ rest, false⟩ → s.buf.length ≤ 4096 →
      checkPagesUncounted gmEnd frames s = .ok s' → s'.stream = ⟨rest, false⟩ := by
  intro pages
  induction pages with
  | nil =>
      intro frames s s' _ hlen _ hstream _ h
      rw [List.eq_nil_of_length_eq_zero hlen, checkPagesUncounted] at h
      obtain rfl := Except.ok.inj h
      exact hstream
  | cons q pages ih =>
      intro frames s s' hpages hlen hroom hstream hbuf h
      obtain ⟨paddr, page⟩ := q
      obtain ⟨hpaddr, hpage⟩ := hpages _ List.mem_cons_self
      rw [List.length_cons] at hroom
      cases frames with
      | nil => exact absurd hlen.symm (Nat.succ_ne_zero _)
      | cons frame frames =>
          rw [checkPagesUncounted, if_pos (by omega)] at h
          cases hone : checkPage frame s with
          | error e =>
              rw [hone] at h
              cases h
          | ok s₁ =>
              rw [hone, Except.ok_bind] at h
              rw [triples, List.append_assoc, List.append_assoc, List.append_assoc] at hstream
              obtain ⟨hstream₁, hgaddr, hbuf₁⟩ :=
                checkPage_stream (by omega) hpaddr hpage hstream hbuf hone
              have hwrap : (s₁.gaddr + 4096) % 2 ^ 64 = s.gaddr + 4096 := by
                rw [hgaddr]
                exact Nat.mod_eq_of_lt (by omega)
              rw [hwrap] at h
              refine ih (fun q hq => hpages q (List.mem_cons_of_mem _ hq)) (Nat.succ.inj hlen) ?_
                hstream₁ ?_ h
              · show s.gaddr + 4096 + 4096 * pages.length ≤ gmEnd
                omega
              · rw [hbuf₁, hpage]

end Readers

/-! ### The entries of the hooks -/

/-- The region that is mapped to given bounds. -/
def Driver.HookEvent.mappingAt (vmStart vmEnd : Nat) : HookEvent → Option PlacedRegion
  | .mmap vma reg =>
      if mmapAccepts vma reg ∧ vma.vmStart = vmStart ∧ vma.vmEnd = vmEnd then some reg else none
  | .fault _ _ _ _ => none

/-- The fault that is served for a mapping with given bounds. -/
def Driver.HookEvent.faultAt (vmStart vmEnd : Nat) : HookEvent → Option CpuFault
  | .mmap _ _ => none
  | .fault vma reg pgoff pages =>
      if vma.vmStart = vmStart ∧ vma.vmEnd = vmEnd then cpuFault vma reg pgoff pages else none

/-- The region that bounds were mapped to first. -/
def firstMapping (vmStart vmEnd : Nat) (events : List HookEvent) : Option PlacedRegion :=
  events.findSome? (HookEvent.mappingAt vmStart vmEnd)

/-- The last fault that was served for them. -/
def lastFault (vmStart vmEnd : Nat) (events : List HookEvent) : Option CpuFault :=
  events.reverse.findSome? (HookEvent.faultAt vmStart vmEnd)

theorem lastFault_snoc (vmStart vmEnd : Nat) (events : List HookEvent) (e : HookEvent) :
    lastFault vmStart vmEnd (events ++ [e])
      = (e.faultAt vmStart vmEnd).or (lastFault vmStart vmEnd events) := by
  unfold lastFault
  rw [List.reverse_append, List.reverse_singleton, List.singleton_append, List.findSome?_cons]
  cases e.faultAt vmStart vmEnd with
  | none => rfl
  | some fault => rfl

theorem firstMapping_snoc (vmStart vmEnd : Nat) (events : List HookEvent) (e : HookEvent) :
    firstMapping vmStart vmEnd (events ++ [e])
      = (firstMapping vmStart vmEnd events).or (e.mappingAt vmStart vmEnd) := by
  unfold firstMapping
  rw [List.findSome?_append, List.findSome?_singleton]

/-- A fault that is served is for a page it counts. -/
theorem lastFault_ok {vmStart vmEnd : Nat} {events : List HookEvent} {fault : CpuFault}
    (h : lastFault vmStart vmEnd events = some fault) :
    fault.vma.vmStart = vmStart ∧ fault.vma.vmEnd = vmEnd ∧ fault.pages ≠ [] := by
  obtain ⟨e, -, he⟩ := List.exists_of_findSome?_eq_some h
  cases e with
  | mmap vma reg => cases he
  | fault vma reg pgoff pages =>
      rw [HookEvent.faultAt] at he
      split at he
      next hbounds =>
        unfold cpuFault at he
        dsimp only at he
        split at he
        · cases he
        split at he
        · cases he
        next hcount =>
          split at he
          · cases he
          obtain rfl := Option.some.inj he
          refine ⟨hbounds.1, hbounds.2, fun hnil => hcount ?_⟩
          dsimp only at hnil
          rw [hnil]
          exact Nat.zero_le _
      · cases he

/-- An entry with the bounds. -/
def hasBounds (vmStart vmEnd : Nat) (tas : GrAs) : Bool :=
  decide (tas.vmStart = vmStart ∧ tas.vmEnd = vmEnd)

/-- A fault changes the first entry with the bounds of its mapping. -/
theorem find?_grAsAddValid (vmStart vmEnd nents a b : Nat) :
    ∀ asList : List GrAs, (grAsAddValid vmStart vmEnd nents asList).find? (hasBounds a b)
      = (asList.find? (hasBounds a b)).map fun tas =>
          if a = vmStart ∧ b = vmEnd then { tas with isValid := true, nents := nents } else tas := by
  intro asList
  induction asList with
  | nil => rfl
  | cons tas rest ih =>
      rw [grAsAddValid]
      by_cases hfirst : tas.vmStart = vmStart ∧ tas.vmEnd = vmEnd
      · rw [if_pos hfirst]
        by_cases hsame : a = vmStart ∧ b = vmEnd
        · have hthis : tas.vmStart = a ∧ tas.vmEnd = b := by
            rw [hsame.1, hsame.2]
            exact hfirst
          rw [List.find?_cons_of_pos (by exact decide_eq_true hthis),
            List.find?_cons_of_pos (by exact decide_eq_true hthis), Option.map_some, if_pos hsame]
        · have hnot : ¬(tas.vmStart = a ∧ tas.vmEnd = b) := by
            rintro ⟨rfl, rfl⟩
            exact hsame hfirst
          rw [List.find?_cons_of_neg (by simpa [hasBounds] using hnot),
            List.find?_cons_of_neg (by simpa [hasBounds] using hnot)]
          simp only [if_neg hsame, Option.map_id']
      · rw [if_neg hfirst]
        by_cases hthis : tas.vmStart = a ∧ tas.vmEnd = b
        · have hother : ¬(a = vmStart ∧ b = vmEnd) := by
            rintro ⟨rfl, rfl⟩
            exact hfirst hthis
          rw [List.find?_cons_of_pos (by exact decide_eq_true hthis),
            List.find?_cons_of_pos (by exact decide_eq_true hthis), Option.map_some, if_neg hother]
        · rw [List.find?_cons_of_neg (by simpa [hasBounds] using hthis),
            List.find?_cons_of_neg (by simpa [hasBounds] using hthis)]
          exact ih

/-- Only the first entry with its bounds is ever valid. -/
def FirstValid (asList : List GrAs) : Prop :=
  asList.Pairwise fun t u => u.isValid = true → ¬(t.vmStart = u.vmStart ∧ t.vmEnd = u.vmEnd)

theorem FirstValid.find? :
    ∀ {asList : List GrAs}, FirstValid asList → ∀ tas ∈ asList, tas.isValid = true →
      asList.find? (hasBounds tas.vmStart tas.vmEnd) = some tas := by
  intro asList
  induction asList with
  | nil => exact fun _ tas htas => absurd htas List.not_mem_nil
  | cons first rest ih =>
      intro h tas htas hvalid
      obtain ⟨hfirst, hrest⟩ := List.pairwise_cons.mp h
      rcases List.mem_cons.mp htas with rfl | hin
      · exact List.find?_cons_of_pos (decide_eq_true ⟨rfl, rfl⟩)
      · rw [List.find?_cons_of_neg (by simpa [hasBounds] using hfirst tas hin hvalid)]
        exact ih hrest tas hin hvalid

/-- A fault leaves the entries with other bounds. -/
theorem mem_of_mem_grAsAddValid {vmStart vmEnd nents : Nat} :
    ∀ {asList : List GrAs} {u : GrAs}, u ∈ grAsAddValid vmStart vmEnd nents asList →
      ¬(u.vmStart = vmStart ∧ u.vmEnd = vmEnd) → u ∈ asList := by
  intro asList
  induction asList with
  | nil => exact fun h _ => h
  | cons tas rest ih =>
      intro u h hother
      rw [grAsAddValid] at h
      split at h
      next hfirst =>
        rcases List.mem_cons.mp h with rfl | hin
        · exact absurd hfirst hother
        · exact List.mem_cons_of_mem _ hin
      · rcases List.mem_cons.mp h with rfl | hin
        · exact List.mem_cons_self
        · exact List.mem_cons_of_mem _ (ih hin hother)

theorem FirstValid.grAsAddValid {vmStart vmEnd nents : Nat} :
    ∀ {asList : List GrAs}, FirstValid asList →
      FirstValid (grAsAddValid vmStart vmEnd nents asList) := by
  intro asList
  induction asList with
  | nil => exact fun h => h
  | cons tas rest ih =>
      intro h
      obtain ⟨hfirst, hrest⟩ := List.pairwise_cons.mp h
      rw [Driver.grAsAddValid]
      split
      · exact List.pairwise_cons.mpr ⟨hfirst, hrest⟩
      next hother =>
        refine List.pairwise_cons.mpr ⟨fun u hu hvalid hbounds => ?_, ih hrest⟩
        -- the entry that became valid has the bounds of the mapping
        by_cases hmapping : u.vmStart = vmStart ∧ u.vmEnd = vmEnd
        · exact hother ⟨hbounds.1.trans hmapping.1, hbounds.2.trans hmapping.2⟩
        · exact hfirst u (mem_of_mem_grAsAddValid hu hmapping) hvalid hbounds

/-! ### Runs -/

/-- What the list of a recorder has to do with the events it has seen. -/
structure ListTracks (events : List HookEvent) (asList : List GrAs) : Prop where
  valid : FirstValid asList
  mapped : ∀ (vmStart vmEnd : Nat) (tas : GrAs),
    asList.find? (hasBounds vmStart vmEnd) = some tas →
    ∃ reg, firstMapping vmStart vmEnd events = some reg ∧ tas.reg = reg.id
  unmapped : ∀ vmStart vmEnd : Nat, asList.find? (hasBounds vmStart vmEnd) = none →
    firstMapping vmStart vmEnd events = none
  touched : ∀ (vmStart vmEnd : Nat) (tas : GrAs),
    asList.find? (hasBounds vmStart vmEnd) = some tas → tas.isValid = true →
    ∃ fault, lastFault vmStart vmEnd events = some fault ∧ tas.nents = fault.pages.length

/-- **One event.** -/
theorem ListTracks.snoc {events : List HookEvent} {s : GrContext} (h : ListTracks events s.asList)
    (e : HookEvent) : ListTracks (events ++ [e]) (e.run s).asList := by
  cases e with
  | mmap vma reg =>
      have hfault : ∀ a b, (HookEvent.mmap vma reg).faultAt a b = none := fun _ _ => rfl
      have hlast : ∀ a b, lastFault a b (events ++ [.mmap vma reg]) = lastFault a b events := by
        intro a b
        rw [lastFault_snoc, hfault, Option.none_or]
      show ListTracks _ ((kbaseContextMmap s vma reg).getD s).asList
      unfold kbaseContextMmap
      by_cases haccept : mmapAccepts vma reg = true
      · rw [if_pos haccept, Option.getD_some, grAsAdd]
        dsimp only
        have hnew : ∀ a b, (HookEvent.mmap vma reg).mappingAt a b
            = if vma.vmStart = a ∧ vma.vmEnd = b then some reg else none := by
          intro a b
          rw [HookEvent.mappingAt, haccept]
          simp only [true_and]
        refine ⟨?_, fun a b tas hfind => ?_, fun a b hfind => ?_, fun a b tas hfind hvalid => ?_⟩
        · refine List.pairwise_append.mpr ⟨h.valid, List.pairwise_singleton .., fun t _ u hu hvalid => ?_⟩
          rw [List.mem_singleton.mp hu] at hvalid
          cases hvalid
        · rw [List.find?_append] at hfind
          cases hold : s.asList.find? (hasBounds a b) with
          | some t =>
              rw [hold, Option.some_or] at hfind
              obtain rfl := Option.some.inj hfind
              obtain ⟨reg', hreg, hid⟩ := h.mapped a b t hold
              exact ⟨reg', by rw [firstMapping_snoc, hreg, Option.some_or], hid⟩
          | none =>
              rw [hold, Option.none_or] at hfind
              have hbounds := List.find?_some hfind
              obtain rfl := List.mem_singleton.mp (List.mem_of_find?_eq_some hfind)
              refine ⟨reg, ?_, rfl⟩
              rw [firstMapping_snoc, h.unmapped a b hold, Option.none_or, hnew,
                if_pos (of_decide_eq_true hbounds)]
        · rw [List.find?_append, Option.or_eq_none_iff] at hfind
          rw [firstMapping_snoc, h.unmapped a b hfind.1, Option.none_or, hnew]
          refine if_neg fun hbounds => ?_
          have hnone := List.find?_eq_none.mp hfind.2 _ List.mem_cons_self
          exact hnone (decide_eq_true hbounds)
        · rw [hlast]
          rw [List.find?_append] at hfind
          cases hold : s.asList.find? (hasBounds a b) with
          | some t =>
              rw [hold, Option.some_or] at hfind
              obtain rfl := Option.some.inj hfind
              exact h.touched a b t hold hvalid
          | none =>
              rw [hold, Option.none_or] at hfind
              rw [List.mem_singleton.mp (List.mem_of_find?_eq_some hfind)] at hvalid
              cases hvalid
      · rw [if_neg haccept, Option.getD_none]
        have hfirst : ∀ a b, firstMapping a b (events ++ [.mmap vma reg]) = firstMapping a b events := by
          intro a b
          have hnone : (HookEvent.mmap vma reg).mappingAt a b = none :=
            if_neg fun hboth => haccept hboth.1
          rw [firstMapping_snoc, hnone, Option.or_none]
        exact ⟨h.valid, fun a b => by rw [hfirst]; exact h.mapped a b,
          fun a b => by rw [hfirst]; exact h.unmapped a b,
          fun a b => by rw [hlast]; exact h.touched a b⟩
  | fault vma reg pgoff pages =>
      have hfirst : ∀ a b, firstMapping a b (events ++ [.fault vma reg pgoff pages])
          = firstMapping a b events := by
        intro a b
        have hnone : (HookEvent.fault vma reg pgoff pages).mappingAt a b = none := rfl
        rw [firstMapping_snoc, hnone, Option.or_none]
      show ListTracks _ (kbaseCpuVmFault s vma reg pgoff pages).asList
      unfold kbaseCpuVmFault
      cases hfault : cpuFault vma reg pgoff pages with
      | none =>
          have hlast : ∀ a b, lastFault a b (events ++ [.fault vma reg pgoff pages])
              = lastFault a b events := by
            intro a b
            have hnone : (HookEvent.fault vma reg pgoff pages).faultAt a b = none := by
              rw [HookEvent.faultAt, hfault, ite_self]
            rw [lastFault_snoc, hnone, Option.none_or]
          exact ⟨h.valid, fun a b => by rw [hfirst]; exact h.mapped a b,
            fun a b => by rw [hfirst]; exact h.unmapped a b,
            fun a b => by rw [hlast]; exact h.touched a b⟩
      | some fault =>
          have hfind := find?_grAsAddValid vma.vmStart vma.vmEnd fault.pages.length
          refine ⟨h.valid.grAsAddValid, fun a b tas htas => ?_, fun a b hnone => ?_,
            fun a b tas htas hvalid => ?_⟩
          · rw [hfind] at htas
            obtain ⟨t, ht, rfl⟩ := Option.map_eq_some_iff.mp htas
            rw [hfirst]
            obtain ⟨reg', hreg, hid⟩ := h.mapped a b t ht
            refine ⟨reg', hreg, ?_⟩
            split
            · exact hid
            · exact hid
          · rw [hfind, Option.map_eq_none_iff] at hnone
            rw [hfirst]
            exact h.unmapped a b hnone
          · rw [hfind] at htas
            obtain ⟨t, ht, rfl⟩ := Option.map_eq_some_iff.mp htas
            rw [lastFault_snoc, HookEvent.faultAt, hfault]
            by_cases hbounds : a = vma.vmStart ∧ b = vma.vmEnd
            · rw [if_pos hbounds, if_pos ⟨hbounds.1.symm, hbounds.2.symm⟩, Option.some_or]
              exact ⟨fault, rfl, rfl⟩
            · rw [if_neg hbounds] at hvalid ⊢
              rw [if_neg fun hsame => hbounds ⟨hsame.1.symm, hsame.2.symm⟩, Option.none_or]
              exact h.touched a b t ht hvalid

/-- **Every run.** -/
theorem listTracks_hookEvents (events : List HookEvent) :
    ListTracks events (hookEvents events).asList := by
  induction events using List.reverseRecOn with
  | nil =>
      exact ⟨List.Pairwise.nil, fun _ _ _ h => (by cases h), fun _ _ _ => rfl,
        fun _ _ _ h => (by cases h)⟩
  | append_singleton events e ih =>
      have hrun : hookEvents (events ++ [e]) = e.run (hookEvents events) := List.foldl_concat ..
      rw [hrun]
      exact ih.snoc e

/-- **What a touched entry is**: it has the region its bounds were mapped to first, and the page
count of the last fault. -/
theorem touched_entry {events : List HookEvent} {tas : GrAs}
    (htas : tas ∈ (hookEvents events).asList) (hvalid : tas.isValid = true) :
    ∃ fault reg, lastFault tas.vmStart tas.vmEnd events = some fault ∧
      firstMapping tas.vmStart tas.vmEnd events = some reg ∧ tas.reg = reg.id ∧
      tas.nents = fault.pages.length := by
  have htracks := listTracks_hookEvents events
  have hfind := htracks.valid.find? tas htas hvalid
  obtain ⟨reg, hreg, hid⟩ := htracks.mapped _ _ tas hfind
  obtain ⟨fault, hfault, hnents⟩ := htracks.touched _ _ tas hfind hvalid
  exact ⟨fault, reg, hfault, hreg, hid, hnents⟩

theorem Driver.Vma.end_eq (vma : Vma) : vma.vmStart + 4096 * vma.nrPages = vma.vmEnd := by
  have hs := vma.start_aligned
  have he := vma.end_aligned
  have hle := vma.le
  unfold Vma.nrPages
  omega

/-! ### The claim -/

/-- What the counts and the pages hang on: the mapping starts with the pages the fault counted and
has room for all of them, and the allocation that is dumped begins with them. -/
def CountsPages (alloc : List Nat) (fault : CpuFault) : Prop :=
  fault.mapStartPgoff = 0 ∧ fault.pages.length ≤ fault.vma.nrPages ∧ fault.pages <+: alloc

section Agree

variable {mem : ByteMem} {cpuAlloc : Nat → List Nat} {fault : CpuFault} {tas : GrAs}

theorem countsPages_of_agree (hvalid : tas.isValid = true)
    (hnents : tas.nents = fault.pages.length) (hne : fault.pages ≠ [])
    (h : PagesAgree mem cpuAlloc fault tas) : CountsPages (cpuAlloc tas.reg) fault := by
  have hpos : 0 < fault.pages.length := List.length_pos_iff.mpr hne
  have hpages : (recordOf mem cpuAlloc tas).pages
      = allocPages mem ((cpuAlloc tas.reg).take tas.nents) := if_pos hvalid
  have hcount := h.count
  rw [hpages, allocPages, List.length_map, List.length_take] at hcount
  have hinserted : ∀ i, i < fault.pages.length →
      fault.insertedPage i = (cpuAlloc tas.reg)[i]? := by
    intro i hi
    obtain ⟨paddr, hpage⟩ : ∃ paddr, (cpuAlloc tas.reg)[i]? = some paddr :=
      ⟨_, List.getElem?_eq_getElem (by omega)⟩
    rw [hpage]
    refine h.triple i (paddr, mem.read (pageStart paddr) 4096) ?_
    rw [hpages, allocPages, List.getElem?_map, List.getElem?_take_of_lt (by omega), hpage]
    rfl
  -- the last page the fault counted has to be mapped at its own distance
  have hlast := hinserted (fault.pages.length - 1) (by omega)
  rw [List.getElem?_eq_getElem (show fault.pages.length - 1 < (cpuAlloc tas.reg).length by omega),
    CpuFault.insertedPage] at hlast
  split at hlast
  next hroom =>
    obtain ⟨hlt, -⟩ := List.getElem?_eq_some_iff.mp hlast
    have hzero : fault.mapStartPgoff = 0 := by omega
    refine ⟨hzero, by omega, List.prefix_iff_eq_take.mpr (List.ext_getElem? fun i => ?_)⟩
    by_cases hi : i < fault.pages.length
    · have hthis := hinserted i hi
      rw [CpuFault.insertedPage, if_pos (by omega), hzero, Nat.zero_add] at hthis
      rw [List.getElem?_take_of_lt hi, hthis]
    · rw [List.getElem?_eq_none (by omega),
        List.getElem?_eq_none (by rw [List.length_take]; omega)]
  next => cases hlast

theorem agree_of_countsPages (hvalid : tas.isValid = true)
    (hstart : tas.vmStart = fault.vma.vmStart) (hend : tas.vmEnd = fault.vma.vmEnd)
    (hnents : tas.nents = fault.pages.length) (hfew : fault.pages.length < 2 ^ 32)
    (hpaddr : ∀ paddr ∈ fault.pages, paddr < 2 ^ 64)
    (h : CountsPages (cpuAlloc tas.reg) fault) : PagesAgree mem cpuAlloc fault tas := by
  obtain ⟨hzero, hroom, hprefix⟩ := h
  have hpages : (recordOf mem cpuAlloc tas).pages = allocPages mem fault.pages := by
    have htake := List.prefix_iff_eq_take.mp hprefix
    rw [← hnents] at htake
    rw [htake]
    exact if_pos hvalid
  have hlength : (allocPages mem fault.pages).length = fault.pages.length := List.length_map ..
  have hfit : PagesFit (allocPages mem fault.pages) := by
    intro q hq
    obtain ⟨paddr, hmem, heq⟩ := List.mem_map.mp hq
    rw [← heq]
    refine ⟨hpaddr paddr hmem, ?_⟩
    dsimp only
    rw [ByteMem.length_read]
  have hbounded := fault.vma.bounded
  have hvma := fault.vma.end_eq
  have hfits : fault.vma.vmStart + 4096 * (allocPages mem fault.pages).length ≤ fault.vma.vmEnd := by
    rw [hlength]
    omega
  refine ⟨by rw [hpages, hlength, hnents], ?_, ?_, ?_⟩
  · intro heap userPgt frames paddr buf m rest s' hframes haligned hbuf hrun
    rw [hpages, hstart, hend] at hrun
    rcases initPages_lookup heap userPgt fault.vma.vmEnd tas.flags 1 frames
        ⟨⟨triples fault.vma.vmStart (allocPages mem fault.pages) ++ rest, false⟩, fault.vma.vmStart,
          paddr, buf, m⟩
        haligned hbuf with ⟨s₂, -, hok, hstream, -⟩ | ⟨e, -, herror⟩
    · rw [hok] at hrun
      obtain rfl := Except.ok.inj hrun
      rw [hstream, hframes, hnents, ← hlength]
      exact visitedPages_triples hbounded rest hfit hfits
    · rw [herror] at hrun
      cases hrun
  · intro region fuel paddr buf m rest s' hgmEnd hnr hlen hbuf hrun
    rw [hpages, hstart] at hrun
    have hmore := checkPages_mono (show fuel ≤ fuel + 2 ^ 32 from Nat.le_add_right ..) hrun
    rw [checkPages_eq (hlen.trans hnr.symm) (by omega) (by omega) (Nat.zero_le _), List.drop_zero,
      hgmEnd, hend] at hmore
    exact checkPagesUncounted_stream hbounded hfit (by rw [hlen, hnents, hlength]) hfits rfl
      (Nat.le_of_eq hbuf) (Option.some.inj hmore)
  · intro i q hq
    rw [hpages] at hq
    unfold allocPages at hq
    rw [List.getElem?_map, Option.map_eq_some_iff] at hq
    obtain ⟨paddr, hi, rfl⟩ := hq
    have hlt := (List.getElem?_eq_some_iff.mp hi).1
    rw [CpuFault.insertedPage, if_pos (by omega), hzero, Nat.zero_add]
    exact hi

end Agree

/-- **Writer and readers agree** on a touched entry, after any run of the hooks and with any
allocations at the dump, if and only if the last fault at its bounds counted pages that the mapping
starts with and has room for, and that the allocation of the region mapped there first begins with. -/
theorem pagesAgree_iff {events : List HookEvent} {tas : GrAs}
    (htas : tas ∈ (hookEvents events).asList) (hvalid : tas.isValid = true) :
    ∃ fault reg, lastFault tas.vmStart tas.vmEnd events = some fault ∧
      firstMapping tas.vmStart tas.vmEnd events = some reg ∧
      ∀ (mem : ByteMem) (cpuAlloc : Nat → List Nat), fault.pages.length < 2 ^ 32 →
        (∀ paddr ∈ fault.pages, paddr < 2 ^ 64) →
        (PagesAgree mem cpuAlloc fault tas ↔ CountsPages (cpuAlloc reg.id) fault) := by
  obtain ⟨fault, reg, hfault, hreg, hid, hnents⟩ := touched_entry htas hvalid
  obtain ⟨hstart, hend, hne⟩ := lastFault_ok hfault
  refine ⟨fault, reg, hfault, hreg, fun mem cpuAlloc hfew hpaddr => ?_⟩
  rw [← hid]
  exact ⟨countsPages_of_agree hvalid hnents hne,
    agree_of_countsPages hvalid hstart.symm hend.symm hnents hfew hpaddr⟩

/-! ### A region of two pages -/

/-- A region of two pages, backed. -/
def twoPages : PlacedRegion := ⟨⟨0, 2, 0x606e, 2⟩, 16, .native⟩

/-- A mapping of all of it. -/
def wholeVma : Vma := ⟨0x10000, 0x12000, 16, by decide, by decide, by decide, by decide⟩

/-- A mapping of its second page. -/
def secondVma : Vma := ⟨0x11000, 0x12000, 17, by decide, by decide, by decide, by decide⟩

/-- A mapping, and a fault in it. -/
def mapAndTouch (vma : Vma) : List HookEvent :=
  [.mmap vma twoPages, .fault vma twoPages vma.vmPgoff [0x5000, 0x6000]]

/-- Mapped as a whole, the region is dumped as it is mapped. -/
theorem pagesAgree_whole : ∃ tas fault, (hookEvents (mapAndTouch wholeVma)).asList = [tas] ∧
    tas.isValid = true ∧ lastFault tas.vmStart tas.vmEnd (mapAndTouch wholeVma) = some fault ∧
    PagesAgree (fun _ => 0) (fun _ => [0x5000, 0x6000]) fault tas := by
  refine ⟨_, _, rfl, rfl, rfl, ?_⟩
  obtain ⟨fault, reg, hfault, -, hiff⟩ :=
    @pagesAgree_iff (mapAndTouch wholeVma) _ List.mem_cons_self rfl
  obtain rfl := Option.some.inj hfault
  exact (hiff _ _ (by decide) (by decide)).mpr ⟨rfl, by decide, List.prefix_rfl⟩

/-- The triple of the second page's address has the first page. -/
theorem second_not_pagesAgree : ∃ tas fault, (hookEvents (mapAndTouch secondVma)).asList = [tas] ∧
    tas.isValid = true ∧ lastFault tas.vmStart tas.vmEnd (mapAndTouch secondVma) = some fault ∧
    ¬PagesAgree (fun _ => 0) (fun _ => [0x5000, 0x6000]) fault tas := by
  refine ⟨_, _, rfl, rfl, rfl, fun h => ?_⟩
  have hinserted := h.triple 0 (0x5000, ByteMem.read (fun _ => 0) (pageStart 0x5000) 4096) rfl
  exact absurd (Option.some.inj hinserted) (by decide)

end GpuReplay
