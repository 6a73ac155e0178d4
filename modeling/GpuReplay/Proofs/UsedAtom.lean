/-
What cleaning the used atoms does to the pages it cleans.

`gr_clean_used_atom` looks at each word of a job page together with the next one, and clears
the word where it marks an atom that has run: `0x010258` followed by `0`.  It goes forwards,
and the next word is looked at before it is the word's own turn.  So a mark in front of a mark
that is cleared stays, and now it is a mark in front of a `0`; and behind the last word of the
page there is no next one, which the loop reads nevertheless.

These two are the only ways for it to go wrong: `CleansAtoms` is what it is for, and
`cleansAtoms_iff` says that the pages it does it on are the ones without them.
-/
import GpuReplay.Lib.WriteList
import GpuReplay.Proofs.IoBounds
import GpuReplay.Proofs.Uncounted

namespace GpuReplay.Replayer

open Stdio Driver

/-- The word that marks an atom, where a `0` follows it. -/
def atomMark : Nat := 0x010258

/-! ### One page -/

/-- The words of a page after the loop: a mark in front of a `0` is cleared. -/
def cleanedWords : List Nat → List Nat
  | [] => []
  | word :: rest =>
      (if word = atomMark ∧ rest.head? = some 0 then 0 else word) :: cleanedWords rest

@[simp] theorem length_cleanedWords (ws : List Nat) : (cleanedWords ws).length = ws.length := by
  induction ws with
  | nil => rfl
  | cons word rest ih => rw [cleanedWords, List.length_cons, ih, List.length_cons]

theorem getElem?_cleanedWords :
    ∀ (ws : List Nat) (i : Nat), (cleanedWords ws)[i]?
      = ws[i]?.map fun word => if word = atomMark ∧ ws[i + 1]? = some 0 then 0 else word := by
  intro ws
  induction ws with
  | nil => exact fun _ => rfl
  | cons word rest ih =>
      intro i
      cases i with
      | zero =>
          rw [cleanedWords, List.getElem?_cons_zero, List.getElem?_cons_zero, Option.map_some,
            List.getElem?_cons_succ, List.head?_eq_getElem?]
      | succ i =>
          rw [cleanedWords, List.getElem?_cons_succ, ih, List.getElem?_cons_succ,
            List.getElem?_cons_succ]

/-- A word of a cleaned page is the word that was there, or a mark that was cleared. -/
theorem cleanedWords_mem {ws : List Nat} {w : Nat} (hw : w ∈ cleanedWords ws) :
    w ∈ ws ∨ w = 0 := by
  obtain ⟨i, hi⟩ := List.getElem?_of_mem hw
  rw [getElem?_cleanedWords] at hi
  obtain ⟨word, hword, heq⟩ := Option.map_eq_some_iff.mp hi
  split at heq
  · exact Or.inr heq.symm
  · exact Or.inl (heq ▸ List.mem_of_getElem? hword)

theorem cleanAtoms_cons_cons (word next : Nat) (rest : List Nat) :
    cleanAtoms (word :: next :: rest)
      = cleanAtoms (next :: rest) >>= fun r => .ok
          (if word = atomMark ∧ next = 0 then (0 :: r.1, true) else (word :: r.1, r.2)) := by
  rw [cleanAtoms]
  by_cases hword : word = 0x010258
  · rw [if_pos hword]
    simp only [List.head?_cons]
    congr 1
    funext r
    by_cases hnext : next = 0
    · rw [if_pos hnext, if_pos ⟨hword, hnext⟩]
      rfl
    · rw [if_neg hnext, if_neg fun h => hnext h.2]
      rfl
  · rw [if_neg hword]
    congr 1
    funext r
    rw [if_neg fun h : word = atomMark ∧ next = 0 => hword h.1]
    rfl

/-- The last word of a page, which is compared with what follows the page. -/
theorem cleanAtoms_singleton (word : Nat) : cleanAtoms [word]
    = if word = atomMark then .error .undefined else .ok ([word], false) := rfl

/-- **The loop over a page** cleans it, unless the last word is a mark. -/
theorem cleanAtoms_eq (ws : List Nat) :
    (ws.getLast? = some atomMark → cleanAtoms ws = .error .undefined) ∧
      (ws.getLast? ≠ some atomMark → ∃ isUsed, cleanAtoms ws = .ok (cleanedWords ws, isUsed) ∧
        (isUsed = false → cleanedWords ws = ws)) := by
  induction ws with
  | nil => exact ⟨fun h => (by cases h), fun _ => ⟨false, rfl, fun _ => rfl⟩⟩
  | cons word rest ih =>
      cases rest with
      | nil =>
          rw [cleanAtoms_singleton]
          constructor
          · exact fun hlast => if_pos (Option.some.inj hlast)
          · intro hlast
            have hword : word ≠ atomMark := fun h => hlast (congrArg some h)
            have hsame : cleanedWords [word] = [word] := by
              rw [cleanedWords, if_neg fun h => hword h.1]
              rfl
            rw [hsame]
            exact ⟨false, if_neg hword, fun _ => rfl⟩
      | cons next rest =>
          have hlast : (word :: next :: rest).getLast? = (next :: rest).getLast? :=
            List.getLast?_cons_cons
          have hcond : (word = atomMark ∧ (next :: rest).head? = some 0)
              = (word = atomMark ∧ next = 0) := by
            rw [List.head?_cons, Option.some_inj]
          have hcleaned : cleanedWords (word :: next :: rest)
              = (if word = atomMark ∧ next = 0 then 0 else word) :: cleanedWords (next :: rest) := by
            rw [cleanedWords]
            simp only [hcond]
          rw [hlast, cleanAtoms_cons_cons]
          constructor
          · intro hmark
            rw [ih.1 hmark]
            rfl
          · intro hmark
            obtain ⟨isUsed, hrest, hsame⟩ := ih.2 hmark
            rw [hrest, hcleaned, Except.ok_bind]
            by_cases hused : word = atomMark ∧ next = 0
            · rw [if_pos hused, if_pos hused]
              exact ⟨true, rfl, fun h => by cases h⟩
            · rw [if_neg hused, if_neg hused]
              exact ⟨isUsed, rfl, fun h => by rw [hsame h]⟩

/-- The pattern of a used atom is nowhere in the page. -/
def NoUsedAtom (ws : List Nat) : Prop := ∀ i, ¬(ws[i]? = some atomMark ∧ ws[i + 1]? = some 0)

/-- The page has no mark in front of a mark that is cleared. -/
def NoMarkedMark (ws : List Nat) : Prop :=
  ∀ i, ¬(ws[i]? = some atomMark ∧ ws[i + 1]? = some atomMark ∧ ws[i + 2]? = some 0)

/-- **A cleaned page has no used atoms exactly when no mark was in front of one that was
cleared.** -/
theorem noUsedAtom_cleaned_iff (ws : List Nat) :
    NoUsedAtom (cleanedWords ws) ↔ NoMarkedMark ws := by
  constructor
  · intro hclean i hmarks
    obtain ⟨hi, hnext, hzero⟩ := hmarks
    refine hclean i ⟨?_, ?_⟩
    · rw [getElem?_cleanedWords, hi, hnext]
      exact congrArg some (if_neg fun h => absurd (Option.some.inj h.2) (by decide))
    · rw [getElem?_cleanedWords, hnext, hzero]
      exact congrArg some (if_pos ⟨rfl, rfl⟩)
  · intro hno i hused
    obtain ⟨hi, hnext⟩ := hused
    rw [getElem?_cleanedWords] at hi hnext
    obtain ⟨word, hword, heq⟩ := Option.map_eq_some_iff.mp hi
    obtain ⟨word', hword', heq'⟩ := Option.map_eq_some_iff.mp hnext
    split at heq
    · exact absurd heq (by decide)
    · next hkeep =>
        rw [heq] at hword hkeep
        split at heq'
        · next hcleared =>
            rw [hcleared.1] at hword'
            exact hno i ⟨hword, hword', hcleared.2⟩
        · rw [heq'] at hword'
          exact hkeep ⟨rfl, hword'⟩

/-- Nothing is left to do on a page without used atoms. -/
theorem cleanedWords_of_noUsedAtom {ws : List Nat} (h : NoUsedAtom ws) : cleanedWords ws = ws := by
  refine List.ext_getElem? fun i => ?_
  rw [getElem?_cleanedWords]
  cases hi : ws[i]? with
  | none => rfl
  | some word =>
      refine congrArg some (if_neg fun hused => h i ⟨?_, hused.2⟩)
      rw [hi, hused.1]

/-! ### Memory -/

/-- The words of a page as the loop sees them. -/
theorem wordsOf_read (mem : ByteMem) (f : Nat) : wordsOf (mem.read f 4096) = tableWords mem f := by
  unfold wordsOf tableWords
  rw [ByteMem.length_read]
  refine List.map_congr_left fun k hk => ?_
  have hlt : k < 512 := List.mem_range.mp hk
  have hsplit : mem.read f 4096
      = mem.read f (8 * k) ++ (mem.read (f + 8 * k) 8 ++ mem.read (f + 8 * k + 8) (4088 - 8 * k)) := by
    rw [← ByteMem.read_add, ← ByteMem.read_add]
    congr 1
    omega
  have hdrop : (mem.read f 4096).drop (8 * k)
      = mem.read (f + 8 * k) 8 ++ mem.read (f + 8 * k + 8) (4088 - 8 * k) := by
    rw [hsplit]
    exact List.drop_left' (ByteMem.length_read ..)
  rw [hdrop, List.take_left' (ByteMem.length_read ..)]
  rfl

theorem tableWords_lt {mem : ByteMem} {f w : Nat} (hw : w ∈ tableWords mem f) : w < 2 ^ 64 := by
  obtain ⟨i, -, rfl⟩ := List.mem_map.mp hw
  exact ByteMem.read64_lt ..

/-- The memory after the page at `f` has been cleaned. -/
def cleanPage (mem : ByteMem) (f : Nat) : ByteMem :=
  mem.write f (Bytes.words (cleanedWords (tableWords mem f)))

theorem tableWords_cleanPage_self (mem : ByteMem) (f : Nat) :
    tableWords (cleanPage mem f) f = cleanedWords (tableWords mem f) := by
  refine tableWords_write mem f (by rw [length_cleanedWords, length_tableWords]) fun w hw => ?_
  rcases cleanedWords_mem hw with hw | rfl
  · exact tableWords_lt hw
  · decide

theorem sameOutside_cleanPage (mem : ByteMem) {f : Nat} (hf : f % 4096 = 0) :
    SameOutside [f] mem (cleanPage mem f) := by
  refine sameOutside_write mem hf ?_
  rw [Bytes.length_words, length_cleanedWords, length_tableWords]

/-- Cleaning a page without used atoms changes nothing. -/
theorem cleanPage_of_cleaned {mem : ByteMem} {f : Nat}
    (h : cleanedWords (tableWords mem f) = tableWords mem f) : cleanPage mem f = mem := by
  rw [cleanPage, h, ← read_table, ByteMem.write_read_self]

/-- The pages cleaned one after another. -/
def cleanFrames (frames : List Nat) (mem : ByteMem) : ByteMem := frames.foldl cleanPage mem

theorem sameOutside_cleanFrames {frames : List Nat} :
    ∀ {mem : ByteMem}, (∀ f ∈ frames, f % 4096 = 0) →
      SameOutside frames mem (cleanFrames frames mem) := by
  induction frames with
  | nil => exact fun _ => SameOutside.refl _ _
  | cons f frames ih =>
      intro mem haligned
      have hfirst := sameOutside_cleanPage mem (haligned f List.mem_cons_self)
      exact hfirst.trans (ih fun g hg => haligned g (List.mem_cons_of_mem _ hg))

/-- **Each page is cleaned as it was at first.** -/
theorem tableWords_cleanFrames {frames : List Nat} :
    ∀ {mem : ByteMem}, (∀ f ∈ frames, f % 4096 = 0) → frames.Nodup →
      ∀ f ∈ frames, tableWords (cleanFrames frames mem) f = cleanedWords (tableWords mem f) := by
  induction frames with
  | nil => exact fun _ _ f hf => absurd hf List.not_mem_nil
  | cons g frames ih =>
      intro mem haligned hnodup f hf
      obtain ⟨hg, hnodup'⟩ := List.nodup_cons.mp hnodup
      have haligned' : ∀ f ∈ frames, f % 4096 = 0 :=
        fun f hf => haligned f (List.mem_cons_of_mem _ hf)
      have hself := tableWords_cleanPage_self mem g
      have hone := sameOutside_cleanPage mem (haligned g List.mem_cons_self)
      rcases List.mem_cons.mp hf with hfirst | hlater
      · rw [hfirst, ← hself]
        exact (sameOutside_cleanFrames haligned').tableWords (haligned g List.mem_cons_self) hg
      · have hne : f ∉ [g] := fun hmem => hg (List.mem_singleton.mp hmem ▸ hlater)
        rw [← hone.tableWords (haligned' f hlater) hne]
        exact ih haligned' hnodup' f hlater

theorem cleanFrames_of_cleaned {mem : ByteMem} {frames : List Nat}
    (h : ∀ f ∈ frames, cleanedWords (tableWords mem f) = tableWords mem f) :
    cleanFrames frames mem = mem := by
  induction frames with
  | nil => rfl
  | cons f frames ih =>
      show cleanFrames frames (cleanPage mem f) = mem
      rw [cleanPage_of_cleaned (h f List.mem_cons_self)]
      exact ih fun g hg => h g (List.mem_cons_of_mem _ hg)

/-! ### The regions -/

/-- The regions of a context as `gr_mem_contents_init` leaves them: a page-aligned frame for
each page, and no frame twice. -/
structure PagesOk (regions : List Region) : Prop where
  length : ∀ r ∈ regions, r.pages.length = r.nrPages
  aligned : ∀ r ∈ regions, ∀ f ∈ r.pages, f % 4096 = 0
  nodup : (regions.flatMap Region.pages).Nodup

theorem PagesOk.tail {r : Region} {regions : List Region} (h : PagesOk (r :: regions)) :
    PagesOk regions where
  length := fun s hs => h.length s (List.mem_cons_of_mem _ hs)
  aligned := fun s hs => h.aligned s (List.mem_cons_of_mem _ hs)
  nodup := (List.nodup_append.mp h.nodup).2.1

/-- Each region takes its frames off the front of the pool. -/
theorem initRegions_flatMap {heap : List UserPgtable} {userPgt : UserPtr} :
    ∀ (n : Nat) (s s' : McState), initRegions heap userPgt n s = .ok s' →
      s'.regions.flatMap Region.pages ++ s'.pool = s.regions.flatMap Region.pages ++ s.pool := by
  intro n
  induction n with
  | zero =>
      intro s s' hrun
      rw [initRegions] at hrun
      split_ifs at hrun
      obtain rfl := Except.ok.inj hrun
      rfl
  | succ n ih =>
      intro s s' hrun
      rw [initRegions] at hrun
      split_ifs at hrun
      · obtain rfl := Except.ok.inj hrun
        rfl
      · obtain ⟨s₁, hregion, hrest⟩ := Except.bind_eq_ok.mp hrun
        rw [ih s₁ s' hrest]
        unfold initRegion at hregion
        generalize readHeader s.locals s.stream = header at hregion
        obtain ⟨l, f⟩ := header
        obtain ⟨⟨taken, pool⟩, htake, hregion⟩ := Except.bind_eq_ok.mp hregion
        obtain ⟨p, -, hdone⟩ := Except.bind_eq_ok.mp hregion
        obtain rfl := Except.ok.inj hdone
        unfold takePages at htake
        split_ifs at htake
        obtain ⟨rfl, rfl⟩ := Prod.mk.inj (Except.ok.inj htake)
        dsimp only
        rw [List.flatMap_append, List.append_assoc, List.flatMap_singleton, List.take_append_drop]

theorem grMemContentsInit_pagesOk {m : Machine} {userPgt : UserPtr} {locals : Locals}
    {file : List UInt8} {mc : McState} (hpool : PoolOk m.pool)
    (hrun : grMemContentsInit m userPgt locals file = .ok mc) : PagesOk mc.regions := by
  have hbacked : ∀ r ∈ mc.regions, r.Backed m.pool :=
    initRegions_backed nrVaRegion _ mc (fun p hp => hp) (fun r hr => absurd hr List.not_mem_nil) hrun
  have hflat := initRegions_flatMap nrVaRegion _ mc hrun
  have hnodup : (mc.regions.flatMap Region.pages ++ mc.pool).Nodup := hflat ▸ hpool.nodup
  exact {
    length := fun r hr => (hbacked r hr).length
    aligned := fun r hr f hf => hpool.aligned f ((hbacked r hr).frames f hf)
    nodup := (List.nodup_append.mp hnodup).1 }

/-- **The regions of every context that `gr_mem_init` sets up are like that.** -/
theorem grMemInit_pagesOk {config : GrConfig} {files : Files} {junk : InitJunk} {m : Machine}
    {ctx : ReplayContext} (hpool : PoolOk m.pool) (hjunk : junk.pgt.Ok)
    (hrun : grMemInit config files junk m = .ok ctx) : PagesOk ctx.regions := by
  unfold grMemInit at hrun
  obtain ⟨pgtFile, -, hrun⟩ := Except.bind_eq_ok.mp hrun
  obtain ⟨pgt, hpgt, hrun⟩ := Except.bind_eq_ok.mp hrun
  obtain ⟨mcFile, -, hrun⟩ := Except.bind_eq_ok.mp hrun
  obtain ⟨mc, hmc, hrun⟩ := Except.bind_eq_ok.mp hrun
  obtain ⟨sasFile, -, hrun⟩ := Except.bind_eq_ok.mp hrun
  obtain ⟨⟨sas, regions⟩, hsas, hrun⟩ := Except.bind_eq_ok.mp hrun
  obtain ⟨regFp, -, hdone⟩ := Except.bind_eq_ok.mp hrun
  obtain rfl := Except.ok.inj hdone
  obtain ⟨k, htree⟩ := grPgtInit_from hjunk hpool hpgt
  have hpool' : PoolOk pgt.machine.pool := by
    rw [show pgt.machine.pool = m.pool.drop k from htree.pool]
    exact hpool.drop k
  have hmcOk := grMemContentsInit_pagesOk hpool' hmc
  have hsynced := readSyncAs_synced _ _ _ mc.regions (sas, regions) hsas
  have hbacked := hsynced.backed
    (initRegions_backed nrVaRegion _ mc (fun p hp => hp) (fun r hr => absurd hr List.not_mem_nil) hmc)
  exact {
    length := fun r hr => (hbacked r hr).length
    aligned := fun r hr f hf => hpool'.aligned f ((hbacked r hr).frames f hf)
    nodup := by
      rw [List.flatMap_def, hsynced.pages, ← List.flatMap_def]
      exact hmcOk.nodup }

/-- The pages that are cleaned: those of the job pages among the regions, which are numbered
from `i` on. -/
def jobFrames : Nat → List Region → List Nat
  | _, [] => []
  | i, r :: regions => (if isJobPage i r then r.pages else []) ++ jobFrames (i + 1) regions

theorem jobFrames_sublist :
    ∀ (i : Nat) (regions : List Region),
      (jobFrames i regions).Sublist (regions.flatMap Region.pages) := by
  intro i regions
  induction regions generalizing i with
  | nil => exact List.Sublist.refl _
  | cons r regions ih =>
      rw [jobFrames, List.flatMap_cons]
      refine List.Sublist.append ?_ (ih (i + 1))
      split
      · exact List.Sublist.refl _
      · exact List.nil_sublist _

theorem pages_of_isJobPage {i : Nat} {r : Region} (hjob : isJobPage i r = true)
    (hlen : r.pages.length = r.nrPages) : ∃ f, r.pages = [f] := by
  simp only [isJobPage, Bool.and_eq_true, decide_eq_true_eq] at hjob
  exact List.length_eq_one_iff.mp (hlen.trans hjob.1.2)

/-- The turn of a job page. -/
theorem cleanUsedAtoms_job {i f : Nat} {r : Region} {regions : List Region} {mem : ByteMem}
    (hjob : isJobPage i r = true) (hpages : r.pages = [f]) (hf : f % 4096 = 0) :
    ((tableWords mem f).getLast? = some atomMark →
        cleanUsedAtoms i (r :: regions) mem = .error .undefined) ∧
      ((tableWords mem f).getLast? ≠ some atomMark →
        cleanUsedAtoms i (r :: regions) mem
          = cleanUsedAtoms (i + 1) regions (cleanPage mem f) >>= fun c => .ok (i :: c.1, c.2)) := by
  have hread : grReadPhys mem f 4096 = .ok (mem.read f 4096) := grReadPhys_eq (by rw [hf])
  have hpage : pageAt r.pages 0 = .ok f := by
    rw [hpages]
    rfl
  obtain ⟨hbad, hgood⟩ := cleanAtoms_eq (tableWords mem f)
  constructor
  · intro hlast
    rw [cleanUsedAtoms, if_pos hjob, hpage, Except.ok_bind, hread, Except.ok_bind, wordsOf_read,
      hbad hlast]
    rfl
  · intro hlast
    obtain ⟨isUsed, hclean, hsame⟩ := hgood hlast
    rw [cleanUsedAtoms, if_pos hjob, hpage, Except.ok_bind, hread, Except.ok_bind, wordsOf_read,
      hclean, Except.ok_bind]
    cases isUsed with
    | true =>
        have hwrite : grWritePhys mem f (Bytes.words (cleanedWords (tableWords mem f)))
            = .ok (cleanPage mem f) :=
          grWritePhys_eq (by
            rw [hf, Bytes.length_words, length_cleanedWords, length_tableWords])
        dsimp only
        rw [if_pos rfl, hwrite]
        rfl
    | false =>
        rw [cleanPage_of_cleaned (hsame rfl)]
        rfl

/-- **The loop over the regions** cleans the job pages, or stops at one whose last word is a
mark. -/
theorem cleanUsedAtoms_eq :
    ∀ (regions : List Region) (i : Nat) (mem : ByteMem), PagesOk regions →
      ((∃ f ∈ jobFrames i regions, (tableWords mem f).getLast? = some atomMark) →
          cleanUsedAtoms i regions mem = .error .undefined) ∧
        ((∀ f ∈ jobFrames i regions, (tableWords mem f).getLast? ≠ some atomMark) →
          ∃ checked, cleanUsedAtoms i regions mem
            = .ok (checked, cleanFrames (jobFrames i regions) mem)) := by
  intro regions
  induction regions with
  | nil =>
      intro i mem _
      exact ⟨fun ⟨f, hf, _⟩ => absurd hf List.not_mem_nil, fun _ => ⟨[], rfl⟩⟩
  | cons r regions ih =>
      intro i mem hok
      by_cases hjob : isJobPage i r = true
      · obtain ⟨f, hpages⟩ := pages_of_isJobPage hjob (hok.length r List.mem_cons_self)
        have hf : f % 4096 = 0 :=
          hok.aligned r List.mem_cons_self f (by rw [hpages]; exact List.mem_singleton_self f)
        have hframes : jobFrames i (r :: regions) = f :: jobFrames (i + 1) regions := by
          rw [jobFrames, if_pos hjob, hpages]
          rfl
        obtain ⟨hbad, hgood⟩ := @cleanUsedAtoms_job _ _ _ regions mem hjob hpages hf
        obtain ⟨ihbad, ihgood⟩ := ih (i + 1) (cleanPage mem f) hok.tail
        -- the pages to come are not the one just cleaned
        have hlater : ∀ g ∈ jobFrames (i + 1) regions,
            tableWords (cleanPage mem f) g = tableWords mem g := by
          intro g hg
          have hnodup := (jobFrames_sublist i (r :: regions)).nodup hok.nodup
          rw [hframes] at hnodup
          have hgframe := (jobFrames_sublist (i + 1) regions).subset hg
          obtain ⟨s, hs, hgs⟩ := List.mem_flatMap.mp hgframe
          refine (sameOutside_cleanPage mem hf).tableWords (hok.tail.aligned s hs g hgs) ?_
          exact fun hmem => (List.nodup_cons.mp hnodup).1 (List.mem_singleton.mp hmem ▸ hg)
        rw [hframes]
        constructor
        · rintro ⟨g, hg, hmark⟩
          by_cases hlast : (tableWords mem f).getLast? = some atomMark
          · exact hbad hlast
          · rw [hgood hlast]
            rcases List.mem_cons.mp hg with hfirst | hnext
            · exact absurd (hfirst ▸ hmark) hlast
            · rw [ihbad ⟨g, hnext, by rw [hlater g hnext]; exact hmark⟩]
              rfl
        · intro hmarks
          rw [hgood (hmarks f List.mem_cons_self)]
          obtain ⟨checked, hrest⟩ := ihgood fun g hg => by
            rw [hlater g hg]
            exact hmarks g (List.mem_cons_of_mem _ hg)
          rw [hrest]
          exact ⟨i :: checked, rfl⟩
      · have hframes : jobFrames i (r :: regions) = jobFrames (i + 1) regions := by
          rw [jobFrames, if_neg hjob]
          rfl
        rw [hframes, cleanUsedAtoms, if_neg hjob]
        exact ih (i + 1) mem hok.tail

theorem PagesOk.jobFrames_aligned {regions : List Region} (h : PagesOk regions) (i : Nat) :
    ∀ f ∈ jobFrames i regions, f % 4096 = 0 := by
  intro f hf
  obtain ⟨r, hr, hfr⟩ := List.mem_flatMap.mp ((jobFrames_sublist i regions).subset hf)
  exact h.aligned r hr f hfr

theorem PagesOk.jobFrames_nodup {regions : List Region} (h : PagesOk regions) (i : Nat) :
    (jobFrames i regions).Nodup :=
  (jobFrames_sublist i regions).nodup h.nodup

/-! ### What it is for -/

/-- What one run is to leave behind of the memory it found. -/
structure Cleaned (regions : List Region) (mem mem' : ByteMem) : Prop where
  noUsed : ∀ f ∈ jobFrames 0 regions, NoUsedAtom (tableWords mem' f)
  onlyMarks : ∀ f ∈ jobFrames 0 regions, ∀ i < 512,
    mem'.read64 (f + 8 * i) = mem.read64 (f + 8 * i) ∨
      mem.read64 (f + 8 * i) = atomMark ∧ mem'.read64 (f + 8 * i) = 0
  others : SameOutside (jobFrames 0 regions) mem mem'

/-- The cleaning does what it is for: it reads nothing behind a page, leaves no used atom,
changes nothing but the marks it clears, and a second run finds nothing to do. -/
def CleansAtoms (regions : List Region) (mem : ByteMem) : Prop :=
  ∃ checked mem', grCleanUsedAtom regions mem = .ok (checked, mem') ∧
    Cleaned regions mem mem' ∧ ∃ again, grCleanUsedAtom regions mem' = .ok (again, mem')

theorem tableWords_getElem? {mem : ByteMem} {f i : Nat} (hi : i < 512) :
    (tableWords mem f)[i]? = some (mem.read64 (f + 8 * i)) := by
  rw [tableWords, List.getElem?_map, List.getElem?_range hi]
  rfl

/-- The pages are as the cleaning needs them: the last word of a job page is no mark, and no
mark is in front of one that a `0` follows. -/
def Cleanable (regions : List Region) (mem : ByteMem) : Prop :=
  ∀ f ∈ jobFrames 0 regions,
    (tableWords mem f).getLast? ≠ some atomMark ∧ NoMarkedMark (tableWords mem f)

/-- Where the cleaning does what it is for, the pages were cleanable. -/
theorem CleansAtoms.cleanable {regions : List Region} {mem : ByteMem} (hok : PagesOk regions)
    (h : CleansAtoms regions mem) : Cleanable regions mem := by
  obtain ⟨checked, mem', hrun, hclean, -⟩ := h
  have hlast : ∀ f ∈ jobFrames 0 regions, (tableWords mem f).getLast? ≠ some atomMark := by
    intro f hf hmark
    rw [grCleanUsedAtom, (cleanUsedAtoms_eq regions 0 mem hok).1 ⟨f, hf, hmark⟩] at hrun
    exact absurd hrun (Except.ok_ne_error _ _).symm
  obtain ⟨checked', hrun'⟩ := (cleanUsedAtoms_eq regions 0 mem hok).2 hlast
  obtain ⟨-, hmem⟩ := Prod.mk.inj (Except.ok.inj (hrun.symm.trans hrun'))
  refine fun f hf => ⟨hlast f hf, ?_⟩
  have hused := hclean.noUsed f hf
  rw [hmem, tableWords_cleanFrames (hok.jobFrames_aligned 0) (hok.jobFrames_nodup 0) f hf] at hused
  exact (noUsedAtom_cleaned_iff _).mp hused

/-- **Cleaning the used atoms.**  It does what it is for exactly on the pages whose last word
is no mark and where no mark is in front of one that is cleared. -/
theorem cleansAtoms_iff {regions : List Region} (hok : PagesOk regions) (mem : ByteMem) :
    CleansAtoms regions mem ↔ Cleanable regions mem := by
  have haligned := hok.jobFrames_aligned 0
  have hcleaned := @tableWords_cleanFrames _ mem haligned (hok.jobFrames_nodup 0)
  constructor
  · exact CleansAtoms.cleanable hok
  · intro hpages
    obtain ⟨checked, hrun⟩ :=
      (cleanUsedAtoms_eq regions 0 mem hok).2 fun f hf => (hpages f hf).1
    have hused : ∀ f ∈ jobFrames 0 regions,
        NoUsedAtom (tableWords (cleanFrames (jobFrames 0 regions) mem) f) := by
      intro f hf
      rw [hcleaned f hf]
      exact (noUsedAtom_cleaned_iff _).mpr (hpages f hf).2
    have honly : ∀ f ∈ jobFrames 0 regions, ∀ i < 512,
        (cleanFrames (jobFrames 0 regions) mem).read64 (f + 8 * i) = mem.read64 (f + 8 * i) ∨
          mem.read64 (f + 8 * i) = atomMark ∧
            (cleanFrames (jobFrames 0 regions) mem).read64 (f + 8 * i) = 0 := by
      intro f hf i hi
      have hword := @tableWords_getElem? (cleanFrames (jobFrames 0 regions) mem) f _ hi
      rw [hcleaned f hf, getElem?_cleanedWords, tableWords_getElem? hi, Option.map_some] at hword
      have hword := Option.some.inj hword
      split at hword
      · next hmark => exact Or.inr ⟨hmark.1, hword.symm⟩
      · exact Or.inl hword.symm
    -- the last word of a page stays, for it is no mark
    have hagain := (cleanUsedAtoms_eq regions 0 (cleanFrames (jobFrames 0 regions) mem) hok).2
      fun f hf hmark => by
        rw [hcleaned f hf, List.getLast?_eq_getElem?, length_cleanedWords, getElem?_cleanedWords]
          at hmark
        obtain ⟨word, hword, heq⟩ := Option.map_eq_some_iff.mp hmark
        split at heq
        · exact absurd heq (by decide)
        · refine (hpages f hf).1 ?_
          rw [List.getLast?_eq_getElem?, hword, heq]
    rw [cleanFrames_of_cleaned fun f hf => cleanedWords_of_noUsedAtom (hused f hf)] at hagain
    exact ⟨checked, _, hrun, ⟨hused, honly, sameOutside_cleanFrames haligned⟩, hagain⟩

/-- Seven regions nothing was recorded for, and a job page at `0x1000`. -/
def jobRegions : List Region :=
  List.replicate 7 ⟨0, 0, [], 0, 0, 0, 0⟩ ++ [⟨0x8000, 0x9000, [0x1000], 1, 0x606e, 1, 0⟩]

theorem jobRegions_pagesOk : PagesOk jobRegions where
  length := by decide
  aligned := by decide
  nodup := by decide

/-- The memory with a used atom at the start of the job page. -/
def usedMem : ByteMem := ByteMem.write64 (fun _ => 0) 0x1000 atomMark

theorem cleansAtoms_used :
    PagesOk jobRegions ∧ (CleansAtoms jobRegions usedMem ↔ Cleanable jobRegions usedMem) :=
  ⟨jobRegions_pagesOk, cleansAtoms_iff jobRegions_pagesOk usedMem⟩

/-- The memory where another mark is in front of the used atom. -/
def markedMem : ByteMem := usedMem.write64 0x1008 atomMark

/-- The first mark stays, and is now in front of a `0`. -/
theorem marked_not_cleaned : PagesOk jobRegions ∧ ¬CleansAtoms jobRegions markedMem := by
  have hfirst : markedMem.read64 0x1000 = atomMark := by
    rw [markedMem, ByteMem.read64_write64_of_disjoint _ (by decide), usedMem,
      ByteMem.read64_write64_self _ _ (by decide)]
  have hsecond : markedMem.read64 0x1008 = atomMark := by
    rw [markedMem, ByteMem.read64_write64_self _ _ (by decide)]
  have hthird : markedMem.read64 0x1010 = 0 := by
    rw [markedMem, ByteMem.read64_write64_of_disjoint _ (by decide), usedMem,
      ByteMem.read64_write64_of_disjoint _ (by decide)]
    decide
  refine ⟨jobRegions_pagesOk, fun h => ?_⟩
  have hpage := (h.cleanable jobRegions_pagesOk 0x1000 (by decide)).2
  refine hpage 0 ⟨?_, ?_, ?_⟩
  · exact (tableWords_getElem? (by decide)).trans (congrArg some hfirst)
  · exact (tableWords_getElem? (by decide)).trans (congrArg some hsecond)
  · exact (tableWords_getElem? (by decide)).trans (congrArg some hthird)

end GpuReplay.Replayer
