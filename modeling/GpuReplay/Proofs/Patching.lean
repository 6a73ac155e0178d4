/-
The leaf entries that loading a memory dump overwrites.

`gr_mem_contents_init` walks to a leaf entry for every page it loads.  `Patched` says
which entries were visited, and holds after every page: the levels above the bottom
stay, an entry that was visited leads to a page of the pool, and an entry that was not
is still the word of the dump.
-/
import GpuReplay.Proofs.BuiltTables

namespace GpuReplay.Replayer

open Stdio Driver RadixTree

/-! ### Which pages the memory dump loads -/

/-- Where the file and the address are after a page of a region. -/
def nextTriple (isValid : Nat) (f : Stream) (vaddr : Nat) : Stream × Nat :=
  if isValid ≠ 0 then
    ((((f.readWord 8 vaddr).2.readWord 8 0).2.read 4096 []).2, (f.readWord 8 vaddr).1)
  else
    (f, vaddr)

/-- The addresses the page loop visits, with `n` pages to go, and the file after it. -/
def visitedPages (gmEnd isValid : Nat) : Nat → Stream → Nat → List Nat × Stream
  | 0, f, _ => ([], f)
  | n + 1, f, vaddr =>
      if vaddr < gmEnd then
        let (f, next) := nextTriple isValid f vaddr
        let (addrs, f) := visitedPages gmEnd isValid n f ((next + 4096) % 2 ^ 64)
        (vaddr :: addrs, f)
      else
        ([], f)

/-- The addresses the loop over the records visits. -/
def visitedRegions : Nat → Locals → Stream → List Nat
  | 0, _, _ => []
  | n + 1, l, f =>
      if f.eof then []
      else
        let (l, f) := readHeader l f
        let (addrs, f) := visitedPages l.gmEnd l.isValid l.nents f l.gmStart
        addrs ++ visitedRegions n l f

/-- The GPU addresses whose pages a memory dump loads. -/
def loadedPages (locals : Locals) (file : List UInt8) : List Nat :=
  visitedRegions nrVaRegion locals (Stream.open file)

/-- The number of a page among those the MMU translates. -/
def gpuPage (gaddr : Nat) : Nat := gaddr / 4096 % 2 ^ 36

theorem gpuPage_eq_iff {a b : Nat} :
    gpuPage a = gpuPage b ↔ ∀ h, h ≤ 3 → gpuIndex a h = gpuIndex b h := by
  unfold gpuPage gpuIndex pgdOffset
  generalize a / 4096 = x
  generalize b / 4096 = y
  constructor
  · intro hxy h hle
    obtain rfl | rfl | rfl | rfl : h = 0 ∨ h = 1 ∨ h = 2 ∨ h = 3 := by omega
    · show x / 2 ^ 0 % 512 = y / 2 ^ 0 % 512
      omega
    · show x / 2 ^ 9 % 512 = y / 2 ^ 9 % 512
      omega
    · show x / 2 ^ 18 % 512 = y / 2 ^ 18 % 512
      omega
    · show x / 2 ^ 27 % 512 = y / 2 ^ 27 % 512
      omega
  · intro hdigits
    have h₀ : x / 2 ^ 0 % 512 = y / 2 ^ 0 % 512 := hdigits 0 (by decide)
    have h₁ : x / 2 ^ 9 % 512 = y / 2 ^ 9 % 512 := hdigits 1 (by decide)
    have h₂ : x / 2 ^ 18 % 512 = y / 2 ^ 18 % 512 := hdigits 2 (by decide)
    have h₃ : x / 2 ^ 27 % 512 = y / 2 ^ 27 % 512 := hdigits 3 (by decide)
    omega

/-! ### The entries the replayer writes -/

/-- An entry is a frame, the flags' bits, and constants below them. -/
theorem grEntryGetAte_eq (paddr flags level : Nat) :
    ∃ low < 2 ^ 12,
      grEntryGetAte paddr flags level = paddr ||| Driver.getMmuFlags flags ||| low := by
  by_cases hlevel : level = midgardMmuBottomlevel
  · refine ⟨entryAccessBit ||| entryIsAteL3, by decide, ?_⟩
    rw [grEntryGetAte, if_pos hlevel, ← Nat.or_assoc]
    rfl
  · refine ⟨entryAccessBit ||| entryIsAteL02, by decide, ?_⟩
    rw [grEntryGetAte, if_neg hlevel, ← Nat.or_assoc]
    rfl

theorem grEntryGetAte_lt {frame level : Nat} (hlt : frame < 2 ^ 48) (flags : Nat) :
    grEntryGetAte frame flags level < 2 ^ 55 := by
  have hframe : frame < 2 ^ 55 := Nat.lt_trans hlt (by decide)
  obtain ⟨low, hlow, heq⟩ := grEntryGetAte_eq frame flags level
  rw [heq]
  exact Nat.or_lt_two_pow (Nat.or_lt_two_pow hframe (getMmuFlags_lt flags))
    (Nat.lt_trans hlow (by decide))

/-- **A leaf entry leads to the frame it was made from.** -/
theorem pteToPhysAddr_grEntryGetAte {frame level : Nat} (haligned : frame % 4096 = 0)
    (hlt : frame < 2 ^ 48) (flags : Nat) :
    pteToPhysAddr (grEntryGetAte frame flags level) = frame := by
  have hbound := @grEntryGetAte_lt frame level hlt flags
  have hbits : ∀ j, 12 ≤ j → j < 54 →
      (grEntryGetAte frame flags level).testBit j = frame.testBit j := by
    intro j hj hj54
    obtain ⟨low, hlow, heq⟩ := grEntryGetAte_eq frame flags level
    have hzero : low.testBit j = false :=
      Nat.testBit_lt_two_pow (Nat.lt_of_lt_of_le hlow (Nat.pow_le_pow_right (by decide) hj))
    rw [heq, Nat.testBit_or, Nat.testBit_or, hzero,
      testBit_getMmuFlags_high flags hj (Nat.ne_of_lt hj54), Bool.or_false, Bool.or_false]
  generalize grEntryGetAte frame flags level = w at hbound hbits
  -- taking bit 54 off leaves the 54 bits below it
  have hclear : pteToPhysAddr w = pageStart (w % 2 ^ 54) := by
    have hnx : w &&& entryNxBit = (w.testBit 54).toNat * 2 ^ 54 := by
      unfold entryNxBit
      rw [Nat.one_shiftLeft, Nat.and_two_pow]
    have htest : w.testBit 54 = decide (2 ^ 54 ≤ w) := by
      rw [Nat.testBit_eq_decide_div_mod_eq]
      refine decide_eq_decide.mpr ?_
      omega
    unfold pteToPhysAddr
    simp only
    rw [hnx, htest]
    by_cases hle : 2 ^ 54 ≤ w
    · have hsub : w - entryNxBit = w % 2 ^ 54 := by
        have hval : entryNxBit = 2 ^ 54 := rfl
        rw [hval]
        omega
      rw [decide_eq_true hle, if_pos (by decide), hsub]
    · rw [decide_eq_false hle, if_neg (by decide), Nat.mod_eq_of_lt (Nat.not_le.mp hle)]
  have hstart : pageStart (w % 2 ^ 54) = 2 ^ 12 * (w % 2 ^ 54 / 2 ^ 12) := by
    unfold pageStart
    omega
  rw [hclear, hstart]
  refine Nat.eq_of_testBit_eq fun j => ?_
  rw [Nat.testBit_two_pow_mul, Nat.testBit_div_two_pow, Nat.testBit_mod_two_pow]
  by_cases hj : j < 12
  · rw [decide_eq_false (Nat.not_le.mpr hj), Bool.false_and, testBit_aligned haligned hj]
  · have hj := Nat.not_lt.mp hj
    rw [decide_eq_true hj, Bool.true_and, Nat.sub_add_cancel hj]
    by_cases hj54 : j < 54
    · rw [decide_eq_true hj54, Bool.true_and, hbits j hj hj54]
    · rw [decide_eq_false hj54, Bool.false_and, Nat.testBit_lt_two_pow]
      exact Nat.lt_of_lt_of_le hlt (Nat.pow_le_pow_right (by decide) (by omega))

/-! ### Patching the leaf entries -/

theorem entries_write64_self (mem : ByteMem) (q i : Nat) {x : Nat} (hx : x < 2 ^ 64) :
    entries (mem.write64 (q + 8 * i) x) q i = x :=
  ByteMem.read64_write64_self mem _ hx

theorem entries_write64_ne (mem : ByteMem) {q q₀ i i₀ : Nat} (x : Nat) (hq : q % 4096 = 0)
    (hq₀ : q₀ % 4096 = 0) (hi : i < 512) (hi₀ : i₀ < 512) (hne : q ≠ q₀ ∨ i ≠ i₀) :
    entries (mem.write64 (q₀ + 8 * i₀) x) q i = entries mem q i :=
  ByteMem.read64_write64_of_disjoint mem (by omega)

/-- The memory `mem`, in which the leaf entries of the pages of `addrs` have been exchanged
for entries of frames of `frames`; the page table is the one at `root` in `mem₀`. -/
structure Patched (mem₀ : ByteMem) (root : Nat) (frames addrs : List Nat) (mem : ByteMem) :
    Prop where
  upper : SameUpper tableAt 512 (entries mem₀) (entries mem) 3 root
  loaded : ∀ gaddr, (∃ a ∈ addrs, gpuPage a = gpuPage gaddr) → ∃ frame ∈ frames, ∃ flags,
    gpuLookup mem root gaddr = grEntryGetAte frame flags midgardMmuBottomlevel
  kept : ∀ gaddr, (∀ a ∈ addrs, gpuPage a ≠ gpuPage gaddr) →
    gpuLookup mem root gaddr = gpuLookup mem₀ root gaddr

theorem Patched.init (mem₀ : ByteMem) (root : Nat) (frames : List Nat) :
    Patched mem₀ root frames [] mem₀ where
  upper := SameUpper.refl 3 root
  loaded := by
    rintro gaddr ⟨a, ha, -⟩
    exact absurd ha (by simp)
  kept := fun _ _ => rfl

theorem Patched.mono {mem₀ mem : ByteMem} {root : Nat} {frames frames' addrs : List Nat}
    (h : Patched mem₀ root frames addrs mem) (hsub : ∀ p ∈ frames, p ∈ frames') :
    Patched mem₀ root frames' addrs mem where
  upper := h.upper
  loaded := fun gaddr hin => by
    obtain ⟨frame, hframe, hflags⟩ := h.loaded gaddr hin
    exact ⟨frame, hsub frame hframe, hflags⟩
  kept := h.kept

/-- The page table before the memory dump is loaded: its tables are distinct aligned pages,
and the nodes stand for them. -/
structure TableTree (heap : List UserPgtable) (mem₀ : ByteMem) (root : Nat) (userPgt : UserPtr) :
    Prop where
  nodup : (pages tableAt 512 (entries mem₀) 3 root).Nodup
  aligned : ∀ q ∈ pages tableAt 512 (entries mem₀) 3 root, q % 4096 = 0
  nodes : ∃ lo node, userPgt = .node node ∧ UserTree heap (entries mem₀) lo 3 root node

/-- A frame the memory dump is loaded into: none of the tables is on it. -/
structure Fresh (mem₀ : ByteMem) (root : Nat) (frames : List Nat) (frame : Nat) : Prop where
  mem : frame ∈ frames
  aligned : frame % 4096 = 0
  lt : frame < 2 ^ 48
  notin : frame ∉ pages tableAt 512 (entries mem₀) 3 root

/-- What the loop body does to memory, when it returns. -/
theorem initPage_ok {heap : List UserPgtable} {userPgt : UserPtr} {flags isValid newPage : Nat}
    {s s' : PageState} (haligned : newPage % 4096 = 0)
    (hrun : initPage heap userPgt flags isValid newPage s = .ok s') :
    ∃ target pgd mem₁, grGetUserPgdAtLevel heap userPgt s.vaddr midgardMmuBottomlevel = .ok target ∧
      derefPgt heap target = .ok pgd ∧ SameOutside [newPage] s.mem mem₁ ∧
      s'.mem = mem₁.write64 (pgd.physPage + 8 * gpuIndex s.vaddr 0)
        (grEntryGetAte newPage flags midgardMmuBottomlevel) ∧
      (s'.stream, s'.vaddr) = nextTriple isValid s.stream s.vaddr := by
  have hindex : gpuIndex s.vaddr 0 = s.vaddr / 4096 % 512 := by
    show s.vaddr / 4096 / 2 ^ 0 % 512 = _
    rw [Nat.pow_zero, Nat.div_one]
  unfold initPage at hrun
  simp only at hrun
  obtain ⟨target, htarget, hrun⟩ := Except.bind_eq_ok.mp hrun
  obtain ⟨pgd, hpgd, hrun⟩ := Except.bind_eq_ok.mp hrun
  rw [hindex]
  by_cases hvalid : isValid = 0
  · rw [if_neg (not_not.mpr hvalid)] at hrun
    obtain ⟨s₁, hread, hdone⟩ := Except.bind_eq_ok.mp hrun
    obtain rfl := Except.ok.inj hread
    obtain rfl := Except.ok.inj hdone
    refine ⟨target, pgd, s.mem, htarget, hpgd, SameOutside.refl _ _, rfl, ?_⟩
    rw [nextTriple, if_neg (not_not.mpr hvalid)]
  · rw [if_pos hvalid] at hrun
    obtain ⟨mem₁, hwrite, hrun⟩ := Except.bind_eq_ok.mp hrun
    obtain ⟨s₁, hread, hdone⟩ := Except.bind_eq_ok.mp hrun
    obtain rfl := Except.ok.inj hread
    obtain rfl := Except.ok.inj hdone
    refine ⟨target, pgd, mem₁, htarget, hpgd, ?_, rfl, ?_⟩
    · unfold grWritePhys at hwrite
      have hstart : pageStart newPage = newPage := by unfold pageStart; omega
      have hmap : grMapPage newPage = .ok newPage := if_neg (fun h => h haligned)
      simp only [hstart, hmap, Except.ok_bind, haligned, Nat.zero_add, Nat.add_zero] at hwrite
      split_ifs at hwrite with hfits
      obtain rfl := Except.ok.inj hwrite
      exact sameOutside_write s.mem haligned hfits
    · rw [nextTriple, if_pos hvalid]
      rfl

section Pages

variable {heap : List UserPgtable} {mem₀ : ByteMem} {root : Nat} {userPgt : UserPtr}
  (htree : TableTree heap mem₀ root userPgt)

include htree

/-- **One page**: its entry leads to the new frame, and every other entry stays. -/
theorem initPage_patched {frames addrs : List Nat} {flags isValid newPage : Nat} {s s' : PageState}
    (h : Patched mem₀ root frames addrs s.mem) (hfresh : Fresh mem₀ root frames newPage)
    (hrun : initPage heap userPgt flags isValid newPage s = .ok s') :
    Patched mem₀ root frames (addrs ++ [s.vaddr]) s'.mem ∧
      (s'.stream, s'.vaddr) = nextTriple isValid s.stream s.vaddr := by
  obtain ⟨target, pgd, mem₁, htarget, hpgd, hframe, hmem, hnext⟩ :=
    initPage_ok hfresh.aligned hrun
  refine ⟨?_, hnext⟩
  rw [hmem]
  obtain ⟨lo, node, rfl, hnodes⟩ := htree.nodes
  -- the contents of the page are no part of any table
  have hcontents : ∀ q ∈ pages tableAt 512 (entries s.mem) 3 root, ∀ i, i < 512 →
      entries mem₁ q i = entries s.mem q i := by
    intro q hq i hi
    rw [h.upper.pages_eq] at hq
    refine hframe.entries_eq (htree.aligned q hq) ?_ hi
    rw [List.mem_singleton]
    rintro rfl
    exact hfresh.notin hq
  have hupper : SameUpper tableAt 512 (entries mem₀) (entries mem₁) 3 root :=
    h.upper.trans (sameUpper_of_pages hcontents)
  have hlookup : ∀ gaddr, gpuLookup mem₁ root gaddr = gpuLookup s.mem root gaddr :=
    fun gaddr => lookup_of_pages (gpuIndex_lt gaddr) hcontents
  -- the bottom table of the address
  have hix := gpuIndex_lt s.vaddr
  have hleaf₀ := hnodes.walk (Nat.le_refl 3) htarget hpgd
  have hleaf : leafPage tableAt (entries mem₁) (gpuIndex s.vaddr) 3 root = some pgd.physPage :=
    (hupper.leafPage_eq hix).trans hleaf₀
  have hnodup : (pages tableAt 512 (entries mem₁) 3 root).Nodup := by
    rw [hupper.pages_eq]
    exact htree.nodup
  have haligned : ∀ q ∈ pages tableAt 512 (entries mem₁) 3 root, q % 4096 = 0 := by
    rw [hupper.pages_eq]
    exact htree.aligned
  have hbottom := haligned _ (leafPage_mem hix hleaf)
  have hentry : grEntryGetAte newPage flags midgardMmuBottomlevel < 2 ^ 64 :=
    Nat.lt_trans (grEntryGetAte_lt hfresh.lt flags) (by decide)
  have hself := entries_write64_self mem₁ pgd.physPage (gpuIndex s.vaddr 0) hentry
  have hsame : ∀ q ∈ pages tableAt 512 (entries mem₁) 3 root, ∀ i, i < 512 →
      q ≠ pgd.physPage ∨ i ≠ gpuIndex s.vaddr 0 →
      entries (mem₁.write64 (pgd.physPage + 8 * gpuIndex s.vaddr 0)
        (grEntryGetAte newPage flags midgardMmuBottomlevel)) q i = entries mem₁ q i :=
    fun q hq i hi hne => entries_write64_ne mem₁ _ (haligned q hq) hbottom hi (hix 0) hne
  have hother : ∀ gaddr, gpuPage s.vaddr ≠ gpuPage gaddr →
      gpuLookup (mem₁.write64 (pgd.physPage + 8 * gpuIndex s.vaddr 0)
        (grEntryGetAte newPage flags midgardMmuBottomlevel)) root gaddr
        = gpuLookup s.mem root gaddr := by
    intro gaddr hne
    rw [← hlookup gaddr]
    refine lookup_store_ne hix (gpuIndex_lt gaddr) hnodup hleaf hsame ?_
    by_contra hall
    refine hne (gpuPage_eq_iff.mpr fun k hle => ?_)
    by_contra hk
    exact hall ⟨k, hle, Ne.symm hk⟩
  exact {
    upper := hupper.trans (sameUpper_store hix hnodup hleaf hsame)
    loaded := by
      rintro gaddr ⟨a, ha, hpage⟩
      by_cases hv : gpuPage s.vaddr = gpuPage gaddr
      · refine ⟨newPage, hfresh.mem, flags, ?_⟩
        rw [gpuLookup, lookup_store_self hix (gpuIndex_lt gaddr) hnodup hleaf hsame
          (fun k hle => (gpuPage_eq_iff.mp hv k hle).symm), hself]
      · rcases List.mem_append.mp ha with ha | ha
        · obtain ⟨frame, hin, flags', hword⟩ := h.loaded gaddr ⟨a, ha, hpage⟩
          exact ⟨frame, hin, flags', (hother gaddr hv).trans hword⟩
        · rw [List.mem_singleton.mp ha] at hpage
          exact absurd hpage hv
    kept := fun gaddr hnone => by
      have hv := hnone s.vaddr (List.mem_append_right _ List.mem_cons_self)
      rw [hother gaddr hv]
      exact h.kept gaddr fun a ha => hnone a (List.mem_append_left _ ha) }

/-- **The pages of a region.** -/
theorem initPages_patched (frames : List Nat) {gmEnd flags isValid : Nat} :
    ∀ (newPages : List Nat) (addrs : List Nat) (s s' : PageState),
      (∀ p ∈ newPages, Fresh mem₀ root frames p) → Patched mem₀ root frames addrs s.mem →
      initPages heap userPgt gmEnd flags isValid newPages s = .ok s' →
      Patched mem₀ root frames
          (addrs ++ (visitedPages gmEnd isValid newPages.length s.stream s.vaddr).1) s'.mem ∧
        s'.stream = (visitedPages gmEnd isValid newPages.length s.stream s.vaddr).2 := by
  intro newPages
  induction newPages with
  | nil =>
      intro addrs s s' _ h hrun
      obtain rfl := Except.ok.inj hrun
      refine ⟨?_, rfl⟩
      show Patched mem₀ root frames (addrs ++ []) s.mem
      rwa [List.append_nil]
  | cons newPage newPages ih =>
      intro addrs s s' hfresh h hrun
      rw [initPages] at hrun
      rw [List.length_cons, visitedPages]
      by_cases hlt : s.vaddr < gmEnd
      · rw [if_pos hlt] at hrun ⊢
        obtain ⟨s₁, hpage, hrest⟩ := Except.bind_eq_ok.mp hrun
        obtain ⟨h₁, hnext⟩ :=
          initPage_patched htree h (hfresh newPage List.mem_cons_self) hpage
        have hrec := ih _ { s₁ with vaddr := (s₁.vaddr + 4096) % 2 ^ 64 } s'
          (fun p hp => hfresh p (List.mem_cons_of_mem _ hp)) h₁ hrest
        rw [← hnext]
        simp only
        rw [← List.singleton_append, ← List.append_assoc]
        exact hrec
      · rw [if_neg hlt] at hrun ⊢
        obtain rfl := Except.ok.inj hrun
        refine ⟨?_, rfl⟩
        show Patched mem₀ root frames (addrs ++ []) s.mem
        rwa [List.append_nil]

end Pages

theorem visitedRegions_congr :
    ∀ (n : Nat) (l : Locals) (f : Stream) (paddr : Nat) (buf : List UInt8),
      visitedRegions n { l with paddr := paddr, buf := buf } f = visitedRegions n l f := by
  intro n
  induction n with
  | zero => exact fun _ _ _ _ => rfl
  | succ n ih =>
      intro l f paddr buf
      rw [visitedRegions, visitedRegions, readHeader_with]
      by_cases hf : f.eof = true
      · rw [if_pos hf, if_pos hf]
      · rw [if_neg hf, if_neg hf]
        simp only
        rw [ih]

/-- What the body of the loop over the records does, when it returns. -/
theorem initRegion_ok {heap : List UserPgtable} {userPgt : UserPtr} {s s' : McState}
    (hrun : initRegion heap userPgt s = .ok s') :
    ∃ p, (readHeader s.locals s.stream).1.nents ≤ s.pool.length ∧
      initPages heap userPgt (readHeader s.locals s.stream).1.gmEnd
        (readHeader s.locals s.stream).1.flags (readHeader s.locals s.stream).1.isValid
        (s.pool.take (readHeader s.locals s.stream).1.nents)
        ⟨(readHeader s.locals s.stream).2, (readHeader s.locals s.stream).1.gmStart,
          (readHeader s.locals s.stream).1.paddr, (readHeader s.locals s.stream).1.buf, s.mem⟩
        = .ok p ∧
      s'.stream = p.stream ∧ s'.mem = p.mem ∧
      s'.pool = s.pool.drop (readHeader s.locals s.stream).1.nents ∧
      s'.locals = { (readHeader s.locals s.stream).1 with paddr := p.paddr, buf := p.buf } := by
  unfold initRegion at hrun
  generalize readHeader s.locals s.stream = header at hrun ⊢
  obtain ⟨l, f⟩ := header
  simp only at hrun ⊢
  obtain ⟨⟨taken, pool⟩, htake, hrun⟩ := Except.bind_eq_ok.mp hrun
  obtain ⟨p, hpages, hdone⟩ := Except.bind_eq_ok.mp hrun
  obtain rfl := Except.ok.inj hdone
  unfold takePages at htake
  by_cases hroom : l.nents ≤ s.pool.length
  · rw [if_pos hroom] at htake
    obtain ⟨rfl, rfl⟩ := Prod.mk.inj (Except.ok.inj htake)
    exact ⟨p, hroom, hpages, rfl, rfl, rfl, rfl⟩
  · rw [if_neg hroom] at htake
    exact absurd htake (by simp)

/-- Records that are loaded fit: there was an entry of the array left for each of them and for
one more, a frame for each page, and a table. -/
theorem initRegions_fits {heap : List UserPgtable} {userPgt : UserPtr} :
    ∀ {recs : List McRecord} {n : Nat} {s s' : McState} {rest : List UInt8},
      (∀ rec ∈ recs, rec.WF) → (∀ frame ∈ s.pool, frame % 4096 = 0) → s.locals.paddr < 2 ^ 64 →
      s.locals.buf.length = 4096 → s.stream = ⟨dump recs ++ rest, false⟩ →
      initRegions heap userPgt n s = .ok s' →
      recs.length < n ∧ totalNents recs ≤ s.pool.length ∧
        ∀ rec ∈ recs, HasLeaves heap userPgt rec.gmStart rec.nents := by
  intro recs
  induction recs with
  | nil =>
      intro n s s' rest _ _ _ _ hstream hrun
      refine ⟨?_, Nat.zero_le _, fun rec hrec => absurd hrec List.not_mem_nil⟩
      cases n with
      | zero =>
          rw [initRegions, if_neg (by rw [hstream]; exact Bool.false_ne_true)] at hrun
          cases hrun
      | succ n => exact Nat.zero_lt_succ n
  | cons rec recs ih =>
      intro n s s' rest hwf hpool hpaddr hbuf hstream hrun
      have hrec := hwf rec List.mem_cons_self
      have hsum : totalNents (rec :: recs) = rec.nents + totalNents recs := rfl
      have hstream' : s.stream = ⟨rec.bytes ++ (dump recs ++ rest), false⟩ := by
        rw [hstream, dump, List.flatMap_cons, List.append_assoc, dump]
      have heof : ¬s.stream.eof = true := by rw [hstream]; exact Bool.false_ne_true
      cases n with
      | zero =>
          rw [initRegions, if_neg heof] at hrun
          cases hrun
      | succ n =>
          rw [initRegions, if_neg heof] at hrun
          obtain ⟨s₁, hregion, hrest⟩ := Except.bind_eq_ok.mp hrun
          obtain ⟨p, hroom, hpages, -⟩ := initRegion_ok hregion
          have hheader := readHeader_record hrec s.locals (dump recs ++ rest) false
          rw [← hstream'] at hheader
          rw [hheader] at hroom hpages
          have hleaves := (initPages_record_ok hrec
            (fun frame hframe => hpool frame (List.mem_of_mem_take hframe))
            (List.length_take_of_le hroom) hbuf hpages).1
          obtain ⟨s₂, hregion₂, hafter, -⟩ := initRegion_record hrec hleaves hpool hpaddr hbuf hroom
            hstream'
          obtain rfl : s₂ = s₁ := Except.ok.inj (hregion₂.symm.trans hregion)
          obtain ⟨hlen, hframes, hall⟩ := ih (fun r hr => hwf r (List.mem_cons_of_mem _ hr))
            (fun frame hframe => hpool frame (List.mem_of_mem_drop (hafter.pool ▸ hframe)))
            hafter.locals.paddr hafter.locals.buf hafter.stream hrest
          rw [hafter.pool, List.length_drop] at hframes
          dsimp only at hroom
          refine ⟨Nat.succ_lt_succ hlen, by omega, ?_⟩
          intro r hr
          rcases List.mem_cons.mp hr with rfl | hr
          · exact hleaves
          · exact hall r hr

/-- **A dump that is loaded** has a table for each of its pages, and frames enough; its last
record is loaded a second time. -/
theorem grMemContentsInit_again {m : Machine} {userPgt : UserPtr} {locals : Locals}
    {recs : List McRecord} {mc : McState} (hwf : ∀ rec ∈ recs, rec.WF)
    (hpool : ∀ frame ∈ m.pool, frame % 4096 = 0) (hpaddr : locals.paddr < 2 ^ 64)
    (hbuf : locals.buf.length = 4096) {last : McRecord} (hlast : recs.getLast? = some last)
    (hrun : grMemContentsInit m userPgt locals (dump recs) = .ok mc) :
    (∀ rec ∈ recs, HasLeaves m.heap userPgt rec.gmStart rec.nents) ∧
      totalNents recs + last.nents ≤ m.pool.length ∧
      mc.regions = regionsOf recs m.pool
        ++ [last.region ((m.pool.drop (totalNents recs)).take last.nents)] ∧
      mc.mem = storePages (leafSlot m.heap userPgt) last.flags last.gmStart
        (((m.pool.drop (totalNents recs)).take last.nents).zip
          (last.again (bufAfter recs locals.buf)))
        (storeRecords (leafSlot m.heap userPgt) recs m.pool m.mem) := by
  have hstream : Stream.open (dump recs) = ⟨dump recs ++ [], false⟩ := by
    rw [List.append_nil]
    rfl
  have hin := List.mem_of_getLast? hlast
  unfold grMemContentsInit at hrun
  obtain ⟨hlen, henough, hleaves⟩ := initRegions_fits hwf hpool hpaddr hbuf hstream hrun
  obtain ⟨k, hk⟩ := Nat.exists_eq_add_of_lt hlen
  obtain ⟨s₁, hturns, hstream₁, hafter, hpaddr₁, hbuf₁, hmem₁, hpool₁, hregions, -, hlocal⟩ :=
    @initRegions_records m.heap userPgt (k + 1) recs
      ⟨Stream.open (dump recs), locals, m.mem, m.pool, [], 0⟩ []
      (fun rec hrec => ⟨hwf rec hrec, hleaves rec hrec⟩) hpool hpaddr hbuf hstream henough
  have hl : s₁.locals.After last := by
    have := hafter last fun hnil => by rw [hnil] at hlast; simp at hlast
    rwa [List.getLastD_eq_getLast?, hlast] at this
  rw [hk, Nat.add_assoc, hturns, initRegions,
    if_neg (by rw [hstream₁]; exact Bool.false_ne_true)] at hrun
  obtain ⟨s₂, hregion, hrest⟩ := Except.bind_eq_ok.mp hrun
  have hheader := readHeader_again (hwf last hin) hl false
  rw [← hstream₁] at hheader
  obtain ⟨p, hroom, -⟩ := initRegion_ok hregion
  rw [hheader, hl.nents] at hroom
  obtain ⟨s₃, hregion₃, hdone⟩ := initRegion_again (hwf last hin) (hleaves last hin)
    (fun frame hframe => hpool frame (List.mem_of_mem_drop (hpool₁ ▸ hframe))) hpaddr₁ hbuf₁ hroom hl
    hstream₁
  obtain rfl : s₃ = s₂ := Except.ok.inj (hregion₃.symm.trans hregion)
  have hend : s₃.stream.eof = true := by rw [hdone.stream]
  have hmc : s₃ = mc := by
    cases k with
    | zero =>
        rw [initRegions, if_pos hend] at hrest
        exact Except.ok.inj hrest
    | succ k =>
        rw [initRegions, if_pos hend] at hrest
        exact Except.ok.inj hrest
  rw [hpool₁, List.length_drop] at hroom
  dsimp only at hroom henough
  refine ⟨hleaves, by omega, ?_, ?_⟩
  · rw [← hmc, hdone.regions, hregions, hpool₁]
    rfl
  · rw [← hmc, hdone.mem, hmem₁, hpool₁, hlocal]

section Regions

variable {heap : List UserPgtable} {mem₀ : ByteMem} {root : Nat} {userPgt : UserPtr}
  {pool : List Nat} {tables : Nat}
  (htree : TableTree heap mem₀ root userPgt) (hpool : PoolOk pool)
  (hlt : ∀ frame ∈ pool, frame < 2 ^ 48)
  (htables : pages tableAt 512 (entries mem₀) 3 root = pool.take tables)

include hpool hlt htables

/-- Frames handed out after the tables were built. -/
theorem fresh_of_later {k n p : Nat} (hk : tables ≤ k) (hp : p ∈ (pool.drop k).take n) :
    Fresh mem₀ root (pool.take (k + n)) p := by
  have hmem : p ∈ pool := List.mem_of_mem_drop (List.mem_of_mem_take hp)
  refine ⟨?_, hpool.aligned p hmem, hlt p hmem, fun htable => ?_⟩
  · rw [List.take_add]
    exact List.mem_append_right _ hp
  · rw [htables] at htable
    exact hpool.not_mem_later (List.take_subset_take_left pool hk htable) hp

include htree

/-- **The records of a memory dump**: what each of them takes from the pool is added to the
frames, and what it visits to the pages. -/
theorem initRegions_patched :
    ∀ (n : Nat) (s s' : McState) (k : Nat) (addrs : List Nat), tables ≤ k →
      s.pool = pool.drop k → Patched mem₀ root (pool.take k) addrs s.mem →
      initRegions heap userPgt n s = .ok s' →
      ∃ k', s'.pool = pool.drop k' ∧ tables ≤ k' ∧
        Patched mem₀ root (pool.take k') (addrs ++ visitedRegions n s.locals s.stream) s'.mem := by
  intro n
  induction n with
  | zero =>
      intro s s' k addrs hk hs h hrun
      rw [initRegions] at hrun
      split_ifs at hrun
      obtain rfl := Except.ok.inj hrun
      refine ⟨k, hs, hk, ?_⟩
      show Patched mem₀ root (pool.take k) (addrs ++ []) s.mem
      rwa [List.append_nil]
  | succ n ih =>
      intro s s' k addrs hk hs h hrun
      rw [initRegions] at hrun
      rw [visitedRegions]
      by_cases hf : s.stream.eof = true
      · rw [if_pos hf] at hrun ⊢
        obtain rfl := Except.ok.inj hrun
        refine ⟨k, hs, hk, ?_⟩
        rwa [List.append_nil]
      · rw [if_neg hf] at hrun ⊢
        obtain ⟨s₁, hregion, hrest⟩ := Except.bind_eq_ok.mp hrun
        obtain ⟨p, hroom, hpages, hstream, hmem, hpool₁, hlocals⟩ := initRegion_ok hregion
        have hcong := visitedRegions_congr n (readHeader s.locals s.stream).1 p.stream p.paddr p.buf
        generalize readHeader s.locals s.stream = header at hroom hpages hpool₁ hlocals hcong ⊢
        obtain ⟨l, f⟩ := header
        simp only at hroom hpages hpool₁ hlocals hcong ⊢
        have hlength : (s.pool.take l.nents).length = l.nents := List.length_take_of_le hroom
        have hgrow : ∀ q ∈ pool.take k, q ∈ pool.take (k + l.nents) :=
          fun q hq => List.take_subset_take_left pool (Nat.le_add_right _ _) hq
        obtain ⟨hpatched, hafter⟩ := initPages_patched htree (pool.take (k + l.nents))
          (s.pool.take l.nents) addrs _ p
          (fun q hq => fresh_of_later hpool hlt htables hk (by rwa [hs] at hq))
          (h.mono hgrow) hpages
        rw [hlength] at hpatched hafter
        obtain ⟨k', hs', hk', hdone⟩ := ih s₁ s' (k + l.nents) _
          (Nat.le_trans hk (Nat.le_add_right _ _)) (by rw [hpool₁, hs, List.drop_drop])
          (by rw [hmem]; exact hpatched) hrest
        refine ⟨k', hs', hk', ?_⟩
        rw [hlocals, hstream, hcong, hafter, List.append_assoc] at hdone
        exact hdone

end Regions

end GpuReplay.Replayer
