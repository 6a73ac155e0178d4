/-
What `gr_mem_contents_init` makes of any bytes.

The loop asks `feof` before it reads, and `feof` is set by a read that comes up short.
So the last turn always works on a header or a page that was not read in full: the safety
one would want of a parser, `McSafe`, is lost in every run that returns.

What is left is the runs that abort.  They do so at a page that has no table, and
`grMemContentsInit_safe_iff` finds that page in the file, without running the function.
-/
import GpuReplay.Proofs.Isolation

namespace GpuReplay.Replayer

open Stdio

/-! ### Safety -/

/-- The bytes a record takes, by its header: a triple for each page, where it is valid. -/
def recordLength (bytes : List UInt8) : Nat :=
  let l := (readHeader ⟨0, 0, 0, 0, 0, 0, []⟩ (Stream.open bytes)).1
  29 + if l.isValid = 0 then 0 else min l.nents ((l.gmEnd - l.gmStart + 4095) / 4096) * 4112

/-- The complete records at the start of a file, at most `n`. -/
def completeRecords : Nat → List UInt8 → Nat
  | 0, _ => 0
  | n + 1, bytes =>
      if 29 ≤ bytes.length ∧ recordLength bytes ≤ bytes.length then
        1 + completeRecords n (bytes.drop (recordLength bytes))
      else 0

/-- The file was parsed safely: no region past the array, no variable used after a read that
came up short, and a region for each complete record. -/
structure McSafe (file : List UInt8) (s : McState) : Prop where
  slots : s.regions.length ≤ nrVaRegion
  full : s.stream.eof = false
  count : s.regions.length = completeRecords file.length file

/-- An outcome is safe if it is an abort, or else a state that is. -/
def SafeOutcome (file : List UInt8) : Except Stop McState → Prop
  | .ok s => McSafe file s
  | .error (.abort _) => True
  | .error .undefined => False

/-! ### Where it aborts -/

/-- The bottom table of an address. -/
def leafTable (heap : List UserPgtable) (userPgt : UserPtr) (vaddr : Nat) :
    Except Stop UserPgtable := do
  let targetPgt ← grGetUserPgdAtLevel heap userPgt vaddr midgardMmuBottomlevel
  derefPgt heap targetPgt

/-- Looking up the bottom table of one address after the other. -/
def lookupAll (heap : List UserPgtable) (userPgt : UserPtr) : List Nat → Except Stop Unit
  | [] => .ok ()
  | vaddr :: vaddrs => do
      let _ ← leafTable heap userPgt vaddr
      lookupAll heap userPgt vaddrs

/-- The addresses the loops come to, with `n` regions unused and `free` frames in the pool,
if every one of them has a table. -/
def reachedRegions : Nat → Locals → Stream → Nat → List Nat
  | 0, _, _, _ => []
  | n + 1, l, f, free =>
      if f.eof then []
      else
        let (l, f) := readHeader l f
        if l.nents ≤ free then
          let (addrs, f) := visitedPages l.gmEnd l.isValid l.nents f l.gmStart
          addrs ++ reachedRegions n l f (free - l.nents)
        else []

variable {heap : List UserPgtable} {userPgt : UserPtr}

theorem lookupAll_append (as bs : List Nat) :
    lookupAll heap userPgt (as ++ bs) = (do
      lookupAll heap userPgt as
      lookupAll heap userPgt bs) := by
  induction as with
  | nil => rfl
  | cons a as ih =>
      show (leafTable heap userPgt a >>= fun _ => lookupAll heap userPgt (as ++ bs)) =
        ((leafTable heap userPgt a >>= fun _ => lookupAll heap userPgt as) >>=
          fun _ => lookupAll heap userPgt bs)
      rw [ih, bind_assoc]

/-- The copy of a page that was read goes through. -/
theorem grWritePhys_page {mem : ByteMem} {newPage : Nat} {buf : List UInt8}
    (haligned : newPage % 4096 = 0) (hbuf : buf.length = 4096) :
    grWritePhys mem newPage buf = .ok (mem.write newPage buf) := by
  have hstart : pageStart newPage = newPage := by
    unfold pageStart
    omega
  have hmap : grMapPage newPage = .ok newPage := if_neg fun h => h haligned
  have hfits : 0 + buf.length ≤ 4096 := Nat.le_of_eq (by rw [Nat.zero_add, hbuf])
  unfold grWritePhys
  rw [haligned, hstart, hmap, Except.ok_bind, if_pos hfits, Nat.add_zero, Except.pure_eq_ok]

/-- **One page**: it fails exactly as the lookup of its table does. -/
theorem initPage_lookup (heap : List UserPgtable) (userPgt : UserPtr) (flags isValid : Nat)
    {newPage : Nat} {s : PageState}
    (haligned : newPage % 4096 = 0) (hbuf : s.buf.length = 4096) :
    (∃ u s', leafTable heap userPgt s.vaddr = .ok u ∧
      initPage heap userPgt flags isValid newPage s = .ok s' ∧
      (s'.stream, s'.vaddr) = nextTriple isValid s.stream s.vaddr ∧ s'.buf.length = 4096) ∨
    (∃ e, leafTable heap userPgt s.vaddr = .error e ∧
      initPage heap userPgt flags isValid newPage s = .error e) := by
  unfold initPage leafTable
  cases grGetUserPgdAtLevel heap userPgt s.vaddr midgardMmuBottomlevel with
  | error e => exact Or.inr ⟨e, rfl, rfl⟩
  | ok target =>
      rw [Except.ok_bind, Except.ok_bind]
      cases derefPgt heap target with
      | error e => exact Or.inr ⟨e, rfl, rfl⟩
      | ok pgd =>
          refine Or.inl ⟨pgd, ?_⟩
          rw [Except.ok_bind]
          by_cases hvalid : isValid = 0
          · rw [if_neg (not_not.mpr hvalid)]
            refine ⟨_, rfl, rfl, ?_, hbuf⟩
            rw [nextTriple, if_neg (not_not.mpr hvalid)]
          · have hread : ((((s.stream.readWord 8 s.vaddr).2.readWord 8 s.paddr).2).read 4096
                s.buf).1.length = 4096 := by
              show (Bytes.splice s.buf 0 _).length = 4096
              rw [Bytes.length_splice (by
                rw [Nat.zero_add, hbuf]
                exact List.length_take_le ..), hbuf]
            rw [if_pos hvalid]
            dsimp only
            rw [grWritePhys_page haligned hread]
            refine ⟨_, rfl, rfl, ?_, hread⟩
            rw [nextTriple, if_pos hvalid]
            rfl

/-- **The pages of a region.** -/
theorem initPages_lookup (heap : List UserPgtable) (userPgt : UserPtr) (gmEnd flags isValid : Nat) :
    ∀ (pages : List Nat) (s : PageState), (∀ p ∈ pages, p % 4096 = 0) → s.buf.length = 4096 →
      (∃ s', lookupAll heap userPgt
          (visitedPages gmEnd isValid pages.length s.stream s.vaddr).1 = .ok () ∧
        initPages heap userPgt gmEnd flags isValid pages s = .ok s' ∧
        s'.stream = (visitedPages gmEnd isValid pages.length s.stream s.vaddr).2 ∧
        s'.buf.length = 4096) ∨
      (∃ e, lookupAll heap userPgt
          (visitedPages gmEnd isValid pages.length s.stream s.vaddr).1 = .error e ∧
        initPages heap userPgt gmEnd flags isValid pages s = .error e) := by
  intro pages
  induction pages with
  | nil => exact fun s _ hbuf => Or.inl ⟨s, rfl, rfl, rfl, hbuf⟩
  | cons newPage pages ih =>
      intro s haligned hbuf
      rw [List.length_cons, visitedPages, initPages]
      by_cases hend : s.vaddr < gmEnd
      · rw [if_pos hend, if_pos hend]
        rcases initPage_lookup heap userPgt flags isValid
            (haligned newPage List.mem_cons_self) hbuf with
          ⟨u, s₁, htable, hpage, hnext, hbuf₁⟩ | ⟨e, htable, hpage⟩
        · have hrest := ih { s₁ with vaddr := (s₁.vaddr + 4096) % 2 ^ 64 }
            (fun p hp => haligned p (List.mem_cons_of_mem newPage hp)) hbuf₁
          rw [hpage, Except.ok_bind]
          dsimp only at hrest ⊢
          rw [← hnext, lookupAll, htable, Except.ok_bind]
          exact hrest
        · refine Or.inr ⟨e, ?_, ?_⟩
          · dsimp only
            rw [lookupAll, htable]
            rfl
          · rw [hpage]
            rfl
      · rw [if_neg hend, if_neg hend]
        exact Or.inl ⟨s, rfl, rfl, rfl, hbuf⟩

/-- Only the header of the record before matters, not its page. -/
theorem reachedRegions_congr :
    ∀ (n : Nat) (l : Locals) (f : Stream) (paddr : Nat) (buf : List UInt8) (free : Nat),
      reachedRegions n { l with paddr := paddr, buf := buf } f free = reachedRegions n l f free := by
  intro n
  induction n with
  | zero => exact fun _ _ _ _ _ => rfl
  | succ n ih =>
      intro l f paddr buf free
      rw [reachedRegions, reachedRegions, readHeader_with]
      dsimp only
      rw [ih]

/-- **The regions of a file.**  Where every table is found, the loop still fails when the
pool or the array of regions is used up. -/
theorem initRegions_lookup (heap : List UserPgtable) (userPgt : UserPtr) :
    ∀ (n : Nat) (s : McState), (∀ p ∈ s.pool, p % 4096 = 0) → s.locals.buf.length = 4096 →
      (∃ s', lookupAll heap userPgt (reachedRegions n s.locals s.stream s.pool.length) = .ok () ∧
        initRegions heap userPgt n s = .ok s' ∧ s'.stream.eof = true) ∨
      (lookupAll heap userPgt (reachedRegions n s.locals s.stream s.pool.length) = .ok () ∧
        initRegions heap userPgt n s = .error .undefined) ∨
      (∃ e, lookupAll heap userPgt (reachedRegions n s.locals s.stream s.pool.length) = .error e ∧
        initRegions heap userPgt n s = .error e) := by
  intro n
  induction n with
  | zero =>
      intro s _ _
      rw [initRegions, reachedRegions]
      by_cases hf : s.stream.eof = true
      · rw [if_pos hf]
        exact Or.inl ⟨s, rfl, rfl, hf⟩
      · rw [if_neg hf]
        exact Or.inr (Or.inl ⟨rfl, rfl⟩)
  | succ n ih =>
      intro s haligned hbuf
      rw [initRegions, reachedRegions]
      by_cases hf : s.stream.eof = true
      · rw [if_pos hf, if_pos hf]
        exact Or.inl ⟨s, rfl, rfl, hf⟩
      rw [if_neg hf, if_neg hf]
      unfold initRegion takePages
      have hheader : (readHeader s.locals s.stream).1.buf.length = 4096 := hbuf
      generalize readHeader s.locals s.stream = header at hheader ⊢
      obtain ⟨l, f⟩ := header
      dsimp only at hheader ⊢
      by_cases hroom : l.nents ≤ s.pool.length
      swap
      · rw [if_neg hroom, if_neg hroom]
        exact Or.inr (Or.inl ⟨rfl, rfl⟩)
      rw [if_pos hroom, if_pos hroom, Except.ok_bind]
      have hlength : (s.pool.take l.nents).length = l.nents := List.length_take_of_le hroom
      have hpages := initPages_lookup heap userPgt l.gmEnd l.flags l.isValid
        (s.pool.take l.nents)
        ⟨f, l.gmStart, l.paddr, l.buf, s.mem⟩ (fun p hp => haligned p (List.mem_of_mem_take hp))
        hheader
      rw [hlength] at hpages
      dsimp only at hpages ⊢
      rw [lookupAll_append]
      rcases hpages with ⟨p, hlookup, hrun, hstream, hbuf'⟩ | ⟨e, hlookup, hrun⟩
      · rw [hlookup, hrun, Except.ok_bind, Except.ok_bind]
        have hrest := ih {
          stream := p.stream
          locals := { l with paddr := p.paddr, buf := p.buf }
          mem := p.mem
          pool := s.pool.drop l.nents
          regions := s.regions ++ [⟨l.gmStart, l.gmEnd, s.pool.take l.nents, l.nents, l.flags,
            l.isValid, 0⟩]
          totNrPages := (s.totNrPages + l.nents) % 2 ^ 32 }
          (fun q hq => haligned q (List.mem_of_mem_drop hq)) hbuf'
        have hcong : reachedRegions n { l with paddr := p.paddr, buf := p.buf } p.stream
            (s.pool.drop l.nents).length = reachedRegions n l
              (visitedPages l.gmEnd l.isValid l.nents f l.gmStart).2
              (s.pool.length - l.nents) := by
          rw [reachedRegions_congr, hstream, List.length_drop]
        dsimp only at hrest
        rw [hcong] at hrest
        exact hrest
      · rw [hlookup, hrun]
        exact Or.inr (Or.inr ⟨e, rfl, rfl⟩)

/-- **Whatever the bytes, parsing them is safe exactly if it aborts**: at a page that has no
table, with a table for every page it came to before. -/
theorem grMemContentsInit_safe_iff (m : Machine) (userPgt : UserPtr) (locals : Locals)
    (file : List UInt8) (hpool : ∀ frame ∈ m.pool, frame % 4096 = 0)
    (hbuf : locals.buf.length = 4096) :
    SafeOutcome file (grMemContentsInit m userPgt locals file) ↔
      ∃ msg, lookupAll m.heap userPgt
        (reachedRegions nrVaRegion locals (Stream.open file) m.pool.length) =
          .error (.abort msg) := by
  unfold grMemContentsInit
  have hlookup := initRegions_lookup m.heap userPgt nrVaRegion
    ⟨Stream.open file, locals, m.mem, m.pool, [], 0⟩ hpool hbuf
  dsimp only at hlookup
  rcases hlookup with ⟨s, htables, hrun, heof⟩ | ⟨htables, hrun⟩ | ⟨e, htables, hrun⟩
  · rw [hrun, htables]
    refine ⟨fun h => ?_, fun ⟨msg, h⟩ => absurd h (Except.ok_ne_error _ _)⟩
    exact absurd (heof.symm.trans h.full) Bool.noConfusion
  · rw [hrun, htables]
    exact ⟨fun h => h.elim, fun ⟨msg, h⟩ => absurd h (Except.ok_ne_error _ _)⟩
  · rw [hrun, htables]
    cases e with
    | abort msg => exact ⟨fun _ => ⟨msg, rfl⟩, fun _ => trivial⟩
    | undefined =>
        refine ⟨fun h => h.elim, fun ⟨msg, h⟩ => ?_⟩
        exact Stop.noConfusion (Except.error.inj h)

/-- A region none of whose pages are backed. -/
def bareRegion : McRecord where
  gmStart := 0
  gmEnd := 4096
  nents := 0
  flags := 0
  isValid := false
  pages := []

/-- It comes to no page at all. -/
theorem reachedRegions_bare :
    reachedRegions nrVaRegion zeroLocals (Stream.open (dump [bareRegion])) 0 = [] := by
  rfl

/-- A region of one page. -/
def onePageRegion : McRecord := { bareRegion with nents := 1 }

/-- With a root that has no tables below it, and one frame. -/
def rootOnly : Machine := ⟨fun _ => 0, [0x1000], [⟨0, fun _ => .null⟩]⟩

/-- One such region, complete: it is not parsed safely, but nor does it abort.  A region of one
page, whose leaf entry has no table, is. -/
theorem grMemContentsInit_safe_bare :
    zeroLocals.buf.length = 4096 ∧
    (SafeOutcome (dump [bareRegion])
        (grMemContentsInit ⟨fun _ => 0, [], []⟩ .null zeroLocals (dump [bareRegion])) ↔
      ∃ msg, lookupAll [] .null
        (reachedRegions nrVaRegion zeroLocals (Stream.open (dump [bareRegion])) 0) =
          .error (.abort msg)) ∧
    SafeOutcome (dump [onePageRegion])
      (grMemContentsInit rootOnly (.node 0) zeroLocals (dump [onePageRegion])) := by
  have hbuf : zeroLocals.buf.length = 4096 := List.length_replicate
  refine ⟨hbuf, grMemContentsInit_safe_iff ⟨fun _ => 0, [], []⟩ .null zeroLocals (dump [bareRegion])
    (fun frame h => absurd h List.not_mem_nil) hbuf, ?_⟩
  exact (grMemContentsInit_safe_iff rootOnly (.node 0) zeroLocals (dump [onePageRegion])
    (by decide) hbuf).mpr ⟨_, rfl⟩

/-- After its one complete record the loop reads another. -/
theorem bareRegion_not_safe :
    ¬SafeOutcome (dump [bareRegion])
      (grMemContentsInit ⟨fun _ => 0, [], []⟩ .null zeroLocals (dump [bareRegion])) := by
  unfold grMemContentsInit
  have hlookup := initRegions_lookup [] .null nrVaRegion
    ⟨Stream.open (dump [bareRegion]), zeroLocals, fun _ => 0, [], [], 0⟩
    (fun frame h => absurd h List.not_mem_nil) List.length_replicate
  dsimp only at hlookup
  rcases hlookup with ⟨s, -, hrun, heof⟩ | ⟨-, hrun⟩ | ⟨e, htables, -⟩
  · rw [hrun]
    exact fun h => absurd (heof.symm.trans h.full) Bool.noConfusion
  · rw [hrun]
    exact id
  · rw [List.length_nil, reachedRegions_bare] at htables
    exact absurd htables (Except.ok_ne_error _ _)

end GpuReplay.Replayer
