/-
What loading one record of a memory dump leaves behind.

`initRegion_record` takes the record off the file and says what the loop body does with
it: the frames it takes, the pages and the leaf entries it stores.  `initRegion_again` is
the turn that finds the file empty.
-/
import GpuReplay.Proofs.GpuMem
import GpuReplay.Proofs.McFormat

namespace GpuReplay.Replayer

open Stdio ByteMem

/-! ### The leaf entry of an address -/

/-- The physical address of the leaf entry of `gaddr`, found through the user page table. -/
def leafEntry (heap : List UserPgtable) (userPgt : UserPtr) (gaddr : Nat) : Except Stop Nat := do
  let targetPgt ← grGetUserPgdAtLevel heap userPgt gaddr midgardMmuBottomlevel
  let pgdPage ← derefPgt heap targetPgt
  return pgdPage.physPage + 8 * (gaddr / 4096 % 512)

/-- The user page table has a bottom-level table for `gaddr`. -/
def HasLeaf (heap : List UserPgtable) (userPgt : UserPtr) (gaddr : Nat) : Prop :=
  ∃ slot, leafEntry heap userPgt gaddr = .ok slot

/-- The same address, as a function. -/
def leafSlot (heap : List UserPgtable) (userPgt : UserPtr) (gaddr : Nat) : Nat :=
  match leafEntry heap userPgt gaddr with
  | .ok slot => slot
  | .error _ => 0

theorem hasLeaf_iff {heap : List UserPgtable} {userPgt : UserPtr} {gaddr : Nat} :
    HasLeaf heap userPgt gaddr ↔ ∃ target pgd,
      grGetUserPgdAtLevel heap userPgt gaddr midgardMmuBottomlevel = .ok target ∧
        derefPgt heap target = .ok pgd ∧
        leafSlot heap userPgt gaddr = pgd.physPage + 8 * (gaddr / 4096 % 512) := by
  unfold HasLeaf leafSlot leafEntry
  constructor
  · rintro ⟨slot, hslot⟩
    obtain ⟨target, htarget, hslot⟩ := Except.bind_eq_ok.mp hslot
    obtain ⟨pgd, hpgd, -⟩ := Except.bind_eq_ok.mp hslot
    refine ⟨target, pgd, htarget, hpgd, ?_⟩
    simp only [htarget, hpgd, Except.ok_bind, Except.pure_eq_ok]
  · rintro ⟨target, pgd, htarget, hpgd, -⟩
    refine ⟨pgd.physPage + 8 * (gaddr / 4096 % 512), ?_⟩
    simp only [htarget, hpgd, Except.ok_bind, Except.pure_eq_ok]

/-! ### The page loop -/

/-- What one page does to memory: its contents, when there are any, go into the frame,
and the leaf entry points at the frame. -/
def storePage (slot flags frame : Nat) (page : Option (List UInt8)) (mem : ByteMem) : ByteMem :=
  (match page with
    | some page => mem.write frame page
    | none => mem).write64 slot (grEntryGetAte frame flags midgardMmuBottomlevel)

/-- What the page loop does to memory, from address `vaddr` on. -/
def storePages (slot : Nat → Nat) (flags : Nat) :
    Nat → List (Nat × Option (List UInt8)) → ByteMem → ByteMem
  | _, [], mem => mem
  | vaddr, (frame, page) :: rest, mem =>
      storePages slot flags (vaddr + 4096) rest (storePage (slot vaddr) flags frame page mem)

section Pages

variable {heap : List UserPgtable} {userPgt : UserPtr}

/-- One page of a touched region. -/
theorem initPage_valid {vaddr : Nat} (hleaf : HasLeaf heap userPgt vaddr) {frame : Nat}
    (hframe : frame % 4096 = 0) (hvaddr : vaddr < 2 ^ 64) {paddr : Nat} (hpaddr : paddr < 2 ^ 64)
    {page : List UInt8} (hpage : page.length = 4096) {old : List UInt8} (hold : old.length = 4096)
    (flags oldPaddr : Nat) (rest : List UInt8) (eof : Bool) (mem : ByteMem) :
    initPage heap userPgt flags 1 frame
        ⟨⟨Bytes.le 8 vaddr ++ (Bytes.le 8 paddr ++ (page ++ rest)), eof⟩, vaddr, oldPaddr, old, mem⟩
      = .ok ⟨⟨rest, eof⟩, vaddr, paddr, page,
          storePage (leafSlot heap userPgt vaddr) flags frame (some page) mem⟩ := by
  obtain ⟨target, pgd, htarget, hpgd, hslot⟩ := hasLeaf_iff.mp hleaf
  have hwrite : grWritePhys mem frame page = .ok (mem.write frame page) :=
    grWritePhys_eq (by rw [hframe, hpage])
  have hbuf := Stream.read_append hpage (Nat.le_of_eq hold) rest eof
  unfold initPage
  simp only [htarget, hpgd, Except.ok_bind, ne_eq, Nat.one_ne_zero, not_false_eq_true, if_true,
    Stream.readWord_le (show vaddr < 256 ^ 8 from hvaddr),
    Stream.readWord_le (show paddr < 256 ^ 8 from hpaddr), hbuf, hwrite, Except.pure_eq_ok,
    storePage, hslot]

/-- One page of a region nothing was recorded for. -/
theorem initPage_invalid {s : PageState} (hleaf : HasLeaf heap userPgt s.vaddr)
    (flags frame : Nat) :
    initPage heap userPgt flags 0 frame s
      = .ok { s with mem := storePage (leafSlot heap userPgt s.vaddr) flags frame none s.mem } := by
  obtain ⟨target, pgd, htarget, hpgd, hslot⟩ := hasLeaf_iff.mp hleaf
  unfold initPage
  simp only [htarget, hpgd, Except.ok_bind, ne_eq, not_true_eq_false, if_false, Except.pure_eq_ok,
    storePage, hslot]

/-- One page of a touched region, at the end of the file: the page read last goes in again. -/
theorem initPage_eof {s : PageState} (hleaf : HasLeaf heap userPgt s.vaddr)
    {frame : Nat} (hframe : frame % 4096 = 0) (hvaddr : s.vaddr < 2 ^ 64)
    (hpaddr : s.paddr < 2 ^ 64) (hbuf : s.buf.length = 4096) (hstream : s.stream = ⟨[], true⟩)
    (flags : Nat) :
    initPage heap userPgt flags 1 frame s
      = .ok { s with
          mem := storePage (leafSlot heap userPgt s.vaddr) flags frame (some s.buf) s.mem } := by
  obtain ⟨target, pgd, htarget, hpgd, hslot⟩ := hasLeaf_iff.mp hleaf
  have hwrite : grWritePhys s.mem frame s.buf = .ok (s.mem.write frame s.buf) :=
    grWritePhys_eq (by rw [hframe, hbuf])
  unfold initPage
  simp only [htarget, hpgd, Except.ok_bind, ne_eq, Nat.one_ne_zero, not_false_eq_true, if_true,
    hstream, Stream.readWord_nil (show 0 < 8 by decide) (show s.vaddr < 256 ^ 8 from hvaddr),
    Stream.readWord_nil (show 0 < 8 by decide) (show s.paddr < 256 ^ 8 from hpaddr),
    Stream.read_nil (show 0 < 4096 by decide), hwrite, Except.pure_eq_ok, storePage, hslot]

/-- **The loop rule.**  An invariant each page keeps, under which a page is stored and
the address stays what it was, carries the loop to its end. -/
theorem initPages_eq {gmEnd flags isValid : Nat} (hend : gmEnd < 2 ^ 64)
    (Inv : List (Nat × Option (List UInt8)) → PageState → Prop)
    (hstep : ∀ frame page items s, Inv ((frame, page) :: items) s → s.vaddr < 2 ^ 64 →
      ∃ f paddr buf,
        initPage heap userPgt flags isValid frame s
          = .ok ⟨f, s.vaddr, paddr, buf,
              storePage (leafSlot heap userPgt s.vaddr) flags frame page s.mem⟩ ∧
        Inv items ⟨f, s.vaddr + 4096, paddr, buf,
          storePage (leafSlot heap userPgt s.vaddr) flags frame page s.mem⟩) :
    ∀ (items : List (Nat × Option (List UInt8))) (s : PageState), Inv items s →
      s.vaddr + 4096 * items.length ≤ gmEnd →
      ∃ s', initPages heap userPgt gmEnd flags isValid (items.map Prod.fst) s = .ok s' ∧
        s'.mem = storePages (leafSlot heap userPgt) flags s.vaddr items s.mem ∧ Inv [] s' := by
  intro items
  induction items with
  | nil => intro s hinv _; exact ⟨s, rfl, rfl, hinv⟩
  | cons item items ih =>
      intro s hinv hlen
      obtain ⟨frame, page⟩ := item
      rw [List.length_cons, Nat.mul_succ] at hlen
      have hlt : s.vaddr < gmEnd := by omega
      have hnext : (s.vaddr + 4096) % 2 ^ 64 = s.vaddr + 4096 := Nat.mod_eq_of_lt (by omega)
      obtain ⟨f, paddr, buf, hpage, hinv'⟩ := hstep frame page items s hinv (by omega)
      obtain ⟨s', hrun, hmem, hdone⟩ := ih _ hinv' (by show s.vaddr + 4096 + _ ≤ _; omega)
      refine ⟨s', ?_, hmem, hdone⟩
      rw [List.map_cons, initPages, if_pos hlt, hpage, Except.ok_bind]
      simp only [hnext]
      exact hrun

/-- Bottom-level tables for `n` consecutive pages. -/
def HasLeaves (heap : List UserPgtable) (userPgt : UserPtr) (gaddr n : Nat) : Prop :=
  ∀ k, k < n → HasLeaf heap userPgt (gaddr + 4096 * k)

theorem HasLeaves.head {gaddr n : Nat} (h : HasLeaves heap userPgt gaddr (n + 1)) :
    HasLeaf heap userPgt gaddr := h 0 (Nat.zero_lt_succ n)

theorem HasLeaves.tail {gaddr n : Nat} (h : HasLeaves heap userPgt gaddr (n + 1)) :
    HasLeaves heap userPgt (gaddr + 4096) n := by
  intro k hk
  have := h (k + 1) (Nat.succ_lt_succ hk)
  rwa [Nat.mul_succ, Nat.add_comm (4096 * k), ← Nat.add_assoc] at this

theorem HasLeaves.cons {gaddr n : Nat} (hhead : HasLeaf heap userPgt gaddr)
    (h : HasLeaves heap userPgt (gaddr + 4096) n) : HasLeaves heap userPgt gaddr (n + 1) := by
  intro k hk
  cases k with
  | zero => exact hhead
  | succ k =>
      have := h k (Nat.lt_of_succ_lt_succ hk)
      rwa [Nat.add_assoc, Nat.add_comm 4096, ← Nat.mul_succ] at this

/-- A page that goes through has a bottom-level table. -/
theorem initPage_hasLeaf {flags isValid newPage : Nat} {s s' : PageState}
    (hrun : initPage heap userPgt flags isValid newPage s = .ok s') :
    HasLeaf heap userPgt s.vaddr := by
  unfold initPage at hrun
  obtain ⟨target, htarget, hrun⟩ := Except.bind_eq_ok.mp hrun
  obtain ⟨pgd, hpgd, -⟩ := Except.bind_eq_ok.mp hrun
  refine ⟨pgd.physPage + 8 * (s.vaddr / 4096 % 512), ?_⟩
  exact Except.bind_eq_ok.mpr ⟨target, htarget, Except.bind_eq_ok.mpr ⟨pgd, hpgd, rfl⟩⟩

section Returned

variable {gmEnd flags : Nat} (hend : gmEnd < 2 ^ 64)

include hend

/-- A page loop over triples that returns: every page has a table, and the buffer holds the
last page. -/
theorem initPages_triples {rest : List UInt8} {eof : Bool} :
    ∀ {pages : List (Nat × List UInt8)} {frames : List Nat} {s p : PageState},
      frames.length = pages.length → (∀ frame ∈ frames, frame % 4096 = 0) →
      (∀ q ∈ pages, q.1 < 2 ^ 64 ∧ q.2.length = 4096) → s.vaddr + 4096 * pages.length ≤ gmEnd →
      s.stream = ⟨triples s.vaddr pages ++ rest, eof⟩ → s.buf.length = 4096 →
      initPages heap userPgt gmEnd flags 1 frames s = .ok p →
      HasLeaves heap userPgt s.vaddr pages.length ∧
        p.buf = (pages.map Prod.snd).getLastD s.buf := by
  intro pages
  induction pages with
  | nil =>
      intro frames s p hlen _ _ _ _ _ hrun
      rw [List.eq_nil_of_length_eq_zero hlen, initPages] at hrun
      obtain rfl := Except.ok.inj hrun
      exact ⟨fun k hk => absurd hk (Nat.not_lt_zero k), rfl⟩
  | cons q pages ih =>
      intro frames s p hlen hframes hpages hroom hstream hbuf hrun
      obtain ⟨f, vaddr, paddr, buf, mem⟩ := s
      obtain ⟨q, page⟩ := q
      obtain ⟨hq, hpage⟩ := hpages _ List.mem_cons_self
      rw [List.length_cons] at hroom
      dsimp only at hroom hstream hbuf
      cases frames with
      | nil => exact absurd hlen.symm (Nat.succ_ne_zero _)
      | cons frame frames =>
          rw [initPages, if_pos (by dsimp only; omega)] at hrun
          obtain ⟨s₁, hone, hrest⟩ := Except.bind_eq_ok.mp hrun
          have hleaf := initPage_hasLeaf hone
          have heq := initPage_valid hleaf (hframes _ List.mem_cons_self)
            (show vaddr < 2 ^ 64 by omega) hq hpage hbuf flags paddr
            (triples (vaddr + 4096) pages ++ rest) eof mem
          rw [hstream, triples, List.append_assoc, List.append_assoc, List.append_assoc] at hone
          rw [heq] at hone
          obtain rfl := Except.ok.inj hone
          have hnext : (vaddr + 4096) % 2 ^ 64 = vaddr + 4096 := Nat.mod_eq_of_lt (by omega)
          dsimp only at hrest
          rw [hnext] at hrest
          obtain ⟨hleaves, hlast⟩ := ih (Nat.succ.inj hlen)
            (fun fr hfr => hframes fr (List.mem_cons_of_mem _ hfr))
            (fun r hr => hpages r (List.mem_cons_of_mem _ hr)) (by dsimp only; omega) rfl hpage
            hrest
          refine ⟨HasLeaves.cons hleaf hleaves, ?_⟩
          rw [hlast, List.map_cons, List.getLastD_cons]

/-- A page loop that reads nothing. -/
theorem initPages_untouched :
    ∀ {frames : List Nat} {s p : PageState}, s.vaddr + 4096 * frames.length ≤ gmEnd →
      initPages heap userPgt gmEnd flags 0 frames s = .ok p →
      HasLeaves heap userPgt s.vaddr frames.length ∧ p.buf = s.buf := by
  intro frames
  induction frames with
  | nil =>
      intro s p _ hrun
      obtain rfl := Except.ok.inj hrun
      exact ⟨fun k hk => absurd hk (Nat.not_lt_zero k), rfl⟩
  | cons frame frames ih =>
      intro s p hroom hrun
      rw [List.length_cons] at hroom
      rw [initPages, if_pos (by omega)] at hrun
      obtain ⟨s₁, hone, hrest⟩ := Except.bind_eq_ok.mp hrun
      have hleaf := initPage_hasLeaf hone
      rw [initPage_invalid hleaf] at hone
      obtain rfl := Except.ok.inj hone
      have hnext : (s.vaddr + 4096) % 2 ^ 64 = s.vaddr + 4096 := Nat.mod_eq_of_lt (by omega)
      dsimp only at hrest
      rw [hnext] at hrest
      obtain ⟨hleaves, hbuf⟩ := ih (by dsimp only; omega) hrest
      exact ⟨HasLeaves.cons hleaf hleaves, hbuf⟩

end Returned

/-- The page loop inside a touched region: the triples of the pages still to be stored
come next in the file. -/
structure TriplesAhead (heap : List UserPgtable) (userPgt : UserPtr) (rest : List UInt8)
    (eof : Bool) (items : List (Nat × Option (List UInt8))) (s : PageState) : Prop where
  ahead : ∃ (frames : List Nat) (pages : List (Nat × List UInt8)),
    items = frames.zip (pages.map fun q => some q.2) ∧ frames.length = pages.length ∧
    (∀ q ∈ pages, q.1 < 2 ^ 64 ∧ q.2.length = 4096) ∧
    s.stream = ⟨triples s.vaddr pages ++ rest, eof⟩
  frames : ∀ item ∈ items, item.1 % 4096 = 0
  leaves : HasLeaves heap userPgt s.vaddr items.length
  paddr : s.paddr < 2 ^ 64
  buf : s.buf.length = 4096

theorem triplesAhead_step {rest : List UInt8} {eof : Bool} (flags : Nat) :
    ∀ frame page items s, TriplesAhead heap userPgt rest eof ((frame, page) :: items) s →
      s.vaddr < 2 ^ 64 → ∃ f paddr buf,
        initPage heap userPgt flags 1 frame s
          = .ok ⟨f, s.vaddr, paddr, buf,
              storePage (leafSlot heap userPgt s.vaddr) flags frame page s.mem⟩ ∧
        TriplesAhead heap userPgt rest eof items ⟨f, s.vaddr + 4096, paddr, buf,
          storePage (leafSlot heap userPgt s.vaddr) flags frame page s.mem⟩ := by
  rintro frame page items ⟨f, vaddr, paddr, buf, mem⟩ h hvaddr
  obtain ⟨frames, pages, hitems, hlen, hpages, hstream⟩ := h.ahead
  obtain ⟨frame', frames, rfl⟩ : ∃ fr fs, frames = fr :: fs := by
    cases frames with
    | nil => simp at hitems
    | cons fr fs => exact ⟨fr, fs, rfl⟩
  obtain ⟨⟨q, content⟩, pages, rfl⟩ : ∃ q qs, pages = q :: qs := by
    cases pages with
    | nil => simp at hlen
    | cons q qs => exact ⟨q, qs, rfl⟩
  simp only [List.map_cons, List.zip_cons_cons, List.cons.injEq, Prod.mk.injEq] at hitems
  obtain ⟨⟨rfl, rfl⟩, rfl⟩ := hitems
  obtain ⟨hq, hcontent⟩ := hpages (q, content) List.mem_cons_self
  simp only at hstream
  subst hstream
  refine ⟨⟨triples (vaddr + 4096) pages ++ rest, eof⟩, q, content, ?_, ?_⟩
  · have := initPage_valid h.leaves.head (h.frames _ List.mem_cons_self) hvaddr hq hcontent h.buf
      flags paddr (triples (vaddr + 4096) pages ++ rest) eof mem
    rw [triples, List.append_assoc, List.append_assoc, List.append_assoc]
    exact this
  · exact {
      ahead := ⟨frames, pages, rfl, Nat.succ.inj hlen,
        fun q hq => hpages q (List.mem_cons_of_mem _ hq), rfl⟩
      frames := fun item hitem => h.frames item (List.mem_cons_of_mem _ hitem)
      leaves := h.leaves.tail
      paddr := hq
      buf := hcontent }

/-- The page loop inside a region nothing was recorded for. -/
structure NothingAhead (heap : List UserPgtable) (userPgt : UserPtr) (f : Stream)
    (items : List (Nat × Option (List UInt8))) (s : PageState) : Prop where
  stream : s.stream = f
  none : ∀ item ∈ items, item.2 = none
  leaves : HasLeaves heap userPgt s.vaddr items.length
  paddr : s.paddr < 2 ^ 64
  buf : s.buf.length = 4096

theorem nothingAhead_step {f : Stream} (flags : Nat) :
    ∀ frame page items s, NothingAhead heap userPgt f ((frame, page) :: items) s →
      s.vaddr < 2 ^ 64 → ∃ f' paddr buf,
        initPage heap userPgt flags 0 frame s
          = .ok ⟨f', s.vaddr, paddr, buf,
              storePage (leafSlot heap userPgt s.vaddr) flags frame page s.mem⟩ ∧
        NothingAhead heap userPgt f items ⟨f', s.vaddr + 4096, paddr, buf,
          storePage (leafSlot heap userPgt s.vaddr) flags frame page s.mem⟩ := by
  intro frame page items s h _
  have hpage : page = none := h.none _ List.mem_cons_self
  subst hpage
  exact ⟨s.stream, s.paddr, s.buf, initPage_invalid h.leaves.head flags frame, {
    stream := h.stream
    none := fun item hitem => h.none item (List.mem_cons_of_mem _ hitem)
    leaves := h.leaves.tail
    paddr := h.paddr
    buf := h.buf }⟩

/-- The page loop of a touched region past the end of the file. -/
structure FileEnded (heap : List UserPgtable) (userPgt : UserPtr) (buf : List UInt8)
    (items : List (Nat × Option (List UInt8))) (s : PageState) : Prop where
  stream : s.stream = ⟨[], true⟩
  again : ∀ item ∈ items, item.2 = some buf
  frames : ∀ item ∈ items, item.1 % 4096 = 0
  leaves : HasLeaves heap userPgt s.vaddr items.length
  paddr : s.paddr < 2 ^ 64
  buf : s.buf = buf ∧ buf.length = 4096

theorem fileEnded_step {buf : List UInt8} (flags : Nat) :
    ∀ frame page items s, FileEnded heap userPgt buf ((frame, page) :: items) s →
      s.vaddr < 2 ^ 64 → ∃ f paddr buf',
        initPage heap userPgt flags 1 frame s
          = .ok ⟨f, s.vaddr, paddr, buf',
              storePage (leafSlot heap userPgt s.vaddr) flags frame page s.mem⟩ ∧
        FileEnded heap userPgt buf items ⟨f, s.vaddr + 4096, paddr, buf',
          storePage (leafSlot heap userPgt s.vaddr) flags frame page s.mem⟩ := by
  intro frame page items s h hvaddr
  obtain ⟨hbuf, hlen⟩ := h.buf
  have hpage : page = some s.buf := by rw [hbuf]; exact h.again _ List.mem_cons_self
  subst hpage
  exact ⟨s.stream, s.paddr, s.buf, initPage_eof h.leaves.head (h.frames _ List.mem_cons_self)
    hvaddr h.paddr (hbuf ▸ hlen) h.stream flags, {
      stream := h.stream
      again := fun item hitem => h.again item (List.mem_cons_of_mem _ hitem)
      frames := fun item hitem => h.frames item (List.mem_cons_of_mem _ hitem)
      leaves := h.leaves.tail
      paddr := h.paddr
      buf := ⟨hbuf, hlen⟩ }⟩

end Pages

/-! ### One record -/

/-- The variables a record is read into, between two records: what was read last, in the
range of its type. -/
structure Locals.After (l : Locals) (rec : McRecord) : Prop where
  gmStart : l.gmStart = rec.gmStart
  gmEnd : l.gmEnd = rec.gmEnd
  nents : l.nents = rec.nents
  flags : l.flags = rec.flags
  isValid : l.isValid = rec.isValid.toNat
  paddr : l.paddr < 2 ^ 64
  buf : l.buf.length = 4096

/-- The page loop of a record, when it returns. -/
theorem initPages_record_ok {heap : List UserPgtable} {userPgt : UserPtr} {rec : McRecord}
    (hwf : rec.WF) {frames : List Nat} (hframes : ∀ frame ∈ frames, frame % 4096 = 0)
    (hlen : frames.length = rec.nents) {paddr : Nat} {buf : List UInt8} (hbuf : buf.length = 4096)
    {rest : List UInt8} {eof : Bool} {mem : ByteMem} {p : PageState}
    (hrun : initPages heap userPgt rec.gmEnd rec.flags rec.isValid.toNat frames
      ⟨⟨triples rec.gmStart rec.pages ++ rest, eof⟩, rec.gmStart, paddr, buf, mem⟩ = .ok p) :
    HasLeaves heap userPgt rec.gmStart rec.nents ∧ p.buf = rec.lastPage buf := by
  have hpages := hwf.length_pages
  have hroom := hwf.room
  cases hvalid : rec.isValid with
  | true =>
      rw [hvalid, if_pos rfl] at hpages
      rw [hvalid] at hrun
      rw [← hpages] at hlen hroom ⊢
      exact initPages_triples
        (s := ⟨⟨triples rec.gmStart rec.pages ++ rest, eof⟩, rec.gmStart, paddr, buf, mem⟩)
        hwf.bounded hlen hframes hwf.page hroom rfl hbuf hrun
  | false =>
      rw [hvalid, if_neg Bool.false_ne_true] at hpages
      rw [hvalid] at hrun
      rw [← hlen] at hroom ⊢
      rw [McRecord.lastPage, List.eq_nil_of_length_eq_zero hpages]
      exact initPages_untouched
        (s := ⟨⟨triples rec.gmStart rec.pages ++ rest, eof⟩, rec.gmStart, paddr, buf, mem⟩)
        hwf.bounded hroom hrun

section Record

variable {heap : List UserPgtable} {userPgt : UserPtr} {rec : McRecord} (hwf : rec.WF)
  (hleaves : HasLeaves heap userPgt rec.gmStart rec.nents)
  {frames : List Nat} (hframes : ∀ frame ∈ frames, frame % 4096 = 0)
  (hlen : frames.length = rec.nents)

include hwf hlen in
theorem zip_contents (contents : List (Option (List UInt8)))
    (hcontents : contents.length = rec.nents) :
    (frames.zip contents).map Prod.fst = frames ∧
      (frames.zip contents).length = rec.nents ∧
      rec.gmStart + 4096 * (frames.zip contents).length ≤ rec.gmEnd := by
  have hzip : (frames.zip contents).length = rec.nents := by
    rw [List.length_zip, hlen, hcontents, Nat.min_self]
  refine ⟨List.map_fst_zip (by rw [hlen, hcontents]), hzip, ?_⟩
  rw [hzip]
  exact hwf.room

include hwf hleaves hframes hlen

/-- **The page loop of a record stores its pages.** -/
theorem initPages_record {paddr : Nat} (hpaddr : paddr < 2 ^ 64) {buf : List UInt8}
    (hbuf : buf.length = 4096) (rest : List UInt8) (eof : Bool) (mem : ByteMem) :
    ∃ s', initPages heap userPgt rec.gmEnd rec.flags rec.isValid.toNat frames
        ⟨⟨triples rec.gmStart rec.pages ++ rest, eof⟩, rec.gmStart, paddr, buf, mem⟩ = .ok s' ∧
      s'.mem = storePages (leafSlot heap userPgt) rec.flags rec.gmStart (frames.zip rec.contents)
        mem ∧
      s'.stream = ⟨rest, eof⟩ ∧ s'.paddr < 2 ^ 64 ∧ s'.buf.length = 4096 := by
  obtain ⟨hfst, hzip, hroom⟩ := zip_contents hwf hlen rec.contents (McRecord.length_contents hwf)
  have hpages := hwf.length_pages
  have hitems : ∀ item ∈ frames.zip rec.contents, item.1 % 4096 = 0 :=
    fun item hitem => hframes _ (List.of_mem_zip hitem).1
  cases hvalid : rec.isValid with
  | true =>
      rw [hvalid, if_pos rfl] at hpages
      have hcontents : rec.contents = rec.pages.map fun q => some q.2 := if_pos hvalid
      have hinv : TriplesAhead heap userPgt rest eof (frames.zip rec.contents)
          ⟨⟨triples rec.gmStart rec.pages ++ rest, eof⟩, rec.gmStart, paddr, buf, mem⟩ := {
        ahead := ⟨frames, rec.pages, by rw [hcontents], by rw [hlen, hpages], hwf.page, rfl⟩
        frames := hitems
        leaves := by rw [hzip]; exact hleaves
        paddr := hpaddr
        buf := hbuf }
      obtain ⟨s', hrun, hmem, hdone⟩ := initPages_eq hwf.bounded _ (triplesAhead_step rec.flags)
        _ _ hinv hroom
      rw [hfst] at hrun
      obtain ⟨fs, qs, hnil, hlens, -, hstream⟩ := hdone.ahead
      have hqs : qs = [] := by
        cases qs with
        | nil => rfl
        | cons q qs =>
            cases fs with
            | nil => simp at hlens
            | cons f fs => simp at hnil
      subst hqs
      exact ⟨s', hrun, hmem, hstream, hdone.paddr, hdone.buf⟩
  | false =>
      rw [hvalid, if_neg Bool.false_ne_true] at hpages
      have hnil : rec.pages = [] := List.eq_nil_of_length_eq_zero hpages
      have hcontents : rec.contents = List.replicate rec.nents none :=
        if_neg (by rw [hvalid]; exact Bool.false_ne_true)
      have hinv : NothingAhead heap userPgt ⟨rest, eof⟩ (frames.zip rec.contents)
          ⟨⟨triples rec.gmStart rec.pages ++ rest, eof⟩, rec.gmStart, paddr, buf, mem⟩ := {
        stream := by rw [hnil]; rfl
        none := fun item hitem => by
          have := (List.of_mem_zip hitem).2
          rw [hcontents] at this
          exact List.eq_of_mem_replicate this
        leaves := by rw [hzip]; exact hleaves
        paddr := hpaddr
        buf := hbuf }
      obtain ⟨s', hrun, hmem, hdone⟩ := initPages_eq hwf.bounded _ (nothingAhead_step rec.flags)
        _ _ hinv hroom
      rw [hfst] at hrun
      exact ⟨s', hrun, hmem, hdone.stream, hdone.paddr, hdone.buf⟩

/-- The page loop of the turn after the last record. -/
theorem initPages_again {paddr : Nat} (hpaddr : paddr < 2 ^ 64) {buf : List UInt8}
    (hbuf : buf.length = 4096) (mem : ByteMem) :
    ∃ s', initPages heap userPgt rec.gmEnd rec.flags rec.isValid.toNat frames
        ⟨⟨[], true⟩, rec.gmStart, paddr, buf, mem⟩ = .ok s' ∧
      s'.mem = storePages (leafSlot heap userPgt) rec.flags rec.gmStart
        (frames.zip (rec.again buf)) mem ∧
      s'.stream = ⟨[], true⟩ ∧ s'.paddr < 2 ^ 64 ∧ s'.buf.length = 4096 := by
  obtain ⟨hfst, hzip, hroom⟩ := zip_contents hwf hlen (rec.again buf) List.length_replicate
  have hitems : ∀ item ∈ frames.zip (rec.again buf), item.1 % 4096 = 0 :=
    fun item hitem => hframes _ (List.of_mem_zip hitem).1
  have hagain : ∀ item ∈ frames.zip (rec.again buf),
      item.2 = if rec.isValid then some buf else none :=
    fun item hitem => List.eq_of_mem_replicate (List.of_mem_zip hitem).2
  cases hvalid : rec.isValid with
  | true =>
      have hinv : FileEnded heap userPgt buf (frames.zip (rec.again buf))
          ⟨⟨[], true⟩, rec.gmStart, paddr, buf, mem⟩ := {
        stream := rfl
        again := fun item hitem => by rw [hagain item hitem, if_pos hvalid]
        frames := hitems
        leaves := by rw [hzip]; exact hleaves
        paddr := hpaddr
        buf := ⟨rfl, hbuf⟩ }
      obtain ⟨s', hrun, hmem, hdone⟩ := initPages_eq hwf.bounded _ (fileEnded_step rec.flags)
        _ _ hinv hroom
      rw [hfst] at hrun
      exact ⟨s', hrun, hmem, hdone.stream, hdone.paddr, by rw [hdone.buf.1]; exact hbuf⟩
  | false =>
      have hinv : NothingAhead heap userPgt ⟨[], true⟩ (frames.zip (rec.again buf))
          ⟨⟨[], true⟩, rec.gmStart, paddr, buf, mem⟩ := {
        stream := rfl
        none := fun item hitem => by
          rw [hagain item hitem, if_neg (by rw [hvalid]; exact Bool.false_ne_true)]
        leaves := by rw [hzip]; exact hleaves
        paddr := hpaddr
        buf := hbuf }
      obtain ⟨s', hrun, hmem, hdone⟩ := initPages_eq hwf.bounded _ (nothingAhead_step rec.flags)
        _ _ hinv hroom
      rw [hfst] at hrun
      exact ⟨s', hrun, hmem, hdone.stream, hdone.paddr, hdone.buf⟩

end Record

/-- The state after one turn of the loop. -/
structure AfterTurn (heap : List UserPgtable) (userPgt : UserPtr) (rec : McRecord)
    (contents : List (Option (List UInt8))) (f : Stream) (s s' : McState) : Prop where
  stream : s'.stream = f
  locals : s'.locals.After rec
  mem : s'.mem = storePages (leafSlot heap userPgt) rec.flags rec.gmStart
    ((s.pool.take rec.nents).zip contents) s.mem
  pool : s'.pool = s.pool.drop rec.nents
  regions : s'.regions = s.regions ++ [rec.region (s.pool.take rec.nents)]
  totNrPages : s'.totNrPages = (s.totNrPages + rec.nents) % 2 ^ 32

theorem takePages_ok {n : Nat} {pool : List Nat} (h : n ≤ pool.length) :
    takePages n pool = .ok (pool.take n, pool.drop n) := if_pos h

/-- A header says nothing about `paddr` and `buf`. -/
theorem readHeader_with (l : Locals) (f : Stream) (paddr : Nat) (buf : List UInt8) :
    readHeader { l with paddr := paddr, buf := buf } f
      = ({ (readHeader l f).1 with paddr := paddr, buf := buf }, (readHeader l f).2) := rfl

theorem readHeader_buf (l : Locals) (f : Stream) : (readHeader l f).1.buf = l.buf := rfl

section Header

variable {rec : McRecord} (hwf : rec.WF)

include hwf

theorem readHeader_record (l : Locals) (rest : List UInt8) (eof : Bool) :
    readHeader l ⟨rec.bytes ++ rest, eof⟩
      = (⟨rec.gmStart, rec.gmEnd, rec.nents, rec.flags, rec.isValid.toNat, l.paddr, l.buf⟩,
          ⟨triples rec.gmStart rec.pages ++ rest, eof⟩) := by
  obtain ⟨hstart, hend, hnents, hflags, hvalid⟩ := hwf.header_lt
  unfold readHeader McRecord.bytes
  simp only [List.append_assoc, Stream.readWord_le hstart, Stream.readWord_le hend,
    Stream.readWord_le hnents, Stream.readWord_le hflags, Stream.readWord_le hvalid]

/-- At the end of the file the header of the last record stays. -/
theorem readHeader_again {l : Locals} (hafter : l.After rec) (eof : Bool) :
    readHeader l ⟨[], eof⟩ = (l, ⟨[], true⟩) := by
  obtain ⟨hstart, hend, hnents, hflags, hvalid⟩ := hwf.header_lt
  have hword : 0 < 8 := by decide
  rw [← hafter.gmStart] at hstart
  rw [← hafter.gmEnd] at hend
  rw [← hafter.nents] at hnents
  rw [← hafter.flags] at hflags
  rw [← hafter.isValid] at hvalid
  unfold readHeader
  simp only [Stream.readWord_nil hword hstart, Stream.readWord_nil hword hend,
    Stream.readWord_nil hword hnents, Stream.readWord_nil (show 0 < 4 by decide) hflags,
    Stream.readWord_nil (show 0 < 1 by decide) hvalid]

end Header

section Turn

variable {heap : List UserPgtable} {userPgt : UserPtr} {rec : McRecord}

/-- Without the frames a header asks for, a turn does not return. -/
theorem initRegion_short {s : McState} {l : Locals} {f : Stream}
    (hheader : readHeader s.locals s.stream = (l, f)) (hshort : ¬ l.nents ≤ s.pool.length) :
    initRegion heap userPgt s = .error .undefined := by
  unfold initRegion takePages
  rw [hheader]
  simp only [if_neg hshort]
  rfl

/-- A turn whose header is that of `rec` and whose page loop returns. -/
theorem initRegion_turn {s : McState} {l : Locals} {f f' : Stream} {p : PageState}
    {contents : List (Option (List UInt8))}
    (hheader : readHeader s.locals s.stream = (l, f)) (hl : l.After rec)
    (henough : rec.nents ≤ s.pool.length)
    (hrun : initPages heap userPgt rec.gmEnd rec.flags rec.isValid.toNat (s.pool.take rec.nents)
      ⟨f, rec.gmStart, l.paddr, l.buf, s.mem⟩ = .ok p)
    (hmem : p.mem = storePages (leafSlot heap userPgt) rec.flags rec.gmStart
      ((s.pool.take rec.nents).zip contents) s.mem)
    (hstream : p.stream = f') (hpaddr : p.paddr < 2 ^ 64) (hbuf : p.buf.length = 4096) :
    ∃ s', initRegion heap userPgt s = .ok s' ∧ AfterTurn heap userPgt rec contents f' s s' ∧
      s'.locals.buf = p.buf := by
  obtain ⟨gmStart, gmEnd, nents, flags, isValid, paddr, buf⟩ := l
  obtain ⟨rfl, rfl, rfl, rfl, rfl, -, -⟩ := hl
  unfold initRegion
  rw [hheader]
  simp only [takePages_ok henough, Except.ok_bind, hrun, Except.pure_eq_ok]
  exact ⟨_, rfl, {
    stream := hstream
    locals := ⟨rfl, rfl, rfl, rfl, rfl, hpaddr, hbuf⟩
    mem := hmem
    pool := rfl
    regions := rfl
    totNrPages := rfl }, rfl⟩

variable (hwf : rec.WF) (hleaves : HasLeaves heap userPgt rec.gmStart rec.nents) {s : McState}
  (hpool : ∀ frame ∈ s.pool, frame % 4096 = 0)
  (hpaddr : s.locals.paddr < 2 ^ 64) (hbuf : s.locals.buf.length = 4096)
  (henough : rec.nents ≤ s.pool.length)

include hwf hleaves hpool hpaddr hbuf henough

/-- **One turn takes one record off the file.** -/
theorem initRegion_record {rest : List UInt8} {eof : Bool}
    (hstream : s.stream = ⟨rec.bytes ++ rest, eof⟩) :
    ∃ s', initRegion heap userPgt s = .ok s' ∧
      AfterTurn heap userPgt rec rec.contents ⟨rest, eof⟩ s s' ∧
      s'.locals.buf = rec.lastPage s.locals.buf := by
  have htake : (s.pool.take rec.nents).length = rec.nents := by
    rw [List.length_take, Nat.min_eq_left henough]
  obtain ⟨p, hrun, hmem, hp, hp', hpb⟩ := initPages_record hwf hleaves
    (fun frame h => hpool frame (List.mem_of_mem_take h)) htake hpaddr hbuf rest eof s.mem
  have hheader := readHeader_record hwf s.locals rest eof
  rw [← hstream] at hheader
  rw [← (initPages_record_ok hwf (fun frame h => hpool frame (List.mem_of_mem_take h)) htake hbuf
    hrun).2]
  exact initRegion_turn hheader ⟨rfl, rfl, rfl, rfl, rfl, hpaddr, hbuf⟩ henough hrun hmem hp hp'
    hpb

/-- **The turn after the last record repeats its header.** -/
theorem initRegion_again (hafter : s.locals.After rec) {eof : Bool}
    (hstream : s.stream = ⟨[], eof⟩) :
    ∃ s', initRegion heap userPgt s = .ok s' ∧
      AfterTurn heap userPgt rec (rec.again s.locals.buf) ⟨[], true⟩ s s' := by
  have htake : (s.pool.take rec.nents).length = rec.nents := by
    rw [List.length_take, Nat.min_eq_left henough]
  obtain ⟨p, hrun, hmem, hp, hp', hpb⟩ := initPages_again hwf hleaves
    (fun frame h => hpool frame (List.mem_of_mem_take h)) htake hpaddr hbuf s.mem
  obtain ⟨s', hturn, hdone, -⟩ := initRegion_turn
    (by rw [hstream]; exact readHeader_again hwf hafter eof) hafter henough hrun hmem hp hp' hpb
  exact ⟨s', hturn, hdone⟩

end Turn

end GpuReplay.Replayer
