/-
The passes after a replay, as sequences of writes.

Each pass goes over the regions in its own way, and each comes down to a list of writes that
does not depend on what the GPU has left in memory: `gr_mem_contents_check` stores the recorded
pages again, `gr_restore_pte` the leaf entries, and `gr_clean_invalid_region` zeros.  Loading the
dump is the first two lists interleaved.
-/
import GpuReplay.Lib.WriteList
import GpuReplay.Proofs.Isolation
import GpuReplay.Proofs.Uncounted

namespace GpuReplay.Replayer

open Stdio ByteMem

/-! ### The writes -/

/-- A record on its frames, with what goes into each of them. -/
structure Placed where
  record : McRecord
  frames : List Nat
  contents : List (Option (List UInt8))

/-- The pages that have contents go into their frames. -/
def pageWrites (items : List (Nat × Option (List UInt8))) : List (Nat × List UInt8) :=
  items.filterMap fun item => item.2.map fun page => (item.1, page)

/-- The leaf entries of consecutive pages from `vaddr` on, and where they are. -/
def slotEntries (slot : Nat → Nat) (flags : Nat) : Nat → List Nat → List (Nat × Nat)
  | _, [] => []
  | vaddr, frame :: frames =>
      (slot vaddr, grEntryGetAte frame flags midgardMmuBottomlevel) ::
        slotEntries slot flags (vaddr + 4096) frames

/-- Entries as writes. -/
def wordWrites (es : List (Nat × Nat)) : List (Nat × List UInt8) :=
  es.map fun e => (e.1, Bytes.le 8 e.2)

/-- A page of zeros. -/
def zeroPage : List UInt8 := List.replicate 4096 0

/-- Zeros into some frames. -/
def zeroWrites (frames : List Nat) : List (Nat × List UInt8) := frames.map fun f => (f, zeroPage)

namespace Placed

/-- The region made of it. -/
def region (t : Placed) (isSynced : Nat) : Region :=
  ⟨t.record.gmStart, t.record.gmEnd, t.frames, t.record.nents, t.record.flags, t.record.isValid.toNat, isSynced⟩

/-- What goes into its frames. -/
def pages (t : Placed) : List (Nat × List UInt8) := pageWrites (t.frames.zip t.contents)

/-- Its leaf entries. -/
def entries (slot : Nat → Nat) (t : Placed) : List (Nat × Nat) :=
  slotEntries slot t.record.flags t.record.gmStart t.frames

end Placed

/-- The region was made of `t`, and may have been marked as synced since. -/
def Made (r : Region) (t : Placed) : Prop := ∃ isSynced, r = t.region isSynced

theorem pageWrites_some (frames : List Nat) :
    ∀ pages : List (List UInt8), pageWrites (frames.zip (pages.map some)) = frames.zip pages := by
  induction frames with
  | nil => exact fun _ => rfl
  | cons frame frames ih =>
      intro pages
      cases pages with
      | nil => rfl
      | cons page pages =>
          rw [List.map_cons, List.zip_cons_cons, List.zip_cons_cons, ← ih pages]
          rfl

theorem pageWrites_none (frames : List Nat) :
    ∀ n : Nat, pageWrites (frames.zip (List.replicate n none)) = [] := by
  induction frames with
  | nil => exact fun _ => rfl
  | cons frame frames ih =>
      intro n
      cases n with
      | zero => rfl
      | succ n => exact ih n

theorem pageWrites_replicate (page : List UInt8) (frames : List Nat) :
    pageWrites (frames.zip (List.replicate frames.length (some page))) =
      frames.map fun f => (f, page) := by
  induction frames with
  | nil => rfl
  | cons frame frames ih =>
      rw [List.length_cons, List.replicate_succ, List.zip_cons_cons, List.map_cons, ← ih]
      rfl

/-! ### Loading -/

section Loading

variable {slot : Nat → Nat} {p : Nat}

/-- Outside the leaf entries, loading a region stores its pages. -/
theorem storePages_apply_pages (flags : Nat) :
    ∀ (items : List (Nat × Option (List UInt8))) (vaddr : Nat) (mem : ByteMem),
      (∀ w ∈ wordWrites (slotEntries slot flags vaddr (items.map Prod.fst)), ¬Covers w p) →
      storePages slot flags vaddr items mem p = writes (pageWrites items) mem p := by
  intro items
  induction items with
  | nil => exact fun _ _ _ => rfl
  | cons item items ih =>
      intro vaddr mem h
      obtain ⟨frame, page⟩ := item
      have hhead := h _ List.mem_cons_self
      rw [storePages, ih _ _ fun w hw => h w (List.mem_cons_of_mem _ hw)]
      cases page with
      | none => exact writes_congr _ (write_apply_of_not_covers mem hhead)
      | some page =>
          exact writes_congr _ (write_apply_of_not_covers (mem.write frame page) hhead)

/-- Outside the pages, it stores the leaf entries. -/
theorem storePages_apply_slots (flags : Nat) :
    ∀ (items : List (Nat × Option (List UInt8))) (vaddr : Nat) (mem : ByteMem),
      (∀ w ∈ pageWrites items, ¬Covers w p) →
      storePages slot flags vaddr items mem p =
        writes (wordWrites (slotEntries slot flags vaddr (items.map Prod.fst))) mem p := by
  intro items
  induction items with
  | nil => exact fun _ _ _ => rfl
  | cons item items ih =>
      intro vaddr mem h
      obtain ⟨frame, page⟩ := item
      cases page with
      | none =>
          rw [storePages, ih _ _ h]
          rfl
      | some page =>
          have hhead := h (frame, page) List.mem_cons_self
          rw [storePages, ih _ _ fun w hw => h w (List.mem_cons_of_mem _ hw)]
          refine writes_congr _ (write_congr ?_ _ _)
          exact write_apply_of_not_covers mem hhead

/-- Loading some regions. -/
def storeAll (slot : Nat → Nat) : List Placed → ByteMem → ByteMem
  | [], mem => mem
  | t :: ts, mem => storeAll slot ts
      (storePages slot t.record.flags t.record.gmStart (t.frames.zip t.contents) mem)

theorem storeAll_append (ts us : List Placed) :
    ∀ mem : ByteMem, storeAll slot (ts ++ us) mem = storeAll slot us (storeAll slot ts mem) := by
  induction ts with
  | nil => exact fun _ => rfl
  | cons t ts ih => exact fun mem => ih _

/-- The writes of all the pages, and of all the leaf entries. -/
def allPages (ts : List Placed) : List (Nat × List UInt8) := ts.flatMap Placed.pages

def allEntries (slot : Nat → Nat) (ts : List Placed) : List (Nat × Nat) :=
  ts.flatMap (Placed.entries slot)

theorem allPages_cons (t : Placed) (ts : List Placed) :
    allPages (t :: ts) = t.pages ++ allPages ts := rfl

theorem allPages_append (ts us : List Placed) : allPages (ts ++ us) = allPages ts ++ allPages us :=
  List.flatMap_append

theorem allEntries_cons (t : Placed) (ts : List Placed) :
    allEntries slot (t :: ts) = t.entries slot ++ allEntries slot ts := rfl

/-- Every frame has its contents, if only that there are none. -/
def Full (ts : List Placed) : Prop := ∀ t ∈ ts, t.frames.length = t.contents.length

theorem Full.head {t : Placed} {ts : List Placed} (h : Full (t :: ts)) :
    (t.frames.zip t.contents).map Prod.fst = t.frames :=
  List.map_fst_zip (Nat.le_of_eq (h t List.mem_cons_self))

theorem Full.tail {t : Placed} {ts : List Placed} (h : Full (t :: ts)) : Full ts :=
  fun u hu => h u (List.mem_cons_of_mem _ hu)

theorem wordWrites_append (es fs : List (Nat × Nat)) :
    wordWrites (es ++ fs) = wordWrites es ++ wordWrites fs := List.map_append

theorem storeAll_apply_pages :
    ∀ {ts : List Placed} {mem : ByteMem}, Full ts →
      (∀ w ∈ wordWrites (allEntries slot ts), ¬Covers w p) →
      storeAll slot ts mem p = writes (allPages ts) mem p := by
  intro ts
  induction ts with
  | nil => exact fun _ _ => rfl
  | cons t ts ih =>
      intro mem hfull h
      rw [allEntries_cons, wordWrites_append] at h
      rw [storeAll, ih hfull.tail fun w hw => h w (List.mem_append_right _ hw), allPages_cons,
        writes_append]
      refine writes_congr _ (storePages_apply_pages _ _ _ _ fun w hw => h w ?_)
      rw [hfull.head] at hw
      exact List.mem_append_left _ hw

theorem storeAll_apply_slots :
    ∀ {ts : List Placed} {mem : ByteMem}, Full ts → (∀ w ∈ allPages ts, ¬Covers w p) →
      storeAll slot ts mem p = writes (wordWrites (allEntries slot ts)) mem p := by
  intro ts
  induction ts with
  | nil => exact fun _ _ => rfl
  | cons t ts ih =>
      intro mem hfull h
      rw [allPages_cons] at h
      rw [storeAll, ih hfull.tail fun w hw => h w (List.mem_append_right _ hw), allEntries_cons,
        wordWrites_append, writes_append]
      refine writes_congr _ ?_
      rw [storePages_apply_slots _ _ _ _ fun w hw => h w (List.mem_append_left _ hw), hfull.head]
      rfl

end Loading

/-! ### `gr_mem_contents_check` -/

/-- **One page**: whether it differs or not, the frame ends up with what was read. -/
theorem checkPage_eq {newPage gaddr paddr : Nat} {page : List UInt8} {f₁ f₂ f₃ : Stream}
    {s : CheckState} (haligned : newPage % 4096 = 0)
    (hgaddr : s.stream.readWord 8 s.gaddr = (gaddr, f₁))
    (hpaddr : f₁.readWord 8 s.paddr = (paddr, f₂)) (hbuf : f₂.read 4096 s.buf = (page, f₃))
    (hpage : page.length = 4096) :
    ∃ isDifferent, checkPage newPage s
      = .ok ⟨f₃, gaddr, paddr, page, isDifferent, s.mem.write newPage page⟩ := by
  have hread : grReadPhys s.mem newPage 4096 = .ok (s.mem.read newPage 4096) :=
    grReadPhys_eq (by rw [haligned])
  have hwrite : grWritePhys s.mem newPage page = .ok (s.mem.write newPage page) :=
    grWritePhys_eq (by rw [haligned, hpage])
  unfold checkPage
  simp only [hgaddr, hpaddr, hbuf, hread, Except.ok_bind]
  by_cases hdiff : (s.isDifferent || decide (s.mem.read newPage 4096 ≠ page)) = true
  · rw [if_pos hdiff, hwrite]
    exact ⟨_, rfl⟩
  · rw [if_neg hdiff]
    have hsame : s.mem.read newPage 4096 = page := by
      by_contra hne
      exact hdiff (by rw [decide_eq_true hne, Bool.or_true])
    have hkept : s.mem.write newPage page = s.mem := by rw [← hsame, write_read_self]
    rw [hkept]
    exact ⟨_, rfl⟩

section Check

variable {gmEnd : Nat} (hend : gmEnd < 2 ^ 64)

include hend

/-- Over triples. -/
theorem checkPagesUncounted_triples {rest : List UInt8} {eof : Bool} :
    ∀ {pages : List (Nat × List UInt8)} {frames : List Nat} {s : CheckState},
      frames.length = pages.length → (∀ frame ∈ frames, frame % 4096 = 0) →
      (∀ q ∈ pages, q.1 < 2 ^ 64 ∧ q.2.length = 4096) → s.gaddr + 4096 * pages.length ≤ gmEnd →
      s.stream = ⟨triples s.gaddr pages ++ rest, eof⟩ → s.buf.length = 4096 → s.paddr < 2 ^ 64 →
      ∃ s', checkPagesUncounted gmEnd frames s = .ok s' ∧ s'.stream = ⟨rest, eof⟩ ∧ s'.paddr < 2 ^ 64 ∧
        s'.buf.length = 4096 ∧ s'.buf = (pages.map Prod.snd).getLastD s.buf ∧
        s'.mem = writes (frames.zip (pages.map Prod.snd)) s.mem := by
  intro pages
  induction pages with
  | nil =>
      intro frames s hlen _ _ _ hstream hbuf hpaddr
      rw [List.eq_nil_of_length_eq_zero hlen]
      exact ⟨s, rfl, hstream, hpaddr, hbuf, rfl, rfl⟩
  | cons q pages ih =>
      intro frames s hlen hframes hpages hroom hstream hbuf _
      obtain ⟨paddr, page⟩ := q
      obtain ⟨hpaddr, hpage⟩ := hpages _ List.mem_cons_self
      rw [List.length_cons] at hroom
      have hgaddr : s.gaddr < 256 ^ 8 := show s.gaddr < 2 ^ 64 by omega
      cases frames with
      | nil => exact absurd hlen.symm (Nat.succ_ne_zero _)
      | cons frame frames =>
          rw [triples, List.append_assoc, List.append_assoc, List.append_assoc] at hstream
          obtain ⟨isDifferent, hone⟩ := checkPage_eq (hframes frame List.mem_cons_self)
            (by rw [hstream]; exact Stream.readWord_le hgaddr _ _ _)
            (Stream.readWord_le (show paddr < 256 ^ 8 from hpaddr) _ _ _)
            (Stream.read_append hpage (Nat.le_of_eq hbuf) _ _) hpage
          have hnext : (s.gaddr + 4096) % 2 ^ 64 = s.gaddr + 4096 := Nat.mod_eq_of_lt (by omega)
          rw [checkPagesUncounted, if_pos (by omega), hone, Except.ok_bind]
          dsimp only
          rw [hnext]
          obtain ⟨s', hrun, hdone, hp, hb, hlast, hmem⟩ := @ih frames
            ⟨⟨triples (s.gaddr + 4096) pages ++ rest, eof⟩, s.gaddr + 4096, paddr, page, isDifferent,
              s.mem.write frame page⟩ (Nat.succ.inj hlen)
            (fun fr hfr => hframes fr (List.mem_cons_of_mem _ hfr))
            (fun r hr => hpages r (List.mem_cons_of_mem _ hr)) (by dsimp only; omega) rfl hpage
            hpaddr
          refine ⟨s', hrun, hdone, hp, hb, ?_, ?_⟩
          · rw [hlast, List.map_cons, List.getLastD_cons]
          · rw [hmem]
            rfl

/-- Past the end of the file, where the page read last goes in again. -/
theorem checkPagesUncounted_eof {buf : List UInt8} (hbuf : buf.length = 4096) :
    ∀ {frames : List Nat} {s : CheckState}, (∀ frame ∈ frames, frame % 4096 = 0) →
      s.gaddr + 4096 * frames.length ≤ gmEnd → s.stream = ⟨[], true⟩ → s.buf = buf →
      s.paddr < 2 ^ 64 →
      ∃ s', checkPagesUncounted gmEnd frames s = .ok s' ∧ s'.stream = ⟨[], true⟩ ∧
        s'.mem = writes (frames.map fun f => (f, buf)) s.mem := by
  intro frames
  induction frames with
  | nil => exact fun _ _ hstream _ _ => ⟨_, rfl, hstream, rfl⟩
  | cons frame frames ih =>
      intro s hframes hroom hstream hs hpaddr
      rw [List.length_cons] at hroom
      have hgaddr : s.gaddr < 256 ^ 8 := show s.gaddr < 2 ^ 64 by omega
      obtain ⟨isDifferent, hone⟩ := checkPage_eq (hframes frame List.mem_cons_self)
        (by rw [hstream]; exact Stream.readWord_nil (by decide) hgaddr _)
        (Stream.readWord_nil (by decide) (show s.paddr < 256 ^ 8 from hpaddr) _)
        (Stream.read_nil (by decide) _ _) (by rw [hs, hbuf])
      have hnext : (s.gaddr + 4096) % 2 ^ 64 = s.gaddr + 4096 := Nat.mod_eq_of_lt (by omega)
      rw [checkPagesUncounted, if_pos (by omega), hone, Except.ok_bind]
      dsimp only
      rw [hnext]
      obtain ⟨s', hrun, hdone, hmem⟩ := @ih ⟨⟨[], true⟩, s.gaddr + 4096, s.paddr, s.buf, isDifferent,
        s.mem.write frame s.buf⟩ (fun fr hfr => hframes fr (List.mem_cons_of_mem _ hfr))
        (by dsimp only; omega) rfl hs hpaddr
      refine ⟨s', hrun, hdone, ?_⟩
      rw [hmem, hs]
      rfl

end Check

/-- A record with its contents, on as many frames as it has pages. -/
structure Placed.Sound (t : Placed) : Prop where
  wf : t.record.WF
  length : t.frames.length = t.record.nents
  aligned : ∀ frame ∈ t.frames, frame % 4096 = 0

/-- **A turn on a record.** -/
theorem checkRegionUncounted_record {t : Placed} (ht : t.Sound)
    (hcontents : t.contents = t.record.contents)
    {r : Region} (hr : Made r t) {l : Locals} (hpaddr : l.paddr < 2 ^ 64)
    (hbuf : l.buf.length = 4096) (rest : List UInt8) (mem : ByteMem) :
    ∃ l', checkRegionUncounted r l ⟨t.record.bytes ++ rest, false⟩ mem
        = .ok (l', ⟨rest, false⟩, writes t.pages mem) ∧
      l'.After t.record ∧ l'.buf = t.record.lastPage l.buf := by
  obtain ⟨sync, rfl⟩ := hr
  have hpages := ht.wf.length_pages
  have hroom := ht.wf.room
  unfold checkRegionUncounted
  rw [readHeader_record ht.wf]
  dsimp only [Placed.region]
  cases hvalid : t.record.isValid with
  | true =>
      rw [hvalid, if_pos rfl] at hpages
      have hitems : t.pages = t.frames.zip (t.record.pages.map Prod.snd) := by
        rw [Placed.pages, hcontents, McRecord.contents, hvalid, if_pos rfl, ← pageWrites_some,
          List.map_map]
        rfl
      obtain ⟨s', hrun, hstream, hp, hb, hlast, hmem⟩ := @checkPagesUncounted_triples _ ht.wf.bounded rest
        false t.record.pages t.frames
        ⟨⟨triples t.record.gmStart t.record.pages ++ rest, false⟩, t.record.gmStart, l.paddr, l.buf,
          false, mem⟩
        (by rw [ht.length, hpages]) ht.aligned ht.wf.page (by rw [hpages]; exact hroom) rfl hbuf
        hpaddr
      rw [if_pos (by decide), hrun, hitems]
      refine ⟨⟨t.record.gmStart, t.record.gmEnd, t.record.nents, t.record.flags, true.toNat, s'.paddr,
        s'.buf⟩, ?_, ⟨rfl, rfl, rfl, rfl, by rw [hvalid], hp, hb⟩, hlast⟩
      rw [Except.ok_bind, hstream, hmem]
      rfl
  | false =>
      rw [hvalid, if_neg Bool.false_ne_true] at hpages
      have hnil := List.eq_nil_of_length_eq_zero hpages
      have hitems : t.pages = [] := by
        rw [Placed.pages, hcontents, McRecord.contents, hvalid, if_neg Bool.false_ne_true,
          pageWrites_none]
      rw [if_neg (by decide), hitems, hnil]
      refine ⟨_, rfl, ⟨rfl, rfl, rfl, rfl, by rw [hvalid], hpaddr, hbuf⟩, ?_⟩
      rw [McRecord.lastPage, hnil]
      rfl

/-- **The turn after the last record.** -/
theorem checkRegionUncounted_again {t : Placed} (ht : t.Sound) {l : Locals} (hafter : l.After t.record)
    (hcontents : t.contents = t.record.again l.buf) {r : Region} (hr : Made r t) (eof : Bool)
    (mem : ByteMem) :
    ∃ l', checkRegionUncounted r l ⟨[], eof⟩ mem = .ok (l', ⟨[], true⟩, writes t.pages mem) := by
  obtain ⟨sync, rfl⟩ := hr
  have hroom := ht.wf.room
  unfold checkRegionUncounted
  rw [readHeader_again ht.wf hafter]
  dsimp only [Placed.region]
  rw [hafter.isValid, Placed.pages, hcontents, McRecord.again]
  cases hvalid : t.record.isValid with
  | true =>
      have hitems : pageWrites (t.frames.zip (List.replicate t.record.nents (some l.buf))) =
          t.frames.map fun f => (f, l.buf) := by
        rw [← ht.length, pageWrites_replicate]
      obtain ⟨s', hrun, hstream, hmem⟩ := @checkPagesUncounted_eof _ ht.wf.bounded _ hafter.buf t.frames
        ⟨⟨[], true⟩, t.record.gmStart, l.paddr, l.buf, false, mem⟩ ht.aligned
        (by rw [ht.length]; exact hroom) rfl rfl hafter.paddr
      rw [if_pos (by decide), hrun, if_pos rfl, hitems]
      refine ⟨⟨l.gmStart, l.gmEnd, l.nents, l.flags, true.toNat, s'.paddr, s'.buf⟩, ?_⟩
      rw [Except.ok_bind, hstream, hmem]
      rfl
  | false =>
      rw [if_neg (by decide), if_neg Bool.false_ne_true, pageWrites_none]
      exact ⟨_, rfl⟩

theorem exists_made {regions : List Region} {ts : List Placed} (h : List.Forall₂ Made regions ts)
    {r : Region} (hr : r ∈ regions) : ∃ t ∈ ts, Made r t := by
  induction h with
  | nil => exact absurd hr List.not_mem_nil
  | cons hmade _ ih =>
      rcases List.mem_cons.mp hr with rfl | hr
      · exact ⟨_, List.mem_cons_self, hmade⟩
      · obtain ⟨t, ht, hmade'⟩ := ih hr
        exact ⟨t, List.mem_cons_of_mem _ ht, hmade'⟩

/-- A record whose pages are counted: it is not valid, or it has fewer than `2 ^ 32`. -/
def Counted (rec : McRecord) : Prop := rec.isValid = true → rec.nents < 2 ^ 32

theorem checkRegion_made {t : Placed} (ht : t.Sound) (hfew : Counted t.record) {r : Region}
    (hr : Made r t) {fuel : Nat} (hfuel : 2 ^ 32 ≤ fuel) {l : Locals} {f : Stream} (mem : ByteMem)
    (hvalid : (readHeader l f).1.isValid = t.record.isValid.toNat) :
    checkRegion r fuel l f mem = some (checkRegionUncounted r l f mem) := by
  obtain ⟨sync, rfl⟩ := hr
  refine checkRegion_eq ht.length (fun hne => hfew ?_) hfuel
  cases hrecord : t.record.isValid with
  | true => rfl
  | false =>
      rw [hvalid, hrecord] at hne
      exact absurd rfl hne

/-- The loop, as long as there are records. -/
theorem checkRegions_records {rest : List UInt8} {more : List Region} {fuel : Nat}
    (hfuel : 2 ^ 32 ≤ fuel) :
    ∀ {ts : List Placed} {regions : List Region} {l : Locals} {mem : ByteMem},
      List.Forall₂ Made regions ts →
      (∀ t ∈ ts, t.Sound ∧ t.contents = t.record.contents) → l.paddr < 2 ^ 64 →
      l.buf.length = 4096 →
      ∃ l', checkRegionsUncounted (regions ++ more) l ⟨dump (ts.map Placed.record) ++ rest, false⟩ mem
          = checkRegionsUncounted more l' ⟨rest, false⟩ (writes (allPages ts) mem) ∧
        ((∀ t ∈ ts, Counted t.record) →
          checkRegions fuel (regions ++ more) l ⟨dump (ts.map Placed.record) ++ rest, false⟩ mem
            = checkRegions fuel more l' ⟨rest, false⟩ (writes (allPages ts) mem)) ∧
        (∀ d, (ts = [] → l.After d) → l'.After ((ts.map Placed.record).getLastD d)) ∧
        l'.buf = bufAfter (ts.map Placed.record) l.buf := by
  intro ts
  induction ts with
  | nil =>
      intro regions l mem hmade _ _ _
      cases hmade
      exact ⟨l, rfl, fun _ => rfl, fun d hd => hd rfl, rfl⟩
  | cons t ts ih =>
      intro regions l mem hmade hts hpaddr hbuf
      cases hmade with
      | cons hr hmade =>
          obtain ⟨ht, hcontents⟩ := hts t List.mem_cons_self
          obtain ⟨l₁, hone, hafter, hlast⟩ := checkRegionUncounted_record ht hcontents hr hpaddr hbuf
            (dump (ts.map Placed.record) ++ rest) mem
          obtain ⟨l₂, hrun, hcounted, hlast₂, hbuf₂⟩ := @ih _ l₁ (writes t.pages mem) hmade
            (fun u hu => hts u (List.mem_cons_of_mem _ hu)) hafter.paddr hafter.buf
          refine ⟨l₂, ?_, fun hfew => ?_, ?_, ?_⟩
          · rw [List.cons_append, checkRegionsUncounted, if_neg Bool.false_ne_true, List.map_cons, dump,
              List.flatMap_cons, List.append_assoc, ← dump, hone, Except.ok_bind, allPages_cons,
              writes_append]
            exact hrun
          · obtain ⟨hfirst, hothers⟩ := List.forall_mem_cons.mp hfew
            have hmade₁ := @checkRegion_made t ht hfirst _ hr fuel hfuel l
              ⟨t.record.bytes ++ (dump (ts.map Placed.record) ++ rest), false⟩ mem
              (by rw [readHeader_record ht.wf])
            rw [List.cons_append, checkRegions, if_neg Bool.false_ne_true, List.map_cons, dump,
              List.flatMap_cons, List.append_assoc, ← dump, hmade₁, hone, allPages_cons,
              writes_append]
            exact hcounted hothers
          · intro d _
            rw [List.map_cons, List.getLastD_cons]
            exact hlast₂ t.record fun _ => hafter
          · rw [hbuf₂, hlast]
            rfl

/-- **`gr_mem_contents_check` stores the recorded pages**, and into the repeated region the page
read last. -/
theorem grMemContentsCheck_eq {fuel : Nat} (hfuel : 2 ^ 32 ≤ fuel) {base : List Placed}
    {dup : Placed} {regions : List Region}
    {last : Region} (hmade : List.Forall₂ Made regions base) (hlast : Made last dup)
    (hbase : ∀ t ∈ base, t.Sound ∧ t.contents = t.record.contents) (hdup : dup.Sound)
    {locals : Locals} (hrecord : (base.map Placed.record).getLast? = some dup.record)
    (hcontents : dup.contents = dup.record.again (bufAfter (base.map Placed.record) locals.buf))
    (hpaddr : locals.paddr < 2 ^ 64) (hbuf : locals.buf.length = 4096) (unused : List Region)
    (mem : ByteMem) :
    grMemContentsCheckUncounted (regions ++ [last]) unused locals (dump (base.map Placed.record)) mem
        = .ok (writes (allPages (base ++ [dup])) mem) ∧
      ((∀ t ∈ base ++ [dup], Counted t.record) →
        grMemContentsCheck (regions ++ [last]) unused fuel locals (dump (base.map Placed.record)) mem
          = some (.ok (writes (allPages (base ++ [dup])) mem))) := by
  obtain ⟨l, hrun, hcounted, hafter, hl⟩ := @checkRegions_records [] (last :: unused) fuel hfuel base
    regions locals mem hmade hbase hpaddr hbuf
  have hlocals : l.After dup.record := by
    have := hafter dup.record fun hnil => by rw [hnil] at hrecord; simp at hrecord
    rwa [List.getLastD_eq_getLast?, hrecord] at this
  obtain ⟨l', hagain⟩ := checkRegionUncounted_again hdup hlocals (by rw [hcontents, hl]) hlast false
    (writes (allPages base) mem)
  rw [List.append_nil] at hrun hcounted
  have hone : writes (allPages [dup]) = writes dup.pages := by
    rw [allPages, List.flatMap_singleton]
  constructor
  · unfold grMemContentsCheckUncounted
    rw [List.append_assoc, List.singleton_append]
    refine hrun.trans ?_
    rw [checkRegionsUncounted, if_neg Bool.false_ne_true, hagain, Except.ok_bind, allPages_append,
      writes_append, hone]
    cases unused with
    | nil => rfl
    | cons r rs => rfl
  · intro hfew
    have hmade₁ := @checkRegion_made dup hdup (hfew dup (List.mem_append_right _ List.mem_cons_self))
      _ hlast fuel hfuel l ⟨[], false⟩ (writes (allPages base) mem)
      (by rw [readHeader_again hdup.wf hlocals]; exact hlocals.isValid)
    unfold grMemContentsCheck
    rw [List.append_assoc, List.singleton_append]
    refine (hcounted fun t ht => hfew t (List.mem_append_left _ ht)).trans ?_
    rw [checkRegions, if_neg Bool.false_ne_true, hmade₁, hagain, allPages_append, writes_append, hone]
    cases unused with
    | nil => rfl
    | cons r rs => rfl

/-! ### `gr_restore_pte` -/

section Restore

variable {heap : List UserPgtable} {userPgt : UserPtr}

theorem restorePagesUncounted_eq {gmEnd : Nat} (hend : gmEnd < 2 ^ 64) (flags : Nat) :
    ∀ {frames : List Nat} {gaddr : Nat} {mem : ByteMem},
      HasLeaves heap userPgt gaddr frames.length → gaddr + 4096 * frames.length ≤ gmEnd →
      restorePagesUncounted heap userPgt gmEnd flags gaddr frames mem
        = .ok (writes (wordWrites (slotEntries (leafSlot heap userPgt) flags gaddr frames)) mem) := by
  intro frames
  induction frames with
  | nil => exact fun _ _ => rfl
  | cons frame frames ih =>
      intro gaddr mem hleaves hroom
      rw [List.length_cons] at hleaves hroom
      obtain ⟨target, pgd, htarget, hpgd, hslot⟩ := hasLeaf_iff.mp hleaves.head
      have hnext : (gaddr + 4096) % 2 ^ 64 = gaddr + 4096 := Nat.mod_eq_of_lt (by omega)
      rw [restorePagesUncounted, if_pos (by omega), htarget, Except.ok_bind, hpgd, Except.ok_bind]
      dsimp only
      rw [hnext, ih hleaves.tail (by omega), ← hslot]
      rfl

/-- **`gr_restore_pte` stores the leaf entries.** -/
theorem grRestorePteUncounted_eq :
    ∀ {ts : List Placed} {regions : List Region} {mem : ByteMem}, List.Forall₂ Made regions ts →
      (∀ t ∈ ts, t.Sound ∧ HasLeaves heap userPgt t.record.gmStart t.record.nents) →
      grRestorePteUncounted heap userPgt regions mem
        = .ok (writes (wordWrites (allEntries (leafSlot heap userPgt) ts)) mem) := by
  intro ts
  induction ts with
  | nil =>
      intro regions mem hmade _
      cases hmade
      rfl
  | cons t ts ih =>
      intro regions mem hmade hts
      cases hmade with
      | cons hr hmade =>
          obtain ⟨sync, rfl⟩ := hr
          obtain ⟨ht, hleaves⟩ := hts t List.mem_cons_self
          rw [← ht.length] at hleaves
          have hone := @restorePagesUncounted_eq heap userPgt t.record.gmEnd ht.wf.bounded t.record.flags
            t.frames t.record.gmStart mem hleaves (by rw [ht.length]; exact ht.wf.room)
          have hrest := @ih _ (writes (wordWrites (t.entries (leafSlot heap userPgt))) mem) hmade
            fun u hu => hts u (List.mem_cons_of_mem _ hu)
          rw [grRestorePteUncounted]
          dsimp only [Placed.region]
          rw [hone, Except.ok_bind, allEntries_cons, wordWrites_append, writes_append]
          exact hrest

end Restore

/-! ### `gr_clean_invalid_region` -/

/-- A region that its addresses are looked up to, with room for its pages. -/
structure LookedUp (regions : List Region) (owner : Region) : Prop where
  start_aligned : owner.gmStart % 4096 = 0
  end_lt : owner.gmEnd < 2 ^ 64
  frames : ∀ frame ∈ owner.pages, frame % 4096 = 0
  length : owner.pages.length = owner.nrPages
  room : owner.gmStart + 4096 * owner.pages.length ≤ owner.gmEnd
  lookup : ∀ a, owner.Encloses a →
    (grFindRegionEnclosingAddress regions a).bind (regions[·]?) = some owner

/-- A page of zeros, copied to the address of page `j`. -/
theorem LookedUp.copy_zeroPage {regions : List Region} {owner : Region}
    (h : LookedUp regions owner) {j frame : Nat} (hframe : owner.pages[j]? = some frame)
    (mem : ByteMem) :
    grCopyToGpu regions mem ((owner.gmStart + j * 4096) % 2 ^ 64) zeroPage 4096
      = .ok (mem.write frame zeroPage, zeroPage) := by
  have hstart := h.start_aligned
  have hbound := h.end_lt
  have hroom := h.room
  have hj : j < owner.pages.length := (List.getElem?_eq_some_iff.mp hframe).1
  have haddr : (owner.gmStart + j * 4096) % 2 ^ 64 = owner.gmStart + j * 4096 :=
    Nat.mod_eq_of_lt (by omega)
  have hindex : (owner.gmStart + j * 4096 - owner.gmStart) / 4096 = j := by omega
  have hoffset : (owner.gmStart + j * 4096) % 4096 = 0 := by omega
  have hlen : zeroPage.length = 4096 := List.length_replicate
  have hone := grCopyToGpu_page (h.lookup (owner.gmStart + j * 4096) ⟨by omega, by omega⟩) hbound
    (by rw [hlen]; omega) (by rw [hlen]; decide) (by rw [hlen, hoffset]) (hindex.symm ▸ hframe)
    (h.frames frame (List.mem_of_getElem? hframe)) mem
  rwa [hlen, hoffset, Nat.add_zero, ← haddr] at hone

/-- The pages of a region, cleared in the region they are looked up to. -/
theorem cleanPagesUncounted_eq {regions : List Region} {owner : Region} (h : LookedUp regions owner) :
    ∀ (n j : Nat) (mem : ByteMem), j + n = owner.pages.length →
      cleanPagesUncounted regions owner.gmStart n j mem
        = .ok (writes (zeroWrites (owner.pages.drop j)) mem) := by
  intro n
  induction n with
  | zero =>
      intro j mem hj
      rw [List.drop_of_length_le (by omega)]
      rfl
  | succ n ih =>
      intro j mem hj
      have hlt : j < owner.pages.length := by omega
      have hone := h.copy_zeroPage (List.getElem?_eq_getElem hlt) mem
      rw [zeroPage] at hone
      rw [cleanPagesUncounted, hone, Except.ok_bind]
      dsimp only
      rw [ih (j + 1) _ (by omega), List.drop_eq_getElem_cons hlt]
      rfl

theorem cleanRegionsUncounted_append (regions rs ss : List Region) :
    ∀ mem : ByteMem, cleanRegionsUncounted regions (rs ++ ss) mem =
      (cleanRegionsUncounted regions rs mem >>= fun mem => cleanRegionsUncounted regions ss mem) := by
  induction rs with
  | nil => exact fun _ => rfl
  | cons r rs ih =>
      intro mem
      rw [List.cons_append, cleanRegionsUncounted, cleanRegionsUncounted]
      by_cases hvalid : r.isValid = 0
      · rw [if_pos hvalid, if_pos hvalid, bind_assoc]
        exact congrArg _ (funext fun mem => ih mem)
      · rw [if_neg hvalid, if_neg hvalid, bind_assoc]
        exact congrArg _ (funext fun mem => ih mem)

theorem zeroWrites_append (fs gs : List Nat) : zeroWrites (fs ++ gs) = zeroWrites fs ++ zeroWrites gs :=
  List.map_append

/-- The pages of the invalid regions. -/
def invalidPages (rs : List Region) : List Nat :=
  rs.flatMap fun r => if r.isValid = 0 then r.pages else []

/-- Regions whose addresses are looked up to themselves. -/
theorem cleanRegionsUncounted_self {regions : List Region} :
    ∀ {rs : List Region} {mem : ByteMem}, (∀ r ∈ rs, LookedUp regions r) →
      cleanRegionsUncounted regions rs mem = .ok (writes (zeroWrites (invalidPages rs)) mem) := by
  intro rs
  induction rs with
  | nil => exact fun _ => rfl
  | cons r rs ih =>
      intro mem hall
      obtain ⟨hr, hrest⟩ := List.forall_mem_cons.mp hall
      rw [cleanRegionsUncounted, invalidPages, List.flatMap_cons, zeroWrites_append, writes_append]
      by_cases hvalid : r.isValid = 0
      · have hclean := cleanPagesUncounted_eq hr r.nrPages 0 mem (by rw [hr.length, Nat.zero_add])
        rw [if_pos hvalid, if_pos hvalid, hclean]
        exact ih hrest
      · rw [if_neg hvalid, if_neg hvalid]
        exact ih hrest

/-- The frames of the regions nothing was recorded for. -/
def invalidFrames (ts : List Placed) : List Nat :=
  ts.flatMap fun t => if t.record.isValid then [] else t.frames

theorem invalidPages_made {rs : List Region} {ts : List Placed} (hmade : List.Forall₂ Made rs ts) :
    invalidPages rs = invalidFrames ts := by
  induction hmade with
  | nil => rfl
  | @cons r t rs ts hr _ ih =>
      obtain ⟨sync, rfl⟩ := hr
      rw [invalidPages, List.flatMap_cons, invalidFrames, List.flatMap_cons]
      refine congrArg₂ (· ++ ·) ?_ ih
      rw [Placed.region]
      cases t.record.isValid with
      | false => rfl
      | true => rfl

theorem made_of_mem {rs : List Region} {ts : List Placed} (hmade : List.Forall₂ Made rs ts)
    {r : Region} (hr : r ∈ rs) : ∃ t ∈ ts, Made r t := by
  induction hmade with
  | nil => cases hr
  | @cons s t rs ts hs _ ih =>
      rcases List.mem_cons.mp hr with rfl | hr
      · exact ⟨t, List.mem_cons_self, hs⟩
      · obtain ⟨u, hu, hmade⟩ := ih hr
        exact ⟨u, List.mem_cons_of_mem t hu, hmade⟩

theorem Placed.Sound.lookedUp {t : Placed} (ht : t.Sound) {r : Region} (hr : Made r t)
    {regions : List Region} (hlookup : ∀ a, r.Encloses a →
      (grFindRegionEnclosingAddress regions a).bind (regions[·]?) = some r) :
    LookedUp regions r := by
  obtain ⟨sync, rfl⟩ := hr
  exact {
    start_aligned := ht.wf.start_aligned
    end_lt := ht.wf.bounded
    frames := ht.aligned
    length := ht.length
    room := by rw [Placed.region, ht.length]; exact ht.wf.room
    lookup := hlookup }

/-- One region, where its addresses are looked up to a region with the same bounds. -/
theorem cleanRegionsUncounted_one {regions : List Region} {t u : Placed} (hu : u.Sound)
    (hrecord : t.record = u.record) {r owner : Region} (hr : Made r t) (howner : Made owner u)
    (hlookup : ∀ a, owner.Encloses a →
      (grFindRegionEnclosingAddress regions a).bind (regions[·]?) = some owner) (mem : ByteMem) :
    cleanRegionsUncounted regions [r] mem
      = .ok (writes (zeroWrites (if t.record.isValid then [] else u.frames)) mem) := by
  have hlooked := hu.lookedUp howner hlookup
  obtain ⟨sync, rfl⟩ := hr
  obtain ⟨sync', rfl⟩ := howner
  rw [cleanRegionsUncounted]
  by_cases hvalid : t.record.isValid = true
  · have hone : (t.region sync).isValid ≠ 0 := by
      rw [Placed.region, hvalid]
      exact Nat.one_ne_zero
    rw [if_neg hone, if_pos hvalid]
    rfl
  · have hzero : (t.region sync).isValid = 0 := by
      rw [Placed.region, Bool.eq_false_iff.mpr hvalid]
      rfl
    have hclean := cleanPagesUncounted_eq hlooked t.record.nents 0 mem
      (by rw [Placed.region, hu.length, hrecord, Nat.zero_add])
    rw [Placed.region, ← hrecord, List.drop_zero] at hclean
    rw [if_pos hzero, if_neg hvalid]
    exact Except.bind_eq_ok.mpr ⟨_, hclean, rfl⟩

/-- An address of one of the first regions, which do not overlap, is looked up to it. -/
theorem lookup_first {rs more : List Region}
    (hdisjoint : rs.Pairwise fun r s => r.gmEnd ≤ s.gmStart ∨ s.gmEnd ≤ r.gmStart) {r : Region}
    (hr : r ∈ rs) {a : Nat} (ha : r.Encloses a) :
    (grFindRegionEnclosingAddress (rs ++ more) a).bind ((rs ++ more)[·]?) = some r := by
  have hsame : ∀ s ∈ rs, s.Encloses a → s = r := by
    intro s hs henc
    by_contra hne
    have : Std.Symm fun r s : Region => r.gmEnd ≤ s.gmStart ∨ s.gmEnd ≤ r.gmStart :=
      ⟨fun _ _ h => h.symm⟩
    obtain ⟨hlo, hhi⟩ := ha
    obtain ⟨hlo', hhi'⟩ := henc
    have := hdisjoint.forall hs hr hne
    omega
  unfold grFindRegionEnclosingAddress
  cases hf : (rs ++ more).findIdx? fun s => decide (s.Encloses a) with
  | none =>
      have := List.findIdx?_eq_none_iff.mp hf r (List.mem_append_left _ hr)
      simp [ha] at this
  | some i =>
      obtain ⟨hi, henc, hfirst⟩ := List.findIdx?_eq_some_iff_getElem.mp hf
      obtain ⟨j, hj, rfl⟩ := List.getElem_of_mem hr
      have hlt : i < rs.length := by
        by_contra hge
        have hbefore := hfirst j (by omega)
        rw [List.getElem_append_left hj] at hbefore
        simp [ha] at hbefore
      rw [Option.bind_some, List.getElem?_eq_getElem hi, List.getElem_append_left hlt]
      rw [List.getElem_append_left hlt] at henc
      exact congrArg some (hsame _ (List.getElem_mem hlt) (by simpa using henc))

/-- **`gr_clean_invalid_region` clears the regions of the records**, and for the repeated region
clears the one it repeats. -/
theorem grCleanInvalidRegionUncounted_eq {base : List Placed} {dup orig : Placed} {regions : List Region}
    {last : Region} (hmade : List.Forall₂ Made regions base) (hlast : Made last dup)
    (hbase : ∀ t ∈ base, t.Sound) (horig : orig ∈ base) (hrecord : dup.record = orig.record)
    (hdisjoint : (base.map Placed.record).Pairwise fun r t =>
      r.gmEnd ≤ t.gmStart ∨ t.gmEnd ≤ r.gmStart) (mem : ByteMem) :
    grCleanInvalidRegionUncounted (regions ++ [last]) mem
      = .ok (writes (zeroWrites (invalidFrames base ++
          if dup.record.isValid then [] else orig.frames)) mem) := by
  have hbounds : regions.map (fun r => (r.gmStart, r.gmEnd)) =
      base.map fun t => (t.record.gmStart, t.record.gmEnd) := by
    clear hdisjoint horig hbase
    induction hmade with
    | nil => rfl
    | cons hr hrest ih =>
        obtain ⟨sync, rfl⟩ := hr
        rw [List.map_cons, List.map_cons, ih]
        rfl
  have hpairs : regions.Pairwise fun r s => r.gmEnd ≤ s.gmStart ∨ s.gmEnd ≤ r.gmStart := by
    have h₁ : (base.map fun t => (t.record.gmStart, t.record.gmEnd)).Pairwise
        fun x y : Nat × Nat => x.2 ≤ y.1 ∨ y.2 ≤ x.1 :=
      List.pairwise_map.mpr (List.pairwise_map.mp hdisjoint)
    rw [← hbounds] at h₁
    exact List.pairwise_map.mp h₁
  have howner : ∃ owner ∈ regions, Made owner orig := by
    clear hdisjoint hbounds hpairs hbase
    induction hmade with
    | nil => exact absurd horig List.not_mem_nil
    | cons hr _ ih =>
        rcases List.mem_cons.mp horig with rfl | horig
        · exact ⟨_, List.mem_cons_self, hr⟩
        · obtain ⟨owner, hmem, howner⟩ := ih horig
          exact ⟨owner, List.mem_cons_of_mem _ hmem, howner⟩
  obtain ⟨owner, hmem, howner⟩ := howner
  unfold grCleanInvalidRegionUncounted
  have hlooked : ∀ r ∈ regions, LookedUp (regions ++ [last]) r := by
    intro r hr
    obtain ⟨t, ht, hrt⟩ := made_of_mem hmade hr
    exact (hbase t ht).lookedUp hrt fun a ha => lookup_first hpairs hr ha
  rw [cleanRegionsUncounted_append, cleanRegionsUncounted_self hlooked, invalidPages_made hmade,
    Except.ok_bind, cleanRegionsUncounted_one (hbase orig horig) hrecord hlast howner
      fun a ha => lookup_first hpairs hmem ha, zeroWrites_append, writes_append]

end GpuReplay.Replayer
