/-
`gr_restore_pte` and the leaf entries that `gr_mem_contents_init` sets up.

The two loops over the pages of a region are written twice, one driven by the file, which
contains an address for every page, the other by the region table.  Where the addresses of the
file follow each other, both go through the same ones, and store the same entries at the same
places.  The records may lie over one another: then the last one wins, both times.
-/
import GpuReplay.Proofs.Contents
import GpuReplay.Proofs.UserNodes
import GpuReplay.Proofs.Walks

namespace GpuReplay.Replayer

open Stdio ByteMem Driver RadixTree

/-! ### The addresses of a region -/

/-- The leaf entries of some addresses that lead to some frames, and where they are. -/
def leafEntries (slot : Nat → Nat) (flags : Nat) (addrs frames : List Nat) : List (Nat × Nat) :=
  (addrs.zip frames).map fun e => (slot e.1, grEntryGetAte e.2 flags midgardMmuBottomlevel)

def Region.leafEntries (slot : Nat → Nat) (r : Region) : List (Nat × Nat) :=
  Replayer.leafEntries slot r.flags r.addrs r.pages

section Loops

variable {heap : List UserPgtable} {userPgt : UserPtr}

theorem restorePagesUncounted_addrs {gmEnd : Nat} (flags : Nat) :
    ∀ (frames : List Nat) (gaddr : Nat) (mem : ByteMem),
      (∀ a ∈ loopAddrs gmEnd frames.length gaddr, HasLeaf heap userPgt a) →
      restorePagesUncounted heap userPgt gmEnd flags gaddr frames mem
        = .ok (writes (wordWrites (leafEntries (leafSlot heap userPgt) flags
            (loopAddrs gmEnd frames.length gaddr) frames)) mem) := by
  intro frames
  induction frames with
  | nil => exact fun _ _ _ => rfl
  | cons frame frames ih =>
      intro gaddr mem hleaves
      rw [List.length_cons, loopAddrs] at hleaves ⊢
      by_cases hlt : gaddr < gmEnd
      · rw [if_pos hlt] at hleaves ⊢
        obtain ⟨target, pgd, htarget, hpgd, hslot⟩ :=
          hasLeaf_iff.mp (hleaves gaddr List.mem_cons_self)
        rw [restorePagesUncounted, if_pos hlt, htarget, Except.ok_bind, hpgd, Except.ok_bind]
        dsimp only
        rw [ih _ _ fun a ha => hleaves a (List.mem_cons_of_mem _ ha), ← hslot]
        rfl
      · rw [if_neg hlt]
        rw [restorePagesUncounted, if_neg hlt]
        rfl

/-- **`gr_restore_pte` stores the leaf entries of the regions.** -/
theorem grRestorePteUncounted_addrs :
    ∀ (regions : List Region) (mem : ByteMem),
      (∀ r ∈ regions, ∀ a ∈ r.addrs, HasLeaf heap userPgt a) →
      grRestorePteUncounted heap userPgt regions mem
        = .ok (writes (wordWrites (regions.flatMap (Region.leafEntries (leafSlot heap userPgt)))) mem) := by
  intro regions
  induction regions with
  | nil => exact fun _ _ => rfl
  | cons r regions ih =>
      intro mem hleaves
      rw [grRestorePteUncounted,
          restorePagesUncounted_addrs _ _ _ _ (hleaves r List.mem_cons_self), Except.ok_bind,
        ih _ fun s hs => hleaves s (List.mem_cons_of_mem _ hs), List.flatMap_cons, wordWrites_append,
        writes_append]
      rfl

/-- **The page loop that sets the entries up**, where the addresses of the file follow each
other: what is no part of its frames is as if only the entries had been stored. -/
theorem initPages_addrs {gmEnd flags isValid : Nat} :
    ∀ (frames : List Nat) (gaddr : Nat) (s s' : PageState), (∀ f ∈ frames, f % 4096 = 0) →
      (visitedPages gmEnd isValid frames.length s.stream s.vaddr).1
        = loopAddrs gmEnd frames.length gaddr →
      initPages heap userPgt gmEnd flags isValid frames s = .ok s' →
      (∀ a ∈ loopAddrs gmEnd frames.length gaddr, HasLeaf heap userPgt a) ∧
        s'.stream = (visitedPages gmEnd isValid frames.length s.stream s.vaddr).2 ∧
        ∀ p, pageStart p ∉ frames →
          s'.mem p = writes (wordWrites (leafEntries (leafSlot heap userPgt) flags
            (loopAddrs gmEnd frames.length gaddr) frames)) s.mem p := by
  intro frames
  induction frames with
  | nil =>
      intro gaddr s s' _ _ hrun
      obtain rfl := Except.ok.inj hrun
      exact ⟨fun a ha => absurd ha List.not_mem_nil, rfl, fun _ _ => rfl⟩
  | cons frame frames ih =>
      intro gaddr s s' haligned hfollow hrun
      rw [List.length_cons, visitedPages, loopAddrs] at hfollow
      rw [List.length_cons, visitedPages, loopAddrs]
      rw [initPages] at hrun
      by_cases hlt : s.vaddr < gmEnd
      · rw [if_pos hlt] at hfollow hrun ⊢
        by_cases hlt' : gaddr < gmEnd
        swap
        · rw [if_neg hlt'] at hfollow
          cases hfollow
        rw [if_pos hlt'] at hfollow ⊢
        obtain ⟨hsame, hrest⟩ := List.cons.inj hfollow
        obtain ⟨s₁, hpage, hrun⟩ := Except.bind_eq_ok.mp hrun
        obtain ⟨target, pgd, mem₁, htarget, hpgd, hframe, hmem, hnext⟩ :=
          initPage_ok (haligned frame List.mem_cons_self) hpage
        rw [← hnext] at hrest ⊢
        have hleaf : HasLeaf heap userPgt gaddr := by
          rw [← hsame]
          exact ⟨_, Except.bind_eq_ok.mpr ⟨target, htarget, Except.bind_eq_ok.mpr ⟨pgd, hpgd, rfl⟩⟩⟩
        have hslot : leafSlot heap userPgt gaddr = pgd.physPage + 8 * gpuIndex s.vaddr 0 := by
          obtain ⟨target', pgd', htarget', hpgd', hslot⟩ := hasLeaf_iff.mp hleaf
          rw [hsame] at htarget ⊢
          obtain rfl := Except.ok.inj (htarget'.symm.trans htarget)
          obtain rfl := Except.ok.inj (hpgd'.symm.trans hpgd)
          rw [hslot]
          show _ = _ + 8 * (gaddr / 4096 / 2 ^ 0 % 512)
          rw [Nat.pow_zero, Nat.div_one]
        obtain ⟨hleaves, hstream, hkept⟩ := ih ((gaddr + 4096) % 2 ^ 64)
          { s₁ with vaddr := (s₁.vaddr + 4096) % 2 ^ 64 } s'
          (fun f hf => haligned f (List.mem_cons_of_mem _ hf)) hrest hrun
        refine ⟨?_, hstream, fun p hp => ?_⟩
        · intro a ha
          rcases List.mem_cons.mp ha with rfl | ha
          · exact hleaf
          · exact hleaves a ha
        · rw [List.mem_cons, not_or] at hp
          rw [hkept p hp.2]
          show writes _ s₁.mem p = writes _ (s.mem.write (leafSlot heap userPgt gaddr)
            (Bytes.le 8 (grEntryGetAte frame flags midgardMmuBottomlevel))) p
          refine writes_congr _ ?_
          rw [hmem, hslot]
          exact write_congr (hframe p (by rw [List.mem_singleton]; exact hp.1)) _ _
      · rw [if_neg hlt] at hfollow hrun ⊢
        obtain rfl := Except.ok.inj hrun
        by_cases hlt' : gaddr < gmEnd
        · rw [if_pos hlt'] at hfollow
          cases hfollow
        · rw [if_neg hlt']
          exact ⟨fun a ha => absurd ha List.not_mem_nil, rfl, fun _ _ => rfl⟩

end Loops

/-! ### The addresses in the file -/

/-- The addresses in the file follow each other, in every turn of the loop over the records. -/
def AddrsFollow : Nat → Locals → Stream → Prop
  | 0, _, _ => True
  | n + 1, l, f =>
      f.eof = true ∨
        (visitedPages (readHeader l f).1.gmEnd (readHeader l f).1.isValid (readHeader l f).1.nents
            (readHeader l f).2 (readHeader l f).1.gmStart).1
          = loopAddrs (readHeader l f).1.gmEnd (readHeader l f).1.nents (readHeader l f).1.gmStart ∧
        AddrsFollow n (readHeader l f).1
          (visitedPages (readHeader l f).1.gmEnd (readHeader l f).1.isValid
            (readHeader l f).1.nents (readHeader l f).2 (readHeader l f).1.gmStart).2

theorem addrsFollow_congr :
    ∀ (n : Nat) (l : Locals) (f : Stream) (paddr : Nat) (buf : List UInt8),
      AddrsFollow n { l with paddr := paddr, buf := buf } f ↔ AddrsFollow n l f := by
  intro n
  induction n with
  | zero => exact fun _ _ _ _ => Iff.rfl
  | succ n ih =>
      intro l f paddr buf
      rw [AddrsFollow, AddrsFollow, readHeader_with]
      dsimp only
      rw [ih]

/-- **Loading a dump** whose addresses follow each other: what is no part of the frames is as
if only the entries of the regions had been stored. -/
theorem initRegions_addrs {heap : List UserPgtable} {userPgt : UserPtr} :
    ∀ (n : Nat) (s s' : McState), (∀ f ∈ s.pool, f % 4096 = 0) →
      AddrsFollow n s.locals s.stream → initRegions heap userPgt n s = .ok s' →
      ∃ rs, s'.regions = s.regions ++ rs ∧
        (∀ r ∈ rs, ∀ a ∈ r.addrs, HasLeaf heap userPgt a) ∧
        (∀ r ∈ rs, ∀ f ∈ r.pages, f ∈ s.pool) ∧
        ∀ p, (∀ r ∈ rs, pageStart p ∉ r.pages) →
          s'.mem p
            = writes (wordWrites (rs.flatMap (Region.leafEntries (leafSlot heap userPgt)))) s.mem p := by
  intro n
  induction n with
  | zero =>
      intro s s' _ _ hrun
      rw [initRegions] at hrun
      split_ifs at hrun
      obtain rfl := Except.ok.inj hrun
      exact ⟨[], (List.append_nil _).symm, fun r hr => absurd hr List.not_mem_nil,
        fun r hr => absurd hr List.not_mem_nil, fun _ _ => rfl⟩
  | succ n ih =>
      intro s s' haligned hfollow hrun
      rw [initRegions] at hrun
      by_cases heof : s.stream.eof = true
      · rw [if_pos heof] at hrun
        obtain rfl := Except.ok.inj hrun
        exact ⟨[], (List.append_nil _).symm, fun r hr => absurd hr List.not_mem_nil,
          fun r hr => absurd hr List.not_mem_nil, fun _ _ => rfl⟩
      · rw [if_neg heof] at hrun
        obtain ⟨s₁, hregion, hrest⟩ := Except.bind_eq_ok.mp hrun
        obtain ⟨hnow, hlater⟩ := hfollow.resolve_left heof
        unfold initRegion at hregion
        generalize readHeader s.locals s.stream = header at hregion hnow hlater
        obtain ⟨l, f⟩ := header
        dsimp only at hnow hlater hregion
        obtain ⟨⟨taken, pool⟩, htake, hregion⟩ := Except.bind_eq_ok.mp hregion
        obtain ⟨p, hpages, hdone⟩ := Except.bind_eq_ok.mp hregion
        obtain rfl := Except.ok.inj hdone
        unfold takePages at htake
        split_ifs at htake with hroom
        obtain ⟨rfl, rfl⟩ := Prod.mk.inj (Except.ok.inj htake)
        have hlen : (s.pool.take l.nents).length = l.nents := List.length_take_of_le hroom
        rw [← hlen] at hnow hlater
        obtain ⟨hleaves, hstream, hkept⟩ := initPages_addrs _ l.gmStart _ p
          (fun f hf => haligned f (List.mem_of_mem_take hf)) hnow hpages
        obtain ⟨rs, hrs, hleaves', hframes', hkept'⟩ := ih _ s'
          (fun f hf => haligned f (List.mem_of_mem_drop hf))
          (by
            dsimp only
            rw [hstream]
            exact (addrsFollow_congr n _ _ p.paddr p.buf).mpr hlater) hrest
        refine ⟨⟨l.gmStart, l.gmEnd, s.pool.take l.nents, l.nents, l.flags, l.isValid, 0⟩ :: rs,
          ?_, ?_, ?_, ?_⟩
        · rw [hrs, List.append_assoc]
          rfl
        · intro r hr a ha
          rcases List.mem_cons.mp hr with rfl | hr
          · exact hleaves a ha
          · exact hleaves' r hr a ha
        · intro r hr f hf
          rcases List.mem_cons.mp hr with rfl | hr
          · exact List.mem_of_mem_take hf
          · exact List.mem_of_mem_drop (hframes' r hr f hf)
        · intro q hq
          rw [hkept' q fun r hr => hq r (List.mem_cons_of_mem _ hr), List.flatMap_cons,
            wordWrites_append, writes_append]
          exact writes_congr _ (hkept q (hq _ List.mem_cons_self))

/-! ### Dumps of complete records -/

/-- A record that is complete: its triples are those of the addresses the page loop goes
through. -/
structure CompleteRecord (rec : McRecord) : Prop where
  header : rec.gmStart < 2 ^ 64 ∧ rec.gmEnd < 2 ^ 64 ∧ rec.nents < 2 ^ 64 ∧ rec.flags < 2 ^ 32
  length_pages : rec.pages.length
    = if rec.isValid then (loopAddrs rec.gmEnd rec.nents rec.gmStart).length else 0
  page : ∀ q ∈ rec.pages, q.2.length = 4096

theorem nextTriple_triples {vaddr : Nat} {q : Nat × List UInt8} (hq : q.2.length = 4096)
    (rest : List UInt8) (eof : Bool) (old : Nat) :
    nextTriple 1 ⟨Bytes.le 8 vaddr ++ (Bytes.le 8 q.1 ++ (q.2 ++ rest)), eof⟩ old
      = (⟨rest, eof⟩, vaddr % 2 ^ 64) := by
  have hfirst := Stream.read_append (Bytes.length_le 8 vaddr)
    (Nat.le_of_eq (Bytes.length_le 8 old)) (Bytes.le 8 q.1 ++ (q.2 ++ rest)) eof
  have hsecond := Stream.read_append (Bytes.length_le 8 q.1)
    (Nat.le_of_eq (Bytes.length_le 8 0)) (q.2 ++ rest) eof
  have hthird := Stream.read_append hq (show ([] : List UInt8).length ≤ 4096 by decide) rest eof
  rw [nextTriple, if_pos Nat.one_ne_zero]
  unfold Stream.readWord
  rw [hfirst]
  dsimp only
  rw [hsecond]
  dsimp only
  rw [hthird, Bytes.val_le_mod, show 256 ^ 8 = 2 ^ 64 by decide]

/-- The page loop on the triples of a record. -/
theorem visitedPages_triples {gmEnd : Nat} {rest : List UInt8} {eof : Bool} :
    ∀ (n vaddr : Nat) (pages : List (Nat × List UInt8)),
      pages.length = (loopAddrs gmEnd n (vaddr % 2 ^ 64)).length →
      (∀ q ∈ pages, q.2.length = 4096) →
      visitedPages gmEnd 1 n ⟨triples vaddr pages ++ rest, eof⟩ (vaddr % 2 ^ 64)
        = (loopAddrs gmEnd n (vaddr % 2 ^ 64), ⟨rest, eof⟩) := by
  intro n
  induction n with
  | zero =>
      intro vaddr pages hlen _
      rw [List.eq_nil_of_length_eq_zero hlen]
      rfl
  | succ n ih =>
      intro vaddr pages hlen hpages
      rw [loopAddrs] at hlen ⊢
      rw [visitedPages]
      by_cases hlt : vaddr % 2 ^ 64 < gmEnd
      · rw [if_pos hlt] at hlen ⊢
        rw [if_pos hlt]
        have hnext : (vaddr % 2 ^ 64 + 4096) % 2 ^ 64 = (vaddr + 4096) % 2 ^ 64 :=
          Nat.mod_add_mod ..
        cases pages with
        | nil => exact absurd hlen (Nat.succ_ne_zero _).symm
        | cons q pages =>
            rw [List.length_cons, List.length_cons, hnext] at hlen
            have hrest := ih (vaddr + 4096) pages (Nat.succ.inj hlen)
              fun r hr => hpages r (List.mem_cons_of_mem _ hr)
            rw [triples, List.append_assoc, List.append_assoc, List.append_assoc,
              nextTriple_triples (hpages q List.mem_cons_self)]
            dsimp only
            rw [hnext, hrest]
      · rw [if_neg hlt] at hlen ⊢
        rw [if_neg hlt, List.eq_nil_of_length_eq_zero hlen]
        rfl

/-- Where nothing is read, the addresses follow each other. -/
theorem visitedPages_unread {gmEnd isValid : Nat} {f : Stream}
    (hnext : ∀ v, v < 2 ^ 64 → nextTriple isValid f v = (f, v)) :
    ∀ (n vaddr : Nat), vaddr < 2 ^ 64 →
      visitedPages gmEnd isValid n f vaddr = (loopAddrs gmEnd n vaddr, f) := by
  intro n
  induction n with
  | zero => exact fun _ _ => rfl
  | succ n ih =>
      intro vaddr hlt
      rw [visitedPages, loopAddrs, hnext vaddr hlt]
      dsimp only
      rw [ih _ (Nat.mod_lt _ (by decide))]
      split
      · rfl
      · rfl

theorem nextTriple_eof (isValid : Nat) {v : Nat} (hv : v < 2 ^ 64) :
    nextTriple isValid ⟨[], true⟩ v = (⟨[], true⟩, v) := by
  unfold nextTriple
  split
  · have hfirst := Stream.readWord_nil (show 0 < 8 by decide) (show v < 256 ^ 8 from hv) true
    rw [hfirst]
    rfl
  · rfl

theorem readHeader_complete {rec : McRecord} (hrec : CompleteRecord rec) (l : Locals)
    (rest : List UInt8) (eof : Bool) :
    readHeader l ⟨rec.bytes ++ rest, eof⟩
      = (⟨rec.gmStart, rec.gmEnd, rec.nents, rec.flags, rec.isValid.toNat, l.paddr, l.buf⟩,
          ⟨triples rec.gmStart rec.pages ++ rest, eof⟩) := by
  obtain ⟨hstart, hend, hnents, hflags⟩ := hrec.header
  have hvalid : rec.isValid.toNat < 256 ^ 1 := by cases rec.isValid <;> decide
  unfold readHeader McRecord.bytes
  simp only [List.append_assoc, Stream.readWord_le (show _ < 256 ^ 8 from hstart),
    Stream.readWord_le (show _ < 256 ^ 8 from hend), Stream.readWord_le (show _ < 256 ^ 8 from hnents),
    Stream.readWord_le (show _ < 256 ^ 4 from hflags), Stream.readWord_le hvalid]

/-- **In a dump of complete records the addresses follow each other**, and so they do in the turn
after the last one. -/
theorem addrsFollow_dump :
    ∀ (recs : List McRecord) (n : Nat) (l : Locals), (∀ rec ∈ recs, CompleteRecord rec) →
      AddrsFollow n l ⟨dump recs, false⟩ := by
  intro recs
  induction recs with
  | nil =>
      intro n l _
      cases n with
      | zero => exact trivial
      | succ n =>
          have hstart : (readHeader l ⟨dump [], false⟩).1.gmStart < 2 ^ 64 :=
            Stream.readWord_lt 8 _ _
          have hstream : (readHeader l ⟨dump [], false⟩).2 = ⟨[], true⟩ := rfl
          refine Or.inr ?_
          generalize readHeader l ⟨dump [], false⟩ = header at hstart hstream
          obtain ⟨l', f⟩ := header
          dsimp only at hstart hstream ⊢
          rw [hstream, visitedPages_unread (fun v hv => nextTriple_eof _ hv) _ _ hstart]
          refine ⟨rfl, ?_⟩
          cases n with
          | zero => exact trivial
          | succ n => exact Or.inl rfl
  | cons rec recs ih =>
      intro n l hrecs
      cases n with
      | zero => exact trivial
      | succ n =>
          have hrec := hrecs rec List.mem_cons_self
          have hlen := hrec.length_pages
          have hstart : rec.gmStart % 2 ^ 64 = rec.gmStart := Nat.mod_eq_of_lt hrec.header.1
          refine Or.inr ?_
          rw [dump, List.flatMap_cons, ← dump, readHeader_complete hrec]
          dsimp only
          have hvisited : visitedPages rec.gmEnd rec.isValid.toNat rec.nents
              ⟨triples rec.gmStart rec.pages ++ dump recs, false⟩ rec.gmStart
              = (loopAddrs rec.gmEnd rec.nents rec.gmStart, ⟨dump recs, false⟩) := by
            cases hvalid : rec.isValid with
            | true =>
                rw [hvalid, if_pos rfl] at hlen
                have := @visitedPages_triples rec.gmEnd (dump recs) false
                  rec.nents rec.gmStart rec.pages (by rw [hstart]; exact hlen) hrec.page
                rwa [hstart] at this
            | false =>
                rw [hvalid, if_neg Bool.false_ne_true] at hlen
                rw [List.eq_nil_of_length_eq_zero hlen]
                exact visitedPages_unread (fun v _ => rfl) _ _ hrec.header.1
          rw [hvisited]
          exact ⟨rfl, ih n _ fun r hr => hrecs r (List.mem_cons_of_mem _ hr)⟩

/-! ### The tables -/

/-- Every address of a region has its entry among those of the region. -/
theorem exists_mem_leafEntries (slot : Nat → Nat) {r : Region} {a : Nat} (ha : a ∈ r.addrs) :
    ∃ x, (slot a, x) ∈ r.leafEntries slot := by
  obtain ⟨i, hi, rfl⟩ := List.getElem_of_mem ha
  have hi' : i < r.pages.length := Nat.lt_of_lt_of_le hi (length_loopAddrs_le _ _ _)
  refine ⟨grEntryGetAte r.pages[i] r.flags midgardMmuBottomlevel,
    List.mem_map.mpr ⟨(r.addrs[i], r.pages[i]), ?_, rfl⟩⟩
  rw [List.mem_iff_getElem]
  exact ⟨i, by rw [List.length_zip]; omega, List.getElem_zip⟩

theorem mem_leafEntries {slot : Nat → Nat} {r : Region} {e : Nat × Nat}
    (he : e ∈ r.leafEntries slot) :
    ∃ a ∈ r.addrs, ∃ f ∈ r.pages, e = (slot a, grEntryGetAte f r.flags midgardMmuBottomlevel) := by
  obtain ⟨⟨a, f⟩, hin, rfl⟩ := List.mem_map.mp he
  obtain ⟨ha, hf⟩ := List.of_mem_zip hin
  exact ⟨a, ha, f, hf, rfl⟩

/-- Storing the same again changes nothing. -/
theorem writes_writes_self (ws : List (Nat × List UInt8)) (mem : ByteMem) :
    writes ws (writes ws mem) = writes ws mem := by
  funext p
  by_cases hcovers : ∃ w ∈ ws, Covers w p
  · exact writes_apply_of_covers hcovers
  · exact writes_apply_of_not_covers fun w hw hp => hcovers ⟨w, hw, hp⟩

/-! ### The nodes -/

/-- The frames are of whole pages, those of the nodes included. -/
def NodesAligned (m : Machine) : Prop :=
  (∀ f ∈ m.pool, f % 4096 = 0) ∧ ∀ u ∈ m.heap, u.physPage % 4096 = 0

theorem NodesAligned.setPgd {m : Machine} (h : NodesAligned m) (node i : Nat) (p : UserPtr) :
    NodesAligned (m.setPgd node i p) := by
  refine ⟨h.1, fun u hu => ?_⟩
  obtain ⟨k, hk⟩ := List.mem_iff_getElem?.mp hu
  rw [Machine.setPgd, List.getElem?_modify] at hk
  obtain ⟨v, hv, rfl⟩ := Option.map_eq_some_iff.mp hk
  have := h.2 v (List.mem_of_getElem? hv)
  split
  · exact this
  · exact this

theorem NodesAligned.newTable {junk : Nat → Nat → UserPtr} {m : Machine} {r : Nat × Machine}
    (h : NodesAligned m) (hrun : newTable junk m = .ok r) : NodesAligned r.2 := by
  obtain ⟨frame, pool, hpool, haligned, rfl⟩ := newTable_ok junk hrun
  refine ⟨fun f hf => h.1 f (hpool ▸ List.mem_cons_of_mem _ hf), fun u hu => ?_⟩
  rcases List.mem_append.mp hu with hold | hnew
  · exact h.2 u hold
  · rw [List.mem_singleton.mp hnew]
    exact haligned

theorem NodesAligned.finishTable {newPgd node : Nat} {r : List Nat × Nat × Machine} {b : Built}
    (h : NodesAligned r.2.2) (hrun : finishTable newPgd node r = .ok b) : NodesAligned b.machine := by
  obtain ⟨mem, -, hdone⟩ := Except.bind_eq_ok.mp hrun
  obtain rfl := Except.ok.inj hdone
  exact h

theorem nodesAligned_constructEntries {next : Nat → Machine → Except Stop Built} {level node : Nat}
    (hnext : ∀ {offset : Nat} {m : Machine} {b : Built}, NodesAligned m → next offset m = .ok b →
      NodesAligned b.machine) :
    ∀ {words : List Nat} {i offset : Nat} {m : Machine} {r : List Nat × Nat × Machine},
      NodesAligned m → constructEntries next level node i words offset m = .ok r →
      NodesAligned r.2.2 := by
  intro words
  induction words with
  | nil =>
      intro i offset m r h hrun
      obtain rfl := Except.ok.inj hrun
      exact h
  | cons w words ih =>
      intro i offset m r h hrun
      rw [constructEntries] at hrun
      split at hrun
      · obtain ⟨b, hb, hrun⟩ := Except.bind_eq_ok.mp hrun
        obtain ⟨r', hrest, hdone⟩ := Except.bind_eq_ok.mp hrun
        obtain rfl := Except.ok.inj hdone
        have hset := (hnext h hb).setPgd node i b.userPgd
        show NodesAligned r'.2.2
        exact ih hset hrest
      · obtain ⟨r', hrest, hdone⟩ := Except.bind_eq_ok.mp hrun
        obtain rfl := Except.ok.inj hdone
        show NodesAligned r'.2.2
        exact ih h hrest

/-- **The nodes of a page table** are of its tables, which are whole pages. -/
theorem nodesAligned_grConstructPgt {junk : Nat → Nat → UserPtr} {value : List Nat} :
    ∀ {below offset : Nat} {m : Machine} {b : Built}, NodesAligned m →
      grConstructPgt junk value below offset m = .ok b → NodesAligned b.machine := by
  intro below
  induction below with
  | zero =>
      intro offset m b h hrun
      obtain ⟨table, htable, hrun⟩ := Except.bind_eq_ok.mp hrun
      obtain ⟨old, -, hrun⟩ := Except.bind_eq_ok.mp hrun
      have hnew := NodesAligned.newTable h htable
      exact NodesAligned.finishTable hnew hrun
  | succ below ih =>
      intro offset m b h hrun
      obtain ⟨table, htable, hrun⟩ := Except.bind_eq_ok.mp hrun
      obtain ⟨old, -, hrun⟩ := Except.bind_eq_ok.mp hrun
      obtain ⟨r, hentries, hrun⟩ := Except.bind_eq_ok.mp hrun
      exact NodesAligned.finishTable
        (nodesAligned_constructEntries ih (NodesAligned.newTable h htable) hentries) hrun

/-- A leaf entry that is found is a word of its page. -/
theorem leafSlot_aligned {heap : List UserPgtable} {userPgt : UserPtr}
    (haligned : ∀ u ∈ heap, u.physPage % 4096 = 0) {a : Nat} (hleaf : HasLeaf heap userPgt a) :
    leafSlot heap userPgt a % 8 = 0 := by
  obtain ⟨target, pgd, -, hpgd, hslot⟩ := hasLeaf_iff.mp hleaf
  have hmem : pgd ∈ heap := by
    cases target with
    | node k =>
        rw [derefPgt] at hpgd
        cases hk : heap[k]? with
        | none =>
            rw [hk] at hpgd
            cases hpgd
        | some u =>
            rw [hk] at hpgd
            exact Except.ok.inj hpgd ▸ List.mem_of_getElem? hk
    | null => cases hpgd
    | wild => cases hpgd
  have := haligned pgd hmem
  omega

/-- A page with a leaf entry in the page table has it at the node that is found. -/
theorem NodesFind.leafSlot_eq {heap : List UserPgtable} {userPgt : UserPtr} {t : Tables Nat Nat}
    {root a q : Nat} (h : NodesFind heap userPgt t root)
    (hleaf : leafPage tableAt t (gpuIndex a) 3 root = some q) :
    leafSlot heap userPgt a = q + 8 * gpuIndex a 0 := by
  obtain ⟨c, u, hwalk, hu, rfl⟩ := h a q hleaf
  have hderef : derefPgt heap (.node c) = .ok u := by rw [derefPgt, hu]
  have hhas : HasLeaf heap userPgt a := ⟨_, Except.bind_eq_ok.mpr
    ⟨_, hwalk, Except.bind_eq_ok.mpr ⟨u, hderef, rfl⟩⟩⟩
  obtain ⟨target, pgd, htarget, hpgd, hslot⟩ := hasLeaf_iff.mp hhas
  obtain rfl := Except.ok.inj (hwalk.symm.trans htarget)
  obtain rfl := Except.ok.inj (hderef.symm.trans hpgd)
  rw [hslot]
  show _ = u.physPage + 8 * (a / 4096 / 2 ^ 0 % 512)
  rw [Nat.pow_zero, Nat.div_one]

/-! ### Restoring what was set up -/

/-- What `gr_restore_pte` makes of the memory `mem`, where `setup` is what
`gr_mem_contents_init` left: the leaf entries of the pages of the regions are those of `setup`,
every other word of every table is as before, so that the upper levels stay. -/
structure LeavesRestored (t : Tables Nat Nat) (root : Nat) (regions : List Region)
    (setup mem mem' : ByteMem) : Prop where
  leaf : ∀ r ∈ regions, ∀ a ∈ r.addrs, ∀ q, leafPage tableAt t (gpuIndex a) 3 root = some q →
    entries mem' q (gpuIndex a 0) = entries setup q (gpuIndex a 0)
  other : ∀ p ∈ pages tableAt 512 t 3 root, ∀ i, i < 512 →
    (∀ r ∈ regions, ∀ a ∈ r.addrs,
      ¬(leafPage tableAt t (gpuIndex a) 3 root = some p ∧ gpuIndex a 0 = i)) →
    entries mem' p i = entries mem p i
  upper : SameUpper tableAt 512 t (entries mem) 3 root → SameUpper tableAt 512 t (entries mem') 3 root

/-- For every memory, `gr_restore_pte` returns, restores the leaf entries, and changes nothing when
it runs again. -/
def PteRestored (heap : List UserPgtable) (userPgt : UserPtr) (t : Tables Nat Nat) (root : Nat)
    (regions : List Region) (setup : ByteMem) : Prop :=
  ∀ mem, ∃ mem' enough, LeavesRestored t root regions setup mem mem' ∧ ∀ fuel, enough ≤ fuel →
    grRestorePte heap userPgt fuel regions mem = some (.ok mem') ∧
    grRestorePte heap userPgt fuel regions mem' = some (.ok mem')

/-- A word of a table that is found for a page of a region is the leaf entry of such a page.  The
nodes may lead elsewhere, through slots of `pgd[]` that were never assigned. -/
def SlotsAreLeaves (heap : List UserPgtable) (userPgt : UserPtr) (t : Tables Nat Nat) (root : Nat)
    (regions : List Region) : Prop :=
  ∀ r ∈ regions, ∀ a ∈ r.addrs, ∀ p ∈ pages tableAt 512 t 3 root, ∀ i, i < 512 →
    leafSlot heap userPgt a = p + 8 * i →
    ∃ s ∈ regions, ∃ c ∈ s.addrs,
      leafPage tableAt t (gpuIndex c) 3 root = some p ∧ gpuIndex c 0 = i

section Restored

variable {junk : Nat → Nat → UserPtr} {value : List Nat} {m : Machine} {b : Built}
  {locals : Locals} {recs : List McRecord} {mc : McState}

/-- What loading the dump leaves: leaf entries at aligned places, and memory with these entries,
but for the frames of the regions, which are no tables. -/
theorem grMemContentsInit_leaves (hvalue : ∀ w ∈ value, w < 2 ^ 64) (hpool : PoolOk m.pool)
    (hheap : ∀ u ∈ m.heap, u.physPage % 4096 = 0)
    (hbuild : grConstructPgt junk value 3 0 m = .ok b)
    (hrecs : ∀ rec ∈ recs, CompleteRecord rec)
    (hinit : grMemContentsInit b.machine b.userPgd locals (dump recs) = .ok mc) :
    (∀ r ∈ mc.regions, ∀ a ∈ r.addrs, HasLeaf b.machine.heap b.userPgd a ∧
      leafSlot b.machine.heap b.userPgd a % 8 = 0) ∧
    (∀ q ∈ pages tableAt 512 (entries b.machine.mem) 3 b.pgd, ∀ k, k < 4096 →
      mc.mem (q + k) = writes (wordWrites (mc.regions.flatMap
        (Region.leafEntries (leafSlot b.machine.heap b.userPgd)))) b.machine.mem (q + k)) ∧
    (pages tableAt 512 (entries b.machine.mem) 3 b.pgd).Nodup ∧
    ∀ q ∈ pages tableAt 512 (entries b.machine.mem) 3 b.pgd, q % 4096 = 0 := by
  obtain ⟨-, k, htables, hrest⟩ := grConstructPgt_finds hvalue hpool hbuild
  have hin : ∀ p ∈ pages tableAt 512 (entries b.machine.mem) 3 b.pgd, p ∈ m.pool.take k :=
    fun p hp => htables ▸ hp
  have haligned := fun p hp => hpool.aligned p (List.mem_of_mem_take (hin p hp))
  obtain ⟨rs, hrs, hleaves, hframes, hsetup⟩ := initRegions_addrs nrVaRegion
    ⟨Stream.open (dump recs), locals, b.machine.mem, b.machine.pool, [], 0⟩ mc
    (fun f hf => hpool.aligned f (List.mem_of_mem_drop (hrest ▸ hf)))
    (addrsFollow_dump recs _ locals hrecs) hinit
  obtain rfl : rs = mc.regions := hrs.symm
  refine ⟨fun r hr a ha => ⟨hleaves r hr a ha, leafSlot_aligned
    (nodesAligned_grConstructPgt ⟨hpool.aligned, hheap⟩ hbuild).2 (hleaves r hr a ha)⟩,
    fun q hq j hj => hsetup _ fun s hs hmem => ?_,
    htables ▸ hpool.nodup.sublist (List.take_sublist _ _), haligned⟩
  -- the tables are no frames of the regions
  have hpage : pageStart (q + j) = q := by
    have := haligned q hq
    unfold pageStart
    omega
  rw [hpage] at hmem
  have hlater := hframes s hs q hmem
  dsimp only at hlater
  rw [hrest] at hlater
  have hsplit := hpool.nodup
  rw [← List.take_append_drop k m.pool] at hsplit
  exact (List.nodup_append.mp hsplit).2.2 q (hin q hq) q hlater rfl

/-- The run, where the counter does not wrap. -/
theorem grRestorePte_addrs {heap : List UserPgtable} {userPgt : UserPtr} {regions : List Region}
    (hlength : ∀ r ∈ regions, r.pages.length = r.nrPages)
    (hfew : ∀ r ∈ regions, r.addrs.length < 2 ^ 32)
    (hleaves : ∀ r ∈ regions, ∀ a ∈ r.addrs, HasLeaf heap userPgt a) {fuel : Nat}
    (hfuel : 2 ^ 32 ≤ fuel) (mem : ByteMem) :
    grRestorePte heap userPgt fuel regions mem = some (.ok
      (writes (wordWrites (regions.flatMap (Region.leafEntries (leafSlot heap userPgt)))) mem)) := by
  rw [grRestorePte_eq hfuel fun r hr => ⟨hlength r hr, hfew r hr⟩,
    grRestorePteUncounted_addrs regions mem hleaves]

/-- A word of a table that no leaf entry is found at is not written. -/
theorem entries_writes {regions : List Region} {slot : Nat → Nat} {p i : Nat} (hp : p % 4096 = 0)
    (haligned : ∀ r ∈ regions, ∀ a ∈ r.addrs, slot a % 8 = 0)
    (hnone : ∀ r ∈ regions, ∀ a ∈ r.addrs, slot a ≠ p + 8 * i) (mem : ByteMem) :
    entries (writes (wordWrites (regions.flatMap (Region.leafEntries slot))) mem) p i
      = entries mem p i := by
  refine ByteMem.read64_congr fun j hj => writes_apply_of_not_covers fun w hw hcovers => ?_
  obtain ⟨e, he, rfl⟩ := List.mem_map.mp hw
  obtain ⟨r, hr, he⟩ := List.mem_flatMap.mp he
  obtain ⟨a, ha, f, -, rfl⟩ := mem_leafEntries he
  obtain ⟨hle, hlt⟩ := hcovers
  dsimp only at hle hlt
  rw [Bytes.length_le] at hlt
  have hslot := haligned r hr a ha
  exact hnone r hr a ha (by omega)

/-- A word of a table that a leaf entry is found at does not depend on what was there. -/
theorem entries_writes_of_mem {regions : List Region} {slot : Nat → Nat} {p i : Nat} {r : Region}
    (hr : r ∈ regions) {a : Nat} (ha : a ∈ r.addrs) (hslot : slot a = p + 8 * i)
    (mem mem' : ByteMem) :
    ∀ j, j < 8 → writes (wordWrites (regions.flatMap (Region.leafEntries slot))) mem (p + 8 * i + j)
      = writes (wordWrites (regions.flatMap (Region.leafEntries slot))) mem' (p + 8 * i + j) := by
  intro j hj
  obtain ⟨x, hx⟩ := exists_mem_leafEntries slot ha
  refine writes_apply_of_covers
    ⟨_, List.mem_map_of_mem (List.mem_flatMap.mpr ⟨r, hr, hx⟩), ?_, ?_⟩
  · dsimp only
    omega
  · dsimp only
    rw [Bytes.length_le]
    omega

/-- The leaf entries are restored exactly where the nodes lead to leaf entries of the regions. -/
theorem slotsAreLeaves_iff (hvalue : ∀ w ∈ value, w < 2 ^ 64) (hpool : PoolOk m.pool)
    (hheap : ∀ u ∈ m.heap, u.physPage % 4096 = 0)
    (hbuild : grConstructPgt junk value 3 0 m = .ok b)
    (hrecs : ∀ rec ∈ recs, CompleteRecord rec)
    (hinit : grMemContentsInit b.machine b.userPgd locals (dump recs) = .ok mc)
    (hfew : ∀ r ∈ mc.regions, r.addrs.length < 2 ^ 32) :
    PteRestored b.machine.heap b.userPgd (entries b.machine.mem) b.pgd mc.regions mc.mem ↔
      SlotsAreLeaves b.machine.heap b.userPgd (entries b.machine.mem) b.pgd mc.regions := by
  obtain ⟨hfind, k, -, hrest⟩ := grConstructPgt_finds hvalue hpool hbuild
  obtain ⟨hleaves, hsetup, hnodup, haligned⟩ :=
    grMemContentsInit_leaves hvalue hpool hheap hbuild hrecs hinit
  have hok : PagesOk mc.regions := grMemContentsInit_pagesOk (hrest ▸ hpool.drop k) hinit
  have hrun := fun fuel hfuel mem => @grRestorePte_addrs b.machine.heap b.userPgd mc.regions
    hok.length hfew (fun r hr a ha => (hleaves r hr a ha).1) fuel hfuel mem
  have hslots : ∀ r ∈ mc.regions, ∀ a ∈ r.addrs, leafSlot b.machine.heap b.userPgd a % 8 = 0 :=
    fun r hr a ha => (hleaves r hr a ha).2
  constructor
  · intro hrestored r hr a ha p hp i hi hslot
    by_contra hnone
    -- what is stored there does not depend on what was there
    obtain ⟨mem₀, enough₀, hmem₀, hrun₀⟩ := hrestored fun _ => 0
    obtain ⟨mem₁, enough₁, hmem₁, hrun₁⟩ := hrestored fun _ => 1
    have hfar := hrun (2 ^ 32 + enough₀ + enough₁) (by omega)
    have h₀ := Except.ok.inj (Option.some.inj ((hfar _).symm.trans (hrun₀ _ (by omega)).1))
    have h₁ := Except.ok.inj (Option.some.inj ((hfar _).symm.trans (hrun₁ _ (by omega)).1))
    have hnot : ∀ s ∈ mc.regions, ∀ c ∈ s.addrs,
        ¬(leafPage tableAt (entries b.machine.mem) (gpuIndex c) 3 b.pgd = some p ∧
          gpuIndex c 0 = i) := fun s hs c hc hboth => hnone ⟨s, hs, c, hc, hboth⟩
    have hsame : entries mem₀ p i = entries mem₁ p i := by
      rw [← h₀, ← h₁]
      exact ByteMem.read64_congr (entries_writes_of_mem hr ha hslot _ _)
    rw [hmem₀.other p hp i hi hnot, hmem₁.other p hp i hi hnot] at hsame
    have hzero : entries (fun _ => 0) p i = entries (fun _ => 0) 0 0 := rfl
    have hone : entries (fun _ => 1) p i = entries (fun _ => 1) 0 0 := rfl
    rw [hzero, hone] at hsame
    exact absurd hsame (by decide)
  · intro hcovered mem
    refine ⟨_, 2 ^ 32, ⟨?_, ?_, ?_⟩, fun fuel hfuel => ⟨hrun fuel hfuel mem, ?_⟩⟩
    · intro r hr a ha q hleaf
      have hq := leafPage_mem (gpuIndex_lt a) hleaf
      have hidx := gpuIndex_lt a 0
      refine ByteMem.read64_congr fun j hj => ?_
      have hset := hsetup q hq (8 * gpuIndex a 0 + j) (by omega)
      rw [← Nat.add_assoc] at hset
      rw [hset]
      exact entries_writes_of_mem hr ha (hfind.leafSlot_eq hleaf) _ _ j hj
    · intro p hp i hi hnone
      refine entries_writes (haligned p hp) hslots (fun r hr a ha hslot => ?_) mem
      obtain ⟨s, hs, c, hc, hboth⟩ := hcovered r hr a ha p hp i hi hslot
      exact hnone s hs c hc hboth
    · intro hupper
      refine hupper.of_notLeaf hnodup fun p hp hnot i hi => ?_
      refine entries_writes (haligned p hp) hslots (fun r hr a ha hslot => ?_) mem
      obtain ⟨s, hs, c, hc, hleaf, -⟩ := hcovered r hr a ha p hp i hi hslot
      exact hnot _ (gpuIndex_lt c) hleaf
    · rw [hrun fuel hfuel, writes_writes_self]

/-- Where every page has its leaf entry in the page table, the nodes lead there, and the counter
does not wrap. -/
theorem slotsAreLeaves_of_present (hvalue : ∀ w ∈ value, w < 2 ^ 64) (hwords : value.length < 2 ^ 32)
    (hpool : PoolOk m.pool) (hbuild : grConstructPgt junk value 3 0 m = .ok b)
    {regions : List Region} (hstart : ∀ r ∈ regions, r.gmStart < 2 ^ 64)
    (hpresent : ∀ r ∈ regions, ∀ a ∈ r.addrs,
      ∃ q, leafPage tableAt (entries b.machine.mem) (gpuIndex a) 3 b.pgd = some q) :
    SlotsAreLeaves b.machine.heap b.userPgd (entries b.machine.mem) b.pgd regions ∧
      ∀ r ∈ regions, r.addrs.length < 2 ^ 32 := by
  obtain ⟨hfind, k, htables, -⟩ := grConstructPgt_finds hvalue hpool hbuild
  have hnodup : (pages tableAt 512 (entries b.machine.mem) 3 b.pgd).Nodup :=
    htables ▸ hpool.nodup.sublist (List.take_sublist _ _)
  have haligned : ∀ q ∈ pages tableAt 512 (entries b.machine.mem) 3 b.pgd, q % 4096 = 0 :=
    fun q hq => hpool.aligned q (List.mem_of_mem_take (htables ▸ hq))
  refine ⟨fun r hr a ha p hp i hi hslot => ⟨r, hr, a, ha, ?_⟩, fun r hr => ?_⟩
  · obtain ⟨q, hleaf⟩ := hpresent r hr a ha
    rw [hfind.leafSlot_eq hleaf] at hslot
    have hqa := haligned q (leafPage_mem (gpuIndex_lt a) hleaf)
    have hpa := haligned p hp
    have hidx := gpuIndex_lt a 0
    obtain rfl : q = p := by omega
    exact ⟨hleaf, by omega⟩
  · exact length_addrs_lt hnodup (grConstructPgt_few hvalue hwords hpool hbuild) (hstart r hr)
      (hpresent r hr)

end Restored

theorem completeRecord_untouchedPage : CompleteRecord untouchedPage where
  header := by decide
  length_pages := rfl
  page := by
    intro q hq
    exact absurd hq List.not_mem_nil

theorem lt_of_mem_loopAddrs {gmEnd : Nat} :
    ∀ {n gaddr a : Nat}, a ∈ loopAddrs gmEnd n gaddr → a < gmEnd := by
  intro n
  induction n with
  | zero => exact fun h => absurd h List.not_mem_nil
  | succ n ih =>
      intro gaddr a h
      rw [loopAddrs] at h
      split at h
      · rcases List.mem_cons.mp h with rfl | h
        · assumption
        · exact ih h
      · exact absurd h List.not_mem_nil

/-- The regions of a dump with one untouched page. -/
theorem regions_untouchedPage {m : Machine} {userPgt : UserPtr} {mc : McState}
    (hinput : DumpInput m userPgt zeroLocals [untouchedPage]) (hroom : 2 ≤ m.pool.length)
    (hrun : grMemContentsInit m userPgt zeroLocals (dump [untouchedPage]) = .ok mc) :
    (∃ r ∈ mc.regions, 0 ∈ r.addrs) ∧
      ∀ r ∈ mc.regions, r.gmStart = 0 ∧ r.gmEnd = 4096 ∧ r.pages.length = 1 := by
  obtain ⟨mc', hrun', hregions, -⟩ := grMemContentsInit_dump hinput rfl hroom
  obtain rfl := Except.ok.inj (hrun'.symm.trans hrun)
  obtain ⟨f, g, rest, hpool⟩ : ∃ f g rest, m.pool = f :: g :: rest := by
    obtain ⟨f, tail, hf⟩ := List.exists_cons_of_length_pos (l := m.pool) (by omega)
    rw [hf, List.length_cons] at hroom
    obtain ⟨g, rest, hg⟩ := List.exists_cons_of_length_pos (l := tail) (by omega)
    exact ⟨f, g, rest, by rw [hf, hg]⟩
  have hboth : mc'.regions = [untouchedPage.region [f], untouchedPage.region [g]] := by
    rw [hregions, hpool]
    rfl
  rw [hboth]
  refine ⟨⟨_, List.mem_cons_self, List.mem_cons_self⟩, fun r hr => ?_⟩
  rcases List.mem_cons.mp hr with rfl | hr
  · exact ⟨rfl, rfl, rfl⟩
  · rw [List.mem_singleton.mp hr]
    exact ⟨rfl, rfl, rfl⟩

/-- A table without an entry, and frames for two pages more. -/
def bareMachine : Machine := ⟨fun _ => 0, frames 1 3, []⟩

/-- The slots of its node hold pointers to the node itself. -/
def selfJunk : Nat → Nat → UserPtr := fun _ _ => .node 0

/-- A node whose slots all hold pointers to itself. -/
theorem walkUserPgt_self {heap : List UserPgtable} {u : UserPgtable} (hu : heap[0]? = some u)
    (hself : ∀ i, i < 512 → u.pgd i = .node 0) (gaddr : Nat) :
    ∀ n l, walkUserPgt heap gaddr n l (.node 0) = .ok (.node 0) := by
  intro n
  induction n with
  | zero => exact fun _ => rfl
  | succ n ih =>
      intro l
      have hslot : u.pgd (pgdOffset gaddr l) = .node 0 := hself _ (Nat.mod_lt _ (by decide))
      rw [walkUserPgt, derefPgt, hu, Except.ok_bind]
      dsimp only
      rw [hslot, if_neg fun h => by cases h]
      exact ih (l + 1)

/-- The bare table, with its node. -/
theorem bare_built : ∃ b u, grConstructPgt selfJunk rootValue 3 0 bareMachine = .ok b ∧
    b.userPgd = .node 0 ∧ b.machine.pool = bareMachine.pool.drop 1 ∧ b.machine.heap[0]? = some u ∧
    u.physPage = b.pgd ∧ ∀ i, i < 512 → u.pgd i = .node 0 := by
  have hpool : PoolOk bareMachine.pool := poolOk_frames (by decide)
  obtain ⟨b, hbuild, hbuilt⟩ := @grConstructPgt_built (pageMem fun _ _ => entryInvalidate) rootValue
    selfJunk length_rootValue 3 (4096 * 1) [] [] bareMachine laidOut_root.written
    (by rw [List.nil_append, List.append_nil]; rfl) hpool (by rw [laidOut_root.length]; decide)
  obtain ⟨-, u, hu, hpage, -⟩ := hbuilt.copied
  have hshape := grConstructPgt_shape length_rootValue 3 0 bareMachine b (Nat.zero_le _) rfl hbuild
  obtain ⟨hlen, v, hv, hslots⟩ := hshape.shape
  obtain rfl : v = u := Option.some.inj (hv.symm.trans hu)
  refine ⟨b, v, hbuild, hbuilt.userPgd, by rw [hbuilt.pool, laidOut_root.length], hu, hpage,
    fun i hi => ?_⟩
  obtain ⟨w, hword⟩ : ∃ w, (dumpTable rootValue 0)[i]? = some w :=
    ⟨_, List.getElem?_eq_getElem (by omega)⟩
  exact (hslots i w hword).2 (rootValue_invalid hshape hword)

end GpuReplay.Replayer
