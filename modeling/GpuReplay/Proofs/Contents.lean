/-
What `gr_mem_contents_check` leaves of a dump.

Loading a dump puts each record on frames of its own, and the last one on more of them; the
records may lie over one another in the GPU's address space, for the frames do not.  `DumpPlaced`
is that, for every dump that is loaded.  The check goes through the file in step with the regions
made of it, so it stores each page where loading has put it.

The flag that a difference was seen skips writes that would change nothing, and no others:
`grMemContentsOverwrite_eq` is about any file and any regions.  The counter of the page loop has
32 bits: of a region with more pages than that the check never reaches the last ones, and what the
GPU has left in them stays.
-/
import GpuReplay.Proofs.Reset
import GpuReplay.Proofs.UsedAtom

namespace GpuReplay.Replayer

open Stdio ByteMem

/-! ### A dump on its frames -/

/-- The records of a dump on the frames of machine `m` that they were loaded into, `base`, and
the last of them a second time, `dup`. -/
structure DumpPlaced (m : Machine) (userPgt : UserPtr) (locals : Locals) (recs : List McRecord)
    (mc : McState) (base : List Placed) (dup : Placed) : Prop where
  records : base.map Placed.record = recs
  contents : ∀ t ∈ base, t.contents = t.record.contents
  last : recs.getLast? = some dup.record
  again : dup.contents = dup.record.again (bufAfter recs locals.buf)
  sound : ∀ t ∈ base ++ [dup], t.Sound
  made : ∃ rs r, mc.regions = rs ++ [r] ∧ List.Forall₂ Made rs base ∧ Made r dup
  frames : ∀ f ∈ allFrames (base ++ [dup]), f ∈ m.pool
  distinct : (allFrames (base ++ [dup])).Nodup
  leaves : ∀ rec ∈ recs, HasLeaves m.heap userPgt rec.gmStart rec.nents
  mem : mc.mem = storeAll (leafSlot m.heap userPgt) (base ++ [dup]) m.mem

/-- **What a dump that is loaded is loaded to**, wherever its records lie. -/
theorem grMemContentsInit_placed {m : Machine} {userPgt : UserPtr} {locals : Locals}
    {recs : List McRecord} {mc : McState} (hwf : ∀ rec ∈ recs, rec.WF) (hpool : PoolOk m.pool)
    (hpaddr : locals.paddr < 2 ^ 64) (hbuf : locals.buf.length = 4096) (hne : recs ≠ [])
    (hrun : grMemContentsInit m userPgt locals (dump recs) = .ok mc) :
    ∃ base dup, DumpPlaced m userPgt locals recs mc base dup := by
  have hlast : recs.getLast? = some (recs.getLast hne) := List.getLast?_eq_some_getLast hne
  obtain ⟨hleaves, henough, hregions, hmem⟩ :=
    grMemContentsInit_again hwf hpool.aligned hpaddr hbuf hlast hrun
  refine ⟨placedOf recs m.pool, placedAgain recs m.pool (recs.getLast hne) locals.buf, {
    records := map_record_placedOf recs _
    contents := contents_placedOf recs _
    last := hlast
    again := rfl
    sound := sound_twice hwf hpool.aligned hlast henough
    made := ⟨regionsOf recs m.pool, _, hregions, regionsOf_made recs _, ⟨0, rfl⟩⟩
    frames := fun f hf => by
      rw [allFrames_twice] at hf
      exact List.mem_of_mem_take hf
    distinct := by
      rw [allFrames_twice]
      exact hpool.nodup.sublist (List.take_sublist _ _)
    leaves := hleaves
    mem := by
      rw [hmem, storeRecords_eq, storeAll_append]
      rfl }⟩

/-! ### The version that overwrites -/

/-- What the page loop would do with a page, if it overwrote all of them. -/
def overwritePage (newPage : Nat) (s : CheckState) : Except Stop CheckState := do
  let (gaddr, f) := s.stream.readWord 8 s.gaddr
  let (paddr, f) := f.readWord 8 s.paddr
  let (buf, f) := f.read 4096 s.buf
  let mem ← grWritePhys s.mem newPage buf
  return { s with stream := f, gaddr := gaddr, paddr := paddr, buf := buf, mem := mem }

def overwritePages (region : Region) : Nat → Nat → CheckState → Option (Except Stop CheckState)
  | 0, _, _ => none
  | fuel + 1, pageCnt, s =>
      if s.gaddr < region.gmEnd ∧ pageCnt < region.nrPages then
        match pageAt region.pages pageCnt >>= fun newPage => overwritePage newPage s with
        | .ok s =>
            overwritePages region fuel ((pageCnt + 1) % 2 ^ 32)
              { s with gaddr := (s.gaddr + 4096) % 2 ^ 64 }
        | .error e => some (.error e)
      else some (.ok s)

def overwriteRegion (region : Region) (fuel : Nat) (l : Locals) (f : Stream) (mem : ByteMem) :
    Option (Except Stop (Locals × Stream × ByteMem)) :=
  let (l, f) := readHeader l f
  if l.isValid ≠ 0 then
    match overwritePages region fuel 0 ⟨f, region.gmStart, l.paddr, l.buf, false, mem⟩ with
    | some (.ok s) => some (.ok ({ l with paddr := s.paddr, buf := s.buf }, s.stream, s.mem))
    | some (.error e) => some (.error e)
    | none => none
  else some (.ok (l, f, mem))

def overwriteRegions (fuel : Nat) :
    List Region → Locals → Stream → ByteMem → Option (Except Stop ByteMem)
  | [], _, f, mem => some (if f.eof then .ok mem else .error .undefined)
  | region :: regions, l, f, mem =>
      if f.eof then some (.ok mem)
      else
        match overwriteRegion region fuel l f mem with
        | some (.ok (l, f, mem)) => overwriteRegions fuel regions l f mem
        | some (.error e) => some (.error e)
        | none => none

/-- `gr_mem_contents_check` without the comparison: each page is written. -/
def grMemContentsOverwrite (regions unused : List Region) (fuel : Nat) (locals : Locals)
    (file : List UInt8) (mem : ByteMem) : Option (Except Stop ByteMem) :=
  overwriteRegions fuel (regions ++ unused) locals (Stream.open file) mem

theorem length_read {n : Nat} {old : List UInt8} (hold : old.length = n) (f : Stream) :
    (f.read n old).1.length = n := by
  show (Bytes.splice old 0 (f.rest.take n)).length = n
  rw [Bytes.length_splice (by rw [hold, Nat.zero_add]; exact List.length_take_le ..), hold]

/-- Reading back a page and writing it are the same check of its address. -/
theorem grWritePhys_of_grReadPhys {mem : ByteMem} {paddr : Nat} {buf : List UInt8}
    (hbuf : buf.length = 4096) :
    (∃ old, grReadPhys mem paddr 4096 = .ok old ∧
      grWritePhys mem paddr buf = .ok (mem.write paddr buf) ∧ old = mem.read paddr 4096) ∨
    grReadPhys mem paddr 4096 = .error .undefined ∧ grWritePhys mem paddr buf = .error .undefined := by
  by_cases hfits : paddr % 4096 + 4096 ≤ 4096
  · exact Or.inl ⟨_, grReadPhys_eq hfits, grWritePhys_eq (by rw [hbuf]; exact hfits), rfl⟩
  · have hstart : pageStart paddr % 4096 = 0 := by
      unfold pageStart
      omega
    have hmap : grMapPage (pageStart paddr) = .ok (pageStart paddr) := if_neg (fun h => h hstart)
    refine Or.inr ⟨?_, ?_⟩
    · unfold grReadPhys
      rw [hmap, Except.ok_bind, if_neg hfits]
      rfl
    · unfold grWritePhys
      rw [hmap, Except.ok_bind, hbuf, if_neg hfits]
      rfl

/-- **One page**: a write that is skipped would have changed nothing. -/
theorem overwritePage_eq {newPage : Nat} {s : CheckState} (hbuf : s.buf.length = 4096) (d : Bool) :
    (overwritePage newPage { s with isDifferent := d }
      = checkPage newPage s >>= fun s' => .ok { s' with isDifferent := d }) ∧
    ∀ s', checkPage newPage s = .ok s' → s'.buf.length = 4096 := by
  unfold overwritePage checkPage
  dsimp only
  generalize hread₁ : s.stream.readWord 8 s.gaddr = r₁
  obtain ⟨gaddr, f₁⟩ := r₁
  dsimp only
  generalize hread₂ : f₁.readWord 8 s.paddr = r₂
  obtain ⟨paddr, f₂⟩ := r₂
  dsimp only
  have hlen := length_read hbuf f₂
  generalize f₂.read 4096 s.buf = r₃ at hlen ⊢
  obtain ⟨buf, f₃⟩ := r₃
  dsimp only at hlen ⊢
  rcases @grWritePhys_of_grReadPhys s.mem newPage _ hlen with
    ⟨old, hread, hwrite, hold⟩ | ⟨hread, hwrite⟩
  · rw [hread, hwrite, Except.ok_bind, Except.ok_bind]
    by_cases hdiff : (s.isDifferent || decide (old ≠ buf)) = true
    · rw [if_pos hdiff]
      exact ⟨rfl, fun s' hs => Except.ok.inj hs ▸ hlen⟩
    · have hsame : old = buf := by
        by_contra hne
        exact hdiff (by rw [decide_eq_true hne, Bool.or_true])
      have hmem : s.mem.write newPage buf = s.mem := by
        rw [← hsame, hold, write_read_self]
      rw [if_neg hdiff, hmem]
      exact ⟨rfl, fun s' hs => Except.ok.inj hs ▸ hlen⟩
  · rw [hread, hwrite]
    exact ⟨rfl, fun s' hs => by cases hs⟩

theorem overwritePages_eq {region : Region} (d : Bool) :
    ∀ (fuel pageCnt : Nat) (s : CheckState), s.buf.length = 4096 →
      (overwritePages region fuel pageCnt { s with isDifferent := d }
        = (checkPages region fuel pageCnt s).map
            fun r => r >>= fun s' => .ok { s' with isDifferent := d }) ∧
      ∀ s', checkPages region fuel pageCnt s = some (.ok s') → s'.buf.length = 4096 := by
  intro fuel
  induction fuel with
  | zero => exact fun _ s _ => ⟨rfl, fun s' hs => by cases hs⟩
  | succ fuel ih =>
      intro pageCnt s hbuf
      rw [overwritePages, checkPages]
      dsimp only
      by_cases hlt : s.gaddr < region.gmEnd ∧ pageCnt < region.nrPages
      · rw [if_pos hlt, if_pos hlt]
        cases hpage : pageAt region.pages pageCnt with
        | error e => exact ⟨rfl, fun s' hs => by cases hs⟩
        | ok newPage =>
            obtain ⟨hsame, hkeep⟩ := @overwritePage_eq newPage _ hbuf d
            rw [Except.ok_bind, Except.ok_bind, hsame]
            cases hcheck : checkPage newPage s with
            | error e => exact ⟨rfl, fun s' hs => by cases hs⟩
            | ok s₁ => exact ih _ { s₁ with gaddr := (s₁.gaddr + 4096) % 2 ^ 64 } (hkeep s₁ hcheck)
      · rw [if_neg hlt, if_neg hlt]
        exact ⟨rfl, fun s' hs => Except.ok.inj (Option.some.inj hs) ▸ hbuf⟩

theorem overwriteRegion_eq (region : Region) (fuel : Nat) {l : Locals} (hbuf : l.buf.length = 4096)
    (f : Stream) (mem : ByteMem) :
    overwriteRegion region fuel l f mem = checkRegion region fuel l f mem ∧
    ∀ r, checkRegion region fuel l f mem = some (.ok r) → r.1.buf.length = 4096 := by
  unfold overwriteRegion checkRegion
  have hheader : (readHeader l f).1.buf.length = 4096 := hbuf
  generalize readHeader l f = header at hheader ⊢
  obtain ⟨l', f'⟩ := header
  dsimp only at hheader ⊢
  by_cases hvalid : l'.isValid ≠ 0
  · rw [if_pos hvalid, if_pos hvalid]
    obtain ⟨hpages, hkeep⟩ := @overwritePages_eq region false fuel 0
      ⟨f', region.gmStart, l'.paddr, l'.buf, false, mem⟩ hheader
    rw [hpages]
    cases hcheck : checkPages region fuel 0
        ⟨f', region.gmStart, l'.paddr, l'.buf, false, mem⟩ with
    | none => exact ⟨rfl, fun r hr => by cases hr⟩
    | some out =>
        cases out with
        | error e => exact ⟨rfl, fun r hr => by cases hr⟩
        | ok s => exact ⟨rfl, fun r hr => Except.ok.inj (Option.some.inj hr) ▸ hkeep s hcheck⟩
  · rw [if_neg hvalid, if_neg hvalid]
    exact ⟨rfl, fun r hr => Except.ok.inj (Option.some.inj hr) ▸ hheader⟩

/-- **The check leaves what overwriting everything leaves**, whatever file and regions it is
given. -/
theorem grMemContentsOverwrite_eq (regions unused : List Region) (fuel : Nat) {locals : Locals}
    (hbuf : locals.buf.length = 4096) (file : List UInt8) (mem : ByteMem) :
    grMemContentsOverwrite regions unused fuel locals file mem
      = grMemContentsCheck regions unused fuel locals file mem := by
  have hall : ∀ (rs : List Region) (l : Locals) (f : Stream) (mem : ByteMem), l.buf.length = 4096 →
      overwriteRegions fuel rs l f mem = checkRegions fuel rs l f mem := by
    intro rs
    induction rs with
    | nil => exact fun _ _ _ _ => rfl
    | cons r rs ih =>
        intro l f mem hl
        rw [overwriteRegions, checkRegions]
        obtain ⟨hone, hkeep⟩ := overwriteRegion_eq r fuel hl f mem
        rw [hone]
        cases hcheck : checkRegion r fuel l f mem with
        | none => rfl
        | some out =>
            cases out with
            | error e => rfl
            | ok res =>
                obtain ⟨l', f', mem'⟩ := res
                dsimp only
                rw [ih l' f' mem' (hkeep _ hcheck)]
  exact hall (regions ++ unused) locals (Stream.open file) mem hbuf

/-! ### The pages of the records -/

theorem map_fst_pageWrites_sublist :
    ∀ items : List (Nat × Option (List UInt8)),
      ((pageWrites items).map Prod.fst).Sublist (items.map Prod.fst) := by
  intro items
  induction items with
  | nil => exact List.Sublist.refl _
  | cons item items ih =>
      obtain ⟨frame, page⟩ := item
      cases page with
      | none => exact ih.cons frame
      | some page => exact ih.cons_cons frame

theorem map_fst_zip_sublist (frames : List Nat) :
    ∀ contents : List (Option (List UInt8)), ((frames.zip contents).map Prod.fst).Sublist frames := by
  induction frames with
  | nil => exact fun _ => List.Sublist.refl _
  | cons frame frames ih =>
      intro contents
      cases contents with
      | nil => exact List.nil_sublist _
      | cons page contents => exact (ih contents).cons_cons frame

theorem map_fst_allPages_sublist :
    ∀ ts : List Placed, ((allPages ts).map Prod.fst).Sublist (allFrames ts) := by
  intro ts
  induction ts with
  | nil => exact List.Sublist.refl _
  | cons t ts ih =>
      rw [allPages_cons, List.map_append, allFrames, List.flatMap_cons]
      exact List.Sublist.append
        ((map_fst_pageWrites_sublist _).trans (map_fst_zip_sublist t.frames t.contents)) ih

/-- **Every page is where it was written**, for the frames are distinct. -/
theorem read_writes_allPages {ts : List Placed} (hstores : ∀ t ∈ ts, t.Stores)
    (hsound : ∀ t ∈ ts, t.Sound) (hdistinct : (allFrames ts).Nodup) (mem : ByteMem)
    {w : Nat × List UInt8} (hw : w ∈ allPages ts) : (writes (allPages ts) mem).read w.1 4096 = w.2 := by
  have hpage : ∀ v ∈ allPages ts, v.1 % 4096 = 0 ∧ v.2.length = 4096 := by
    intro v hv
    obtain ⟨t, ht, hv⟩ := List.mem_flatMap.mp hv
    obtain ⟨hframe, hlen⟩ := (hstores t ht).page v hv
    exact ⟨(hsound t ht).aligned _ hframe, hlen⟩
  have hpairs : (allPages ts).Pairwise fun v w =>
      v.1 + v.2.length ≤ w.1 ∨ w.1 + w.2.length ≤ v.1 := by
    have hnodup := hdistinct.sublist (map_fst_allPages_sublist ts)
    refine (List.pairwise_map.mp hnodup).imp_of_mem fun {v w} hv hw hne => ?_
    obtain ⟨hv, hvlen⟩ := hpage v hv
    obtain ⟨hw, hwlen⟩ := hpage w hw
    omega
  have hread := @read_writes_of_pairwise _ mem hpairs w hw
  rwa [(hpage w hw).2] at hread

/-- A byte outside the frames of the valid records is not written. -/
theorem writes_allPages_apply {ts : List Placed} (hstores : ∀ t ∈ ts, t.Stores)
    (hsound : ∀ t ∈ ts, t.Sound) {p : Nat}
    (hp : ∀ t ∈ ts, t.record.isValid = true → pageStart p ∉ t.frames) (mem : ByteMem) :
    writes (allPages ts) mem p = mem p := by
  refine writes_apply_of_not_covers fun w hw hcovers => ?_
  obtain ⟨t, ht, hw⟩ := List.mem_flatMap.mp hw
  obtain ⟨hframe, hlen⟩ := (hstores t ht).page w hw
  have hvalid : t.record.isValid = true := by
    by_contra hinvalid
    rw [(hstores t ht).invalid (Bool.eq_false_iff.mpr hinvalid)] at hw
    exact List.not_mem_nil hw
  refine hp t ht hvalid ?_
  rwa [(covers_page ((hsound t ht).aligned _ hframe) hlen).mp hcovers]

/-! ### A file without records -/

theorem checkPagesUncounted_returns {gmEnd : Nat} :
    ∀ (pages : List Nat) (s : CheckState), (∀ f ∈ pages, f % 4096 = 0) → s.buf.length = 4096 →
      s.stream.eof = true →
      ∃ s', checkPagesUncounted gmEnd pages s = .ok s' ∧ s'.stream.eof = true := by
  intro pages
  induction pages with
  | nil => exact fun s _ _ heof => ⟨s, rfl, heof⟩
  | cons newPage pages ih =>
      intro s haligned hbuf heof
      rw [checkPagesUncounted]
      by_cases hlt : s.gaddr < gmEnd
      · rw [if_pos hlt]
        obtain ⟨s₁, hcheck, hbuf₁, heof₁⟩ : ∃ s₁, checkPage newPage s = .ok s₁ ∧
            s₁.buf.length = 4096 ∧ s₁.stream.eof = true := by
          have hpage := haligned newPage List.mem_cons_self
          have hread : grReadPhys s.mem newPage 4096 = .ok (s.mem.read newPage 4096) :=
            grReadPhys_eq (by rw [hpage])
          obtain ⟨-, hkeep⟩ := @overwritePage_eq newPage _ hbuf false
          unfold checkPage at hkeep ⊢
          dsimp only at hkeep ⊢
          rw [hread, Except.ok_bind] at hkeep ⊢
          have hlen := length_read hbuf ((s.stream.readWord 8 s.gaddr).2.readWord 8 s.paddr).2
          have hlast : (((s.stream.readWord 8 s.gaddr).2.readWord 8 s.paddr).2.read 4096 s.buf).2.eof
              = true := by
            show (((s.stream.eof || _) || _) || _) = true
            rw [heof, Bool.true_or, Bool.true_or, Bool.true_or]
          have hwrite : ∀ buf : List UInt8, buf.length = 4096 →
              grWritePhys s.mem newPage buf = .ok (s.mem.write newPage buf) :=
            fun buf hb => grWritePhys_eq (by rw [hpage, hb])
          split
          · rw [hwrite _ hlen]
            exact ⟨_, rfl, hlen, hlast⟩
          · exact ⟨_, rfl, hlen, hlast⟩
        rw [hcheck]
        exact ih _ (fun f hf => haligned f (List.mem_cons_of_mem _ hf)) hbuf₁ heof₁
      · rw [if_neg hlt]
        exact ⟨s, rfl, heof⟩

theorem checkRegionUncounted_nil {r : Region} (haligned : ∀ f ∈ r.pages, f % 4096 = 0)
    {locals : Locals} (hbuf : locals.buf.length = 4096) (mem : ByteMem) :
    ∃ l f mem', checkRegionUncounted r locals (Stream.open []) mem = .ok (l, f, mem') ∧
      f.eof = true := by
  unfold checkRegionUncounted
  have hheader : (readHeader locals (Stream.open [])).1.buf.length = 4096 := by
    rw [readHeader_buf]
    exact hbuf
  have heof : (readHeader locals (Stream.open [])).2.eof = true := rfl
  generalize readHeader locals (Stream.open []) = header at hheader heof
  obtain ⟨l, f⟩ := header
  dsimp only at hheader heof ⊢
  split
  · obtain ⟨s', hrun, heof'⟩ := @checkPagesUncounted_returns r.gmEnd r.pages
      ⟨f, r.gmStart, l.paddr, l.buf, false, mem⟩ haligned hheader heof
    rw [hrun]
    exact ⟨_, _, _, rfl, heof'⟩
  · exact ⟨_, _, _, rfl, heof⟩

/-- The check of an empty file returns. -/
theorem grMemContentsCheckUncounted_nil {regions : List Region} (hne : regions ≠ [])
    (haligned : ∀ r ∈ regions, ∀ f ∈ r.pages, f % 4096 = 0) (unused : List Region)
    {locals : Locals} (hbuf : locals.buf.length = 4096) (mem : ByteMem) :
    ∃ mem', grMemContentsCheckUncounted regions unused locals [] mem = .ok mem' := by
  obtain ⟨r, rest, rfl⟩ := List.exists_cons_of_ne_nil hne
  obtain ⟨l, f, mem', hrun, heof⟩ :=
    checkRegionUncounted_nil (haligned r List.mem_cons_self) hbuf mem
  refine ⟨mem', ?_⟩
  show checkRegionsUncounted (r :: (rest ++ unused)) locals (Stream.open []) mem = _
  rw [checkRegionsUncounted, if_neg (by decide), hrun, Except.ok_bind]
  dsimp only
  cases rest ++ unused with
  | nil => rw [checkRegionsUncounted, if_pos heof]
  | cons s ss => rw [checkRegionsUncounted, if_pos heof]

/-- And so it does with its counters. -/
theorem grMemContentsCheck_nil {regions : List Region} (hne : regions ≠ []) (hok : PagesOk regions)
    (hfew : ∀ r ∈ regions, r.nrPages < 2 ^ 32) (unused : List Region) {locals : Locals}
    (hbuf : locals.buf.length = 4096) {fuel : Nat} (hfuel : 2 ^ 32 ≤ fuel) (mem : ByteMem) :
    grMemContentsCheck regions unused fuel locals [] mem
      = some (grMemContentsCheckUncounted regions unused locals [] mem) := by
  obtain ⟨r, rest, rfl⟩ := List.exists_cons_of_ne_nil hne
  have hone := @checkRegion_eq r fuel locals (Stream.open []) mem (hok.length r List.mem_cons_self)
    (fun _ => hfew r List.mem_cons_self) hfuel
  obtain ⟨l, f, mem', hrun, heof⟩ := checkRegionUncounted_nil
    (fun p hp => hok.aligned r List.mem_cons_self p hp) hbuf mem
  show checkRegions fuel (r :: (rest ++ unused)) locals (Stream.open []) mem
    = some (checkRegionsUncounted (r :: (rest ++ unused)) locals (Stream.open []) mem)
  rw [checkRegions, checkRegionsUncounted, if_neg (by decide), if_neg (by decide), hone, hrun,
    Except.ok_bind]
  dsimp only
  cases rest ++ unused with
  | nil => rw [checkRegions, checkRegionsUncounted, if_pos heof]
  | cons s ss => rw [checkRegions, checkRegionsUncounted, if_pos heof, if_pos heof]

/-- Regions are only added. -/
theorem initRegions_length {heap : List UserPgtable} {userPgt : UserPtr} :
    ∀ (n : Nat) (s s' : McState), initRegions heap userPgt n s = .ok s' →
      s.regions.length ≤ s'.regions.length := by
  intro n
  induction n with
  | zero =>
      intro s s' hrun
      rw [initRegions] at hrun
      split_ifs at hrun
      obtain rfl := Except.ok.inj hrun
      exact Nat.le_refl _
  | succ n ih =>
      intro s s' hrun
      rw [initRegions] at hrun
      split_ifs at hrun
      · obtain rfl := Except.ok.inj hrun
        exact Nat.le_refl _
      · obtain ⟨s₁, hregion, hrest⟩ := Except.bind_eq_ok.mp hrun
        obtain ⟨r, hr, -⟩ := initRegion_region hregion
        have hlater := ih s₁ s' hrest
        rw [hr, List.length_append] at hlater
        omega

/-- A file that is read gives a region, even an empty one. -/
theorem grMemContentsInit_ne_nil {m : Machine} {userPgt : UserPtr} {locals : Locals}
    {file : List UInt8} {mc : McState}
    (hrun : grMemContentsInit m userPgt locals file = .ok mc) : mc.regions ≠ [] := by
  intro hnil
  unfold grMemContentsInit at hrun
  have hslots : nrVaRegion = 127 + 1 := rfl
  rw [hslots, initRegions, if_neg (by exact Bool.false_ne_true)] at hrun
  obtain ⟨s₁, hregion, hrest⟩ := Except.bind_eq_ok.mp hrun
  obtain ⟨r, hr, -⟩ := initRegion_region hregion
  have hlen := initRegions_length _ _ _ hrest
  rw [hr, hnil, List.length_append] at hlen
  exact absurd hlen (by simp)

/-! ### The claim of the check -/

/-- Memory holds the recorded pages of the valid records, and has kept the pages of the others. -/
structure ContentsRestored (recs : List McRecord) (regions : List Region) (mem mem' : ByteMem) :
    Prop where
  valid : ∀ (i : Nat) (rec : McRecord) (r : Region), recs[i]? = some rec → regions[i]? = some r →
    rec.isValid = true → ∀ (j : Nat) (page : Nat × List UInt8), rec.pages[j]? = some page →
      ∃ frame, r.pages[j]? = some frame ∧ mem'.read frame 4096 = page.2
  invalid : ∀ (i : Nat) (rec : McRecord) (r : Region), recs[i]? = some rec → regions[i]? = some r →
    rec.isValid = false → ∀ frame ∈ r.pages, mem'.read frame 4096 = mem.read frame 4096

/-- The region of a record, and the record on its frames. -/
theorem made_getElem? {rs : List Region} {ts : List Placed} (h : List.Forall₂ Made rs ts) {i : Nat}
    {r : Region} (hr : rs[i]? = some r) : ∃ t, ts[i]? = some t ∧ Made r t := by
  induction h generalizing i with
  | nil => cases hr
  | cons hfirst hrest ih =>
      cases i with
      | zero =>
          obtain rfl := Option.some.inj hr
          exact ⟨_, rfl, hfirst⟩
      | succ i => exact ih hr

/-- Record `i` of the dump, on the frames of region `i`. -/
theorem record_frames {recs : List McRecord} {rs : List Region} {r₀ : Region} {base : List Placed}
    (hrecords : base.map Placed.record = recs) (hmade : List.Forall₂ Made rs base) {i : Nat}
    {rec : McRecord} {r : Region} (hrec : recs[i]? = some rec) (hr : (rs ++ [r₀])[i]? = some r) :
    ∃ t ∈ base, t.record = rec ∧ r.pages = t.frames := by
  have hlen : i < rs.length := by
    have hlt := (List.getElem?_eq_some_iff.mp hrec).1
    rwa [hmade.length_eq, ← List.length_map Placed.record, hrecords]
  rw [List.getElem?_append_left hlen] at hr
  obtain ⟨t, ht, sync, rfl⟩ := made_getElem? hmade hr
  refine ⟨t, List.mem_of_getElem? ht, ?_, rfl⟩
  rw [← hrecords, List.getElem?_map, ht] at hrec
  exact Option.some.inj hrec

/-- The pages written are not those of an invalid record: different records have different
frames. -/
theorem invalid_not_written {ts : List Placed} (hdistinct : (allFrames ts).Nodup) {t : Placed}
    (ht : t ∈ ts) (hinvalid : t.record.isValid = false) {frame : Nat} (hframe : frame ∈ t.frames) :
    ∀ u ∈ ts, u.record.isValid = true → frame ∉ u.frames := by
  intro u hu hvalid hboth
  have hne : u ≠ t := by
    intro heq
    rw [heq, hinvalid] at hvalid
    exact Bool.false_ne_true hvalid
  have hpairs := (List.nodup_flatMap.mp hdistinct).2
  have : Std.Symm (Function.onFun List.Disjoint Placed.frames) :=
    ⟨fun _ _ hd _ ha hb => hd hb ha⟩
  exact hpairs.forall hu ht hne hboth hframe

/-! ### The pages that are not counted -/

/-- What the page loop leaves alone: the pages it does not count to. -/
theorem checkPages_apply {region : Region} (haligned : ∀ f ∈ region.pages, f % 4096 = 0) {p : Nat}
    (hp : ∀ i f, i < 2 ^ 32 → region.pages[i]? = some f → pageStart p ≠ f) :
    ∀ (fuel pageCnt : Nat) (s s' : CheckState), pageCnt < 2 ^ 32 → s.buf.length = 4096 →
      checkPages region fuel pageCnt s = some (.ok s') → s'.mem p = s.mem p := by
  intro fuel
  induction fuel with
  | zero => exact fun _ _ _ _ _ h => by cases h
  | succ fuel ih =>
      intro pageCnt s s' hcnt hbuf h
      rw [checkPages] at h
      by_cases hlt : s.gaddr < region.gmEnd ∧ pageCnt < region.nrPages
      · rw [if_pos hlt] at h
        unfold pageAt at h
        cases hpage : region.pages[pageCnt]? with
        | none =>
            rw [hpage] at h
            cases h
        | some newPage =>
            rw [hpage] at h
            dsimp only at h
            rw [Except.ok_bind] at h
            have hframe := haligned newPage (List.mem_of_getElem? hpage)
            cases hcheck : checkPage newPage s with
            | error e =>
                rw [hcheck] at h
                cases h
            | ok s₁ =>
                rw [hcheck] at h
                obtain ⟨hover, hkeep⟩ := @overwritePage_eq newPage _ hbuf false
                have hlater := ih ((pageCnt + 1) % 2 ^ 32)
                  { s₁ with gaddr := (s₁.gaddr + 4096) % 2 ^ 64 } s'
                  (Nat.mod_lt _ (Nat.two_pow_pos 32)) (hkeep s₁ hcheck) h
                refine hlater.trans ?_
                -- the page is overwritten, and nothing else
                rw [hcheck, Except.ok_bind] at hover
                unfold overwritePage at hover
                dsimp only at hover
                have hlen := length_read hbuf ((s.stream.readWord 8 s.gaddr).2.readWord 8 s.paddr).2
                rw [grWritePhys_eq (by rw [hframe, hlen]), Except.ok_bind] at hover
                have hmem := congrArg CheckState.mem (Except.ok.inj hover)
                dsimp only at hmem
                refine (congrFun hmem.symm p).trans (ByteMem.write_apply_of_not_mem _ ?_)
                have := hp pageCnt newPage hcnt hpage
                unfold pageStart at this
                rw [hlen]
                omega
      · rw [if_neg hlt] at h
        exact Except.ok.inj (Option.some.inj h) ▸ rfl

theorem checkRegions_apply {p fuel : Nat} :
    ∀ (regions : List Region) (l : Locals) (f : Stream) (mem mem' : ByteMem),
      (∀ r ∈ regions, (∀ f ∈ r.pages, f % 4096 = 0) ∧
        ∀ i f, i < 2 ^ 32 → r.pages[i]? = some f → pageStart p ≠ f) →
      l.buf.length = 4096 → checkRegions fuel regions l f mem = some (.ok mem') →
      mem' p = mem p := by
  intro regions
  induction regions with
  | nil =>
      intro l f mem mem' _ _ h
      rw [checkRegions] at h
      split at h
      · exact Except.ok.inj (Option.some.inj h) ▸ rfl
      · cases h
  | cons region regions ih =>
      intro l f mem mem' hall hbuf h
      obtain ⟨⟨haligned, hp⟩, hrest⟩ := List.forall_mem_cons.mp hall
      rw [checkRegions] at h
      split at h
      · exact Except.ok.inj (Option.some.inj h) ▸ rfl
      · obtain ⟨-, hkeep⟩ := overwriteRegion_eq region fuel hbuf f mem
        cases hregion : checkRegion region fuel l f mem with
        | none =>
            rw [hregion] at h
            cases h
        | some out =>
            rw [hregion] at h
            cases out with
            | error e => cases h
            | ok res =>
                obtain ⟨l₁, f₁, mem₁⟩ := res
                refine (ih l₁ f₁ mem₁ mem' hrest (hkeep _ hregion) h).trans ?_
                unfold checkRegion at hregion
                have hheader : (readHeader l f).1.buf.length = 4096 := hbuf
                generalize readHeader l f = header at hheader hregion
                obtain ⟨l', f'⟩ := header
                dsimp only at hheader hregion
                split at hregion
                · cases hpages : checkPages region fuel 0
                      ⟨f', region.gmStart, l'.paddr, l'.buf, false, mem⟩ with
                  | none =>
                      rw [hpages] at hregion
                      cases hregion
                  | some out =>
                      rw [hpages] at hregion
                      cases out with
                      | error e => cases hregion
                      | ok s =>
                          have hsame := congrArg (fun r => r.2.2)
                            (Except.ok.inj (Option.some.inj hregion))
                          dsimp only at hsame
                          rw [← hsame]
                          exact checkPages_apply haligned hp fuel 0 _ s (by decide) hheader hpages
                · have hsame := congrArg (fun r => r.2.2)
                    (Except.ok.inj (Option.some.inj hregion))
                  exact congrFun hsame.symm p

/-- The frame of a page that is not counted to, among those of all regions. -/
theorem not_counted {regions : List Region} (hnodup : (regions.flatMap Region.pages).Nodup)
    {k j frame : Nat} {r : Region} (hr : regions[k]? = some r) (hj : 2 ^ 32 ≤ j)
    (hframe : r.pages[j]? = some frame) :
    ∀ s ∈ regions, ∀ i f, i < 2 ^ 32 → s.pages[i]? = some f → frame ≠ f := by
  intro s hs i f hi hf heq
  subst heq
  obtain ⟨hall, hpairs⟩ := List.nodup_flatMap.mp hnodup
  have hrmem := List.mem_of_getElem? hr
  by_cases hsame : s = r
  · subst hsame
    obtain ⟨hi', hfi⟩ := List.getElem?_eq_some_iff.mp hf
    obtain ⟨hj', hfj⟩ := List.getElem?_eq_some_iff.mp hframe
    have := (hall s hs).getElem_inj_iff.mp (hfi.trans hfj.symm)
    omega
  · have : Std.Symm (Function.onFun List.Disjoint Region.pages) :=
      ⟨fun _ _ hd _ ha hb => hd hb ha⟩
    exact hpairs.forall hs hrmem hsame (List.mem_of_getElem? hf) (List.mem_of_getElem? hframe)

/-- **The frame of a page that is not counted to keeps its contents.** -/
theorem grMemContentsCheck_apply {regions : List Region} (hok : PagesOk regions) {k j frame : Nat}
    {r : Region} (hr : regions[k]? = some r) (hj : 2 ^ 32 ≤ j) (hframe : r.pages[j]? = some frame)
    {fuel : Nat} {locals : Locals} (hbuf : locals.buf.length = 4096) {file : List UInt8}
    {mem mem' : ByteMem}
    (hrun : grMemContentsCheck regions [] fuel locals file mem = some (.ok mem')) :
    mem'.read frame 4096 = mem.read frame 4096 := by
  have haligned := hok.aligned r (List.mem_of_getElem? hr) frame (List.mem_of_getElem? hframe)
  refine ByteMem.read_congr fun i hi => ?_
  have hstart : pageStart (frame + i) = frame := by
    unfold pageStart
    omega
  unfold grMemContentsCheck at hrun
  rw [List.append_nil] at hrun
  refine checkRegions_apply regions locals _ mem mem' (fun s hs => ⟨hok.aligned s hs, ?_⟩) hbuf hrun
  rw [hstart]
  exact not_counted hok.nodup hr hj hframe s hs

/-! ### The claim -/

/-- The check of the file that the regions were made from returns, leaves every page of a valid
record as recorded and those of an invalid one alone, and does what overwriting every page would
do, whatever is in memory and in the entries after the regions. -/
def CheckRestores (recs : List McRecord) (regions : List Region) (locals : Locals) : Prop :=
  ∀ (unused : List Region) (mem : ByteMem), ∃ mem' enough, ContentsRestored recs regions mem mem' ∧
    ∀ fuel, enough ≤ fuel →
      grMemContentsCheck regions unused fuel locals (dump recs) mem = some (.ok mem') ∧
      grMemContentsOverwrite regions unused fuel locals (dump recs) mem = some (.ok mem')

section Restored

variable {m : Machine} {userPgt : UserPtr} {locals locals' : Locals} {recs : List McRecord}
  {mc : McState}

/-- The pages are restored, where the counter does not wrap. -/
theorem checkRestores_of_counted (hwf : ∀ rec ∈ recs, rec.WF) (hpool : PoolOk m.pool)
    (hpaddr : locals.paddr < 2 ^ 64) (hbuf : locals.buf.length = 4096)
    (hpaddr' : locals'.paddr < 2 ^ 64) (hbuf' : locals'.buf.length = 4096)
    (hrun : grMemContentsInit m userPgt locals (dump recs) = .ok mc)
    (hfew : ∀ rec ∈ recs, Counted rec)
    (hempty : recs = [] → ∀ r ∈ mc.regions, r.nrPages < 2 ^ 32) :
    CheckRestores recs mc.regions locals' := by
  intro unused mem
  have hok := grMemContentsInit_pagesOk hpool hrun
  rcases List.eq_nil_or_concat' recs with rfl | ⟨front, last, hsplit⟩
  · obtain ⟨mem', hcheck⟩ := grMemContentsCheckUncounted_nil (grMemContentsInit_ne_nil hrun)
      hok.aligned unused hbuf' mem
    refine ⟨mem', 2 ^ 32, ⟨fun i rec r hi => (by cases hi), fun i rec r hi => (by cases hi)⟩,
      fun fuel hfuel => ?_⟩
    have hcounted := grMemContentsCheck_nil (grMemContentsInit_ne_nil hrun) hok (hempty rfl) unused
      hbuf' hfuel mem
    rw [hcheck] at hcounted
    exact ⟨hcounted, (grMemContentsOverwrite_eq _ _ fuel hbuf' _ _).trans hcounted⟩
  · have hne : recs ≠ [] := by
      rw [hsplit]
      exact List.append_ne_nil_of_right_ne_nil _ (List.cons_ne_nil _ _)
    obtain ⟨base, dup, hplaced⟩ := grMemContentsInit_placed hwf hpool hpaddr hbuf hne hrun
    obtain ⟨rs, r₀, hregions, hmade, hlast⟩ := hplaced.made
    have hsound := hplaced.sound
    have hin : ∀ t ∈ base, t ∈ base ++ [dup] := fun t ht => List.mem_append_left _ ht
    have hdup : dup ∈ base ++ [dup] := List.mem_append_right _ List.mem_cons_self
    have hcounted : ∀ t ∈ base ++ [dup], Counted t.record := by
      intro t ht
      refine hfew t.record ?_
      rcases List.mem_append.mp ht with hbase | hlater
      · exact hplaced.records ▸ List.mem_map_of_mem hbase
      · rw [List.mem_singleton.mp hlater]
        exact List.mem_of_getLast? hplaced.last
    have hcheck : ∀ fuel, 2 ^ 32 ≤ fuel →
        grMemContentsCheck mc.regions unused fuel locals' (dump recs) mem
          = some (.ok (writes (allPages (base ++ [dup])) mem)) := by
      intro fuel hfuel
      have hboth := grMemContentsCheck_eq hfuel hmade hlast
        (fun t ht => ⟨hsound t (hin t ht), hplaced.contents t ht⟩) (hsound dup hdup)
        (by rw [hplaced.records]; exact hplaced.last)
        (by
          rw [hplaced.records, hplaced.again]
          exact again_bufAfter (hsound dup hdup).wf hplaced.last _ _)
        hpaddr' hbuf' unused mem
      rw [hplaced.records, ← hregions] at hboth
      exact hboth.2 hcounted
    refine ⟨_, 2 ^ 32, ?_, fun fuel hfuel => ⟨hcheck fuel hfuel,
      (grMemContentsOverwrite_eq _ _ fuel hbuf' _ _).trans (hcheck fuel hfuel)⟩⟩
    have hstores : ∀ t ∈ base ++ [dup], t.Stores := by
      intro t ht
      rcases List.mem_append.mp ht with hbase | hlater
      · exact stores_contents (hsound t ht) (hplaced.contents t hbase)
      · obtain rfl := List.mem_singleton.mp hlater
        exact stores_again (hsound t ht) (bufAfter_length hwf hbuf) hplaced.again
    constructor
    · intro i rec r hrec hr hvalid j page hpage
      rw [hregions] at hr
      obtain ⟨t, ht, rfl, hpages⟩ := record_frames hplaced.records hmade hrec hr
      have hlength := (hsound t (hin t ht)).wf.length_pages
      rw [if_pos hvalid, ← (hsound t (hin t ht)).length] at hlength
      have hj : j < t.frames.length := hlength ▸ (List.getElem?_eq_some_iff.mp hpage).1
      refine ⟨t.frames[j], by rw [hpages]; exact List.getElem?_eq_getElem hj, ?_⟩
      have hwrites := pages_contents (hplaced.contents t ht)
      rw [if_pos hvalid] at hwrites
      have hw : (t.frames[j], page.2) ∈ allPages (base ++ [dup]) := by
        refine List.mem_flatMap.mpr ⟨t, hin t ht, ?_⟩
        rw [hwrites]
        refine @List.mem_of_getElem? _ _ j _ ?_
        rw [List.getElem?_zip_eq_some]
        exact ⟨List.getElem?_eq_getElem hj, by rw [List.getElem?_map, hpage]; rfl⟩
      have hread := read_writes_allPages hstores hsound hplaced.distinct mem hw
      exact hread
    · intro i rec r hrec hr hinvalid frame hframe
      rw [hregions] at hr
      obtain ⟨t, ht, rfl, hpages⟩ := record_frames hplaced.records hmade hrec hr
      rw [hpages] at hframe
      have haligned := (hsound t (hin t ht)).aligned frame hframe
      refine ByteMem.read_congr fun k hk => writes_allPages_apply hstores hsound ?_ mem
      have hstart : pageStart (frame + k) = frame := by
        unfold pageStart
        omega
      rw [hstart]
      exact invalid_not_written hplaced.distinct (hin t ht) hinvalid hframe

/-- A page that is not counted to is not restored. -/
theorem Counted.of_checkRestores (hwf : ∀ rec ∈ recs, rec.WF) (hpool : PoolOk m.pool)
    (hpaddr : locals.paddr < 2 ^ 64) (hbuf : locals.buf.length = 4096)
    (hbuf' : locals'.buf.length = 4096)
    (hrun : grMemContentsInit m userPgt locals (dump recs) = .ok mc)
    (hrestores : CheckRestores recs mc.regions locals') {rec : McRecord} (hrec : rec ∈ recs)
    (hvalid : rec.isValid = true) : rec.nents ≤ 2 ^ 32 := by
  by_contra hmany
  have hne : recs ≠ [] := List.ne_nil_of_mem hrec
  obtain ⟨base, dup, hplaced⟩ := grMemContentsInit_placed hwf hpool hpaddr hbuf hne hrun
  obtain ⟨rs, r₀, hregions, hmade, -⟩ := hplaced.made
  obtain ⟨i, hi⟩ := List.mem_iff_getElem?.mp hrec
  -- the region of the record, and the first page that is not counted to
  have hlen : i < rs.length := by
    have hlt := (List.getElem?_eq_some_iff.mp hi).1
    rwa [hmade.length_eq, ← List.length_map Placed.record, hplaced.records]
  have hr : mc.regions[i]? = some rs[i] := by
    rw [hregions, List.getElem?_append_left hlen, List.getElem?_eq_getElem hlen]
  have hpages := (hwf rec hrec).length_pages
  rw [if_pos hvalid] at hpages
  obtain ⟨page, hpage⟩ : ∃ page, rec.pages[2 ^ 32]? = some page :=
    ⟨_, List.getElem?_eq_getElem (by omega)⟩
  have hbytes := ((hwf rec hrec).page page (List.mem_of_getElem? hpage)).2
  obtain ⟨byte, rest, hcons⟩ := List.exists_cons_of_length_pos (l := page.2) (by omega)
  -- memory that holds something else
  obtain ⟨mem', enough, hcontents, hcheck⟩ := hrestores [] fun _ => byte + 1
  obtain ⟨frame, hframe, hread⟩ := hcontents.valid i rec _ hi hr hvalid (2 ^ 32) page hpage
  have hkept := grMemContentsCheck_apply (grMemContentsInit_pagesOk hpool hrun) hr (Nat.le_refl _)
    hframe hbuf' (hcheck enough (Nat.le_refl _)).1
  have hfirst := congrArg (·[0]?) (hread.symm.trans hkept)
  rw [hcons, ByteMem.getElem?_read _ (by decide)] at hfirst
  have hbyte : byte = byte + 1 := Option.some.inj hfirst
  have hval := congrArg UInt8.toNat hbyte
  rw [UInt8.toNat_add] at hval
  have hlt := byte.toNat_lt
  have : (1 : UInt8).toNat = 1 := rfl
  omega

/-- **Restoring the contents.**  The pages are restored where no valid record has `2 ^ 32` pages,
and not where one has more. -/
theorem contents_restored (hwf : ∀ rec ∈ recs, rec.WF) (hpool : PoolOk m.pool)
    (hpaddr : locals.paddr < 2 ^ 64) (hbuf : locals.buf.length = 4096)
    (hpaddr' : locals'.paddr < 2 ^ 64) (hbuf' : locals'.buf.length = 4096)
    (hrun : grMemContentsInit m userPgt locals (dump recs) = .ok mc)
    (hempty : recs = [] → ∀ r ∈ mc.regions, r.nrPages < 2 ^ 32) :
    ((∀ rec ∈ recs, rec.isValid = true → rec.nents < 2 ^ 32) →
      CheckRestores recs mc.regions locals') ∧
    (CheckRestores recs mc.regions locals' →
      ∀ rec ∈ recs, rec.isValid = true → rec.nents ≤ 2 ^ 32) :=
  ⟨fun hfew => checkRestores_of_counted hwf hpool hpaddr hbuf hpaddr' hbuf' hrun hfew hempty,
    fun hrestores _ hrec hvalid =>
      Counted.of_checkRestores hwf hpool hpaddr hbuf hbuf' hrun hrestores hrec hvalid⟩

end Restored

/-- Memory in which something else has been written everywhere. -/
def onesMem : ByteMem := fun _ => 1

/-- One page on a machine with room for it. -/
theorem onePage_contents_restored :
    ((∀ rec ∈ [onePage], rec.WF) ∧ PoolOk onePageMachine.pool) ∧
    ∃ mc, grMemContentsInit onePageMachine (.node 0) zeroLocals (dump [onePage]) = .ok mc ∧
      CheckRestores [onePage] mc.regions zeroLocals := by
  have hwf := dumpInput_onePage.wf
  have hpool : PoolOk onePageMachine.pool := ⟨by decide, by decide, by decide⟩
  obtain ⟨-, mc, hrun, -⟩ := onePage_loads_twice
  obtain ⟨hpaddr, hbuf⟩ := dumpInput_onePage.locals
  exact ⟨⟨hwf, hpool⟩, mc, hrun,
    (contents_restored hwf hpool hpaddr hbuf hpaddr hbuf hrun fun hnil => by cases hnil).1
      fun rec hrec _ => by
        rw [List.mem_singleton.mp hrec]
        decide⟩

/-! ### More pages than are counted -/

/-- A region of `n` pages of zeros. -/
def zeroPages (n : Nat) : McRecord where
  gmStart := 0
  gmEnd := 4096 * n
  nents := n
  flags := 0
  isValid := true
  pages := List.replicate n (0, zeroPage)

/-- A root table whose node holds pointers to itself, as the memory it was made of may. -/
def loopMachine (n : Nat) : Machine where
  mem := fun _ => 0
  pool := frames 2 (n + n)
  heap := [⟨0x1000, fun _ => .node 0⟩]

theorem wf_zeroPages {n : Nat} (hn : n < 2 ^ 52) : (zeroPages n).WF where
  start_aligned := rfl
  end_aligned := Nat.mul_mod_right 4096 n
  le := Nat.zero_le _
  bounded := by
    show 4096 * n < 2 ^ 64
    omega
  nents_le := by
    show n ≤ (4096 * n - 0) / 4096
    omega
  flags_lt := by
    show 0 < 2 ^ 32
    decide
  length_pages := List.length_replicate
  page := fun q hq => by
    rw [List.eq_of_mem_replicate hq]
    exact ⟨by decide, List.length_replicate⟩

theorem dumpInput_zeroPages {n : Nat} (hn : n < 2 ^ 50) :
    DumpInput (loopMachine n) (.node 0) zeroLocals [zeroPages n] where
  count := by
    rw [List.length_singleton]
    decide
  wf := fun rec hrec => by
    rw [List.mem_singleton.mp hrec]
    exact wf_zeroPages (by omega)
  disjoint := List.pairwise_singleton ..
  leaves := fun rec hrec k _ => by
    rw [List.mem_singleton.mp hrec]
    exact ⟨_, rfl⟩
  frames := (poolOk_frames (by omega)).aligned
  distinct := (poolOk_frames (by omega)).nodup
  locals := ⟨by decide, List.length_replicate⟩

/-- With more than `2 ^ 32` pages. -/
theorem zeroPages_not_restored {n : Nat} (hn : n < 2 ^ 50) (hmany : 2 ^ 32 < n) :
    ∃ mc, grMemContentsInit (loopMachine n) (.node 0) zeroLocals (dump [zeroPages n]) = .ok mc ∧
      ¬ CheckRestores [zeroPages n] mc.regions zeroLocals := by
  have hinput := dumpInput_zeroPages hn
  obtain ⟨mc, hrun, -⟩ := grMemContentsInit_dump hinput rfl (by
    show n + 0 + n ≤ (frames 2 (n + n)).length
    rw [frames, List.length_map, List.length_range']
    omega)
  refine ⟨mc, hrun, fun hrestores => ?_⟩
  have hle : n ≤ 2 ^ 32 := Counted.of_checkRestores hinput.wf (poolOk_frames (by omega))
    hinput.locals.1 hinput.locals.2 hinput.locals.2 hrun hrestores List.mem_cons_self rfl
  omega

/-- A touched region of `2 ^ 32 + 1` pages. -/
theorem manyPages_not_restored :
    (zeroPages (2 ^ 32 + 1)).WF ∧ PoolOk (loopMachine (2 ^ 32 + 1)).pool ∧
    ∃ mc, grMemContentsInit (loopMachine (2 ^ 32 + 1)) (.node 0) zeroLocals
        (dump [zeroPages (2 ^ 32 + 1)]) = .ok mc ∧
      ¬ CheckRestores [zeroPages (2 ^ 32 + 1)] mc.regions zeroLocals :=
  ⟨wf_zeroPages (by decide), poolOk_frames (by decide),
    zeroPages_not_restored (by decide) (by decide)⟩

end GpuReplay.Replayer
