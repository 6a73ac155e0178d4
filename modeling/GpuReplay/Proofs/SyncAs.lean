/-
What `gr_get_sync_as` makes of a file of synced address spaces.

The count, the addresses and the length of the file have nothing to do with each other.  For
each record the start of the range is looked up twice: in the page table, which may end the
program, and in the regions, where the number of none, `-1`, is taken for a number.  When the
records run out, the variables keep what the last one left there, and entries are made of that.

`getSyncAs_safe_iff` says which files are read as they should be: those with a region for each
start up to the first that has no translation, and, where all of them have one, with as many
records as they say.
-/
import GpuReplay.Proofs.Walks

namespace GpuReplay.Replayer

open Stdio

/-! ### The records -/

/-- The three reads of a record. -/
def readSas (l : SasLocals) (f : Stream) : SasLocals × Stream :=
  let (gmStart, f) := f.readWord 8 l.gmStart
  let (gmEnd, f) := f.readWord 8 l.gmEnd
  let (size, f) := f.readWord 8 l.size
  (⟨gmStart, gmEnd, size⟩, f)

/-- What the variables hold after record `k` has been read, or there was none to read. -/
def sasRecord (l : SasLocals) (f : Stream) : Nat → SasLocals
  | 0 => (readSas l f).1
  | k + 1 => sasRecord (readSas l f).1 (readSas l f).2 k

theorem readSyncAs_succ (mem : ByteMem) (newTranstab n : Nat) (l : SasLocals) (f : Stream)
    (regions : List Region) :
    readSyncAs mem newTranstab (n + 1) l f regions
      = grTransVaToPa mem newTranstab (readSas l f).1.gmStart >>= fun pmStart =>
        match grFindRegionEnclosingAddress regions (readSas l f).1.gmStart with
        | none => .error .undefined
        | some regionOffset =>
            readSyncAs mem newTranstab n (readSas l f).1 (readSas l f).2
              (regions.modify regionOffset fun r => { r with isSynced := 1 }) >>= fun result =>
            .ok (⟨(readSas l f).1.gmStart, (readSas l f).1.gmEnd, (readSas l f).1.size, pmStart, 0,
              if n = 0 then 1 else 0⟩ :: result.1, result.2) := rfl

/-- A record the file holds in full is what its variables are set to. -/
theorem readSas_eq {l : SasLocals} {f : Stream} (hlen : 24 ≤ f.rest.length) :
    (readSas l f).1 = ⟨Bytes.val (f.rest.take 8), Bytes.val ((f.rest.drop 8).take 8),
      Bytes.val ((f.rest.drop 16).take 8)⟩ ∧
    (readSas l f).2 = ⟨f.rest.drop 24, f.eof⟩ := by
  have hread : ∀ (old : Nat) (rest : List UInt8), 8 ≤ rest.length →
      Stream.readWord 8 old ⟨rest, f.eof⟩ = (Bytes.val (rest.take 8), ⟨rest.drop 8, f.eof⟩) := by
    intro old rest hrest
    have hword : (rest.take 8).length = 8 := by rw [List.length_take]; omega
    have hsplit : (⟨rest, f.eof⟩ : Stream) = ⟨rest.take 8 ++ rest.drop 8, f.eof⟩ := by
      rw [List.take_append_drop]
    unfold Stream.readWord
    rw [hsplit, Stream.read_append hword (Nat.le_of_eq (Bytes.length_le 8 old))]
  have hfirst := hread l.gmStart f.rest (by omega)
  have hsecond := hread l.gmEnd (f.rest.drop 8) (by rw [List.length_drop]; omega)
  have hthird := hread l.size ((f.rest.drop 8).drop 8) (by
    rw [List.length_drop, List.length_drop]
    omega)
  unfold readSas
  simp only
  rw [show f.readWord 8 l.gmStart = _ from hfirst]
  dsimp only
  rw [hsecond]
  dsimp only
  rw [hthird]
  simp only [List.drop_drop]
  exact ⟨trivial, trivial⟩

/-- Record `k` of the file, which holds it in full. -/
theorem sasRecord_eq :
    ∀ (k : Nat) (l : SasLocals) (f : Stream), 24 * (k + 1) ≤ f.rest.length →
      sasRecord l f k = ⟨Bytes.val ((f.rest.drop (24 * k)).take 8),
        Bytes.val ((f.rest.drop (24 * k + 8)).take 8),
        Bytes.val ((f.rest.drop (24 * k + 16)).take 8)⟩ := by
  intro k
  induction k with
  | zero =>
      intro l f hlen
      exact (readSas_eq (by omega)).1
  | succ k ih =>
      intro l f hlen
      have hrest := (readSas_eq (l := l) (f := f) (by omega)).2
      rw [sasRecord, ih _ _ (by rw [hrest]; show _ ≤ (f.rest.drop 24).length; rw [List.length_drop]; omega),
        hrest]
      simp only [List.drop_drop]
      rw [show 24 + 24 * k = 24 * (k + 1) by omega,
        show 24 + (24 * k + 8) = 24 * (k + 1) + 8 by omega,
        show 24 + (24 * k + 16) = 24 * (k + 1) + 16 by omega]

/-! ### The loop -/

/-- The address has a translation. -/
def Translates (mem : ByteMem) (pgd vaddr : Nat) : Prop :=
  ∃ paddr, grTransVaToPa mem pgd vaddr = .ok paddr

/-- The address is in a region. -/
def Enclosed (regions : List Region) (gaddr : Nat) : Prop := ∃ r ∈ regions, r.Encloses gaddr

theorem grMapPage_ne_undefined (paddr : Nat) : grMapPage paddr ≠ .error .undefined := by
  unfold grMapPage
  split
  · exact fun h => by cases h
  · exact fun h => by cases h

theorem walkPgd_ne_undefined {mem : ByteMem} {gaddr : Nat} :
    ∀ (n l pgd : Nat), walkPgd mem gaddr n l pgd ≠ .error .undefined := by
  intro n
  induction n with
  | zero => exact fun _ _ h => by cases h
  | succ n ih =>
      intro l pgd
      unfold walkPgd
      split
      · exact fun h => by cases h
      · refine Except.bind_ne_error (grMapPage_ne_undefined _) fun pgdPage => ?_
        dsimp only
        split
        · exact fun h => by cases h
        · exact ih _ _

/-- Where there is no translation, the program ends. -/
theorem grTransVaToPa_ne_undefined (mem : ByteMem) (pgd vaddr : Nat) :
    grTransVaToPa mem pgd vaddr ≠ .error .undefined :=
  Except.bind_ne_error (walkPgd_ne_undefined _ _ _) fun _ =>
    Except.bind_ne_error (grMapPage_ne_undefined _) fun _ h => by cases h

theorem grFindRegion_eq_none_iff {regions : List Region} {gaddr : Nat} :
    grFindRegionEnclosingAddress regions gaddr = none ↔ ¬Enclosed regions gaddr := by
  rw [grFindRegionEnclosingAddress, List.findIdx?_eq_none_iff]
  constructor
  · rintro hnone ⟨r, hr, henc⟩
    exact absurd (decide_eq_true henc) (by rw [hnone r hr]; exact Bool.false_ne_true)
  · exact fun hnone r hr => decide_eq_false fun henc => hnone ⟨r, hr, henc⟩

theorem enclosed_of_grFindRegion {regions : List Region} {gaddr i : Nat}
    (h : grFindRegionEnclosingAddress regions gaddr = some i) : Enclosed regions gaddr := by
  by_contra hnone
  rw [grFindRegion_eq_none_iff.mpr hnone] at h
  cases h

theorem SyncedOnly.enclosed {regions regions' : List Region} (h : SyncedOnly regions regions')
    (gaddr : Nat) : Enclosed regions' gaddr ↔ Enclosed regions gaddr := by
  have hclear : ∀ rs : List Region,
      Enclosed (rs.map fun r => { r with isSynced := 0 }) gaddr ↔ Enclosed rs gaddr := by
    intro rs
    constructor
    · rintro ⟨s, hs, henc⟩
      obtain ⟨r, hr, rfl⟩ := List.mem_map.mp hs
      exact ⟨r, hr, henc⟩
    · rintro ⟨r, hr, henc⟩
      exact ⟨_, List.mem_map.mpr ⟨r, hr, rfl⟩, henc⟩
  rw [← hclear regions', h, hclear regions]

section Loop

variable {mem : ByteMem} {newTranstab : Nat}

/-- **What the loop leaves when it returns**: an entry for each turn, and nothing but
`is_synced` changed of the regions. -/
theorem readSyncAs_ok :
    ∀ (n : Nat) (l : SasLocals) (f : Stream) (regions : List Region)
      (result : List SyncAs × List Region), readSyncAs mem newTranstab n l f regions = .ok result →
      result.1.length = n ∧ SyncedOnly regions result.2 ∧
        ∀ k e, result.1[k]? = some e →
          (⟨e.gmStart, e.gmEnd, e.size⟩ : SasLocals) = sasRecord l f k := by
  intro n
  induction n with
  | zero =>
      intro l f regions result hrun
      obtain rfl := Except.ok.inj hrun
      exact ⟨rfl, rfl, fun k e hk => by simp at hk⟩
  | succ n ih =>
      intro l f regions result hrun
      rw [readSyncAs_succ] at hrun
      obtain ⟨pmStart, -, hrun⟩ := Except.bind_eq_ok.mp hrun
      split at hrun
      · exact absurd hrun (Except.ok_ne_error _ _).symm
      · next regionOffset _ =>
          obtain ⟨rest, hrest, hdone⟩ := Except.bind_eq_ok.mp hrun
          obtain rfl := Except.ok.inj hdone
          obtain ⟨hlen, hsynced, hentries⟩ := ih _ _ _ rest hrest
          refine ⟨by rw [List.length_cons, hlen], hsynced.trans (syncedOnly_modify _ _), ?_⟩
          intro k e hk
          cases k with
          | zero =>
              obtain rfl := Option.some.inj hk
              rfl
          | succ k => exact hentries k e hk

/-- **When the loop returns**: every start has a translation and is in a region. -/
theorem readSyncAs_returns_iff :
    ∀ (n : Nat) (l : SasLocals) (f : Stream) (regions : List Region),
      (∃ result, readSyncAs mem newTranstab n l f regions = .ok result) ↔
        ∀ k < n, Translates mem newTranstab (sasRecord l f k).gmStart ∧
          Enclosed regions (sasRecord l f k).gmStart := by
  intro n
  induction n with
  | zero => exact fun l f regions => ⟨fun _ k hk => absurd hk (Nat.not_lt_zero k), fun _ => ⟨_, rfl⟩⟩
  | succ n ih =>
      intro l f regions
      rw [readSyncAs_succ]
      cases htrans : grTransVaToPa mem newTranstab (readSas l f).1.gmStart with
      | error e =>
          constructor
          · rintro ⟨result, hrun⟩
            exact absurd hrun (Except.ok_ne_error _ _).symm
          · intro hall
            obtain ⟨⟨paddr, hpaddr⟩, -⟩ := hall 0 (Nat.succ_pos n)
            exact absurd (htrans.symm.trans hpaddr) (Except.ok_ne_error _ _).symm
      | ok pmStart =>
          rw [Except.ok_bind]
          cases hfind : grFindRegionEnclosingAddress regions (readSas l f).1.gmStart with
          | none =>
              constructor
              · rintro ⟨result, hrun⟩
                exact absurd hrun (Except.ok_ne_error _ _).symm
              · intro hall
                exact absurd (hall 0 (Nat.succ_pos n)).2 (grFindRegion_eq_none_iff.mp hfind)
          | some regionOffset =>
              have hlater := ih (readSas l f).1 (readSas l f).2
                (regions.modify regionOffset fun r => { r with isSynced := 1 })
              have hencl := (syncedOnly_modify regions regionOffset).enclosed
              constructor
              · rintro ⟨result, hrun⟩ k hk
                obtain ⟨rest, hrest, -⟩ := Except.bind_eq_ok.mp hrun
                cases k with
                | zero => exact ⟨⟨pmStart, htrans⟩, enclosed_of_grFindRegion hfind⟩
                | succ k =>
                    obtain ⟨htr, henc⟩ := hlater.mp ⟨rest, hrest⟩ k (Nat.lt_of_succ_lt_succ hk)
                    exact ⟨htr, (hencl _).mp henc⟩
              · intro hall
                obtain ⟨rest, hrest⟩ := hlater.mpr fun k hk => by
                  obtain ⟨htr, henc⟩ := hall (k + 1) (Nat.succ_lt_succ hk)
                  exact ⟨htr, (hencl _).mpr henc⟩
                exact ⟨_, by dsimp only; rw [hrest]; rfl⟩

/-- **When the loop marks `gm_region[-1]`**: at a start that has a translation, as all before it
have, and is in no region. -/
theorem readSyncAs_undefined_iff :
    ∀ (n : Nat) (l : SasLocals) (f : Stream) (regions : List Region),
      readSyncAs mem newTranstab n l f regions = .error .undefined ↔
        ∃ k < n, (∀ j ≤ k, Translates mem newTranstab (sasRecord l f j).gmStart) ∧
          ¬Enclosed regions (sasRecord l f k).gmStart := by
  intro n
  induction n with
  | zero =>
      intro l f regions
      exact ⟨fun h => (by cases h), fun ⟨k, hk, _⟩ => absurd hk (Nat.not_lt_zero k)⟩
  | succ n ih =>
      intro l f regions
      rw [readSyncAs_succ]
      cases htrans : grTransVaToPa mem newTranstab (readSas l f).1.gmStart with
      | error e =>
          constructor
          · intro hrun
            obtain rfl := Except.error.inj hrun
            exact absurd htrans (grTransVaToPa_ne_undefined _ _ _)
          · rintro ⟨k, -, hall, -⟩
            obtain ⟨paddr, hpaddr⟩ := hall 0 (Nat.zero_le k)
            exact absurd (htrans.symm.trans hpaddr) (Except.ok_ne_error _ _).symm
      | ok pmStart =>
          rw [Except.ok_bind]
          cases hfind : grFindRegionEnclosingAddress regions (readSas l f).1.gmStart with
          | none =>
              have hnone := grFindRegion_eq_none_iff.mp hfind
              constructor
              · intro _
                refine ⟨0, Nat.succ_pos n, fun j hj => ?_, hnone⟩
                obtain rfl := Nat.le_zero.mp hj
                exact ⟨pmStart, htrans⟩
              · exact fun _ => rfl
          | some regionOffset =>
              have hlater := ih (readSas l f).1 (readSas l f).2
                (regions.modify regionOffset fun r => { r with isSynced := 1 })
              have hencl := (syncedOnly_modify regions regionOffset).enclosed
              dsimp only
              constructor
              · intro hrun
                have hrest : readSyncAs mem newTranstab n (readSas l f).1 (readSas l f).2
                    (regions.modify regionOffset fun r => { r with isSynced := 1 })
                    = .error .undefined := by
                  cases hcase : readSyncAs mem newTranstab n (readSas l f).1 (readSas l f).2
                      (regions.modify regionOffset fun r => { r with isSynced := 1 }) with
                  | ok result =>
                      rw [hcase] at hrun
                      exact absurd hrun (Except.ok_ne_error _ _)
                  | error e =>
                      rw [hcase] at hrun
                      exact congrArg Except.error (Except.error.inj hrun)
                obtain ⟨k, hk, hall, hnone⟩ := hlater.mp hrest
                refine ⟨k + 1, Nat.succ_lt_succ hk, fun j hj => ?_, fun h => hnone ((hencl _).mpr h)⟩
                cases j with
                | zero => exact ⟨pmStart, htrans⟩
                | succ j => exact hall j (Nat.le_of_succ_le_succ hj)
              · rintro ⟨k, hk, hall, hnone⟩
                cases k with
                | zero => exact absurd (enclosed_of_grFindRegion hfind) hnone
                | succ k =>
                    have hrest := hlater.mpr ⟨k, Nat.lt_of_succ_lt_succ hk,
                      fun j hj => hall (j + 1) (Nat.succ_le_succ hj),
                      fun h => hnone ((hencl _).mp h)⟩
                    rw [hrest]
                    rfl

end Loop

/-! ### The file -/

/-- `cnt`, which is also what `sas_cnt` is set to. -/
def sasCount (file : List UInt8) : Nat := ((Stream.open file).readWord 4 0).1

/-- `gm_start` after record `k` of the file has been read, or there was none to read. -/
def sasStart (locals : SasLocals) (file : List UInt8) (k : Nat) : Nat :=
  (sasRecord locals ((Stream.open file).readWord 4 0).2 k).gmStart

/-- The entry is record `k` of the file, which holds all of it. -/
structure ReadInFull (file : List UInt8) (k : Nat) (e : SyncAs) : Prop where
  complete : 4 + 24 * (k + 1) ≤ file.length
  gmStart : e.gmStart = Bytes.val ((file.drop (4 + 24 * k)).take 8)
  gmEnd : e.gmEnd = Bytes.val ((file.drop (4 + 24 * k + 8)).take 8)
  size : e.size = Bytes.val ((file.drop (4 + 24 * k + 16)).take 8)

/-- The file is read as it should be: the program ends, or marks entries of the region table
only, and has `sas_cnt` entries, each of a record of the file. -/
def SafeSyncAs (mem : ByteMem) (newTranstab : Nat) (locals : SasLocals) (regions : List Region)
    (file : List UInt8) : Prop :=
  (∃ msg, grGetSyncAs mem newTranstab locals regions file = .error (.abort msg)) ∨
    ∃ sas regions', grGetSyncAs mem newTranstab locals regions file = .ok (sas, regions') ∧
      SyncedOnly regions regions' ∧ sas.length = sasCount file ∧
      ∀ k e, sas[k]? = some e → ReadInFull file k e

theorem sasRecord_file {locals : SasLocals} {file : List UInt8} {k : Nat}
    (hlen : 4 + 24 * (k + 1) ≤ file.length) :
    sasRecord locals ((Stream.open file).readWord 4 0).2 k
      = ⟨Bytes.val ((file.drop (4 + 24 * k)).take 8),
        Bytes.val ((file.drop (4 + 24 * k + 8)).take 8),
        Bytes.val ((file.drop (4 + 24 * k + 16)).take 8)⟩ := by
  have hrest : ((Stream.open file).readWord 4 0).2.rest = file.drop 4 := rfl
  rw [sasRecord_eq k _ _ (by rw [hrest, List.length_drop]; omega), hrest]
  simp only [List.drop_drop, Nat.add_assoc]

/-- There is a region for each start up to the first without a translation, and if all of them
have one, the file holds all the records it says. -/
def SasFileOk (mem : ByteMem) (newTranstab : Nat) (locals : SasLocals) (regions : List Region)
    (file : List UInt8) : Prop :=
  (∀ k < sasCount file, (∀ j ≤ k, Translates mem newTranstab (sasStart locals file j)) →
      Enclosed regions (sasStart locals file k)) ∧
    ((∀ k < sasCount file, Translates mem newTranstab (sasStart locals file k)) →
      sasCount file = 0 ∨ 4 + 24 * sasCount file ≤ file.length)

/-- What is read as it should be is such a file. -/
theorem SafeSyncAs.fileOk {mem : ByteMem} {newTranstab : Nat} {locals : SasLocals}
    {regions : List Region} {file : List UInt8}
    (h : SafeSyncAs mem newTranstab locals regions file) :
    SasFileOk mem newTranstab locals regions file := by
  have hdefined : grGetSyncAs mem newTranstab locals regions file ≠ .error .undefined := by
    intro hundef
    rcases h with ⟨msg, hrun⟩ | ⟨sas, regions', hrun, -⟩
    · rw [hundef] at hrun
      cases hrun
    · rw [hundef] at hrun
      cases hrun
  have hencl : ∀ k < sasCount file,
      (∀ j ≤ k, Translates mem newTranstab (sasStart locals file j)) →
      Enclosed regions (sasStart locals file k) := by
    intro k hk htrans
    by_contra hnone
    exact hdefined ((readSyncAs_undefined_iff _ _ _ _).mpr ⟨k, hk, htrans, hnone⟩)
  refine ⟨hencl, fun htrans => ?_⟩
  obtain ⟨result, hret⟩ := (readSyncAs_returns_iff _ _ _ regions).mpr fun k hk =>
    ⟨htrans k hk, hencl k hk fun j hj => htrans j (Nat.lt_of_le_of_lt hj hk)⟩
  rcases Nat.eq_zero_or_pos (sasCount file) with hzero | hpos
  · exact Or.inl hzero
  · rcases h with ⟨msg, hrun⟩ | ⟨sas, regions', hrun, -, hlen, hfull⟩
    · exact absurd (hret.symm.trans hrun) (Except.ok_ne_error _ _)
    · obtain ⟨e, he⟩ : ∃ e, sas[sasCount file - 1]? = some e :=
        ⟨_, List.getElem?_eq_getElem (by omega)⟩
      have hcomplete := (hfull _ e he).complete
      rw [show sasCount file - 1 + 1 = sasCount file by omega] at hcomplete
      exact Or.inr hcomplete

/-- **The file of synced address spaces.**  It is read as it should be exactly when there is a
region for each start up to the first that has no translation and, if there is no such start,
the file holds all the records it says. -/
theorem getSyncAs_safe_iff (mem : ByteMem) (newTranstab : Nat) (locals : SasLocals)
    (regions : List Region) (file : List UInt8) :
    SafeSyncAs mem newTranstab locals regions file ↔
      SasFileOk mem newTranstab locals regions file := by
  constructor
  · exact SafeSyncAs.fileOk
  · rintro ⟨hencl, hcomplete⟩
    by_cases htrans : ∀ k < sasCount file, Translates mem newTranstab (sasStart locals file k)
    · obtain ⟨⟨sas, regions'⟩, hret⟩ := (readSyncAs_returns_iff _ _ _ regions).mpr fun k hk =>
        ⟨htrans k hk, hencl k hk fun j hj => htrans j (Nat.lt_of_le_of_lt hj hk)⟩
      obtain ⟨hlen, hsynced, hentries⟩ := readSyncAs_ok _ _ _ _ _ hret
      refine Or.inr ⟨sas, regions', hret, hsynced, hlen, fun k e hk => ?_⟩
      have hlt : k < sasCount file := hlen ▸ (List.getElem?_eq_some_iff.mp hk).1
      have hfile : 4 + 24 * (k + 1) ≤ file.length := by
        rcases hcomplete htrans with hzero | hall
        · omega
        · omega
      have hrecord := hentries k e hk
      rw [sasRecord_file hfile] at hrecord
      obtain ⟨hstart, hend, hsize⟩ := SasLocals.mk.inj hrecord
      exact ⟨hfile, hstart, hend, hsize⟩
    · cases hrun : grGetSyncAs mem newTranstab locals regions file with
      | ok result =>
          have hall := (readSyncAs_returns_iff _ _ _ regions).mp ⟨result, hrun⟩
          exact absurd (fun k hk => (hall k hk).1) htrans
      | error e =>
          cases e with
          | abort msg => exact Or.inl ⟨msg, hrun⟩
          | undefined =>
              obtain ⟨k, hk, hall, hnone⟩ := (readSyncAs_undefined_iff _ _ _ _).mp hrun
              exact absurd (hencl k hk hall) hnone

theorem tablesOk_chain : TablesOk (pageMem chainWord) 3 (4096 * 1) := by
  intro p hp
  rw [pages_eq_preorder, laidOut_chain.pages] at hp
  have hframes : ∀ f ∈ frames 1 4, f % 4096 = 0 ∧ 0 < f ∧ f < 2 ^ 48 := by decide
  exact hframes p hp

/-- The first address has a translation in the chain of tables. -/
theorem translates_chain : Translates (pageMem chainWord) (4096 * 1) 0 :=
  ⟨_, (grTransVaToPa_of_leafPage tablesOk_chain (leafPage_chain (by decide))).2⟩

/-- One region, which does not have that address. -/
def sasRegions : List Region := [⟨0x10000, 0x11000, [0x6000], 1, 0, 1, 0⟩]

/-- A file with one record, which starts at it. -/
def sasFile : List UInt8 := Bytes.le 4 1 ++ List.replicate 24 0

/-- The start has a translation and no region. -/
theorem sasFile_unsafe :
    ¬SafeSyncAs (pageMem chainWord) (4096 * 1) ⟨0, 0, 0⟩ sasRegions sasFile := by
  intro h
  have hstart : sasStart ⟨0, 0, 0⟩ sasFile 0 = 0 := by decide
  have hencl := h.fileOk.1 0 (by decide) fun j hj => by
    obtain rfl := Nat.le_zero.mp hj
    rw [hstart]
    exact translates_chain
  rw [hstart] at hencl
  obtain ⟨r, hr, henc⟩ := hencl
  obtain rfl := List.mem_singleton.mp hr
  exact absurd henc (by decide)

end GpuReplay.Replayer
