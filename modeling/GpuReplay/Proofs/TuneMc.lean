/-
What `gr_tune_mc` makes of a dump.

The unit is one record: a turn of the loop takes it off one file and puts it on the other, with the
same header and the same addresses.  In a job page a `1` in front of a `0` has become a `0`, which
says that the job has not run.  A job page that ends with a `1` is compared with what
follows the buffer.
-/
import GpuReplay.Proofs.Image
import GpuReplay.Replayer.TuneMc

namespace GpuReplay.Replayer

open Stdio Driver

/-! ### One page -/

/-- The words of a job page after the loop. -/
def tunedWords : List Nat → List Nat
  | [] => []
  | word :: rest => (if word = 1 ∧ rest.head? = some 0 then 0 else word) :: tunedWords rest

@[simp] theorem length_tunedWords (ws : List Nat) : (tunedWords ws).length = ws.length := by
  induction ws with
  | nil => rfl
  | cons word rest ih => rw [tunedWords, List.length_cons, ih, List.length_cons]

theorem getElem?_tunedWords (ws : List Nat) :
    ∀ i, (tunedWords ws)[i]?
      = ws[i]?.map fun word => if word = 1 ∧ ws[i + 1]? = some 0 then 0 else word := by
  induction ws with
  | nil => simp [tunedWords]
  | cons word rest ih =>
      intro i
      cases i with
      | zero => simp [tunedWords, List.head?_eq_getElem?]
      | succ i => simp [tunedWords, ih]

/-- **The loop over a page** tunes it, unless the last word is a `1`. -/
theorem tuneWords_eq (ws : List Nat) : tuneWords ws
    = if ws.getLast? = some 1 then .error .undefined else .ok (tunedWords ws) := by
  induction ws with
  | nil => simp [tuneWords, tunedWords]
  | cons word rest ih =>
      cases rest with
      | nil =>
          by_cases hword : word = 1
          · simp [tuneWords, hword]
          · simp [tuneWords, tunedWords, hword]
      | cons next rest =>
          rw [tuneWords, tunedWords, ih, List.getLast?_cons_cons]
          by_cases hlast : (next :: rest).getLast? = some 1
          · rw [if_pos hlast, if_pos hlast]
            by_cases hword : word = 1
            · simp [hword]
            · rw [if_neg hword]
              rfl
          · rw [if_neg hlast, if_neg hlast]
            by_cases hword : word = 1
            · simp [hword]
            · simp [hword]

/-- A page of a tuned record. -/
def tunedPage (page : List UInt8) : List UInt8 := Bytes.words (tunedWords (wordsOf page))

theorem length_tunedPage {page : List UInt8} (h : page.length = 4096) :
    (tunedPage page).length = 4096 := by
  simp [tunedPage, Bytes.length_words, wordsOf, h]

/-! ### One record -/

/-- What the `asCnt`-th record becomes. -/
def tunedRecord (asCnt : Nat) (rec : McRecord) : McRecord :=
  if isJobRecord asCnt rec.nents rec.flags then
    { rec with pages := rec.pages.map fun q => (q.1, tunedPage q.2) }
  else rec

/-- A `1` at the end of a job page. -/
def EndsMarked (asCnt : Nat) (rec : McRecord) : Prop :=
  isJobRecord asCnt rec.nents rec.flags = true ∧ ∃ q ∈ rec.pages, (wordsOf q.2).getLast? = some 1

theorem isJobRecord_nents {asCnt nents flags : Nat} (h : isJobRecord asCnt nents flags = true) :
    nents = 1 := by
  simp [isJobRecord] at h
  exact h.1.2

section Pages

variable {gmEnd : Nat} (hend : gmEnd ≤ 2 ^ 48) {rest : List UInt8} {eof : Bool}

/-- What the page loop leaves where it has written `bs` for what it has read. -/
structure PagesDone (rest : List UInt8) (eof : Bool) (out bs : List UInt8) (p : TunePage) : Prop where
  stream : p.stream = ⟨rest, eof⟩
  out : p.out = out ++ bs
  buf : p.buf.length = 4096

/-- What becomes of a page that is read. -/
def pageOut (tuned : Bool) (page : List UInt8) : Except Stop (List UInt8) :=
  if tuned then
    if (wordsOf page).getLast? = some 1 then .error .undefined else .ok (tunedPage page)
  else .ok page

/-- One triple off one file, and onto the other. -/
theorem tunePage_triple {isJob : Bool} {pageCnt vaddr paddr : Nat} {q : Nat × List UInt8}
    (hvaddr : vaddr < 2 ^ 48) (hq : q.1 < 2 ^ 64) (hpage : q.2.length = 4096)
    {buf : List UInt8} (hbuf : buf.length = 4096) (out : List UInt8) :
    tunePage isJob pageCnt ⟨⟨triples vaddr [q] ++ rest, eof⟩, vaddr, paddr, buf, out⟩ =
      pageOut (isJob && decide (pageCnt = 0)) q.2 >>= fun page =>
        .ok ⟨⟨rest, eof⟩, vaddr, q.1, page, out ++ triples vaddr [(q.1, page)]⟩ := by
  have hlow : ¬0xffffffffffff < vaddr := by omega
  have hv : vaddr < 256 ^ 8 := Nat.lt_of_lt_of_le hvaddr (by decide)
  have hp : q.1 < 256 ^ 8 := hq
  simp only [tunePage, triples, List.append_assoc, List.append_nil, Stream.readWord_le hv,
    Stream.readWord_le hp, Stream.read_append hpage (Nat.le_of_eq hbuf), if_neg hlow, tuneWords_eq]
  unfold pageOut
  by_cases hjob : isJob = true ∧ pageCnt = 0
  · by_cases hlast : (wordsOf q.2).getLast? = some 1
    · simp [hjob, hlast]
    · simp [hjob, hlast, tunedPage]
  · simp [hjob]

include hend

/-- Pages that are not tuned. -/
theorem tunePages_copy (rest : List UInt8) (eof : Bool) {pages : List (Nat × List UInt8)} :
    ∀ (pageCnt vaddr paddr : Nat) {buf : List UInt8} (out : List UInt8),
      (∀ q ∈ pages, q.1 < 2 ^ 64 ∧ q.2.length = 4096) → vaddr + 4096 * pages.length ≤ gmEnd →
      buf.length = 4096 →
      ∃ p, tunePages gmEnd 1 false pages.length pageCnt
          ⟨⟨triples vaddr pages ++ rest, eof⟩, vaddr, paddr, buf, out⟩ = .ok p ∧
        PagesDone rest eof out (triples vaddr pages) p := by
  induction pages with
  | nil =>
      intro pageCnt vaddr paddr buf out _ _ hbuf
      exact ⟨_, rfl, rfl, (List.append_nil out).symm, hbuf⟩
  | cons q pages ih =>
      intro pageCnt vaddr paddr buf out hpages hroom hbuf
      obtain ⟨hq, hpage⟩ := hpages q List.mem_cons_self
      rw [List.length_cons] at hroom
      have hsplit : triples vaddr (q :: pages) ++ rest
          = triples vaddr [q] ++ (triples (vaddr + 4096) pages ++ rest) := by
        simp [triples]
      have hnext : (vaddr + 4096) % 2 ^ 64 = vaddr + 4096 := Nat.mod_eq_of_lt (by omega)
      obtain ⟨p, hrun, hdone⟩ := ih (pageCnt + 1) (vaddr + 4096) q.1 (out ++ triples vaddr [q])
        (fun r hr => hpages r (List.mem_cons_of_mem _ hr)) (by omega) hpage
      refine ⟨p, ?_, hdone.stream, ?_, hdone.buf⟩
      · rw [List.length_cons, tunePages, if_pos (show vaddr < gmEnd by omega), hsplit,
          if_pos (by decide), tunePage_triple (by omega) hq hpage hbuf]
        simp only [pageOut, Bool.false_and, Bool.false_eq_true, if_false, Except.ok_bind, hnext]
        exact hrun
      · rw [hdone.out]
        simp [triples]

/-- The page of a job. -/
theorem tunePages_job (rest : List UInt8) (eof : Bool) {q : Nat × List UInt8} {vaddr : Nat}
    (paddr : Nat) {buf : List UInt8} (out : List UInt8) (hq : q.1 < 2 ^ 64)
    (hpage : q.2.length = 4096) (hroom : vaddr + 4096 ≤ gmEnd) (hbuf : buf.length = 4096) :
    tunePages gmEnd 1 true 1 0 ⟨⟨triples vaddr [q] ++ rest, eof⟩, vaddr, paddr, buf, out⟩ =
      pageOut true q.2 >>= fun page =>
        .ok ⟨⟨rest, eof⟩, vaddr + 4096, q.1, page, out ++ triples vaddr [(q.1, page)]⟩ := by
  have hnext : (vaddr + 4096) % 2 ^ 64 = vaddr + 4096 := Nat.mod_eq_of_lt (by omega)
  rw [tunePages, if_pos (show vaddr < gmEnd by omega), if_pos (by decide),
    tunePage_triple (by omega) hq hpage hbuf]
  cases hout : pageOut true q.2 with
  | error e => simp [hout]
  | ok page => simp only [decide_true, Bool.and_self, hout, Except.ok_bind, tunePages, hnext]

omit hend in
/-- A loop that reads nothing. -/
theorem tunePages_invalid (gmEnd : Nat) (isJob : Bool) (n : Nat) :
    ∀ (pageCnt : Nat) (s : TunePage), ∃ v,
      tunePages gmEnd 0 isJob n pageCnt s = .ok { s with vaddr := v } := by
  induction n with
  | zero => exact fun _ s => ⟨s.vaddr, rfl⟩
  | succ n ih =>
      intro pageCnt s
      rw [tunePages]
      by_cases hlt : s.vaddr < gmEnd
      · obtain ⟨v, hrun⟩ := ih (pageCnt + 1) { s with vaddr := (s.vaddr + 4096) % 2 ^ 64 }
        exact ⟨v, by rw [if_pos hlt]; exact hrun⟩
      · exact ⟨s.vaddr, if_neg hlt⟩

end Pages

/-- What the turn for a record leaves. -/
structure TurnDone (rec : McRecord) (rest : List UInt8) (s s' : TuneState) : Prop where
  stream : s'.stream = ⟨rest, false⟩
  asCnt : s'.asCnt = s.asCnt + 1
  out : s'.out = s.out ++ (tunedRecord s.asCnt rec).bytes
  buf : s'.locals.buf.length = 4096

/-- The locals with the header of a record in them. -/
def withHeader (rec : McRecord) (l : Locals) : Locals :=
  ⟨rec.gmStart, rec.gmEnd, rec.nents, rec.flags, rec.isValid.toNat, l.paddr, l.buf⟩

theorem bytes_tunedRecord (asCnt : Nat) (rec : McRecord) (l : Locals) :
    (tunedRecord asCnt rec).bytes
      = writeHeader (withHeader rec l) ++ triples rec.gmStart (tunedRecord asCnt rec).pages := by
  unfold tunedRecord
  split <;> simp [McRecord.bytes, writeHeader, withHeader]

section Turn

variable {rec : McRecord} (hwf : rec.WF) (hlow : rec.gmEnd ≤ 2 ^ 48) {rest : List UInt8}
  {s : TuneState} (hcnt : s.asCnt < intMax) (hbuf : s.locals.buf.length = 4096)

/-- A page loop that has done its part finishes the turn. -/
theorem tuneRecord_turn {p : TunePage}
    (hrun : tunePages rec.gmEnd rec.isValid.toNat (isJobRecord s.asCnt rec.nents rec.flags)
      rec.nents 0 ⟨⟨triples rec.gmStart rec.pages ++ rest, false⟩, rec.gmStart, s.locals.paddr,
        s.locals.buf, s.out ++ writeHeader (withHeader rec s.locals)⟩ = .ok p)
    (hcnt : s.asCnt < intMax)
    (hdone : PagesDone rest false (s.out ++ writeHeader (withHeader rec s.locals))
      (triples rec.gmStart (tunedRecord s.asCnt rec).pages) p) :
    ∃ s', tuneRecord (withHeader rec s.locals) ⟨triples rec.gmStart rec.pages ++ rest, false⟩ s
        = .ok s' ∧ TurnDone rec rest s s' := by
  refine ⟨⟨p.stream, { withHeader rec s.locals with paddr := p.paddr, buf := p.buf },
    s.asCnt + 1, p.out⟩, ?_, hdone.stream, rfl, ?_, hdone.buf⟩
  · unfold tuneRecord
    simp only [withHeader] at hrun ⊢
    rw [hrun, Except.ok_bind, if_neg (Nat.ne_of_lt hcnt)]
    rfl
  · rw [bytes_tunedRecord s.asCnt rec s.locals, ← List.append_assoc]
    exact hdone.out

include hwf hlow hcnt hbuf

/-- **One turn takes one record off one file**, and puts it tuned onto the other. -/
theorem tuneRecord_record (rest : List UInt8) :
    (EndsMarked s.asCnt rec → tuneRecord (withHeader rec s.locals)
      ⟨triples rec.gmStart rec.pages ++ rest, false⟩ s = .error .undefined) ∧
    (¬EndsMarked s.asCnt rec → ∃ s', tuneRecord (withHeader rec s.locals)
      ⟨triples rec.gmStart rec.pages ++ rest, false⟩ s = .ok s' ∧ TurnDone rec rest s s') := by
  have hlength := hwf.length_pages
  have hroom := hwf.room
  by_cases hvalid : rec.isValid = true
  · rw [if_pos hvalid] at hlength
    by_cases hjob : isJobRecord s.asCnt rec.nents rec.flags = true
    · have hone := isJobRecord_nents hjob
      rw [hone] at hlength hroom
      obtain ⟨q, hpages⟩ := List.length_eq_one_iff.mp hlength
      obtain ⟨hq, hpage⟩ := hwf.page q (by simp [hpages])
      have hmarked : EndsMarked s.asCnt rec ↔ (wordsOf q.2).getLast? = some 1 := by
        simp [EndsMarked, hjob, hpages]
      have hrun := tunePages_job hlow rest false s.locals.paddr
        (s.out ++ writeHeader (withHeader rec s.locals)) hq hpage
        (show rec.gmStart + 4096 ≤ rec.gmEnd by omega) hbuf
      rw [hmarked]
      constructor
      · intro hlast
        unfold tuneRecord
        simp only [withHeader] at hrun ⊢
        rw [hjob, hone, hvalid, hpages]
        simp only [Bool.toNat_true]
        simp only [pageOut, if_true, if_pos hlast] at hrun
        rw [hone, hvalid] at hrun
        simp only [Bool.toNat_true] at hrun
        rw [hrun]
        rfl
      · intro hlast
        simp only [pageOut, if_true, if_neg hlast, Except.ok_bind] at hrun
        refine tuneRecord_turn (by rw [hjob, hone, hvalid, hpages]; exact hrun) hcnt ?_
        refine ⟨rfl, ?_, length_tunedPage hpage⟩
        simp [tunedRecord, hjob, hpages]
    · have hjob' : isJobRecord s.asCnt rec.nents rec.flags = false := by simpa using hjob
      have hnot : ¬EndsMarked s.asCnt rec := fun h => hjob h.1
      refine ⟨fun h => absurd h hnot, fun _ => ?_⟩
      obtain ⟨p, hrun, hdone⟩ := tunePages_copy hlow rest false 0 rec.gmStart s.locals.paddr
        (s.out ++ writeHeader (withHeader rec s.locals)) hwf.page
        (show rec.gmStart + 4096 * rec.pages.length ≤ rec.gmEnd by omega) hbuf
      refine tuneRecord_turn (p := p) ?_ hcnt ?_
      · rw [hjob', hvalid, ← hlength]
        exact hrun
      · simpa [tunedRecord, hjob'] using hdone
  · rw [if_neg hvalid] at hlength
    have hpages : rec.pages = [] := List.eq_nil_of_length_eq_zero hlength
    have hvalid' : rec.isValid = false := by simpa using hvalid
    have hnot : ¬EndsMarked s.asCnt rec := by simp [EndsMarked, hpages]
    refine ⟨fun h => absurd h hnot, fun _ => ?_⟩
    obtain ⟨v, hrun⟩ := tunePages_invalid rec.gmEnd
      (isJobRecord s.asCnt rec.nents rec.flags) rec.nents 0
      ⟨⟨triples rec.gmStart rec.pages ++ rest, false⟩, rec.gmStart, s.locals.paddr,
        s.locals.buf, s.out ++ writeHeader (withHeader rec s.locals)⟩
    refine tuneRecord_turn (by rw [hvalid']; exact hrun) hcnt ?_
    have htuned : (tunedRecord s.asCnt rec).pages = [] := by
      unfold tunedRecord
      split <;> simp [hpages]
    rw [htuned]
    exact ⟨by simp [hpages, triples], (List.append_nil _).symm, hbuf⟩

end Turn

/-! ### Any file -/

/-- How often a loop on `feof` that reads something in each turn can still turn. -/
def turnsLeft (f : Stream) : Nat := if f.eof then 0 else f.rest.length + 1

theorem turnsLeft_read (n : Nat) (old : List UInt8) (f : Stream) :
    turnsLeft (f.read n old).2 ≤ turnsLeft f := by
  unfold turnsLeft Stream.read
  by_cases heof : f.eof = true
  · simp [heof]
  · simp only [heof, Bool.false_or, List.length_drop, Bool.false_eq_true, if_false]
    split <;> omega

theorem turnsLeft_readWord (k old : Nat) (f : Stream) :
    turnsLeft (f.readWord k old).2 ≤ turnsLeft f := turnsLeft_read k (Bytes.le k old) f

theorem turnsLeft_tunePage {isJob : Bool} {pageCnt : Nat} {s p : TunePage}
    (h : tunePage isJob pageCnt s = .ok p) : turnsLeft p.stream ≤ turnsLeft s.stream := by
  have hwords := Nat.le_trans (turnsLeft_readWord 8 s.paddr (s.stream.readWord 8 s.vaddr).2)
    (turnsLeft_readWord 8 s.vaddr s.stream)
  unfold tunePage at h
  dsimp only at h
  split_ifs at h
  · obtain rfl := Except.ok.inj h
    exact hwords
  all_goals
    obtain ⟨buf, -, hbuf⟩ := Except.bind_eq_ok.mp h
    obtain rfl := Except.ok.inj hbuf
    exact Nat.le_trans (turnsLeft_read 4096 s.buf _) hwords

theorem turnsLeft_tunePages {gmEnd isValid : Nat} {isJob : Bool} {n : Nat} :
    ∀ {pageCnt : Nat} {s p : TunePage}, tunePages gmEnd isValid isJob n pageCnt s = .ok p →
      turnsLeft p.stream ≤ turnsLeft s.stream := by
  induction n with
  | zero =>
      intro pageCnt s p h
      obtain rfl := Except.ok.inj h
      exact Nat.le_refl _
  | succ n ih =>
      intro pageCnt s p h
      rw [tunePages] at h
      split_ifs at h
      · obtain ⟨s₁, hone, hrest⟩ := Except.bind_eq_ok.mp h
        have hle := ih hrest
        dsimp only at hle
        have hpage := turnsLeft_tunePage hone
        exact Nat.le_trans hle hpage
      · obtain ⟨s₁, hone, hrest⟩ := Except.bind_eq_ok.mp h
        obtain rfl := Except.ok.inj hone
        have hle := ih hrest
        exact hle
      · obtain rfl := Except.ok.inj h
        exact Nat.le_refl _

/-- A read that takes bytes, or is the last one. -/
theorem turnsLeft_readWord_lt {k : Nat} (hk : 0 < k) (old : Nat) {f : Stream}
    (h : f.eof = false) :
    turnsLeft (f.readWord k old).2 < turnsLeft f := by
  have hleft : turnsLeft f = f.rest.length + 1 := by simp [turnsLeft, h]
  cases heof : (f.readWord k old).2.eof with
  | true =>
      rw [turnsLeft, if_pos heof, hleft]
      exact Nat.succ_pos _
  | false =>
      obtain ⟨-, hlength⟩ := Stream.length_of_readWord_eof heof
      rw [turnsLeft, if_neg (by rw [heof]; decide), hleft]
      omega

theorem turnsLeft_readHeader {l : Locals} {f : Stream} (h : f.eof = false) :
    turnsLeft (readHeader l f).2 < turnsLeft f := by
  have hfirst := turnsLeft_readWord_lt (show 0 < 8 by decide) l.gmStart h
  refine Nat.lt_of_le_of_lt ?_ hfirst
  exact Nat.le_trans (turnsLeft_readWord 1 l.isValid _) (Nat.le_trans
    (turnsLeft_readWord 4 l.flags _) (Nat.le_trans (turnsLeft_readWord 8 l.nents _)
      (turnsLeft_readWord 8 l.gmEnd _)))

theorem turnsLeft_tuneRecord {l : Locals} {f : Stream} {s s' : TuneState}
    (h : tuneRecord l f s = .ok s') : turnsLeft s'.stream ≤ turnsLeft f := by
  obtain ⟨p, hpages, hrest⟩ := Except.bind_eq_ok.mp h
  split_ifs at hrest
  · cases hrest
  · obtain rfl := Except.ok.inj hrest
    exact turnsLeft_tunePages hpages

theorem tuneRecords_ends {fuel : Nat} :
    ∀ {s : TuneState}, turnsLeft s.stream < fuel → (tuneRecords fuel s).isSome := by
  induction fuel with
  | zero => exact fun h => absurd h (Nat.not_lt_zero _)
  | succ fuel ih =>
      intro s hfuel
      rw [tuneRecords]
      by_cases heof : s.stream.eof = true
      · simp [heof]
      · have hheader := turnsLeft_readHeader (l := s.locals) (by simpa using heof)
        rw [if_neg heof]
        dsimp only
        split_ifs
        · exact ih (by dsimp only; omega)
        · rfl
        · cases hrun : tuneRecord (readHeader s.locals s.stream).1
            (readHeader s.locals s.stream).2 s with
          | error e => rfl
          | ok s' =>
              have hturn := turnsLeft_tuneRecord hrun
              exact ih (by omega)

/-- **It ends on every file.** -/
theorem grTuneMc_ends (locals : Locals) {file : List UInt8} {fuel : Nat}
    (hfuel : file.length + 1 < fuel) : (grTuneMc locals file fuel).isSome := by
  refine tuneRecords_ends ?_
  simpa [turnsLeft, Stream.open] using hfuel

/-! ### A dump -/

/-- What the records become, the first of them number `asCnt`. -/
def tunedFrom : Nat → List McRecord → List McRecord
  | _, [] => []
  | asCnt, rec :: recs => tunedRecord asCnt rec :: tunedFrom (asCnt + 1) recs

/-- One of the records has a job page with a `1` at its end. -/
def MarkedFrom : Nat → List McRecord → Prop
  | _, [] => False
  | asCnt, rec :: recs => EndsMarked asCnt rec ∨ MarkedFrom (asCnt + 1) recs

theorem getElem?_tunedFrom {recs : List McRecord} :
    ∀ (asCnt i : Nat), (tunedFrom asCnt recs)[i]? = recs[i]?.map (tunedRecord (asCnt + i)) := by
  induction recs with
  | nil => simp [tunedFrom]
  | cons rec recs ih =>
      intro asCnt i
      cases i with
      | zero => simp [tunedFrom]
      | succ i => simp [tunedFrom, ih, Nat.add_right_comm, Nat.add_assoc]

theorem markedFrom_iff {recs : List McRecord} :
    ∀ {asCnt : Nat}, MarkedFrom asCnt recs ↔
      ∃ i rec, recs[i]? = some rec ∧ EndsMarked (asCnt + i) rec := by
  induction recs with
  | nil => simp [MarkedFrom]
  | cons rec recs ih =>
      intro asCnt
      rw [MarkedFrom, ih]
      constructor
      · rintro (hhead | ⟨i, r, hr, hmarked⟩)
        · exact ⟨0, rec, rfl, hhead⟩
        · refine ⟨i + 1, r, hr, ?_⟩
          rwa [← Nat.add_assoc, Nat.add_right_comm]
      · rintro ⟨i, r, hr, hmarked⟩
        cases i with
        | zero =>
            obtain rfl := Option.some.inj hr
            exact Or.inl hmarked
        | succ i =>
            refine Or.inr ⟨i, r, hr, ?_⟩
            rwa [Nat.add_right_comm, Nat.add_assoc]

/-- At the end of the file there is nothing more to write, whatever the header was last. -/
theorem tuneRecords_nil {fuel : Nat} (hfuel : 1 < fuel) {s : TuneState}
    (hstream : s.stream = ⟨[], false⟩) : tuneRecords fuel s = some (.ok s.out) := by
  obtain ⟨n, rfl⟩ := Nat.exists_eq_add_of_lt hfuel
  have heof : (readHeader s.locals ⟨[], false⟩).2.eof = true := by
    simp [readHeader, Stream.readWord, Stream.read]
  rw [show 1 + n + 1 = n + 1 + 1 by omega, tuneRecords, hstream]
  simp only [Bool.false_eq_true, if_false, heof, if_true]
  split
  · rw [tuneRecords, if_pos heof]
  · rfl

section Header

variable {fuel : Nat} {s : TuneState} {l : Locals} {f : Stream} (hopen : s.stream.eof = false)
  (hheader : readHeader s.locals s.stream = (l, f)) (hstart : l.gmStart < 2 ^ 48)
  (heof : f.eof = false)

include hopen hheader hstart heof

/-- A header that is taken for one, and a turn that returns. -/
theorem tuneRecords_ok {s' : TuneState} (hrun : tuneRecord l f s = .ok s') :
    tuneRecords (fuel + 1) s = tuneRecords fuel s' := by
  have hlow : ¬0xffffffffffff < l.gmStart := by omega
  rw [tuneRecords, hheader]
  simp [hopen, hlow, heof, hrun]

theorem tuneRecords_error {e : Stop} (hrun : tuneRecord l f s = .error e) :
    tuneRecords (fuel + 1) s = some (.error e) := by
  have hlow : ¬0xffffffffffff < l.gmStart := by omega
  rw [tuneRecords, hheader]
  simp [hopen, hlow, heof, hrun]

end Header

/-- **The loop over a dump.** -/
theorem tuneRecords_dump {recs : List McRecord} :
    ∀ {fuel : Nat} {s : TuneState}, recs.length + 1 < fuel → s.stream = ⟨dump recs, false⟩ →
      (∀ rec ∈ recs, rec.WF ∧ rec.gmStart < 2 ^ 48 ∧ rec.gmEnd ≤ 2 ^ 48) →
      s.asCnt + recs.length ≤ intMax → s.locals.buf.length = 4096 →
      (MarkedFrom s.asCnt recs → tuneRecords fuel s = some (.error .undefined)) ∧
        (¬MarkedFrom s.asCnt recs →
          tuneRecords fuel s = some (.ok (s.out ++ dump (tunedFrom s.asCnt recs)))) := by
  induction recs with
  | nil =>
      intro fuel s hfuel hstream _ _ _
      refine ⟨False.elim, fun _ => ?_⟩
      rw [tuneRecords_nil hfuel hstream]
      simp [tunedFrom, dump]
  | cons rec recs ih =>
      intro fuel s hfuel hstream hrecs hcnt hbuf
      obtain ⟨hwf, hstart, hend⟩ := hrecs rec List.mem_cons_self
      rw [List.length_cons] at hfuel hcnt
      obtain ⟨fuel, rfl⟩ := Nat.exists_eq_succ_of_ne_zero (Nat.ne_of_gt (Nat.lt_of_le_of_lt
        (Nat.zero_le _) hfuel))
      have hheader : readHeader s.locals s.stream
          = (withHeader rec s.locals, ⟨triples rec.gmStart rec.pages ++ dump recs, false⟩) := by
        rw [hstream, dump, List.flatMap_cons]
        exact readHeader_record hwf s.locals (dump recs) false
      have hopen : s.stream.eof = false := by rw [hstream]
      obtain ⟨hbad, hgood⟩ := tuneRecord_record hwf hend
        (show s.asCnt < intMax by omega) hbuf (dump recs)
      rw [Nat.succ_eq_add_one, MarkedFrom]
      by_cases hmarked : EndsMarked s.asCnt rec
      · rw [tuneRecords_error hopen hheader hstart rfl (hbad hmarked)]
        exact ⟨fun _ => rfl, fun hnot => absurd (Or.inl hmarked) hnot⟩
      · obtain ⟨s', hrun, hdone⟩ := hgood hmarked
        obtain ⟨hrestBad, hrestGood⟩ := ih (s := s') (show recs.length + 1 < fuel by omega)
          hdone.stream (fun r hr => hrecs r (List.mem_cons_of_mem _ hr))
          (by rw [hdone.asCnt]; omega) hdone.buf
        rw [hdone.asCnt] at hrestBad hrestGood
        rw [tuneRecords_ok hopen hheader hstart rfl hrun]
        constructor
        · rintro (hhead | hrest)
          · exact absurd hhead hmarked
          · exact hrestBad hrest
        · intro hnot
          rw [hrestGood fun hrest => hnot (Or.inr hrest), hdone.out, tunedFrom]
          simp [dump]

/-- A dump as `gr_tune_mc` expects it, of regions below the limit of an address. -/
structure TuneInput (recs : List McRecord) (locals : Locals) (fuel : Nat) : Prop where
  records : ∀ rec ∈ recs, rec.WF ∧ rec.gmStart < 2 ^ 48 ∧ rec.gmEnd ≤ 2 ^ 48
  count : recs.length ≤ intMax
  buf : locals.buf.length = 4096
  fuel : recs.length + 1 < fuel

/-- The two ways it can end. -/
theorem TuneInput.outcome {recs : List McRecord} {locals : Locals} {fuel : Nat}
    (h : TuneInput recs locals fuel) :
    ((∃ i rec, recs[i]? = some rec ∧ EndsMarked i rec) →
      grTuneMc locals (dump recs) fuel = some (.error .undefined)) ∧
    ((∀ i rec, recs[i]? = some rec → ¬EndsMarked i rec) →
      grTuneMc locals (dump recs) fuel = some (.ok (dump (tunedFrom 0 recs)))) := by
  obtain ⟨hbad, hgood⟩ := tuneRecords_dump (s := ⟨Stream.open (dump recs), locals, 0, []⟩) h.fuel
    rfl h.records (by rw [Nat.zero_add]; exact h.count) h.buf
  have hiff : MarkedFrom 0 recs ↔ ∃ i rec, recs[i]? = some rec ∧ EndsMarked i rec := by
    simp [markedFrom_iff]
  constructor
  · exact fun hmarked => hbad (hiff.mpr hmarked)
  · intro hnone
    refine hgood fun hmarked => ?_
    obtain ⟨i, rec, hrec, hends⟩ := hiff.mp hmarked
    exact hnone i rec hrec hends

/-- **What `gr_tune_mc` makes of a dump.**  It reads past its buffer exactly where a job page ends
with a `1`.  Otherwise it writes a dump of as many records, with the same headers and the same
addresses, and the same pages except those of jobs, where the `1`s in front of a `0` are cleared. -/
theorem grTuneMc_dump {recs : List McRecord} {locals : Locals} {fuel : Nat}
    (h : TuneInput recs locals fuel) :
    ((∃ i rec, recs[i]? = some rec ∧ EndsMarked i rec) →
      grTuneMc locals (dump recs) fuel = some (.error .undefined)) ∧
    ((∀ i rec, recs[i]? = some rec → ¬EndsMarked i rec) →
      ∃ out, grTuneMc locals (dump recs) fuel = some (.ok (dump out)) ∧
        ∀ i : Nat, out[i]? = recs[i]?.map (tunedRecord i)) := by
  obtain ⟨hbad, hgood⟩ := h.outcome
  refine ⟨hbad, fun hnone => ⟨tunedFrom 0 recs, hgood hnone, fun i => ?_⟩⟩
  rw [getElem?_tunedFrom, Nat.zero_add]

/-- The page of a job that has run. -/
def ranPage : List UInt8 := 1 :: List.replicate 4095 0

theorem length_ranPage : ranPage.length = 4096 := by
  rw [ranPage, List.length_cons, List.length_replicate]

theorem getLast?_ranPage : (wordsOf ranPage).getLast? = some 0 := by
  have hdrop : ranPage.drop (4087 + 1) = List.replicate 8 0 := by
    rw [ranPage, List.drop_succ_cons, List.drop_replicate]
  rw [wordsOf, length_ranPage, List.getLast?_map, List.getLast?_range, if_neg (by decide),
    Option.map_some]
  exact congrArg some (by rw [show 8 * (4096 / 8 - 1) = 4087 + 1 from rfl, hdrop]; rfl)

/-- Seven records without pages, and the job. -/
def jobDump : List McRecord :=
  List.replicate 7 ⟨0, 0, 0, 0, false, []⟩ ++ [⟨4096, 8192, 1, 0x606e, true, [(0, ranPage)]⟩]

theorem jobDump_input : TuneInput jobDump zeroLocals 10 where
  records := by
    intro rec hrec
    rcases List.mem_append.mp hrec with hrec | hrec
    · obtain rfl := List.eq_of_mem_replicate hrec
      exact ⟨⟨rfl, rfl, Nat.le_refl 0, by decide, by decide, by decide, rfl, by simp⟩,
        by decide, by decide⟩
    · obtain rfl := List.mem_singleton.mp hrec
      exact ⟨⟨rfl, rfl, by decide, by decide, by decide, by decide, rfl,
        by simp [length_ranPage]⟩, by decide, by decide⟩
  count := show 8 ≤ intMax by decide
  buf := List.length_replicate
  fuel := show 8 + 1 < 10 by decide

/-- The job is tuned. -/
theorem grTuneMc_jobDump :
    ∃ out, grTuneMc zeroLocals (dump jobDump) 10 = some (.ok (dump out)) ∧
      out[7]? = jobDump[7]?.map (tunedRecord 7) := by
  obtain ⟨out, hrun, hout⟩ := (grTuneMc_dump jobDump_input).2 fun i rec hrec hends => by
    obtain ⟨-, q, hq, hlast⟩ := hends
    rcases List.mem_append.mp (List.mem_of_getElem? hrec) with hrec | hrec
    · obtain rfl := List.eq_of_mem_replicate hrec
      exact absurd hq List.not_mem_nil
    · obtain rfl := List.mem_singleton.mp hrec
      obtain rfl := List.mem_singleton.mp hq
      exact absurd (getLast?_ranPage.symm.trans hlast) (by decide)
  exact ⟨out, hrun, hout 7⟩

/-! ### What the GPU finds -/

theorem tunedRecord_bounds (asCnt : Nat) (rec : McRecord) :
    (tunedRecord asCnt rec).gmStart = rec.gmStart ∧ (tunedRecord asCnt rec).gmEnd = rec.gmEnd ∧
      (tunedRecord asCnt rec).nents = rec.nents := by
  unfold tunedRecord
  split <;> simp

theorem tunedRecord_wf {rec : McRecord} (hwf : rec.WF) (asCnt : Nat) :
    (tunedRecord asCnt rec).WF := by
  unfold tunedRecord
  split
  · refine ⟨hwf.start_aligned, hwf.end_aligned, hwf.le, hwf.bounded, hwf.nents_le, hwf.flags_lt, ?_,
      fun q hq => ?_⟩
    · simpa using hwf.length_pages
    · obtain ⟨q', hq', rfl⟩ := List.mem_map.mp hq
      exact ⟨(hwf.page q' hq').1, length_tunedPage (hwf.page q' hq').2⟩
  · exact hwf

theorem mem_tunedFrom {recs : List McRecord} {rec : McRecord} {asCnt : Nat}
    (h : rec ∈ tunedFrom asCnt recs) :
    ∃ i orig, recs[i]? = some orig ∧ tunedRecord (asCnt + i) orig = rec := by
  obtain ⟨i, hi⟩ := List.getElem?_of_mem h
  rw [getElem?_tunedFrom] at hi
  obtain ⟨orig, horig, heq⟩ := Option.map_eq_some_iff.mp hi
  exact ⟨i, orig, horig, heq⟩

theorem length_tunedFrom {recs : List McRecord} :
    ∀ (asCnt : Nat), (tunedFrom asCnt recs).length = recs.length := by
  induction recs with
  | nil => simp [tunedFrom]
  | cons rec recs ih => simp [tunedFrom, ih]

theorem map_bounds_tunedFrom {recs : List McRecord} :
    ∀ (asCnt : Nat), (tunedFrom asCnt recs).map (fun r => (r.gmStart, r.gmEnd))
      = recs.map fun r => (r.gmStart, r.gmEnd) := by
  induction recs with
  | nil => simp [tunedFrom]
  | cons rec recs ih =>
      intro asCnt
      obtain ⟨hstart, hend, -⟩ := tunedRecord_bounds asCnt rec
      simp [tunedFrom, ih, hstart, hend]

theorem getLast?_wordsOf_read (mem : ByteMem) (f : Nat) :
    (wordsOf (mem.read f 4096)).getLast? = some (mem.read64 (f + 8 * 511)) := by
  have hlength : (tableWords mem f).length = 512 := by simp [tableWords]
  rw [wordsOf_read, List.getLast?_eq_getElem?, hlength]
  exact tableWords_getElem? (by decide)

/-- The byte at `j` of a job page after the loop. -/
theorem getElem?_tunedPage {mem : ByteMem} {f j : Nat} (hj : j < 4096)
    (hlast : (wordsOf (mem.read f 4096)).getLast? ≠ some 1) :
    (tunedPage (mem.read f 4096))[j]? = some (if mem.read64 (f + 8 * (j / 8)) = 1 ∧
      mem.read64 (f + 8 * (j / 8 + 1)) = 0 then 0 else mem (f + j)) := by
  rw [getLast?_wordsOf_read] at hlast
  have hword : j / 8 < 512 := by omega
  have hbyte : j % 8 < 8 := Nat.mod_lt j (by decide)
  -- the last word has none after it
  have hnext : mem.read64 (f + 8 * (j / 8)) = 1 →
      (tableWords mem f)[j / 8 + 1]? = some (mem.read64 (f + 8 * (j / 8 + 1))) := by
    intro hone
    refine tableWords_getElem? (Nat.lt_of_le_of_ne hword fun hend => hlast ?_)
    rw [show 511 = j / 8 by omega, hone]
  rw [tunedPage, wordsOf_read, Bytes.getElem?_words, getElem?_tunedWords,
    tableWords_getElem? hword, Option.map_some, Option.bind_some]
  by_cases hlone : mem.read64 (f + 8 * (j / 8)) = 1 ∧ mem.read64 (f + 8 * (j / 8 + 1)) = 0
  · have hzeros : Bytes.le 8 0 = List.replicate 8 0 := by decide
    rw [if_pos hlone, if_pos ⟨hlone.1, by rw [hnext hlone.1, hlone.2]⟩, hzeros,
      List.getElem?_replicate, if_pos hbyte]
  · have hsame : Bytes.le 8 (mem.read64 (f + 8 * (j / 8))) = mem.read (f + 8 * (j / 8)) 8 := by
      have hval := Bytes.le_val (mem.read (f + 8 * (j / 8)) 8)
      rwa [ByteMem.length_read] at hval
    have hsum : f + 8 * (j / 8) + j % 8 = f + j := by omega
    rw [if_neg hlone, if_neg fun h => hlone ⟨h.1, Option.some.inj ((hnext h.1).symm.trans h.2)⟩,
      hsame, ByteMem.getElem?_read _ hbyte, hsum]

end GpuReplay.Replayer

namespace GpuReplay

open Replayer Driver Stdio

/-- The word around an address of the region. -/
def Driver.DumpCall.wordAt (c : Driver.DumpCall) (gaddr : Nat) : Nat :=
  Bytes.val ((List.range 8).map fun k => c.byteAt (gaddr / 8 * 8 + k))

/-- The byte for an address of the `i`-th region in a tuned dump. -/
def Driver.DumpCall.tunedByteAt (i : Nat) (c : Driver.DumpCall) (gaddr : Nat) : UInt8 :=
  if isJobRecord i c.tas.nents c.tas.flags ∧ c.wordAt gaddr = 1 ∧ c.wordAt (gaddr + 8) = 0 then 0
  else c.byteAt gaddr

namespace Replayer

variable {c : DumpCall} {i gaddr : Nat}

theorem wordAt_eq {paddr : Nat} (hvalid : c.tas.isValid = true)
    (hsome : (c.cpuAlloc c.tas.reg)[(gaddr - c.tas.vmStart) / 4096]? = some paddr)
    (hstart : c.tas.vmStart % 4096 = 0) (hle : c.tas.vmStart ≤ gaddr) :
    c.wordAt gaddr = c.mem.read64 (pageStart paddr + 8 * (gaddr % 4096 / 8)) := by
  unfold DumpCall.wordAt ByteMem.read64 ByteMem.read
  congr 1
  refine List.map_congr_left fun k hk => ?_
  have hk8 : k < 8 := List.mem_range.mp hk
  have hpage : (gaddr / 8 * 8 + k - c.tas.vmStart) / 4096 = (gaddr - c.tas.vmStart) / 4096 := by
    omega
  have hoffset : (gaddr / 8 * 8 + k) % 4096 = 8 * (gaddr % 4096 / 8) + k := by omega
  rw [DumpCall.byteAt, if_pos hvalid, hpage, hsome, hoffset, Nat.add_assoc]

/-- The page of a job, where it has been dumped. -/
theorem job_page (hvalid : c.tas.isValid = true) (hone : c.tas.nents = 1)
    (hpages : c.record.pages.length = if c.tas.isValid then c.tas.nents else 0) :
    ∃ paddr, (c.cpuAlloc c.tas.reg)[0]? = some paddr ∧
      c.record.pages[0]?.map Prod.snd = some (c.mem.read (pageStart paddr) 4096) := by
  have hrecord : c.record.pages = allocPages c.mem ((c.cpuAlloc c.tas.reg).take 1) := by
    unfold DumpCall.record recordOf
    rw [if_pos hvalid, hone]
  rw [hrecord, allocPages, List.length_map, if_pos hvalid, hone] at hpages
  cases halloc : c.cpuAlloc c.tas.reg with
  | nil => simp [halloc] at hpages
  | cons paddr rest =>
      refine ⟨paddr, rfl, ?_⟩
      rw [hrecord, halloc]
      simp [allocPages]

/-- The tuned record has the tuned bytes. -/
theorem byteAt_tunedRecord (hrange : c.InRange)
    (hpages : c.record.pages.length = if c.tas.isValid then c.tas.nents else 0)
    (hends : ¬EndsMarked i c.record) (hdumps : c.Dumps gaddr) :
    ((tunedRecord i c.record).byteAt gaddr).getD 0 = c.tunedByteAt i gaddr := by
  have hbyte := byteAt_record hdumps
  unfold tunedRecord DumpCall.tunedByteAt
  by_cases hjob : isJobRecord i c.record.nents c.record.flags = true
  · have hjob' : isJobRecord i c.tas.nents c.tas.flags = true := hjob
    have hone : c.tas.nents = 1 := isJobRecord_nents hjob
    obtain ⟨hle, hlt⟩ := hdumps
    rw [hone] at hlt
    have hstart := hrange.start_aligned
    have hzero : (gaddr - c.tas.vmStart) / 4096 = 0 := by omega
    have hzero' : (gaddr - c.record.gmStart) / 4096 = 0 := hzero
    rw [if_pos hjob]
    by_cases hvalid : c.tas.isValid = true
    · obtain ⟨paddr, hpaddr, hpage⟩ := job_page hvalid hone hpages
      obtain ⟨q, hq, hread⟩ := Option.map_eq_some_iff.mp hpage
      have hword := wordAt_eq hvalid (by rw [hzero]; exact hpaddr) hstart hle
      have hbyteAt : c.byteAt gaddr = c.mem (pageStart paddr + gaddr % 4096) := by
        rw [DumpCall.byteAt, if_pos hvalid, hzero, hpaddr]
      have hlast : (wordsOf (c.mem.read (pageStart paddr) 4096)).getLast? ≠ some 1 := fun h =>
        hends ⟨hjob, q, List.mem_of_getElem? hq, by rwa [hread]⟩
      have htuned := getElem?_tunedPage (Nat.mod_lt gaddr (by decide)) hlast
      have hleft : ({ c.record with pages := c.record.pages.map fun q => (q.1, tunedPage q.2) } :
          McRecord).byteAt gaddr = (tunedPage (c.mem.read (pageStart paddr) 4096))[gaddr % 4096]? := by
        simp [McRecord.byteAt, hzero', hq, hread]
      rw [hleft, htuned, Option.getD_some, hbyteAt]
      refine if_congr ?_ rfl rfl
      rw [and_iff_right hjob', hword]
      refine and_congr_right fun hword1 => ?_
      -- a `1` is not the last word of the page, so the next one is in the page too
      have hnotlast : gaddr % 4096 / 8 ≠ 511 := fun heq => hlast (by
        rw [getLast?_wordsOf_read, ← heq, hword1])
      have hin : (gaddr + 8 - c.tas.vmStart) / 4096 = 0 := by omega
      rw [wordAt_eq hvalid (by rw [hin]; exact hpaddr) hstart (by omega)]
      have hoffset : (gaddr + 8) % 4096 / 8 = gaddr % 4096 / 8 + 1 := by omega
      rw [hoffset]
    · have hnone : c.record.pages = [] := List.eq_nil_of_length_eq_zero (by rw [hpages, if_neg hvalid])
      have hbyteAt : c.byteAt gaddr = 0 := by rw [DumpCall.byteAt, if_neg hvalid]
      simp [McRecord.byteAt, hnone, hbyteAt]
  · rw [if_neg hjob, if_neg fun h => hjob h.1]
    exact hbyte

theorem inLast_tunedRecord (asCnt : Nat) (rec : McRecord) (gaddr : Nat) :
    (tunedRecord asCnt rec).inLast gaddr = rec.inLast gaddr := by
  obtain ⟨hstart, -, hnents⟩ := tunedRecord_bounds asCnt rec
  rw [McRecord.inLast, McRecord.inLast, hstart, hnents]

section Recording

variable {mem : ByteMem} {cpuAlloc : Nat → List Nat} {s s' : GrContext} {locals : Locals}
  {fuel : Nat} {tuned : List UInt8} {config : GrConfig} {pgtFile sasFile : List UInt8}
  {snapshot : Option (List UInt8)} {junk : InitJunk} {m : Machine} {ctx : ReplayContext}

/-- A replay set up from what the context `s` has dumped, tuned. -/
structure TunedSetUp (s : GrContext) (locals : Locals) (fuel : Nat) (tuned : List UInt8)
    (config : GrConfig) (pgtFile sasFile : List UInt8) (snapshot : Option (List UInt8))
    (junk : InitJunk) (m : Machine) (ctx : ReplayContext) : Prop where
  buf : locals.buf.length = 4096
  turns : s.calls.length + 1 < fuel
  starts : ∀ c ∈ s.calls, c.tas.vmStart < 2 ^ 48
  tune : grTuneMc locals s.memDumpFile.bytes fuel = some (.ok tuned)
  setUp : SetUpFrom { s with memDumpFile := OutFile.reopen tuned } config pgtFile sasFile snapshot
    junk m ctx

theorem TunedSetUp.resetInput
    (h : TunedSetUp s' locals fuel tuned config pgtFile sasFile snapshot junk m ctx)
    (hrec : Recording [] s) (hterm : postTerm mem cpuAlloc s = .ok s') :
    ResetInput config pgtFile sasFile snapshot junk m (tunedFrom 0 (s'.calls.map DumpCall.record))
      ctx ∧ ∀ (i : Nat) (c : DumpCall), s'.calls[i]? = some c → ¬EndsMarked i c.record := by
  obtain ⟨hfile, hpages⟩ := hrec.dumped hterm
  have hset := h.setUp
  have hwf : ∀ rec ∈ s'.calls.map DumpCall.record,
      rec.WF ∧ rec.gmStart < 2 ^ 48 ∧ rec.gmEnd ≤ 2 ^ 48 := fun rec hrec => by
    obtain ⟨c, hc, rfl⟩ := List.mem_map.mp hrec
    exact ⟨recordOf_wf (hset.ranges c hc) (hpages c hc), h.starts c hc, (hset.ranges c hc).low⟩
  have hcount : s'.calls.length < 128 := hset.count.2
  have hinput : TuneInput (s'.calls.map DumpCall.record) locals fuel :=
    ⟨hwf, by rw [List.length_map, intMax]; omega, h.buf, by rw [List.length_map]; exact h.turns⟩
  obtain ⟨hbad, hgood⟩ := hinput.outcome
  have htune := h.tune
  rw [hfile] at htune
  have hnone : ∀ i rec, (s'.calls.map DumpCall.record)[i]? = some rec → ¬EndsMarked i rec :=
    fun i rec hi hends => by
      rw [hbad ⟨i, rec, hi, hends⟩] at htune
      cases htune
  have hout : tuned = dump (tunedFrom 0 (s'.calls.map DumpCall.record)) := by
    rw [hgood hnone] at htune
    simpa using htune.symm
  refine ⟨?_, fun i c hc => hnone i c.record (by rw [List.getElem?_map, hc]; rfl)⟩
  exact {
    pool := hset.pool
    lt := hset.lt
    zeroed := hset.zeroed
    fits := hset.fits
    locals := hset.locals
    count := by
      rw [length_tunedFrom, List.length_map]
      exact hset.count
    wf := fun rec hrec => by
      obtain ⟨i, orig, horig, rfl⟩ := mem_tunedFrom hrec
      exact tunedRecord_wf (hwf orig (List.mem_of_getElem? horig)).1 _
    disjoint := by
      have hdisjoint : ((tunedFrom 0 (s'.calls.map DumpCall.record)).map
          fun r => (r.gmStart, r.gmEnd)).Pairwise fun r t => r.2 ≤ t.1 ∨ t.2 ≤ r.1 := by
        rw [map_bounds_tunedFrom, List.map_map]
        exact List.pairwise_map.mpr hset.disjoint
      exact List.pairwise_map.mp hdisjoint
    run := by
      rw [← hout]
      exact hset.run }

/-- **The GPU finds the recording, with the jobs to be run.**  A replay set up from a tuned dump has
at every address of a region the byte it would have from the dump itself, except in job pages: there
a word `1` with a `0` after it is a `0`. -/
theorem tuned_replay_finds_recording
    (h : TunedSetUp s' locals fuel tuned config pgtFile sasFile snapshot junk m ctx)
    (hrec : Recording [] s) (hterm : postTerm mem cpuAlloc s = .ok s') {last : DumpCall}
    (hlast : s'.calls.getLast? = some last) :
    (∀ (i : Nat) (c : DumpCall), s'.calls[i]? = some c → ∀ gaddr, c.Dumps gaddr →
      ¬last.Dumps gaddr →
      gpuReads ctx.machine.mem ctx.newTranstab gaddr = some (c.tunedByteAt i gaddr)) ∧
    ∀ gaddr, last.Dumps gaddr → gpuReads ctx.machine.mem ctx.newTranstab gaddr =
      some (last.tunedByteAt (s'.calls.length - 1) (last.record.inLast gaddr)) := by
  obtain ⟨hinput, hends⟩ := h.resetInput hrec hterm
  obtain ⟨-, hpages⟩ := hrec.dumped hterm
  have hranges := h.setUp.ranges
  have hat : ∀ (i : Nat) (c : DumpCall), s'.calls[i]? = some c →
      (tunedFrom 0 (s'.calls.map DumpCall.record))[i]? = some (tunedRecord i c.record) :=
    fun i c hc => by
      rw [getElem?_tunedFrom, List.getElem?_map, hc, Nat.zero_add]
      rfl
  have hlow : ∀ rec ∈ tunedFrom 0 (s'.calls.map DumpCall.record), rec.gmEnd ≤ 2 ^ 48 :=
    fun rec hrec => by
      obtain ⟨i, orig, horig, rfl⟩ := mem_tunedFrom hrec
      obtain ⟨c, hc, rfl⟩ := List.mem_map.mp (List.mem_of_getElem? horig)
      rw [(tunedRecord_bounds _ c.record).2.1]
      exact (hranges c hc).low
  have hindex : s'.calls[s'.calls.length - 1]? = some last := by
    rw [← List.getLast?_eq_getElem?]
    exact hlast
  have hlast' : (tunedFrom 0 (s'.calls.map DumpCall.record)).getLast?
      = some (tunedRecord (s'.calls.length - 1) last.record) := by
    rw [List.getLast?_eq_getElem?, length_tunedFrom, List.length_map]
    exact hat _ last hindex
  have hbacked : ∀ (i : Nat) (c : DumpCall) (gaddr : Nat),
      (tunedRecord i c.record).Backed gaddr ↔ c.Dumps gaddr := fun i c gaddr => by
    obtain ⟨hstart, -, hnents⟩ := tunedRecord_bounds i c.record
    rw [McRecord.Backed, hstart, hnents]
    exact Iff.rfl
  constructor
  · intro i c hc gaddr hdumps hother
    have hmem := List.mem_of_getElem? hc
    rw [hinput.gpuReads_record hlow hlast' (List.mem_of_getElem? (hat i c hc))
      ((hbacked i c gaddr).mpr hdumps) fun h => hother ((hbacked _ last gaddr).mp h),
      byteAt_tunedRecord (hranges c hmem) (hpages c hmem) (hends i c hc) hdumps]
  · intro gaddr hdumps
    have hmem := List.mem_of_getLast? hlast
    rw [hinput.gpuReads_last hlow hlast' ((hbacked _ last gaddr).mpr hdumps), inLast_tunedRecord,
      byteAt_tunedRecord (hranges last hmem) (hpages last hmem) (hends _ last hindex)]
    have haligned := (hranges last hmem).start_aligned
    obtain ⟨hle, hlt⟩ := hdumps
    show last.tas.vmStart ≤ last.tas.vmStart + 4096 * (last.tas.nents - 1) + gaddr % 4096 ∧
      last.tas.vmStart + 4096 * (last.tas.nents - 1) + gaddr % 4096 <
        last.tas.vmStart + 4096 * last.tas.nents
    omega

end Recording

/-- The page of the job ends with a zero. -/
theorem nineCalls_not_marked (i : Nat) (rec : McRecord)
    (hrec : (nineCalls.map DumpCall.record)[i]? = some rec) : ¬EndsMarked i rec := by
  rintro ⟨hjob, q, hq, hlast⟩
  have hafter : 6 < i := by
    unfold isJobRecord at hjob
    simp only [Bool.and_eq_true, decide_eq_true_eq] at hjob
    exact hjob.1.1
  have hbefore : i < 9 := (List.getElem?_eq_some_iff.mp hrec).1
  obtain rfl | rfl : i = 7 ∨ i = 8 := by omega
  · obtain rfl := Option.some.inj hrec
    obtain rfl : q = (0x9000, endMem.read (pageStart 0x9000) 4096) := List.mem_singleton.mp hq
    have hword : (tableWords endMem 0x9000)[511]? = some (endMem.read64 (0x9000 + 8 * 511)) :=
      tableWords_getElem? (by decide)
    have hstart : pageStart 0x9000 = 0x9000 := rfl
    dsimp only at hlast
    rw [hstart, wordsOf_read, List.getLast?_eq_getElem?, length_tableWords, hword] at hlast
    exact absurd (Option.some.inj hlast) (by decide)
  · obtain rfl := Option.some.inj hrec
    exact absurd hjob (by decide)

theorem map_nents_tunedFrom {recs : List McRecord} :
    ∀ (asCnt : Nat), (tunedFrom asCnt recs).map (fun r => (r.gmStart, r.gmEnd, r.nents)) =
      recs.map fun r => (r.gmStart, r.gmEnd, r.nents) := by
  induction recs with
  | nil => exact fun _ => rfl
  | cons rec recs ih =>
      intro asCnt
      obtain ⟨hstart, hend, hnents⟩ := tunedRecord_bounds asCnt rec
      rw [tunedFrom, List.map_cons, List.map_cons, ih, hstart, hend, hnents]

/-- The sevens are where they were, and the word of the job is cleared. -/
theorem tuned_replay_finds_sevens :
    ∃ s s' tuned ctx, ninePages.foldlM recorderStep (grContextInit []) = some s ∧
      postTerm endMem (fun _ => [0x9000]) s = .ok s' ∧
      TunedSetUp s' zeroLocals 11 tuned ⟨false, false⟩
        (Bytes.words (pgtWords (pageMem chainWord) ⟨4096 * 1, 0, 0⟩ (4096 * 1) 4)) (Bytes.le 4 0)
        (some []) chainJunk nineMachine ctx ∧
      gpuReads ctx.machine.mem ctx.newTranstab 5000 = some 7 ∧
      gpuReads ctx.machine.mem ctx.newTranstab 32768 = some 0 := by
  obtain ⟨s, s', hrun, hrec, hterm, hcalls⟩ := ninePages_recorded
  obtain ⟨hfile, hpages⟩ := hrec.dumped hterm
  rw [hcalls] at hfile hpages
  have hstarts : ∀ c ∈ nineCalls, c.tas.vmStart < 2 ^ 48 :=
    nineCalls_all fun i _ _ _ _ hi _ => by
      show 4096 * (i + 1) < 2 ^ 48
      omega
  have hwf : ∀ rec ∈ nineCalls.map DumpCall.record,
      rec.WF ∧ rec.gmStart < 2 ^ 48 ∧ rec.gmEnd ≤ 2 ^ 48 := fun rec hr => by
    obtain ⟨c, hc, rfl⟩ := List.mem_map.mp hr
    have hrange := nineCalls_inRange c hc
    exact ⟨recordOf_wf hrange (hpages c hc), hstarts c hc, hrange.low⟩
  have hinput : TuneInput (nineCalls.map DumpCall.record) zeroLocals 11 :=
    ⟨hwf, by decide, List.length_replicate, by decide⟩
  have htune := hinput.outcome.2 nineCalls_not_marked
  obtain ⟨ctx, hset⟩ := nineCalls_setUp
    (s := { s' with
      memDumpFile := OutFile.reopen (dump (tunedFrom 0 (nineCalls.map DumpCall.record))) })
    hcalls rfl (fun rec hr => by
      obtain ⟨i, orig, horig, rfl⟩ := mem_tunedFrom hr
      exact tunedRecord_wf (hwf orig (List.mem_of_getElem? horig)).1 _) (by
      rw [map_nents_tunedFrom, List.map_map]
      rfl)
  have htuned : TunedSetUp s' zeroLocals 11 (dump (tunedFrom 0 (nineCalls.map DumpCall.record)))
      ⟨false, false⟩ (Bytes.words (pgtWords (pageMem chainWord) ⟨4096 * 1, 0, 0⟩ (4096 * 1) 4))
      (Bytes.le 4 0) (some []) chainJunk nineMachine ctx := {
    buf := List.length_replicate
    turns := by
      rw [hcalls]
      decide
    starts := by
      rw [hcalls]
      exact hstarts
    tune := by
      rw [hfile]
      exact htune
    setUp := hset }
  have hend : s'.calls.getLast? =
      some (pageCall 8 (0x206e ||| 0x10) false .inout endMem) := by
    rw [hcalls]
    rfl
  have hmain := (tuned_replay_finds_recording htuned hrec hterm hend).1
  rw [hcalls] at hmain
  refine ⟨s, s', _, ctx, hrun, hterm, htuned, ?_, ?_⟩
  · exact hmain 0 (pageCall 0 (0x206e ||| 0x10) true .inout sevensMem) rfl 5000
      ⟨by decide, by decide⟩ fun h => absurd h.1 (by decide)
  · exact hmain 7 (pageCall 7 0x606e true .computeJob endMem) rfl 32768 ⟨by decide, by decide⟩
      fun h => absurd h.1 (by decide)

end Replayer

end GpuReplay
