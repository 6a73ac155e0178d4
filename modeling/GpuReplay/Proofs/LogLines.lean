/-
The register log, line by line: what `gr_reg_init_list` makes of any text.

`logEntries` is what the log says; it is what is loaded when every line that is not blank is a
line of the log, and there is one.  For the other direction, a run in which every conversion
succeeds is a chain of `LineRead`, each with at most one line of the log.
-/
import GpuReplay.Proofs.LineScan

namespace GpuReplay

open Replayer Text

/-! ### Whole runs -/

/-- The turns of a run in which every conversion succeeds, and the entries it makes. -/
inductive Turns : List Char → List RegIo → Prop
  | last {text : List Char} {entry : RegIo} : LineRead text entry.isRead [] → Turns text [entry]
  | next {text rest : List Char} {entry : RegIo} {ios : List RegIo} :
      LineRead text entry.isRead rest → Turns rest ios → Turns text (entry :: ios)

theorem Turns.length_pos {text : List Char} {ios : List RegIo} (h : Turns text ios) :
    0 < ios.length := by
  cases h with
  | last _ => exact Nat.succ_pos _
  | next _ _ => exact Nat.succ_pos _

theorem LineRead.head {text rest : List Char} {isRead : Char} (h : LineRead text isRead rest)
    (htext : ∀ c cs, text = c :: cs → isSpace c = false) :
    ∀ c cs, text = c :: cs → isTokenChar c = true := by
  obtain ⟨ws, ts, _, _, _, _, _, _, _, _, hnumber, -⟩ := h.parts
  intro c cs hc
  have hspace := htext c cs hc
  rw [hnumber.text] at hc
  cases ws with
  | nil =>
      exact head_token_append (P := fun c => isTokenChar c = true) hnumber.nonempty hnumber.token
        c cs hc
  | cons d ws =>
      rw [← (List.cons.inj hc).1, hnumber.space d List.mem_cons_self] at hspace
      cases hspace

/-- **A run makes an entry for each line of the log at least**, and if it makes no other, there is
nothing else in the log. -/
theorem Turns.count {text : List Char} {ios : List RegIo} (h : Turns text ios)
    (hread : ∀ io ∈ ios, io.isRead = 'R' ∨ io.isRead = 'W') :
    (logEntries text).length ≤ ios.length ∧
      ((logEntries text).length = ios.length → CleanLines text) := by
  induction h with
  | last hline =>
      have hnone : (logEntries []).length = 0 := rfl
      have hclean : CleanLines [] := fun line hline => by
        rw [List.splitOn_nil, List.mem_singleton] at hline
        rw [hline]
        exact .inr fun c hc => absurd hc List.not_mem_nil
      rcases hline.count (hread _ List.mem_cons_self) (fun c cs hc => by cases hc) with ⟨hlen, hcl⟩ | hle
      · rw [hlen, hnone]
        exact ⟨Nat.le_refl _, fun _ => hcl hclean⟩
      · rw [hnone] at hle
        refine ⟨Nat.le_trans hle (Nat.zero_le _), fun hlen => ?_⟩
        rw [hlen, List.length_singleton] at hle
        exact absurd hle (by decide)
  | @next text rest entry ios hline hrest ih =>
      obtain ⟨hle, hcl⟩ := ih fun io hio => hread io (List.mem_cons_of_mem _ hio)
      have hnext : ∀ c cs, rest = c :: cs → isTokenChar c = true := by
        cases hrest with
        | last hfirst => exact hfirst.head hline.stop
        | next hfirst _ => exact hfirst.head hline.stop
      rw [List.length_cons]
      rcases hline.count (hread _ List.mem_cons_self) hnext with ⟨hlen, hcount⟩ | hfewer
      · exact ⟨by omega, fun heq => hcount (hcl (by omega))⟩
      · exact ⟨by omega, fun heq => by omega⟩

/-- What is in the list stays, whatever the turns read. -/
theorem regInitLoop_linked {junk : Nat → RegIo} :
    ∀ (fuel : Nat) (list : RegList) (s : TextStream) {ios : List RegIo} {list' : RegList},
      Linked list ios → LinksSet list.nodes → regInitLoop junk fuel list s = some list' →
      ∃ more, Linked list' (ios ++ more) ∧ LinksSet list'.nodes := by
  intro fuel
  induction fuel with
  | zero => exact fun _ _ _ _ _ _ hrun => by cases hrun
  | succ fuel ih =>
      intro list s ios list' hlinked hset hrun
      rw [regInitLoop] at hrun
      split at hrun
      next =>
        obtain rfl := Option.some.inj hrun
        exact ⟨[], by rw [List.append_nil]; exact hlinked, hset⟩
      next =>
        obtain ⟨more, hlinked', hset'⟩ :=
          ih _ _ (hlinked.append _) (LinksSet.append hlinked hset _) hrun
        rw [List.append_assoc] at hlinked'
        exact ⟨_, hlinked', hset'⟩

/-- **A run whose entries are the same whatever `malloc` returned reads a line in every turn.** -/
theorem turns_of_runs {junk₀ junk₁ : Nat → RegIo} (h₀ : ∀ k, (junk₀ k).value = 0)
    (h₁ : ∀ k, (junk₁ k).value = 1) :
    ∀ (fuel₀ fuel₁ : Nat) (list₀ list₁ : RegList) (text : List Char)
      {ios₀ ios₁ more : List RegIo} {list₀' list₁' : RegList},
      Linked list₀ ios₀ → LinksSet list₀.nodes → Linked list₁ ios₁ → LinksSet list₁.nodes →
      regInitLoop junk₀ fuel₀ list₀ ⟨text, false⟩ = some list₀' →
      regInitLoop junk₁ fuel₁ list₁ ⟨text, false⟩ = some list₁' →
      Linked list₀' (ios₀ ++ more) → Linked list₁' (ios₁ ++ more) → Turns text more := by
  intro fuel₀
  induction fuel₀ with
  | zero => exact fun _ _ _ _ _ _ _ _ _ _ _ _ _ hrun => by cases hrun
  | succ fuel₀ ih =>
      intro fuel₁ list₀ list₁ text ios₀ ios₁ more list₀' list₁' hlinked₀ hset₀ hlinked₁ hset₁
        hrun₀ hrun₁ hlast₀ hlast₁
      cases fuel₁ with
      | zero => cases hrun₁
      | succ fuel₁ =>
      rw [regInitLoop_turn] at hrun₀ hrun₁
      have happend₀ := hlinked₀.append (scanReg (junk₀ list₀.nodes.length) ⟨text, false⟩).1
      have happend₁ := hlinked₁.append (scanReg (junk₁ list₁.nodes.length) ⟨text, false⟩).1
      have hset₀' := LinksSet.append hlinked₀ hset₀ (scanReg (junk₀ list₀.nodes.length) ⟨text, false⟩).1
      have hset₁' := LinksSet.append hlinked₁ hset₁ (scanReg (junk₁ list₁.nodes.length) ⟨text, false⟩).1
      obtain ⟨more₀, hmore₀, -⟩ := regInitLoop_linked _ _ _ happend₀ hset₀' hrun₀
      obtain ⟨more₁, hmore₁, -⟩ := regInitLoop_linked _ _ _ happend₁ hset₁' hrun₁
      have hentries₀ := hmore₀.entries.symm.trans hlast₀.entries
      have hentries₁ := hmore₁.entries.symm.trans hlast₁.entries
      rw [List.append_assoc] at hentries₀ hentries₁
      have hcons₀ := List.append_cancel_left hentries₀
      have hcons₁ := List.append_cancel_left hentries₁
      rcases scanReg_cases text with ⟨s', hfail⟩ | ⟨entry, rest, hline, hscan⟩
      · -- the entry would hold what the memory held
        have hsame := (List.cons.inj (hcons₀.trans hcons₁.symm)).1
        have hvalue₀ := (hfail (junk₀ list₀.nodes.length)).2
        have hvalue₁ := (hfail (junk₁ list₁.nodes.length)).2
        rw [hsame, hvalue₁, h₀, h₁] at hvalue₀
        cases hvalue₀
      · rw [hscan] at hrun₀ hrun₁ hcons₀ hcons₁ happend₀ happend₁ hset₀' hset₁'
        dsimp only at hrun₀ hrun₁ hcons₀ hcons₁ happend₀ happend₁ hset₀' hset₁'
        cases rest with
        | nil =>
            cases fuel₀ with
            | zero => cases hrun₀
            | succ fuel₀ =>
                rw [regInitLoop, if_pos (List.isEmpty_nil)] at hrun₀
                obtain rfl := Option.some.inj hrun₀
                have hnone := List.append_cancel_left
                  (happend₀.entries.symm.trans hlast₀.entries)
                rw [← hnone]
                exact .last hline
        | cons c cs =>
            rw [← hcons₀, List.singleton_append] at hlast₀ hlast₁ ⊢
            rw [List.append_cons] at hlast₀ hlast₁
            exact .next hline (ih fuel₁ _ _ _ happend₀ hset₀' happend₁ hset₁' hrun₀ hrun₁
              hlast₀ hlast₁)

/-! ### A clean log -/

/-- White space before a line makes no difference to the loop. -/
theorem regInitLoop_space {ws : List Char} (hws : ∀ c ∈ ws, isSpace c = true) (junk : Nat → RegIo)
    (fuel : Nat) (list : RegList) (text : List Char) :
    regInitLoop junk fuel list ⟨ws ++ text, false⟩ = regInitLoop junk fuel list ⟨text, false⟩ := by
  cases fuel with
  | zero => rfl
  | succ fuel =>
      have hscan : ∀ io, scanReg io ⟨ws ++ text, false⟩ = scanReg io ⟨text, false⟩ := fun io => by
        unfold scanReg scanUnsigned
        rw [skipSpace_append hws]
      rw [regInitLoop_turn, regInitLoop_turn, hscan]

theorem lineIo_blank {line : List Char} (h : ∀ c ∈ line, isSpace c = true) : lineIo line = none := by
  refine Option.eq_none_iff_forall_ne_some.mpr fun io hio => ?_
  obtain ⟨_, _, _, _, hsplit, -⟩ := lineIo_eq_some hio
  rw [List.splitOn_eq_singleton fun hmem => absurd (h _ hmem) (by decide)] at hsplit
  cases hsplit

/-- A log without any line is blank. -/
theorem space_of_no_entries {text : List Char} (hclean : CleanLines text)
    (hnone : logEntries text = []) : ∀ c ∈ text, isSpace c = true := by
  induction text with
  | nil => exact fun c hc => absurd hc List.not_mem_nil
  | cons c text ih =>
      by_cases hnewline : c = '\n'
      · have happend := logEntries_append [] text
        have hboth := cleanLines_append [] text
        rw [List.nil_append, ← hnewline] at happend hboth
        rw [happend] at hnone
        intro d hd
        rcases List.mem_cons.mp hd with rfl | hd
        · rw [hnewline]
          decide
        · exact ih (hboth.mp hclean).2 (List.append_eq_nil_iff.mp hnone).2 d hd
      · obtain ⟨line, lines, hsplit, -, hfront, -⟩ := exists_splitOn_append '\n' text
        have hcons : (c :: text).splitOn '\n' = (c :: line) :: lines :=
          hfront [c] fun h => hnewline (List.mem_singleton.mp h).symm
        unfold logEntries at hnone ih
        unfold CleanLines at hclean ih
        rw [hcons] at hclean hnone
        rw [hsplit] at ih
        obtain ⟨hfirst, hothers⟩ := List.forall_mem_cons.mp hclean
        have hio : lineIo (c :: line) = none := by
          cases hio : lineIo (c :: line) with
          | none => rfl
          | some io =>
              rw [List.filterMap_cons_some hio] at hnone
              cases hnone
        rw [List.filterMap_cons_none hio] at hnone
        rw [hio] at hfirst
        obtain ⟨hc, hline⟩ := List.forall_mem_cons.mp (hfirst.resolve_left Bool.false_ne_true)
        refine List.forall_mem_cons.mpr ⟨hc, ih (List.forall_mem_cons.mpr ⟨.inr hline, hothers⟩) ?_⟩
        rw [List.filterMap_cons_none (lineIo_blank hline)]
        exact hnone

/-- **A line of the log is scanned as the entry it stands for**, and the white space after it. -/
theorem scanReg_line {line : List Char} {io : RegIo} (h : lineIo line = some io) {tail : List Char}
    (htail : ∀ c cs, tail = c :: cs → isSpace c = true) :
    ∃ ws, (∀ c ∈ ws, isSpace c = true) ∧
      ∀ old, scanReg old ⟨line ++ tail, false⟩
        = (io, skipSpace ⟨ws ++ tail, (ws ++ tail).isEmpty⟩) := by
  obtain ⟨ts, isRead, offset, value, hsplit, hts, -, hoffset, hvalue, rfl⟩ := lineIo_eq_some h
  have hjoin : [','].intercalate (line.splitOn ',') = line := List.intercalate_splitOn ','
  rw [hsplit] at hjoin
  obtain ⟨htsne, htsdigits⟩ := isNumber_iff.mp hts
  obtain ⟨hoffne, hoffdigits⟩ := isNumber_iff.mp hoffset
  obtain ⟨hvalne, hvaldigits⟩ := isNumber_iff.mp hvalue
  have hfront : ∀ c ∈ ts.takeWhile isSpace, isSpace c = true := fun c hc =>
    List.mem_takeWhile_imp hc
  have hback : ∀ c ∈ value.rtakeWhile isSpace, isSpace c = true := fun c hc =>
    List.mem_rtakeWhile_imp hc
  refine ⟨value.rtakeWhile isSpace, hback, fun old => ?_⟩
  have htext : line ++ tail = ts.takeWhile isSpace ++ (ts.dropWhile isSpace ++ ',' :: isRead :: ',' ::
      (offset ++ ',' :: (value.rdropWhile isSpace ++ (value.rtakeWhile isSpace ++ tail)))) := by
    rw [← List.append_assoc (List.rdropWhile isSpace value), List.rdropWhile_append_rtakeWhile,
      ← List.append_assoc (List.takeWhile isSpace ts), List.takeWhile_append_dropWhile, ← hjoin]
    simp [List.intercalate_cons_cons]
  have hcomma : ∀ base rest c cs, ',' :: rest = c :: cs →
      isDigitOf base c = false ∧ c ≠ 'x' ∧ c ≠ 'X' := fun base rest c cs hc => by
    rw [← (List.cons.inj hc).1]
    exact ⟨rfl, by decide, by decide⟩
  have hspace : ∀ c, isSpace c = true → isTokenChar c = false := fun c hc => by
    cases htoken : isTokenChar c with
    | false => rfl
    | true => rw [isSpace_of_token htoken] at hc; cases hc
  have hend : ∀ c cs, value.rtakeWhile isSpace ++ tail = c :: cs → isTokenChar c = false :=
    head_space_append hback hspace fun c cs hc => hspace c (htail c cs hc)
  have hskip : scanUnsigned 10 ⟨line ++ tail, false⟩ = scanUnsigned 10 ⟨ts.dropWhile isSpace ++
      ',' :: isRead :: ',' :: (offset ++ ',' :: (value.rdropWhile isSpace ++
        (value.rtakeWhile isSpace ++ tail))), false⟩ := by
    unfold scanUnsigned
    rw [htext, skipSpace_append hfront]
  unfold scanReg
  rw [hskip, scanUnsigned_digits (by decide) htsne htsdigits (hcomma _ _)]
  dsimp only [List.isEmpty_cons, Bool.or_false]
  rw [literal_cons]
  dsimp only [scanChar]
  rw [literal_cons]
  dsimp only
  rw [scanUnsigned_digits (by decide) hoffne hoffdigits (hcomma _ _)]
  dsimp only [List.isEmpty_cons, Bool.or_false]
  rw [literal_cons]
  dsimp only
  rw [scanUnsigned_digits (by decide) hvalne hvaldigits fun c cs hc =>
    not_digit_of_not_token (by decide) (hend c cs hc)]
  rfl

theorem regInitLoop_end (junk : Nat → RegIo) (fuel : Nat) (list : RegList) (text : List Char) :
    regInitLoop junk (fuel + 1) list ⟨text, true⟩ = some list := if_pos rfl

theorem space_append_newline {ws : List Char} (hws : ∀ c ∈ ws, isSpace c = true) :
    ∀ c ∈ ws ++ ['\n'], isSpace c = true := by
  intro c hc
  rcases List.mem_append.mp hc with hc | hc
  · exact hws c hc
  · rw [List.mem_singleton.mp hc]
    decide

/-- **A clean log takes a turn for each of its lines.** -/
theorem regInitLoop_clean (junk : Nat → RegIo) :
    ∀ (n : Nat) (text : List Char) (list : RegList) (ios : List RegIo), text.length ≤ n →
      CleanLines text → 0 < (logEntries text).length → Linked list ios → LinksSet list.nodes →
      ∃ list', regInitLoop junk ((logEntries text).length + 1) list ⟨text, false⟩ = some list' ∧
        Linked list' (ios ++ logEntries text) ∧ LinksSet list'.nodes := by
  intro n
  induction n with
  | zero =>
      intro text list ios hlen _ hsome
      rw [List.eq_nil_of_length_eq_zero (Nat.le_zero.mp hlen)] at hsome
      exact absurd hsome (by decide)
  | succ n ih =>
      intro text list ios hlen hclean hsome hlinked hset
      by_cases hmem : '\n' ∈ text
      · obtain ⟨line, rest, rfl, hline⟩ := List.eq_append_cons_of_mem hmem
        obtain ⟨hfirst, hrest⟩ := (cleanLines_append line rest).mp hclean
        rw [logEntries_append, logEntries_line hline] at hsome ⊢
        rw [List.length_append, List.length_cons] at hlen
        have hfirst := hfirst line (by rw [List.splitOn_eq_singleton hline]; exact List.mem_cons_self)
        cases hio : lineIo line with
        | none =>
            -- a blank line
            rw [hio] at hfirst hsome
            have hblank := hfirst.resolve_left Bool.false_ne_true
            rw [List.append_cons, regInitLoop_space (space_append_newline hblank)]
            exact ih rest list ios (by omega) hrest hsome hlinked hset
        | some io =>
            obtain ⟨ws, hws, hscan⟩ := @scanReg_line _ _ hio ('\n' :: rest) fun c cs hc => by
              rw [← (List.cons.inj hc).1]
              decide
            have hnext : skipSpace ⟨ws ++ '\n' :: rest, (ws ++ '\n' :: rest).isEmpty⟩
                = ⟨rest.dropWhile isSpace, (rest.dropWhile isSpace).isEmpty⟩ := by
              rw [List.append_cons, skipSpace_append (space_append_newline hws)]
              unfold skipSpace TextStream.seen
              rw [List.append_assoc, List.isEmpty_eq_false_iff.mpr (by simp)]
              rfl
            have happend := hlinked.append io
            have hset' := LinksSet.append hlinked hset io
            show ∃ list', regInitLoop junk (([io] ++ logEntries rest).length + 1) _ _ = _ ∧ _
            rw [List.length_append, List.length_singleton, Nat.add_comm 1, regInitLoop_turn, hscan,
              hnext]
            by_cases hmore : 0 < (logEntries rest).length
            · have hne : rest.dropWhile isSpace ≠ [] := fun hnil => by
                have hall := (@lines_space_append rest (List.dropWhile_eq_nil_iff.mp hnil) []).1
                rw [List.append_nil] at hall
                rw [hall] at hmore
                exact absurd hmore (by decide)
              have hskipped := @regInitLoop_space (rest.takeWhile isSpace)
                (fun c hc => List.mem_takeWhile_imp hc) junk ((logEntries rest).length + 1)
                (list.append io) (rest.dropWhile isSpace)
              rw [List.takeWhile_append_dropWhile] at hskipped
              rw [List.isEmpty_eq_false_iff.mpr hne, ← hskipped]
              obtain ⟨list', hrun, hlinked', hlinks⟩ :=
                ih rest _ _ (by omega) hrest hmore happend hset'
              rw [List.append_assoc] at hlinked'
              exact ⟨list', hrun, hlinked', hlinks⟩
            · have hnone : logEntries rest = [] := List.eq_nil_of_length_eq_zero (by omega)
              rw [List.dropWhile_eq_nil_iff.mpr (space_of_no_entries hrest hnone), hnone]
              exact ⟨_, regInitLoop_end _ _ _ _, happend, hset'⟩
      · -- the last line, with no newline after it
        rw [logEntries_line hmem] at hsome ⊢
        cases hio : lineIo text with
        | none =>
            rw [hio] at hsome
            exact absurd hsome (by decide)
        | some io =>
            obtain ⟨ws, hws, hscan⟩ := @scanReg_line _ _ hio [] fun c cs hc => by cases hc
            have hnext : skipSpace ⟨ws ++ [], (ws ++ []).isEmpty⟩ = ⟨[], true⟩ := by
              rw [skipSpace_append hws]
              unfold skipSpace TextStream.seen
              exact congrArg (TextStream.mk []) (Bool.or_true _)
            rw [List.append_nil] at hscan
            show ∃ list', regInitLoop junk (1 + 1) _ _ = _ ∧ _
            rw [regInitLoop_turn, hscan, hnext]
            exact ⟨_, regInitLoop_end _ _ _ _, hlinked.append io, LinksSet.append hlinked hset io⟩

/-! ### The loader -/

theorem linksSet_nil : LinksSet [] := fun _ =>
  ⟨fun ⟨_, hj⟩ => (by cases hj), fun hi => absurd hi (Nat.not_lt_zero _)⟩

/-- **A log is loaded as what it says, whatever `malloc` returns, exactly when it is clean.** -/
theorem logLoaded_iff (text : List Char) :
    (∀ junk list, ∃ fuel list', grRegInitList junk fuel list text = some list' ∧
      LogLoaded text list') ↔ CleanLog text := by
  constructor
  · intro h
    obtain ⟨fuel₀, list₀, hrun₀, hlog₀⟩ := h (fun _ => ⟨0, 'R', 0, 0⟩) ⟨0, 0, 0, 0, []⟩
    obtain ⟨fuel₁, list₁, hrun₁, hlog₁⟩ := h (fun _ => ⟨0, 'R', 0, 1⟩) ⟨0, 0, 0, 0, []⟩
    have hempty := linked_empty ⟨0, 0, 0, 0, []⟩
    have hturns := turns_of_runs (fun _ => rfl) (fun _ => rfl) fuel₀ fuel₁ _ _ text hempty
      linksSet_nil hempty linksSet_nil hrun₀ hrun₁ hlog₀.linked hlog₁.linked
    have hcount := hturns.count fun io hio => by
      obtain ⟨line, -, hline⟩ := List.mem_filterMap.mp hio
      obtain ⟨_, _, _, _, -, -, hread, -, -, rfl⟩ := lineIo_eq_some hline
      exact hread
    refine ⟨hcount.2 rfl, hturns.length_pos, ?_⟩
    rw [← hlog₀.linked.cnt]
    exact hlog₀.count
  · intro h junk list
    obtain ⟨list', hrun, hlinked, hset⟩ := regInitLoop_clean junk text.length text _ []
      (Nat.le_refl _) h.line h.some (linked_empty list) linksSet_nil
    rw [List.nil_append] at hlinked
    exact ⟨_, list', hrun, hlinked, hset, hlinked.cnt ▸ h.few,
      grRegTermList_linked hlinked (List.ne_nil_of_length_pos h.some)⟩

/-- Where no conversion gets any further, neither does the loop. -/
theorem regInitLoop_stuck {junk : Nat → RegIo} {text : List Char}
    (h : ∀ io, (scanReg io ⟨text, false⟩).2 = ⟨text, false⟩) :
    ∀ (fuel : Nat) (list : RegList), regInitLoop junk fuel list ⟨text, false⟩ = none := by
  intro fuel
  induction fuel with
  | zero => exact fun _ => rfl
  | succ fuel ih =>
      intro list
      rw [regInitLoop_turn, h]
      exact ih _

/-- A stray letter keeps the loop going for ever, and an empty log is loaded as one access, that
nobody recorded. -/
theorem logs_not_loaded :
    (∀ junk fuel list, grRegInitList junk fuel list ['x', '\n'] = none) ∧
      ¬ ∀ junk list, ∃ fuel list', grRegInitList junk fuel list [] = some list' ∧
        LogLoaded [] list' := by
  refine ⟨fun junk fuel list => regInitLoop_stuck (fun _ => rfl) fuel _, fun h => ?_⟩
  obtain ⟨fuel, list', hrun, hlog⟩ := h (fun _ => ⟨7, 'W', 0x2000, 1⟩) ⟨0, 0, 0, 0, []⟩
  cases fuel with
  | zero => cases hrun
  | succ fuel =>
      cases fuel with
      | zero => cases hrun
      | succ fuel =>
          obtain rfl := Option.some.inj hrun
          exact absurd hlog.linked.cnt (by decide)

end GpuReplay
