/-
What one turn of `gr_reg_init_list` takes off a text.

`fscanf` is not bound to lines: white space, newlines included, may stand before every number,
and a conversion that fails leaves the text where it is and the entry as it was.  `LineRead` is
the text that one successful turn of the loop consumes, and the lines of the log in it are
counted: there is at most one.
-/
import Mathlib.Data.List.DropRight
import GpuReplay.Proofs.RegLog

namespace GpuReplay

open Replayer Text

/-! ### What a log says -/

/-- Digits, and at least one. -/
def isNumber (base : Nat) (text : List Char) : Bool :=
  !text.isEmpty && text.all (isDigitOf base)

/-- A line `<ts>,<R|W>,<offset>,<value>` with nothing but white space around it, and the entry
it stands for. -/
def lineIo (line : List Char) : Option RegIo :=
  match line.splitOn ',' with
  | [ts, [isRead], offset, value] =>
      let ts := ts.dropWhile isSpace
      let value := value.rdropWhile isSpace
      if isNumber 10 ts ∧ (isRead = 'R' ∨ isRead = 'W') ∧ isNumber 16 offset ∧ isNumber 16 value then
        some ⟨strtoul false (digitsVal 10 0 ts), isRead,
          strtoul false (digitsVal 16 0 offset) % 2 ^ 32,
          strtoul false (digitsVal 16 0 value) % 2 ^ 32⟩
      else none
  | _ => none

/-- The entries of a log, one for each of its lines that has the form. -/
def logEntries (text : List Char) : List RegIo := (text.splitOn '\n').filterMap lineIo

/-- The list is the log: an entry for each line of the form and no other, counted, linked up to
the last, and freed one by one. -/
structure LogLoaded (text : List Char) (list : RegList) : Prop where
  linked : Linked list (logEntries text)
  links : ∀ i, (∃ j, list.nodes[i]?.bind Prod.snd = some j) ↔ i + 1 < list.nodes.length
  count : list.cnt < 2 ^ 31
  freed : grRegTermList list = .ok (List.range list.nodes.length)

/-- Every line has the form or is blank. -/
def CleanLines (text : List Char) : Prop :=
  ∀ line ∈ text.splitOn '\n', (lineIo line).isSome ∨ ∀ c ∈ line, isSpace c = true

/-- Every line of the log has the form or is blank, some line has the form, and they can be
counted in an `int`. -/
structure CleanLog (text : List Char) : Prop where
  line : CleanLines text
  some : 0 < (logEntries text).length
  few : (logEntries text).length < 2 ^ 31

/-! ### The list and its end -/

/-- All nodes but the last have a link. -/
def LinksSet (nodes : List (RegIo × Option Nat)) : Prop :=
  ∀ i, (∃ j, nodes[i]?.bind Prod.snd = some j) ↔ i + 1 < nodes.length

theorem LinksSet.append {list : RegList} {ios : List RegIo} (h : Linked list ios)
    (hset : LinksSet list.nodes) (io : RegIo) : LinksSet (list.append io).nodes := by
  have hlength : list.nodes.length = ios.length := by
    rw [← h.entries, List.length_map]
  intro i
  unfold RegList.append
  by_cases hcnt : list.cnt = 0
  · have hnodes : list.nodes = [] :=
      List.eq_nil_of_length_eq_zero (hlength.trans (h.cnt.symm.trans hcnt))
    rw [if_pos hcnt, hnodes]
    refine ⟨fun ⟨j, hj⟩ => ?_, fun hi => absurd hi (by simp)⟩
    cases i with
    | zero => exact absurd hj (by simp)
    | succ i => exact absurd hj (by simp)
  · have hne : ios ≠ [] := fun hnil => hcnt (by rw [h.cnt, hnil]; rfl)
    obtain ⟨-, -, htail⟩ := h.ends hne
    rw [if_neg hcnt]
    dsimp only
    rw [List.length_append, List.length_modify, List.length_singleton]
    rcases Nat.lt_trichotomy i list.nodes.length with hi | hi | hi
    · refine ⟨fun _ => by omega, fun _ => ?_⟩
      rw [List.getElem?_append_left (by rw [List.length_modify]; exact hi)]
      by_cases hlast : list.tail = i
      · rw [hlast, List.getElem?_modify_eq, List.getElem?_eq_getElem hi]
        exact ⟨_, rfl⟩
      · rw [List.getElem?_modify_ne _ _ hlast]
        exact (hset i).mpr (by omega)
    · -- the new one
      refine ⟨fun ⟨j, hj⟩ => ?_, fun hlt => by omega⟩
      rw [List.getElem?_append_right (by rw [List.length_modify]; omega), List.length_modify, hi,
        Nat.sub_self] at hj
      cases hj
    · refine ⟨fun ⟨j, hj⟩ => ?_, fun hlt => by omega⟩
      rw [List.getElem?_eq_none (by
        rw [List.length_append, List.length_modify, List.length_singleton]
        omega)] at hj
      cases hj

theorem regTermLoop_linked {nodes : List (RegIo × Option Nat)}
    (hlinks : ∀ i, i + 1 < nodes.length → nodes[i]?.bind Prod.snd = some (i + 1)) :
    ∀ n k, k + n = nodes.length → 0 < n →
      regTermLoop nodes n (some k) (List.range k) = .ok (List.range nodes.length) := by
  intro n
  induction n with
  | zero => exact fun _ _ hn => absurd hn (Nat.lt_irrefl 0)
  | succ n ih =>
      intro k hk _
      have hlt : k < nodes.length := by omega
      rw [regTermLoop, if_neg (by rw [List.mem_range]; omega), List.getElem?_eq_getElem hlt]
      dsimp only
      rw [← List.range_succ]
      by_cases hn : n = 0
      · have hlast : k.succ = nodes.length := by omega
        rw [hn, regTermLoop, hlast]
      · have hlink := hlinks k (by omega)
        rw [List.getElem?_eq_getElem hlt, Option.bind_some] at hlink
        rw [hlink]
        exact ih (k + 1) (by omega) (by omega)

/-- **A linked list is freed node by node.** -/
theorem grRegTermList_linked {list : RegList} {ios : List RegIo} (h : Linked list ios)
    (hne : ios ≠ []) : grRegTermList list = .ok (List.range list.nodes.length) := by
  have hlength : list.nodes.length = ios.length := by
    rw [← h.entries, List.length_map]
  have hpos := List.length_pos_of_ne_nil hne
  unfold grRegTermList
  rw [if_neg fun hnil => by rw [hnil] at hlength; exact absurd hlength (by simp; omega), h.cnt,
    (h.ends hne).2.1]
  exact regTermLoop_linked (by rw [hlength]; exact h.links) ios.length 0 (by omega) hpos

/-! ### Lines -/

theorem lineIo_cons_of_space {c : Char} (hspace : isSpace c = true) (line : List Char) :
    lineIo (c :: line) = lineIo line := by
  have hcomma : ¬(c == ',') = true := fun h => by
    rw [beq_iff_eq.mp h] at hspace
    exact absurd hspace (by decide)
  unfold lineIo
  rw [List.splitOn_cons_eq_if_modifyHead, if_neg hcomma]
  cases hsplit : line.splitOn ',' with
  | nil => rfl
  | cons ts pieces =>
      have hdrop : (c :: ts).dropWhile isSpace = ts.dropWhile isSpace :=
        List.dropWhile_cons_of_pos hspace
      show (match (c :: ts) :: pieces with
        | [ts, [isRead], offset, value] => _
        | _ => none) = _
      split
      next heq =>
        obtain ⟨rfl, rfl⟩ := List.cons.inj heq
        dsimp only
        rw [hdrop]
      next hne =>
        split
        next heq =>
          obtain ⟨rfl, rfl⟩ := List.cons.inj heq
          exact absurd rfl (hne _ _ _ _)
        next => rfl

theorem cleanLines_append (front back : List Char) :
    CleanLines (front ++ '\n' :: back) ↔ CleanLines front ∧ CleanLines back := by
  unfold CleanLines
  rw [List.splitOn_append_cons_self]
  exact List.forall_mem_append

theorem logEntries_append (front back : List Char) :
    logEntries (front ++ '\n' :: back) = logEntries front ++ logEntries back := by
  unfold logEntries
  rw [List.splitOn_append_cons_self, List.filterMap_append]

theorem logEntries_line {line : List Char} (h : '\n' ∉ line) :
    logEntries line = (lineIo line).toList := by
  unfold logEntries
  rw [List.splitOn_eq_singleton h]
  cases hio : lineIo line with
  | none => exact List.filterMap_cons_none hio
  | some io => exact List.filterMap_cons_some hio

/-- The first piece of what follows, and the others. -/
theorem exists_splitOn_append (sep : Char) (text : List Char) :
    ∃ piece pieces, text.splitOn sep = piece :: pieces ∧ piece <+: text ∧
      (∀ front, sep ∉ front → (front ++ text).splitOn sep = (front ++ piece) :: pieces) ∧
      ∀ c cs, text = c :: cs → c ≠ sep → ∃ more, piece = c :: more := by
  by_cases hmem : sep ∈ text
  · obtain ⟨piece, rest, rfl, hpiece⟩ := List.eq_append_cons_of_mem hmem
    refine ⟨piece, rest.splitOn sep, List.splitOn_append_cons_self_of_not_mem hpiece rest,
      List.prefix_append _ _, fun front hfront => ?_, fun c cs hc hne => ?_⟩
    · rw [← List.append_assoc]
      exact List.splitOn_append_cons_self_of_not_mem
        (fun h => (List.mem_append.mp h).elim hfront hpiece) rest
    · cases piece with
      | nil => exact absurd (List.cons.inj hc).1.symm hne
      | cons d more => exact ⟨more, by rw [(List.cons.inj hc).1]⟩
  · exact ⟨text, [], List.splitOn_eq_singleton hmem, List.prefix_refl _,
      fun front hfront => List.splitOn_eq_singleton
        fun h => (List.mem_append.mp h).elim hfront hmem, fun c cs hc _ => ⟨cs, hc⟩⟩

/-- White space at the beginning is in no line. -/
theorem lines_space_append {ws : List Char} (hws : ∀ c ∈ ws, isSpace c = true) (text : List Char) :
    logEntries (ws ++ text) = logEntries text ∧ (CleanLines (ws ++ text) ↔ CleanLines text) := by
  induction ws with
  | nil => exact ⟨rfl, Iff.rfl⟩
  | cons c ws ih =>
      obtain ⟨hc, hws⟩ := List.forall_mem_cons.mp hws
      obtain ⟨hentries, hclean⟩ := ih hws
      rw [List.cons_append]
      by_cases hnewline : c = '\n'
      · rw [hnewline]
        have happend := logEntries_append [] (ws ++ text)
        have hboth := cleanLines_append [] (ws ++ text)
        rw [List.nil_append] at happend hboth
        rw [happend, hentries, hboth, hclean]
        refine ⟨rfl, fun h => h.2, fun h => ⟨fun line hline => ?_, h⟩⟩
        rw [List.splitOn_nil, List.mem_singleton] at hline
        rw [hline]
        exact .inr fun c hc => absurd hc List.not_mem_nil
      · obtain ⟨line, lines, hsplit, -, hfront, -⟩ := exists_splitOn_append '\n' (ws ++ text)
        have hcons : (c :: (ws ++ text)).splitOn '\n' = (c :: line) :: lines :=
          hfront [c] fun h => hnewline (List.mem_singleton.mp h).symm
        rw [← hentries, ← hclean]
        unfold logEntries CleanLines
        rw [hcons, hsplit, List.filterMap_cons, List.filterMap_cons, lineIo_cons_of_space hc]
        refine ⟨rfl, ?_⟩
        rw [List.forall_mem_cons, List.forall_mem_cons, lineIo_cons_of_space hc,
          List.forall_mem_cons]
        exact ⟨fun h => ⟨h.1.imp_right And.right, h.2⟩,
          fun h => ⟨h.1.imp_right fun hline => ⟨hc, hline⟩, h.2⟩⟩

/-! ### What is no line -/

theorem lineIo_eq_some {line : List Char} {io : RegIo} (h : lineIo line = some io) :
    ∃ ts isRead offset value, line.splitOn ',' = [ts, [isRead], offset, value] ∧
      isNumber 10 (ts.dropWhile isSpace) = true ∧ (isRead = 'R' ∨ isRead = 'W') ∧
      isNumber 16 offset = true ∧ isNumber 16 (value.rdropWhile isSpace) = true ∧
      io = ⟨strtoul false (digitsVal 10 0 (ts.dropWhile isSpace)), isRead,
        strtoul false (digitsVal 16 0 offset) % 2 ^ 32,
        strtoul false (digitsVal 16 0 (value.rdropWhile isSpace)) % 2 ^ 32⟩ := by
  unfold lineIo at h
  split at h
  next ts isRead offset value hsplit =>
    dsimp only at h
    split at h
    next hok =>
      exact ⟨ts, isRead, offset, value, hsplit, hok.1, hok.2.1, hok.2.2.1, hok.2.2.2,
        (Option.some.inj h).symm⟩
    next => cases h
  next => cases h

theorem isNumber_iff {base : Nat} {text : List Char} :
    isNumber base text = true ↔ text ≠ [] ∧ ∀ c ∈ text, isDigitOf base c = true := by
  unfold isNumber
  rw [Bool.and_eq_true, Bool.not_eq_true', List.isEmpty_eq_false_iff, List.all_eq_true]

/-- The pieces of a line that starts like one of the log. -/
theorem splitOn_line {ts offset : List Char} {isRead : Char} (hts : ',' ∉ ts) (hread : isRead ≠ ',')
    (hoffset : ',' ∉ offset) (value : List Char) :
    (ts ++ ',' :: isRead :: ',' :: (offset ++ ',' :: value)).splitOn ','
      = ts :: [isRead] :: offset :: value.splitOn ',' := by
  rw [List.splitOn_append_cons_self_of_not_mem hts]
  refine congrArg (ts :: ·) ?_
  have hsingle : ',' ∉ [isRead] := fun h => hread (List.mem_singleton.mp h).symm
  have hnext := List.splitOn_append_cons_self_of_not_mem hsingle (offset ++ ',' :: value)
  rw [List.singleton_append] at hnext
  rw [hnext, List.splitOn_append_cons_self_of_not_mem hoffset]

/-- After the first comma comes the direction. -/
theorem lineIo_no_direction {front line : List Char} (hfront : ',' ∉ front)
    (hline : ∀ c cs, line = c :: cs → c ≠ 'R' ∧ c ≠ 'W') : lineIo (front ++ ',' :: line) = none := by
  refine Option.eq_none_iff_forall_ne_some.mpr fun io hio => ?_
  obtain ⟨ts, isRead, offset, value, hsplit, -, hread, -⟩ := lineIo_eq_some hio
  rw [List.splitOn_append_cons_self_of_not_mem hfront] at hsplit
  have hpieces := (List.cons.inj hsplit).2
  have hjoin : [','].intercalate (line.splitOn ',') = line := List.intercalate_splitOn ','
  rw [hpieces, List.intercalate_cons_cons] at hjoin
  obtain ⟨hr, hw⟩ := hline isRead _ hjoin.symm
  exact hread.elim hr hw

/-- Before the first comma there are digits. -/
theorem lineIo_no_time {token line : List Char} (hne : token ≠ [])
    (htoken : ∀ c ∈ token, isTokenChar c = true)
    (hline : ∀ c cs, line = c :: cs → isDigitOf 16 c = false ∧ c ≠ ',') :
    lineIo (token ++ line) = none := by
  refine Option.eq_none_iff_forall_ne_some.mpr fun io hio => ?_
  have hcomma : ',' ∉ token := fun h => absurd (htoken _ h) (by decide)
  obtain ⟨ts, isRead, offset, value, hsplit, hts, -⟩ := lineIo_eq_some hio
  obtain ⟨piece, pieces, hpieces, -, hfront, hhead⟩ := exists_splitOn_append ',' line
  rw [hfront token hcomma] at hsplit
  obtain ⟨rfl, hrest⟩ := List.cons.inj hsplit
  cases line with
  | nil =>
      rw [List.splitOn_nil] at hpieces
      rw [← (List.cons.inj hpieces).2] at hrest
      cases hrest
  | cons c cs =>
      obtain ⟨hdigit, hne'⟩ := hline c cs rfl
      obtain ⟨more, rfl⟩ := hhead c cs rfl hne'
      obtain ⟨d, token, rfl⟩ := List.exists_cons_of_ne_nil hne
      have hspace := isSpace_of_token (htoken d List.mem_cons_self)
      rw [List.cons_append, List.dropWhile_cons_of_neg (by rw [hspace]; decide)] at hts
      have hc := (isNumber_iff.mp hts).2 c (List.mem_cons_of_mem d
        (List.mem_append_right token List.mem_cons_self))
      rw [isDigitOf_mono (by decide) hc] at hdigit
      cases hdigit

theorem rdropWhile_of_space {ws : List Char} (hws : ∀ c ∈ ws, isSpace c = true) :
    ws.rdropWhile isSpace = [] := List.rdropWhile_eq_nil_iff.mpr hws

/-- What stands before something that is no white space is not trimmed. -/
theorem mem_rdropWhile {front back : List Char} {d : Char} (hd : isSpace d = false) {c : Char}
    (hc : c ∈ front ++ [d]) : c ∈ (front ++ d :: back).rdropWhile isSpace := by
  have hsplit := List.rdropWhile_append_rtakeWhile (p := isSpace) (l := front ++ d :: back)
  generalize (front ++ d :: back).rdropWhile isSpace = kept at hsplit ⊢
  have hspaces : ∀ x ∈ (front ++ d :: back).rtakeWhile isSpace, isSpace x = true :=
    fun x hx => List.mem_rtakeWhile_imp hx
  generalize (front ++ d :: back).rtakeWhile isSpace = ws at hsplit hspaces
  rcases List.append_eq_append_iff.mp hsplit with ⟨more, hfront, hws⟩ | ⟨more, hkept, hback⟩
  · exact absurd (hspaces d (by rw [hws]; simp)) (by rw [hd]; decide)
  · cases more with
    | nil =>
        rw [List.nil_append] at hback
        exact absurd (hspaces d (by rw [← hback]; exact List.mem_cons_self)) (by rw [hd]; decide)
    | cons e more =>
        obtain ⟨rfl, -⟩ := List.cons.inj hback
        rw [hkept]
        rcases List.mem_append.mp hc with h | h
        · exact List.mem_append_left _ h
        · rw [List.mem_singleton.mp h]
          exact List.mem_append_right _ List.mem_cons_self

theorem lineIo_no_offset {ts line : List Char} {isRead : Char} (hts : ',' ∉ ts)
    (hread : isRead ≠ ',') (hline : ',' ∉ line) :
    lineIo (ts ++ ',' :: isRead :: ',' :: line) = none := by
  refine Option.eq_none_iff_forall_ne_some.mpr fun io hio => ?_
  obtain ⟨ts', isRead', offset, value, hsplit, -⟩ := lineIo_eq_some hio
  have hsingle : ',' ∉ [isRead] := fun h => hread (List.mem_singleton.mp h).symm
  have hnext := List.splitOn_append_cons_self_of_not_mem hsingle line
  rw [List.singleton_append, List.splitOn_eq_singleton hline] at hnext
  rw [List.splitOn_append_cons_self_of_not_mem hts, hnext] at hsplit
  cases hsplit

theorem lineIo_blank_value {ts offset ws : List Char} {isRead : Char} (hts : ',' ∉ ts)
    (hread : isRead ≠ ',') (hoffset : ',' ∉ offset) (hws : ∀ c ∈ ws, isSpace c = true) :
    lineIo (ts ++ ',' :: isRead :: ',' :: (offset ++ ',' :: ws)) = none := by
  refine Option.eq_none_iff_forall_ne_some.mpr fun io hio => ?_
  obtain ⟨ts', isRead', offset', value, hsplit, -, -, -, hvalue, -⟩ := lineIo_eq_some hio
  have hcomma : ',' ∉ ws := fun h => absurd (hws _ h) (by decide)
  rw [splitOn_line hts hread hoffset, List.splitOn_eq_singleton hcomma] at hsplit
  obtain ⟨rfl, -⟩ := List.cons.inj (List.cons.inj (List.cons.inj (List.cons.inj hsplit).2).2).2
  rw [rdropWhile_of_space hws] at hvalue
  exact (isNumber_iff.mp hvalue).1 rfl

/-- After the last comma there are digits, and white space. -/
theorem lineIo_no_value {ts offset front back : List Char} {isRead c d : Char} (hts : ',' ∉ ts)
    (hread : isRead ≠ ',') (hoffset : ',' ∉ offset) (hd : isSpace d = false)
    (hc : c ∈ front ++ [d]) (hdigit : isDigitOf 16 c = false) :
    lineIo (ts ++ ',' :: isRead :: ',' :: (offset ++ ',' :: (front ++ d :: back))) = none := by
  refine Option.eq_none_iff_forall_ne_some.mpr fun io hio => ?_
  obtain ⟨ts', isRead', offset', value, hsplit, -, -, -, hvalue, -⟩ := lineIo_eq_some hio
  rw [splitOn_line hts hread hoffset] at hsplit
  have hlast := (List.cons.inj (List.cons.inj (List.cons.inj hsplit).2).2).2
  have hjoin : [','].intercalate ((front ++ d :: back).splitOn ',') = front ++ d :: back :=
    List.intercalate_splitOn ','
  rw [hlast, List.intercalate_singleton] at hjoin
  rw [hjoin] at hvalue
  rw [(isNumber_iff.mp hvalue).2 c (mem_rdropWhile hd hc)] at hdigit
  cases hdigit

/-! ### A turn that reads a line -/

/-- What a turn of the loop reads when every conversion succeeds. -/
structure LineRead (text : List Char) (isRead : Char) (rest : List Char) : Prop where
  parts : ∃ ws₁ ts ws₂ offset ws₃ value after₁ after₂ after₃ ws₄,
    NumberRead 10 text (',' :: isRead :: ',' :: after₁) ws₁ ts ∧
    NumberRead 16 after₁ (',' :: after₂) ws₂ offset ∧
    NumberRead 16 after₂ after₃ ws₃ value ∧
    after₃ = ws₄ ++ rest ∧ ∀ c ∈ ws₄, isSpace c = true
  stop : ∀ c cs, rest = c :: cs → isSpace c = false

theorem literal_ok {c : Char} {s s' : TextStream} (h : literal c s = .ok s') :
    s = ⟨c :: s'.rest, s'.eof⟩ := by
  obtain ⟨rest, eof⟩ := s
  unfold literal at h
  cases rest with
  | nil => cases h
  | cons d rest =>
      dsimp only at h
      split at h
      next hd =>
        cases h
        rw [hd]
      next => cases h

theorem scanChar_ok {s : TextStream} {r : Char × TextStream} (h : scanChar s = .ok r) :
    s = ⟨r.1 :: r.2.rest, r.2.eof⟩ := by
  obtain ⟨rest, eof⟩ := s
  unfold scanChar at h
  cases rest with
  | nil => cases h
  | cons d rest =>
      cases h
      rfl

/-- **A turn either reads a line, or leaves the value of its entry as it was.** -/
theorem scanReg_cases (text : List Char) :
    (∃ s', ∀ io, (scanReg io ⟨text, false⟩).2 = s' ∧ (scanReg io ⟨text, false⟩).1.value = io.value) ∨
      ∃ entry rest, LineRead text entry.isRead rest ∧
        ∀ io, scanReg io ⟨text, false⟩ = (entry, ⟨rest, rest.isEmpty⟩) := by
  unfold scanReg
  cases h₁ : scanUnsigned 10 ⟨text, false⟩ with
  | error s => exact .inl ⟨s, fun io => ⟨rfl, rfl⟩⟩
  | ok r₁ =>
  obtain ⟨ts, s₁⟩ := r₁
  dsimp only
  cases h₂ : literal ',' s₁ with
  | error s => exact .inl ⟨s, fun io => ⟨rfl, rfl⟩⟩
  | ok s₂ =>
  dsimp only
  cases h₃ : scanChar s₂ with
  | error s => exact .inl ⟨s, fun io => ⟨rfl, rfl⟩⟩
  | ok r₃ =>
  obtain ⟨isRead, s₃⟩ := r₃
  dsimp only
  cases h₄ : literal ',' s₃ with
  | error s => exact .inl ⟨s, fun io => ⟨rfl, rfl⟩⟩
  | ok s₄ =>
  dsimp only
  cases h₅ : scanUnsigned 16 s₄ with
  | error s => exact .inl ⟨s, fun io => ⟨rfl, rfl⟩⟩
  | ok r₅ =>
  obtain ⟨offset, s₅⟩ := r₅
  dsimp only
  cases h₆ : literal ',' s₅ with
  | error s => exact .inl ⟨s, fun io => ⟨rfl, rfl⟩⟩
  | ok s₆ =>
  dsimp only
  cases h₇ : scanUnsigned 16 s₆ with
  | error s => exact .inl ⟨s, fun io => ⟨rfl, rfl⟩⟩
  | ok r₇ =>
  obtain ⟨value, s₇⟩ := r₇
  dsimp only
  -- all seven succeeded
  obtain ⟨⟨ws₁, tok₁, hread₁⟩, heof₁⟩ := scanUnsigned_ok (by decide) h₁
  obtain ⟨⟨ws₂, tok₂, hread₂⟩, heof₂⟩ := scanUnsigned_ok (by decide) h₅
  obtain ⟨⟨ws₃, tok₃, hread₃⟩, heof₃⟩ := scanUnsigned_ok (by decide) h₇
  rw [literal_ok h₂, scanChar_ok h₃, literal_ok h₄] at hread₁ heof₁
  rw [literal_ok h₆] at hread₂ heof₂
  dsimp only at hread₁ hread₂ heof₁ heof₂
  refine .inr ⟨⟨ts, isRead, offset % 2 ^ 32, value % 2 ^ 32⟩, s₇.rest.dropWhile isSpace,
    ⟨⟨ws₁, tok₁, ws₂, tok₂, ws₃, tok₃, s₄.rest, s₆.rest, s₇.rest, s₇.rest.takeWhile isSpace,
      hread₁, hread₂, hread₃, List.takeWhile_append_dropWhile.symm,
      fun c hc => List.mem_takeWhile_imp hc⟩, fun c cs hcs => ?_⟩, fun io => ?_⟩
  · have hhead := List.head?_dropWhile_not isSpace s₇.rest
    rw [hcs] at hhead
    exact hhead
  · refine congrArg (Prod.mk _) ?_
    show TextStream.seen s₇ _ = _
    unfold TextStream.seen
    refine congrArg (TextStream.mk _) ?_
    by_cases hnil : s₇.rest.dropWhile isSpace = []
    · rw [hnil]
      exact Bool.or_true _
    · have hne : s₇.rest ≠ [] := fun h => hnil (by rw [h]; rfl)
      rw [heof₃ hne, heof₂ (List.cons_ne_nil _ _), heof₁ (List.cons_ne_nil _ _), Bool.false_or]

/-! ### Counting lines -/

/-- A line that begins before some text, and is no line of the log whatever of the text belongs
to it, takes a line from the text at most. -/
theorem length_logEntries_le {front text : List Char} (hfront : '\n' ∉ front)
    (hline : ∀ line, line <+: text →
      (∀ c cs, text = c :: cs → c ≠ '\n' → ∃ more, line = c :: more) →
      lineIo (front ++ line) = none) :
    (logEntries (front ++ text)).length ≤ (logEntries text).length := by
  obtain ⟨line, lines, hsplit, hbegin, happend, hhead⟩ := exists_splitOn_append '\n' text
  unfold logEntries
  rw [happend front hfront, hsplit, List.filterMap_cons_none (hline line hbegin hhead)]
  exact (List.Sublist.filterMap lineIo (List.sublist_cons_self line lines)).length_le

theorem newline_notMem_token {token : List Char} (h : ∀ c ∈ token, isTokenChar c = true) :
    '\n' ∉ token := fun hmem => absurd (h _ hmem) (by decide)

theorem comma_notMem_token {token : List Char} (h : ∀ c ∈ token, isTokenChar c = true) :
    ',' ∉ token := fun hmem => absurd (h _ hmem) (by decide)

theorem comma_notMem_space {ws : List Char} (h : ∀ c ∈ ws, isSpace c = true) : ',' ∉ ws :=
  fun hmem => absurd (h _ hmem) (by decide)

/-- The first character of white space that something follows. -/
theorem head_space_append {P : Char → Prop} {ws text : List Char}
    (hws : ∀ c ∈ ws, isSpace c = true) (hspace : ∀ c, isSpace c = true → P c)
    (htext : ∀ c cs, text = c :: cs → P c) : ∀ c cs, ws ++ text = c :: cs → P c := by
  intro c cs hc
  cases ws with
  | nil => exact htext c cs hc
  | cons d ws =>
      obtain ⟨rfl, -⟩ := List.cons.inj hc
      exact hspace d (hws d List.mem_cons_self)

/-- The first character of what a number begins with. -/
theorem head_token_append {P : Char → Prop} {token text : List Char} (hne : token ≠ [])
    (htoken : ∀ c ∈ token, P c) : ∀ c cs, token ++ text = c :: cs → P c := by
  intro c cs hc
  obtain ⟨d, token, rfl⟩ := List.exists_cons_of_ne_nil hne
  obtain ⟨rfl, -⟩ := List.cons.inj hc
  exact htoken d List.mem_cons_self

theorem head_of_front {P : Char → Prop} {line text : List Char}
    (h : ∀ c cs, text = c :: cs → P c) (hfront : line <+: text) :
    ∀ c cs, line = c :: cs → P c := by
  intro c cs hc
  obtain ⟨rest, rfl⟩ := hfront
  rw [hc] at h
  exact h c _ rfl

/-- What stands on one line, white space and what comes then. -/
theorem count_line {line ws rest : List Char} (hline : '\n' ∉ line)
    (hws : ∀ c ∈ ws, isSpace c = true)
    (hnext : ∀ c cs, rest = c :: cs → c ≠ '\n' ∧ ∀ more, lineIo (line ++ ws ++ c :: more) = none) :
    ((logEntries (line ++ (ws ++ rest))).length = (logEntries rest).length + 1 ∧
        (CleanLines rest → CleanLines (line ++ (ws ++ rest)))) ∨
      (logEntries (line ++ (ws ++ rest))).length ≤ (logEntries rest).length := by
  have hone : ∀ {l : List Char}, '\n' ∉ l → ∀ io, lineIo l = some io →
      (logEntries l).length = 1 ∧ CleanLines l := fun hl io hio => by
    refine ⟨by rw [logEntries_line hl, hio]; rfl, fun l' hl' => ?_⟩
    rw [List.splitOn_eq_singleton hl, List.mem_singleton] at hl'
    rw [hl', hio]
    exact .inl rfl
  by_cases hmem : '\n' ∈ ws
  · obtain ⟨front, back, rfl, hfront⟩ := List.eq_append_cons_of_mem hmem
    have hback : ∀ c ∈ back, isSpace c = true := fun c hc =>
      hws c (List.mem_append_right _ (List.mem_cons_of_mem _ hc))
    obtain ⟨hentries, hclean⟩ := lines_space_append hback rest
    have hl : '\n' ∉ line ++ front := fun h => (List.mem_append.mp h).elim hline hfront
    rw [show line ++ (front ++ '\n' :: back ++ rest) = (line ++ front) ++ '\n' :: (back ++ rest) by
      simp only [List.append_assoc, List.cons_append], logEntries_append, cleanLines_append,
      List.length_append, hentries, hclean]
    cases hio : lineIo (line ++ front) with
    | none =>
        refine .inr ?_
        rw [logEntries_line hl, hio]
        exact Nat.le_of_eq (Nat.zero_add _)
    | some io =>
        obtain ⟨hlen, hcl⟩ := hone hl io hio
        exact .inl ⟨by rw [hlen, Nat.add_comm], fun hrest => ⟨hcl, hrest⟩⟩
  · have hl : '\n' ∉ line ++ ws := fun h => (List.mem_append.mp h).elim hline hmem
    rw [← List.append_assoc]
    cases rest with
    | nil =>
        rw [List.append_nil]
        cases hio : lineIo (line ++ ws) with
        | none =>
            refine .inr ?_
            rw [logEntries_line hl, hio]
            exact Nat.zero_le _
        | some io =>
            obtain ⟨hlen, hcl⟩ := hone hl io hio
            exact .inl ⟨hlen, fun _ => hcl⟩
    | cons c cs =>
        obtain ⟨hc, hnone⟩ := hnext c cs rfl
        refine .inr (length_logEntries_le hl fun l _ hhead => ?_)
        obtain ⟨more, rfl⟩ := hhead c cs rfl hc
        exact hnone more

/-- Text that breaks off in white space, and is no line of the log there. -/
theorem length_logEntries_break {front ws text : List Char} (hfront : '\n' ∉ front)
    (hws : ∀ c ∈ ws, isSpace c = true) (hmem : '\n' ∈ ws)
    (hnone : ∀ start, start <+: ws → lineIo (front ++ start) = none) :
    (logEntries (front ++ (ws ++ text))).length = (logEntries text).length := by
  obtain ⟨start, back, rfl, hstart⟩ := List.eq_append_cons_of_mem hmem
  have hback : ∀ c ∈ back, isSpace c = true := fun c hc =>
    hws c (List.mem_append_right _ (List.mem_cons_of_mem _ hc))
  have hline : '\n' ∉ front ++ start := fun h => (List.mem_append.mp h).elim hfront hstart
  rw [show front ++ (start ++ '\n' :: back ++ text) = (front ++ start) ++ '\n' :: (back ++ text) by
      simp only [List.append_assoc, List.cons_append],
    logEntries_append, (lines_space_append hback text).1, logEntries_line hline,
    hnone start (List.prefix_append _ _)]
  rfl

theorem newline_notMem_fields {ts fields : List Char} {isRead : Char} (hts : '\n' ∉ ts)
    (hread : isRead ≠ '\n') (hfields : '\n' ∉ fields) :
    '\n' ∉ ts ++ ',' :: isRead :: ',' :: fields := by
  intro hmem
  rcases List.mem_append.mp hmem with hmem | hmem
  · exact hts hmem
  · simp only [List.mem_cons] at hmem
    rcases hmem with h | h | h | h
    · exact absurd h (by decide)
    · exact hread h.symm
    · exact absurd h (by decide)
    · exact hfields h

theorem newline_notMem_comma {offset value : List Char} (hoffset : '\n' ∉ offset)
    (hvalue : '\n' ∉ value) : '\n' ∉ offset ++ ',' :: value := by
  intro hmem
  rcases List.mem_append.mp hmem with hmem | hmem
  · exact hoffset hmem
  · rcases List.mem_cons.mp hmem with h | h
    · exact absurd h (by decide)
    · exact hvalue h

/-- What comes after a value is no part of a time. -/
theorem length_logEntries_value {text ws value ws' rest : List Char}
    (h : NumberRead 16 text (ws' ++ rest) ws value) (hws : ∀ c ∈ ws', isSpace c = true)
    (hnext : ∀ c cs, rest = c :: cs → isTokenChar c = true) :
    (logEntries (value ++ (ws' ++ rest))).length ≤ (logEntries rest).length := by
  rw [← (lines_space_append hws rest).1]
  refine length_logEntries_le (newline_notMem_token h.token) fun line hfront _ => ?_
  refine lineIo_no_time h.nonempty h.token (head_of_front (fun c cs hc => ?_) hfront)
  refine ⟨h.stop c cs hc, ?_⟩
  refine head_space_append hws (P := fun c => c ≠ ',') ?_ ?_ c cs hc
  · rintro c hspace rfl
    exact absurd hspace (by decide)
  · rintro c cs hc rfl
    exact absurd (hnext _ _ hc) (by decide)

/-- What comes after an offset is no direction. -/
theorem length_logEntries_offset {text text' after ws offset ws' value : List Char}
    (h : NumberRead 16 text (',' :: text') ws offset) (h' : NumberRead 16 text' after ws' value) :
    (logEntries (offset ++ ',' :: text')).length ≤ (logEntries (value ++ after)).length := by
  rw [← (lines_space_append h'.space (value ++ after)).1, ← h'.text, List.append_cons]
  have hfront : '\n' ∉ offset ++ [','] :=
    newline_notMem_comma (newline_notMem_token h.token) List.not_mem_nil
  refine length_logEntries_le hfront fun line hfront _ => ?_
  rw [← List.append_cons]
  refine lineIo_no_direction (comma_notMem_token h.token)
    (head_of_front (fun c cs hc => ?_) hfront)
  rw [h'.text] at hc
  refine head_space_append h'.space (P := fun c => c ≠ 'R' ∧ c ≠ 'W') (fun c hspace => ?_)
    (head_token_append h'.nonempty fun c htoken => ?_) c cs hc
  · exact ⟨fun h => absurd hspace (by rw [h]; decide), fun h => absurd hspace (by rw [h]; decide)⟩
  · have htoken := h'.token c htoken
    exact ⟨fun h => absurd htoken (by rw [h]; decide), fun h => absurd htoken (by rw [h]; decide)⟩

/-- **What one turn reads holds one line of the log at most, and then nothing else.** -/
theorem LineRead.count {text rest : List Char} {isRead : Char} (h : LineRead text isRead rest)
    (hread : isRead = 'R' ∨ isRead = 'W')
    (hnext : ∀ c cs, rest = c :: cs → isTokenChar c = true) :
    ((logEntries text).length = (logEntries rest).length + 1 ∧ (CleanLines rest → CleanLines text)) ∨
      (logEntries text).length ≤ (logEntries rest).length := by
  obtain ⟨ws₁, ts, ws₂, offset, ws₃, value, after₁, after₂, after₃, ws₄, h₁, h₂, h₃, rfl, hws₄⟩ :=
    h.parts
  have hcomma : isRead ≠ ',' := by
    rcases hread with rfl | rfl
    · decide
    · decide
  have hline : isRead ≠ '\n' := by
    rcases hread with rfl | rfl
    · decide
    · decide
  have htsline := newline_notMem_token h₁.token
  have htscomma := comma_notMem_token h₁.token
  have hoffcomma : ',' ∉ ws₂ ++ offset := fun hmem =>
    (List.mem_append.mp hmem).elim (comma_notMem_space h₂.space) (comma_notMem_token h₂.token)
  have hthird := length_logEntries_value h₃ hws₄ hnext
  have hsecond := length_logEntries_offset h₂ h₃
  obtain ⟨hentries, hclean⟩ := lines_space_append h₁.space (ts ++ ',' :: isRead :: ',' :: after₁)
  rw [h₁.text, hentries, hclean, h₂.text]
  by_cases hmem₂ : '\n' ∈ ws₂
  · -- the line ends before the offset
    refine .inr ?_
    have hfront : '\n' ∉ ts ++ [',', isRead, ','] :=
      newline_notMem_fields htsline hline List.not_mem_nil
    have hbreak := @length_logEntries_break _ _ (offset ++ ',' :: after₂) hfront h₂.space hmem₂
      fun start hstart => by
        rw [List.append_assoc]
        exact lineIo_no_offset htscomma hcomma fun h => comma_notMem_space h₂.space (hstart.subset h)
    rw [List.append_assoc] at hbreak
    exact Nat.le_trans (Nat.le_of_eq hbreak) (Nat.le_trans hsecond hthird)
  have hoffline : '\n' ∉ ws₂ ++ offset := fun hmem =>
    (List.mem_append.mp hmem).elim hmem₂ (newline_notMem_token h₂.token)
  rw [h₃.text, ← List.append_assoc ws₂]
  by_cases hmem₃ : '\n' ∈ ws₃
  · -- the line ends before the value
    refine .inr ?_
    have hfront : '\n' ∉ ts ++ ',' :: isRead :: ',' :: ((ws₂ ++ offset) ++ [',']) :=
      newline_notMem_fields htsline hline (newline_notMem_comma hoffline List.not_mem_nil)
    have hbreak := @length_logEntries_break _ _ (value ++ (ws₄ ++ rest)) hfront h₃.space hmem₃
      fun start hstart => by
        rw [List.append_assoc, List.cons_append, List.cons_append, List.cons_append,
          List.append_assoc]
        exact lineIo_blank_value htscomma hcomma hoffcomma fun c hc =>
          h₃.space c (hstart.subset hc)
    rw [List.append_assoc, List.cons_append, List.cons_append, List.cons_append,
      List.append_assoc] at hbreak
    exact Nat.le_trans (Nat.le_of_eq hbreak) hthird
  -- all of it is on one line
  have hvalline : '\n' ∉ ws₃ ++ value := fun hmem =>
    (List.mem_append.mp hmem).elim hmem₃ (newline_notMem_token h₃.token)
  rw [show ts ++ ',' :: isRead :: ',' :: ((ws₂ ++ offset) ++ ',' ::
        (ws₃ ++ (value ++ (ws₄ ++ rest))))
      = (ts ++ ',' :: isRead :: ',' :: ((ws₂ ++ offset) ++ ',' :: (ws₃ ++ value))) ++ (ws₄ ++ rest) by
    simp only [List.append_assoc, List.cons_append]]
  refine count_line
    (newline_notMem_fields htsline hline (newline_notMem_comma hoffline hvalline)) hws₄
    fun c cs hc => ⟨fun h => ?_, fun more => ?_⟩
  · exact absurd (hnext c cs hc) (by rw [h]; decide)
  · obtain ⟨e, es, he⟩ : ∃ e es, ws₄ ++ rest = e :: es ∧ e ∈ ws₄ ++ [c] := by
      rw [hc]
      cases ws₄ with
      | nil => exact ⟨c, cs, rfl, List.mem_cons_self⟩
      | cons e ws => exact ⟨e, _, rfl, List.mem_cons_self⟩
    rw [show (ts ++ ',' :: isRead :: ',' :: ((ws₂ ++ offset) ++ ',' :: (ws₃ ++ value))) ++ ws₄ ++ c :: more
      = ts ++ ',' :: isRead :: ',' :: ((ws₂ ++ offset) ++ ',' :: ((ws₃ ++ (value ++ ws₄)) ++ c :: more)) by
      simp only [List.append_assoc, List.cons_append]]
    refine lineIo_no_value htscomma hcomma hoffcomma (isSpace_of_token (hnext c cs hc))
      (c := e) ?_ (h₃.stop e es he.1)
    rw [List.append_assoc, List.append_assoc]
    exact List.mem_append_right _ (List.mem_append_right _ he.2)

end GpuReplay
