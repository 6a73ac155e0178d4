/-
Numbers in text: `printf` and `fscanf`.

`%u` and `%x` print what `Nat.toDigits` gives.  Reading back goes through the stream as
the C library does: white space, a sign, for base 16 a prefix, then as many digits as
there are.  The end-of-file flag is set when a read wants a character that is not there,
so it is set by a number, or by white space, that the text ends with, and by nothing else.
-/
import Mathlib.Algebra.Order.Ring.Nat
import Mathlib.Data.List.TakeWhile
import Mathlib.Tactic.Common

namespace Text

/-! ### Streams of characters -/

/-- A text open for reading: what is left of it, and the end-of-file flag. -/
structure TextStream where
  rest : List Char
  eof : Bool
  deriving Repr, DecidableEq

def TextStream.open (text : List Char) : TextStream := ⟨text, false⟩

/-- The stream with `rest` left of it, after a look at its next character. -/
def TextStream.seen (s : TextStream) (rest : List Char) : TextStream := ⟨rest, s.eof || rest.isEmpty⟩

/-- `isspace`. -/
def isSpace (c : Char) : Bool :=
  c = ' ' || c = '\t' || c = '\n' || c = '\r' || c.toNat = 11 || c.toNat = 12

/-- White space in a format: any amount of it in the text. -/
def skipSpace (s : TextStream) : TextStream := s.seen (s.rest.dropWhile isSpace)

/-- Any other character in a format.  A conversion that fails leaves the stream where it is. -/
def literal (c : Char) (s : TextStream) : Except TextStream TextStream :=
  match s.rest with
  | d :: rest => if d = c then .ok ⟨rest, s.eof⟩ else .error s
  | [] => .error ⟨[], true⟩

/-- `%c`. -/
def scanChar (s : TextStream) : Except TextStream (Char × TextStream) :=
  match s.rest with
  | c :: rest => .ok (c, ⟨rest, s.eof⟩)
  | [] => .error ⟨[], true⟩

/-! ### Numbers -/

/-- The value of a digit, in whatever case. -/
def digitVal (c : Char) : Option Nat :=
  let n := c.toNat
  if 48 ≤ n ∧ n ≤ 57 then some (n - 48)
  else if 97 ≤ n ∧ n ≤ 102 then some (n - 87)
  else if 65 ≤ n ∧ n ≤ 70 then some (n - 55)
  else none

def isDigitOf (base : Nat) (c : Char) : Bool := (digitVal c).any (· < base)

/-- The value of digits read after `n`. -/
def digitsVal (base : Nat) (n : Nat) (digits : List Char) : Nat :=
  digits.foldl (fun n c => base * n + (digitVal c).getD 0) n

/-- `strtoul` on a sign and a number of any size: it saturates, then negates. -/
def strtoul (negative : Bool) (n : Nat) : Nat :=
  if 2 ^ 64 ≤ n then 2 ^ 64 - 1 else if negative then (2 ^ 64 - n) % 2 ^ 64 else n

/-- The sign a number may start with. -/
def scanSign : List Char → Bool × List Char
  | '-' :: cs => (true, cs)
  | '+' :: cs => (false, cs)
  | cs => (false, cs)

/-- The prefix a number in base 16 may start with. -/
def scanPrefix (base : Nat) : List Char → List Char
  | '0' :: 'x' :: cs => if base = 16 then cs else '0' :: 'x' :: cs
  | '0' :: 'X' :: cs => if base = 16 then cs else '0' :: 'X' :: cs
  | cs => cs

/-- `%lu` and `%x`, as `strtoul` reads them. -/
def scanUnsigned (base : Nat) (s : TextStream) : Except TextStream (Nat × TextStream) :=
  let s := skipSpace s
  let (negative, cs) := scanSign s.rest
  let cs := scanPrefix base cs
  let digits := cs.takeWhile (isDigitOf base)
  let s := s.seen (cs.dropWhile (isDigitOf base))
  if digits.isEmpty then .error s else .ok (strtoul negative (digitsVal base 0 digits), s)

/-! ### Reading back what was printed -/

theorem digitVal_digitChar {d : Nat} (hd : d < 16) : digitVal d.digitChar = some d := by
  revert hd
  revert d
  decide

theorem isSpace_digitChar {d : Nat} (hd : d < 16) : isSpace d.digitChar = false := by
  revert hd
  revert d
  decide

variable {base : Nat}

theorem digitsVal_append (n : Nat) (as bs : List Char) :
    digitsVal base n (as ++ bs) = digitsVal base (digitsVal base n as) bs :=
  List.foldl_append

/-- **The digits of a number are digits, and have its value.** -/
theorem digitsVal_toDigits (hbase : 1 < base) (hhex : base ≤ 16) (n : Nat) :
    (∀ c ∈ Nat.toDigits base n, ∃ d, d < base ∧ c = d.digitChar) ∧
      digitsVal base 0 (Nat.toDigits base n) = n := by
  induction n using Nat.strongRecOn with
  | _ n ih =>
      rw [Nat.toDigits_eq_if hbase]
      by_cases hn : n < base
      · rw [if_pos hn]
        refine ⟨fun c hc => ⟨n, hn, List.mem_singleton.mp hc⟩, ?_⟩
        show base * 0 + (digitVal n.digitChar).getD 0 = n
        rw [digitVal_digitChar (Nat.lt_of_lt_of_le hn hhex), Nat.mul_zero, Nat.zero_add,
          Option.getD_some]
      · rw [if_neg hn]
        have hpos : 0 < n := Nat.lt_of_lt_of_le (by omega) (Nat.le_of_not_lt hn)
        have hmod : n % base < base := Nat.mod_lt n (by omega)
        obtain ⟨hdigits, hval⟩ := ih (n / base) (Nat.div_lt_self hpos hbase)
        refine ⟨fun c hc => ?_, ?_⟩
        · rcases List.mem_append.mp hc with hc | hc
          · exact hdigits c hc
          · exact ⟨n % base, hmod, List.mem_singleton.mp hc⟩
        · rw [digitsVal_append, hval]
          show base * (n / base) + (digitVal (n % base).digitChar).getD 0 = n
          rw [digitVal_digitChar (Nat.lt_of_lt_of_le hmod hhex), Option.getD_some]
          exact Nat.div_add_mod n base

/-- Every number is printed with a digit first. -/
theorem toDigits_head (hbase : 1 < base) (hhex : base ≤ 16) (n : Nat) :
    ∃ d ds, d < base ∧ Nat.toDigits base n = d.digitChar :: ds := by
  cases hdigits : Nat.toDigits base n with
  | nil =>
      rw [Nat.toDigits_eq_if hbase] at hdigits
      split at hdigits
      · cases hdigits
      · exact absurd hdigits (List.append_ne_nil_of_right_ne_nil _ (List.cons_ne_nil _ _))
  | cons c cs =>
      obtain ⟨d, hd, rfl⟩ := (digitsVal_toDigits hbase hhex n).1 c
        (by rw [hdigits]; exact List.mem_cons_self)
      exact ⟨d, cs, hd, rfl⟩

theorem isDigitOf_digitChar (hhex : base ≤ 16) {d : Nat} (hd : d < base) :
    isDigitOf base d.digitChar = true := by
  unfold isDigitOf
  rw [digitVal_digitChar (Nat.lt_of_lt_of_le hd hhex), Option.any_some]
  exact decide_eq_true hd

/-- A prefix is a zero and a letter. -/
theorem scanPrefix_eq {c : Char} {cs : List Char}
    (h : c = '0' → ∀ next rest, cs = next :: rest → next ≠ 'x' ∧ next ≠ 'X') :
    scanPrefix base (c :: cs) = c :: cs := by
  unfold scanPrefix
  split
  next heq =>
    obtain ⟨hc, hcs⟩ := List.cons.inj heq
    exact absurd rfl (h hc _ _ hcs).1
  next heq =>
    obtain ⟨hc, hcs⟩ := List.cons.inj heq
    exact absurd rfl (h hc _ _ hcs).2
  next => rfl

theorem seen_cons (text rest : List Char) (eof : Bool) (c : Char) :
    TextStream.seen ⟨text, eof⟩ (c :: rest) = ⟨c :: rest, eof⟩ := by
  unfold TextStream.seen
  rw [List.isEmpty_cons, Bool.or_false]

/-- White space that something else follows. -/
theorem skipSpace_cons {c next : Char} (hc : isSpace c = true) (hnext : isSpace next = false)
    (rest : List Char) (eof : Bool) :
    skipSpace ⟨c :: next :: rest, eof⟩ = ⟨next :: rest, eof⟩ := by
  unfold skipSpace
  dsimp only
  rw [List.dropWhile_cons_of_pos hc, List.dropWhile_cons_of_neg (by simp [hnext]), seen_cons]

/-- White space at the end: the stream has been read beyond. -/
theorem skipSpace_last {c : Char} (hc : isSpace c = true) (eof : Bool) :
    skipSpace ⟨[c], eof⟩ = ⟨[], true⟩ := by
  unfold skipSpace
  dsimp only
  rw [List.dropWhile_cons_of_pos hc]
  show (⟨[], eof || true⟩ : TextStream) = ⟨[], true⟩
  rw [Bool.or_true]

/-! ### What a number is in the text -/

/-- The characters a number that is read consists of. -/
def isTokenChar (c : Char) : Bool := isDigitOf 16 c || "+-xX".toList.contains c

theorem isDigitOf_mono (hhex : base ≤ 16) {c : Char} (h : isDigitOf base c = true) :
    isDigitOf 16 c = true := by
  unfold isDigitOf at h ⊢
  cases hval : digitVal c with
  | none =>
      rw [hval] at h
      exact absurd h Bool.false_ne_true
  | some d =>
      rw [hval, Option.any_some, decide_eq_true_iff] at h
      rw [Option.any_some, decide_eq_true_iff]
      exact Nat.lt_of_lt_of_le h hhex

theorem isTokenChar_of_digit (hhex : base ≤ 16) {c : Char} (h : isDigitOf base c = true) :
    isTokenChar c = true := by
  unfold isTokenChar
  rw [isDigitOf_mono hhex h, Bool.true_or]

/-- What is no character of a number is no digit, and no letter of a prefix. -/
theorem not_digit_of_not_token (hhex : base ≤ 16) {c : Char} (h : isTokenChar c = false) :
    isDigitOf base c = false ∧ c ≠ 'x' ∧ c ≠ 'X' := by
  refine ⟨Bool.eq_false_iff.mpr fun hdigit => ?_, ?_, ?_⟩
  · rw [isTokenChar_of_digit hhex hdigit] at h
    cases h
  · rintro rfl
    exact absurd h (by decide)
  · rintro rfl
    exact absurd h (by decide)

theorem isSpace_of_token {c : Char} (h : isTokenChar c = true) : isSpace c = false := by
  cases hspace : isSpace c with
  | false => rfl
  | true =>
      unfold isSpace at hspace
      simp only [Bool.or_eq_true, decide_eq_true_eq] at hspace
      rcases hspace with ((((rfl | rfl) | rfl) | rfl) | hcode) | hcode
      · exact absurd h (by decide)
      · exact absurd h (by decide)
      · exact absurd h (by decide)
      · exact absurd h (by decide)
      · obtain rfl : c = Char.ofNat 11 := by rw [← hcode, Char.ofNat_toNat]
        exact absurd h (by decide)
      · obtain rfl : c = Char.ofNat 12 := by rw [← hcode, Char.ofNat_toNat]
        exact absurd h (by decide)

theorem scanSign_append (cs : List Char) :
    ∃ sign, cs = sign ++ (scanSign cs).2 ∧ ∀ c ∈ sign, isTokenChar c = true := by
  unfold scanSign
  split
  next cs => exact ⟨['-'], rfl, List.forall_mem_singleton.mpr (by decide)⟩
  next cs => exact ⟨['+'], rfl, List.forall_mem_singleton.mpr (by decide)⟩
  next => exact ⟨[], rfl, List.forall_mem_nil _⟩

theorem scanPrefix_append (cs : List Char) :
    ∃ pre, cs = pre ++ scanPrefix base cs ∧ ∀ c ∈ pre, isTokenChar c = true := by
  unfold scanPrefix
  split
  next cs =>
    split
    · exact ⟨['0', 'x'], rfl, List.forall_mem_cons.mpr
        ⟨by decide, List.forall_mem_singleton.mpr (by decide)⟩⟩
    · exact ⟨[], rfl, List.forall_mem_nil _⟩
  next cs =>
    split
    · exact ⟨['0', 'X'], rfl, List.forall_mem_cons.mpr
        ⟨by decide, List.forall_mem_singleton.mpr (by decide)⟩⟩
    · exact ⟨[], rfl, List.forall_mem_nil _⟩
  next => exact ⟨[], rfl, List.forall_mem_nil _⟩

/-- What has been read of a text: white space, the characters of a number, and no digit after
them. -/
structure NumberRead (base : Nat) (text rest : List Char) (ws token : List Char) : Prop where
  text : text = ws ++ (token ++ rest)
  space : ∀ c ∈ ws, isSpace c = true
  nonempty : token ≠ []
  token : ∀ c ∈ token, isTokenChar c = true
  stop : ∀ c cs, rest = c :: cs → isDigitOf base c = false

theorem eof_of_seen {s : TextStream} {rest : List Char} (h : rest ≠ []) :
    (s.seen rest).eof = s.eof := by
  unfold TextStream.seen
  rw [List.isEmpty_eq_false_iff.mpr h, Bool.or_false]

/-- **A number that is read is a number in the text.** -/
theorem scanUnsigned_ok (hhex : base ≤ 16) {s s' : TextStream} {n : Nat}
    (h : scanUnsigned base s = .ok (n, s')) :
    (∃ ws token, NumberRead base s.rest s'.rest ws token) ∧
      (s'.rest ≠ [] → s'.eof = s.eof) := by
  obtain ⟨sign, hsign, hsigns⟩ := scanSign_append (skipSpace s).rest
  obtain ⟨pre, hpre, hpres⟩ := @scanPrefix_append base (scanSign (skipSpace s).rest).2
  unfold scanUnsigned at h
  dsimp only at h
  generalize hcs : scanPrefix base (scanSign (skipSpace s).rest).2 = cs at h hpre
  by_cases hnone : (cs.takeWhile (isDigitOf base)).isEmpty
  · rw [if_pos hnone] at h
    cases h
  · rw [if_neg hnone] at h
    obtain ⟨-, rfl⟩ := Prod.mk.inj (Except.ok.inj h)
    have hsplit := @List.takeWhile_append_dropWhile _ (isDigitOf base) cs
    refine ⟨⟨s.rest.takeWhile isSpace, sign ++ (pre ++ cs.takeWhile (isDigitOf base)), ?_, ?_, ?_,
      ?_, ?_⟩, fun hrest => ?_⟩
    · show s.rest = _ ++ (_ ++ cs.dropWhile (isDigitOf base))
      rw [List.append_assoc, List.append_assoc, hsplit, ← hpre, ← hsign]
      exact List.takeWhile_append_dropWhile.symm
    · exact fun c hc => List.mem_takeWhile_imp hc
    · intro hnil
      have hdigits := (List.append_eq_nil_iff.mp (List.append_eq_nil_iff.mp hnil).2).2
      exact hnone (List.isEmpty_iff.mpr hdigits)
    · intro c hc
      rcases List.mem_append.mp hc with hc | hc
      · exact hsigns c hc
      · rcases List.mem_append.mp hc with hc | hc
        · exact hpres c hc
        · exact isTokenChar_of_digit hhex (List.mem_takeWhile_imp hc)
    · intro c rest hc
      have hhead := List.head?_dropWhile_not (isDigitOf base) cs
      rw [show cs.dropWhile (isDigitOf base) = c :: rest from hc] at hhead
      exact hhead
    · have hrest' : cs.dropWhile (isDigitOf base) ≠ [] := hrest
      rw [eof_of_seen hrest']
      refine eof_of_seen fun hnil => hrest' ?_
      have hnil' : (skipSpace s).rest = [] := hnil
      have hscan := (List.append_eq_nil_iff.mp (hsign.symm.trans hnil')).2
      rw [hscan] at hpre
      rw [(List.append_eq_nil_iff.mp hpre.symm).2]
      rfl

/-- White space before a number is skipped. -/
theorem skipSpace_append {ws : List Char} (hws : ∀ c ∈ ws, isSpace c = true) (rest : List Char)
    (eof : Bool) : skipSpace ⟨ws ++ rest, eof⟩ = skipSpace ⟨rest, eof⟩ := by
  show TextStream.seen _ _ = TextStream.seen _ _
  unfold TextStream.seen
  dsimp only
  rw [List.dropWhile_append_of_pos hws]

/-- **Digits that no digit follows are read as their value.** -/
theorem scanUnsigned_digits (hhex : base ≤ 16) {ds : List Char} (hne : ds ≠ [])
    (hds : ∀ c ∈ ds, isDigitOf base c = true) {rest : List Char}
    (hrest : ∀ c cs, rest = c :: cs → isDigitOf base c = false ∧ c ≠ 'x' ∧ c ≠ 'X') (eof : Bool) :
    scanUnsigned base ⟨ds ++ rest, eof⟩
      = .ok (strtoul false (digitsVal base 0 ds), ⟨rest, eof || rest.isEmpty⟩) := by
  obtain ⟨d, ds, rfl⟩ := List.exists_cons_of_ne_nil hne
  have hdigit := hds d List.mem_cons_self
  have hspace : isSpace d = false := isSpace_of_token (isTokenChar_of_digit hhex hdigit)
  have hstop : ∀ c cs, rest = c :: cs → isDigitOf base c = false :=
    fun c cs hc => (hrest c cs hc).1
  have hskip : skipSpace ⟨d :: ds ++ rest, eof⟩ = ⟨d :: ds ++ rest, eof⟩ := by
    unfold skipSpace
    dsimp only
    rw [List.cons_append, List.dropWhile_cons_of_neg (by rw [hspace]; decide), seen_cons]
  -- a digit is no sign, and no letter of a prefix
  have hnot : ∀ e, digitVal e = none → ¬ isDigitOf base e = true := fun e he h => by
    unfold isDigitOf at h
    rw [he] at h
    exact absurd h Bool.false_ne_true
  have hsign : scanSign (d :: ds ++ rest) = (false, d :: ds ++ rest) := by
    unfold scanSign
    split
    next heq => exact absurd ((List.cons.inj heq).1 ▸ hdigit) (hnot '-' (by decide))
    next heq => exact absurd ((List.cons.inj heq).1 ▸ hdigit) (hnot '+' (by decide))
    next => rfl
  have hfront : scanPrefix base (d :: ds ++ rest) = d :: ds ++ rest := by
    refine scanPrefix_eq fun _ next rest' hcs => ?_
    cases ds with
    | nil => exact (hrest next rest' hcs).2
    | cons e ds =>
        have he := hds e (List.mem_cons_of_mem d List.mem_cons_self)
        rw [(List.cons.inj hcs).1] at he
        exact ⟨fun h => hnot 'x' (by decide) (h ▸ he), fun h => hnot 'X' (by decide) (h ▸ he)⟩
  have htake : (d :: ds ++ rest).takeWhile (isDigitOf base) = d :: ds := by
    rw [List.takeWhile_append_of_pos hds]
    cases rest with
    | nil => rw [List.takeWhile_nil, List.append_nil]
    | cons c cs =>
        rw [List.takeWhile_cons_of_neg (by rw [hstop c cs rfl]; decide), List.append_nil]
  have hdrop : (d :: ds ++ rest).dropWhile (isDigitOf base) = rest := by
    rw [List.dropWhile_append_of_pos hds]
    cases rest with
    | nil => rfl
    | cons c cs => exact List.dropWhile_cons_of_neg (by rw [hstop c cs rfl]; decide)
  unfold scanUnsigned
  rw [hskip]
  dsimp only
  rw [hsign]
  dsimp only
  rw [hfront, htake, hdrop]
  rfl

/-- **A number printed and followed by what is no digit is read back.** -/
theorem scanUnsigned_toDigits (hbase : 1 < base) (hhex : base ≤ 16) {n : Nat} (hn : n < 2 ^ 64)
    {next : Char} (hnext : isDigitOf base next = false) (hx : next ≠ 'x' ∧ next ≠ 'X')
    (rest : List Char) (eof : Bool) :
    scanUnsigned base ⟨Nat.toDigits base n ++ next :: rest, eof⟩ = .ok (n, ⟨next :: rest, eof⟩) := by
  obtain ⟨hdigits, hval⟩ := digitsVal_toDigits hbase hhex n
  obtain ⟨d, ds, -, heq⟩ := toDigits_head hbase hhex n
  have hall : ∀ c ∈ Nat.toDigits base n, isDigitOf base c = true := by
    intro c hc
    obtain ⟨e, he, rfl⟩ := hdigits c hc
    exact isDigitOf_digitChar hhex he
  have hstop : ∀ c cs, next :: rest = c :: cs → isDigitOf base c = false ∧ c ≠ 'x' ∧ c ≠ 'X' := by
    intro c cs hc
    rw [← (List.cons.inj hc).1]
    exact ⟨hnext, hx⟩
  have hfits : strtoul false n = n := by
    unfold strtoul
    rw [if_neg (Nat.not_le.mpr hn), if_neg Bool.false_ne_true]
  rw [scanUnsigned_digits hhex (by rw [heq]; exact List.cons_ne_nil _ _) hall hstop, hval, hfits,
    List.isEmpty_cons, Bool.or_false]

end Text
