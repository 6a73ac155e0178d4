/-
Byte strings and the little-endian words in them.

A word travels as the bytes a little-endian machine stores it in: `le k v` is the
`k` low bytes of `v`, least significant first, and `val` reads a byte string back
as a number.  The two are inverse as soon as the width is right, which is all a
reader needs to know about a writer.

`splice` is the one mutation a byte string supports: overwrite from an offset on,
extending the string where the new bytes run past its end.  Consecutive splices
are one splice, so a buffer filled piece by piece is the buffer filled at once.
-/
import Mathlib.Algebra.Order.Ring.Nat
import Mathlib.Tactic.Common

namespace Bytes

/-! ### Words as bytes -/

/-- The `k` low bytes of `v`, least significant first. -/
def le : Nat → Nat → List UInt8
  | 0, _ => []
  | k + 1, v => UInt8.ofNat v :: le k (v / 256)

/-- The number a byte string spells, least significant byte first. -/
def val : List UInt8 → Nat
  | [] => 0
  | b :: bs => b.toNat + 256 * val bs

@[simp] theorem length_le (k v : Nat) : (le k v).length = k := by
  induction k generalizing v with
  | zero => rfl
  | succ k ih => simp [le, ih]

@[simp] theorem val_nil : val [] = 0 := rfl

/-- A string of `k` bytes spells a number below `256 ^ k`. -/
theorem val_lt (bs : List UInt8) : val bs < 256 ^ bs.length := by
  induction bs with
  | nil => simp
  | cons b rest ih =>
      have hb : b.toNat < 256 := b.toNat_lt
      rw [val, List.length_cons, Nat.pow_succ]
      omega

/-- Of a value that does not fit, the low bytes are written. -/
theorem val_le_mod (k v : Nat) : val (le k v) = v % 256 ^ k := by
  induction k generalizing v with
  | zero =>
      rw [Nat.pow_zero, Nat.mod_one]
      rfl
  | succ k ih =>
      have hbyte : (UInt8.ofNat v).toNat = v % 256 := by simp [UInt8.toNat_ofNat']
      rw [le, val, ih, hbyte, Nat.pow_succ', Nat.mod_mul]

/-- **Reading back what was written gives the value, when it fits.** -/
theorem val_le {k v : Nat} (h : v < 256 ^ k) : val (le k v) = v := by
  rw [val_le_mod, Nat.mod_eq_of_lt h]

/-- **Writing back what was read gives the bytes.** -/
theorem le_val (bs : List UInt8) : le bs.length (val bs) = bs := by
  induction bs with
  | nil => rfl
  | cons b rest ih =>
      have hb : b.toNat < 256 := b.toNat_lt
      have hdiv : (b.toNat + 256 * val rest) / 256 = val rest := by omega
      have hbyte : UInt8.ofNat (b.toNat + 256 * val rest) = b := by
        apply UInt8.toNat_inj.mp
        rw [UInt8.toNat_ofNat']
        omega
      rw [val, List.length_cons, le, hdiv, ih, hbyte]

/-- A word is its low part and then its high part. -/
theorem le_add (k l v : Nat) : le (k + l) v = le k v ++ le l (v / 256 ^ k) := by
  induction k generalizing v with
  | zero => simp [le]
  | succ k ih =>
      rw [Nat.succ_add, le, ih, le, List.cons_append, Nat.div_div_eq_div_mul, Nat.pow_succ']

/-! ### Strings of words -/

theorem length_flatMap_le (k : Nat) (ws : List Nat) :
    (ws.flatMap (le k)).length = k * ws.length := by
  induction ws with
  | nil => rfl
  | cons w ws ih =>
      rw [List.flatMap_cons, List.length_append, length_le, ih, List.length_cons, Nat.mul_succ,
        Nat.add_comm]

/-- A word of the string, where it is. -/
theorem take_drop_flatMap_le (k : Nat) {ws : List Nat} {w : Nat} :
    ∀ {i : Nat}, ws[i]? = some w → ((ws.flatMap (le k)).drop (k * i)).take k = le k w := by
  induction ws with
  | nil =>
      intro i h
      cases h
  | cons v ws ih =>
      intro i h
      rw [List.flatMap_cons]
      cases i with
      | zero =>
          obtain rfl := Option.some.inj h
          exact List.take_left' (length_le k v)
      | succ i =>
          have hskip : k * (i + 1) = (le k v).length + k * i := by
            rw [length_le, Nat.mul_succ, Nat.add_comm]
          rw [hskip, List.drop_length_add_append]
          exact ih h

/-! ### Strings of 64-bit words -/

/-- Words one after another. -/
def words (ws : List Nat) : List UInt8 := ws.flatMap (le 8)

theorem words_cons (w : Nat) (ws : List Nat) : words (w :: ws) = le 8 w ++ words ws := rfl

theorem words_append (vs ws : List Nat) : words (vs ++ ws) = words vs ++ words ws :=
  List.flatMap_append

theorem length_words (ws : List Nat) : (words ws).length = 8 * ws.length := by
  induction ws with
  | nil => rfl
  | cons w ws ih => rw [words_cons, List.length_append, length_le, ih, List.length_cons]; omega

/-- A byte of the words is one of its word. -/
theorem getElem?_words (ws : List Nat) :
    ∀ j : Nat, (words ws)[j]? = ws[j / 8]?.bind fun w => (le 8 w)[j % 8]? := by
  induction ws with
  | nil => simp [words]
  | cons w ws ih =>
      intro j
      rw [words_cons]
      by_cases hj : j < 8
      · rw [List.getElem?_append_left (by simpa using hj), Nat.div_eq_of_lt hj, Nat.mod_eq_of_lt hj]
        rfl
      · rw [List.getElem?_append_right (by simpa using Nat.le_of_not_lt hj), length_le, ih]
        have hdiv : j / 8 = (j - 8) / 8 + 1 := by omega
        have hmod : (j - 8) % 8 = j % 8 := by omega
        rw [hdiv, hmod, List.getElem?_cons_succ]

/-! ### Overwriting from an offset on -/

/-- `xs` with `ys` written over it from offset `off` on. -/
def splice (xs : List UInt8) (off : Nat) (ys : List UInt8) : List UInt8 :=
  xs.take off ++ ys ++ xs.drop (off + ys.length)

@[simp] theorem splice_nil (xs : List UInt8) (off : Nat) : splice xs off [] = xs := by
  simp [splice]

theorem length_splice {xs ys : List UInt8} {off : Nat} (h : off + ys.length ≤ xs.length) :
    (splice xs off ys).length = xs.length := by
  simp only [splice, List.length_append, List.length_take, List.length_drop]
  omega

/-- Writing over the whole string leaves just what was written. -/
theorem splice_zero_of_length_le {xs ys : List UInt8} (h : xs.length ≤ ys.length) :
    splice xs 0 ys = ys := by
  have hdrop : xs.drop ys.length = [] := List.drop_eq_nil_of_le h
  simp [splice, hdrop]

theorem length_take_append {xs : List UInt8} {off : Nat} (h : off ≤ xs.length)
    (ys : List UInt8) : (xs.take off ++ ys).length = off + ys.length := by
  rw [List.length_append, List.length_take, Nat.min_eq_left h]

/-- **Two consecutive writes are one write of both.** -/
theorem splice_splice {xs : List UInt8} {off : Nat} (h : off ≤ xs.length)
    (ys zs : List UInt8) :
    splice (splice xs off ys) (off + ys.length) zs = splice xs off (ys ++ zs) := by
  have hlen := length_take_append h ys
  have htake : (xs.take off ++ ys ++ xs.drop (off + ys.length)).take (off + ys.length)
      = xs.take off ++ ys := by
    rw [← hlen, List.take_left]
  have hdrop : (xs.take off ++ ys ++ xs.drop (off + ys.length)).drop (off + ys.length + zs.length)
      = xs.drop (off + (ys ++ zs).length) := by
    rw [← hlen, List.drop_append, List.drop_eq_nil_of_le (Nat.le_add_right _ _), List.nil_append,
      List.drop_drop, Nat.add_sub_cancel_left, hlen, List.length_append, Nat.add_assoc]
  unfold splice
  rw [htake, hdrop, List.append_assoc (xs.take off)]

end Bytes
