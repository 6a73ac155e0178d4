/-
Files, as a reader and a writer see them.

A reader holds a `Stream`: the bytes still to come and the end-of-file flag, which
a read sets only when it comes up short.  Reading exactly to the end therefore
leaves the flag clear, and a loop on `feof` runs once more than there is data.  A
short read still stores the bytes it got, over the low bytes of whatever the
variable held.

A writer holds an `OutFile`: the bytes of the file and a cursor.  Writing overlays,
so bytes beyond the last write stay, and consecutive writes are one write.
-/
import GpuReplay.Lib.Bytes

namespace Stdio

/-- An open input file. -/
structure Stream where
  rest : List UInt8
  eof : Bool
  deriving Repr, DecidableEq

/-- A file just opened for reading. -/
def Stream.open (file : List UInt8) : Stream := ⟨file, false⟩

/-- `fread` of one item of `n` bytes over the item `old`. -/
def Stream.read (n : Nat) (old : List UInt8) (s : Stream) : List UInt8 × Stream :=
  (Bytes.splice old 0 (s.rest.take n), ⟨s.rest.drop n, s.eof || decide (s.rest.length < n)⟩)

/-- `fread` of a `k`-byte little-endian variable that holds `old`. -/
def Stream.readWord (k old : Nat) (s : Stream) : Nat × Stream :=
  ((Bytes.val (s.read k (Bytes.le k old)).1), (s.read k (Bytes.le k old)).2)

namespace Stream

/-! ### Reads that succeed, and reads at the end -/

theorem read_append {n : Nat} {bs : List UInt8} (hn : bs.length = n) {old : List UInt8}
    (hold : old.length ≤ n) (rest : List UInt8) (eof : Bool) :
    read n old ⟨bs ++ rest, eof⟩ = (bs, ⟨rest, eof⟩) := by
  have hle : ¬ (bs ++ rest).length < n := by rw [List.length_append]; omega
  unfold read
  rw [List.take_left' hn, List.drop_left' hn,
    Bytes.splice_zero_of_length_le (by rw [hn]; exact hold), decide_eq_false hle, Bool.or_false]

theorem read_nil {n : Nat} (hn : 0 < n) (old : List UInt8) (eof : Bool) :
    read n old ⟨[], eof⟩ = (old, ⟨[], true⟩) := by
  have hlt : ([] : List UInt8).length < n := hn
  unfold read
  rw [List.take_nil, List.drop_nil, Bytes.splice_nil, decide_eq_true hlt, Bool.or_true]

/-- **A word that was written is the word that is read.** -/
theorem readWord_le {k v : Nat} (hv : v < 256 ^ k) (old : Nat) (rest : List UInt8) (eof : Bool) :
    readWord k old ⟨Bytes.le k v ++ rest, eof⟩ = (v, ⟨rest, eof⟩) := by
  unfold readWord
  rw [read_append (Bytes.length_le k v) (Nat.le_of_eq (Bytes.length_le k old)), Bytes.val_le hv]

/-- **At the end of the file the variable keeps its value.** -/
theorem readWord_nil {k old : Nat} (hk : 0 < k) (hold : old < 256 ^ k) (eof : Bool) :
    readWord k old ⟨[], eof⟩ = (old, ⟨[], true⟩) := by
  unfold readWord
  rw [read_nil hk, Bytes.val_le hold]

theorem readWord_lt (k old : Nat) (s : Stream) : (s.readWord k old).1 < 256 ^ k := by
  have hlen : (s.read k (Bytes.le k old)).1.length = k := by
    show (Bytes.splice _ 0 _).length = k
    rw [Bytes.length_splice (by rw [Nat.zero_add, Bytes.length_le]; exact List.length_take_le ..),
      Bytes.length_le]
  have hlt := Bytes.val_lt (s.read k (Bytes.le k old)).1
  rwa [hlen] at hlt

/-- A read that leaves the flag clear took all its bytes. -/
theorem length_of_read_eof {n : Nat} {old : List UInt8} {s : Stream}
    (h : (s.read n old).2.eof = false) :
    s.eof = false ∧ s.rest.length = n + (s.read n old).2.rest.length := by
  have hflag : s.eof = false ∧ ¬ s.rest.length < n := by
    simpa [read] using h
  refine ⟨hflag.1, ?_⟩
  show s.rest.length = n + (s.rest.drop n).length
  rw [List.length_drop]
  omega

theorem length_of_readWord_eof {k old : Nat} {s : Stream}
    (h : (s.readWord k old).2.eof = false) :
    s.eof = false ∧ s.rest.length = k + (s.readWord k old).2.rest.length :=
  @length_of_read_eof k (Bytes.le k old) s h

end Stream

/-! ### Writing at a cursor -/

/-- A file open for writing. -/
structure OutFile where
  bytes : List UInt8
  offset : Nat
  deriving Repr, DecidableEq

namespace OutFile

/-- The file opened again: its bytes stay, the cursor goes to the start. -/
def reopen (bytes : List UInt8) : OutFile := ⟨bytes, 0⟩

/-- `bs` written at the cursor. -/
def write (f : OutFile) (bs : List UInt8) : OutFile :=
  ⟨Bytes.splice f.bytes f.offset bs, f.offset + bs.length⟩

/-- The cursor is inside the file, or just past its end. -/
def WF (f : OutFile) : Prop := f.offset ≤ f.bytes.length

theorem wf_reopen (bytes : List UInt8) : (reopen bytes).WF := Nat.zero_le _

@[simp] theorem write_nil (f : OutFile) : f.write [] = f := by
  simp [write]

theorem wf_write {f : OutFile} (hf : f.WF) (bs : List UInt8) : (f.write bs).WF := by
  unfold WF write Bytes.splice
  unfold WF at hf
  simp only [List.length_append, List.length_take, List.length_drop]
  omega

/-- **Consecutive writes are one write.** -/
theorem write_write {f : OutFile} (hf : f.WF) (bs cs : List UInt8) :
    (f.write bs).write cs = f.write (bs ++ cs) := by
  unfold write
  rw [Bytes.splice_splice hf, List.length_append, Nat.add_assoc]

end OutFile

end Stdio
