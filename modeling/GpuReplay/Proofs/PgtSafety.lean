/-
What `gr_pgt_init` and `gr_construct_pgt` do to the array of the dump.

The array is as long as the size field says, the loop that fills it stops at the end marker or
after a read that came up short, and the reconstruction moves its cursor by a table for every
entry that announces one.  Nothing relates the three.  The two loops stay inside the array
exactly when the words up to where the first stops fit, and the tables that are announced do.
-/
import GpuReplay.Proofs.UserNodes

namespace GpuReplay.Replayer

open Stdio Driver

/-! ### Filling the array -/

/-- The first `n` words of a text. -/
def fullWords : Nat → List UInt8 → List Nat
  | 0, _ => []
  | n + 1, bytes => Bytes.val (bytes.take 8) :: fullWords n (bytes.drop 8)

/-- How many words the loop stores into the array: those up to the end marker, or all that are
there and the one that is not. -/
def turnsFrom (bytes : List UInt8) : Nat :=
  (fullWords (bytes.length / 8) bytes).findIdx (· == endMarker) + 1

/-- The same for a file, whose first 32 bytes are the header. -/
def fillTurns (file : List UInt8) : Nat :=
  if file.length < 32 then 0 else turnsFrom (file.drop 32)

/-- The array after the loop, where the loop stays inside it. -/
def fillPgt : List Nat → Stream → List Nat
  | [], _ => []
  | old :: slots, f =>
      if f.eof then old :: slots
      else if (f.readWord 8 old).1 = endMarker then (f.readWord 8 old).1 :: slots
      else (f.readWord 8 old).1 :: fillPgt slots (f.readWord 8 old).2

/-- The size field of a file. -/
def headerSize (junk : PgtJunk) (file : List UInt8) : Nat :=
  ((Stream.open file).readWord 8 junk.size).1

/-- `pgt_value` of a file. -/
def pgtArray (junk : PgtJunk) (file : List UInt8) : List Nat :=
  fillPgt ((List.range (pgtRemained (headerSize junk file))).map junk.word)
    ⟨file.drop 32, decide (file.length < 32)⟩

/-- The words that are stored fit into the array, and so do the tables that are announced. -/
structure PgtInBounds (junk : PgtJunk) (file : List UInt8) : Prop where
  fill : fillTurns file ≤ pgtRemained (headerSize junk file)
  tables : 513 * (dumpTables (pgtArray junk file) 3 0).length ≤ pgtRemained (headerSize junk file)

theorem turnsFrom_of_lt {bytes : List UInt8} (h : bytes.length < 8) : turnsFrom bytes = 1 := by
  unfold turnsFrom
  rw [Nat.div_eq_of_lt h]
  rfl

theorem turnsFrom_of_le {bytes : List UInt8} (h : 8 ≤ bytes.length) :
    turnsFrom bytes
      = if Bytes.val (bytes.take 8) = endMarker then 1 else turnsFrom (bytes.drop 8) + 1 := by
  have hcount : bytes.length / 8 = (bytes.drop 8).length / 8 + 1 := by
    rw [List.length_drop]
    omega
  unfold turnsFrom
  rw [hcount, fullWords, List.findIdx_cons]
  by_cases hmarker : Bytes.val (bytes.take 8) = endMarker
  · rw [if_pos hmarker, beq_iff_eq.mpr hmarker]
    rfl
  · rw [if_neg hmarker, beq_eq_false_iff_ne.mpr hmarker]
    rfl

theorem length_fillPgt : ∀ (slots : List Nat) (f : Stream),
    (fillPgt slots f).length = slots.length := by
  intro slots
  induction slots with
  | nil => exact fun _ => rfl
  | cons old slots ih =>
      intro f
      rw [fillPgt]
      split
      · rfl
      · split
        · rfl
        · rw [List.length_cons, List.length_cons, ih]

/-- A loop that is at the end of the file stays where it is. -/
theorem readPgtValue_end (slots : List Nat) {f : Stream} (h : f.eof = true) :
    readPgtValue slots f = .ok (slots, 0, f) := by
  cases slots with
  | nil => rw [readPgtValue, if_pos h]
  | cons old slots => rw [readPgtValue, if_pos h]

theorem fillPgt_end (slots : List Nat) {f : Stream} (h : f.eof = true) : fillPgt slots f = slots := by
  cases slots with
  | nil => rfl
  | cons old slots => rw [fillPgt, if_pos h]

/-- **The loop stays inside the array exactly when the words fit.** -/
theorem readPgtValue_fits :
    ∀ (slots : List Nat) (bytes : List UInt8),
      (turnsFrom bytes ≤ slots.length ∧ ∃ cnt f, readPgtValue slots ⟨bytes, false⟩
        = .ok (fillPgt slots ⟨bytes, false⟩, cnt, f)) ∨
      (slots.length < turnsFrom bytes ∧ readPgtValue slots ⟨bytes, false⟩ = .error .undefined) := by
  intro slots
  induction slots with
  | nil => exact fun bytes => .inr ⟨Nat.succ_pos _, rfl⟩
  | cons old slots ih =>
      intro bytes
      rw [readPgtValue, fillPgt, if_neg Bool.false_ne_true, if_neg Bool.false_ne_true]
      dsimp only
      have hstream : (Stream.readWord 8 old ⟨bytes, false⟩).2
          = ⟨bytes.drop 8, decide (bytes.length < 8)⟩ := by
        show Stream.mk _ (false || _) = _
        rw [Bool.false_or]
      by_cases hshort : bytes.length < 8
      · -- the read comes up short, and ends the loop
        refine .inl ⟨by rw [turnsFrom_of_lt hshort, List.length_cons]; omega, ?_⟩
        have hend : (Stream.readWord 8 old ⟨bytes, false⟩).2.eof = true := by
          rw [hstream]
          exact decide_eq_true hshort
        by_cases hmarker : (Stream.readWord 8 old ⟨bytes, false⟩).1 = endMarker
        · have hmarker' : (Stream.readWord 8 old ⟨bytes, false⟩).1 = 0xFFFFFFFFFF := hmarker
          rw [if_pos hmarker, if_pos hmarker']
          exact ⟨_, _, rfl⟩
        · have hmarker' : ¬ (Stream.readWord 8 old ⟨bytes, false⟩).1 = 0xFFFFFFFFFF := hmarker
          rw [if_neg hmarker, if_neg hmarker', readPgtValue_end slots hend, fillPgt_end slots hend,
            Except.ok_bind]
          exact ⟨_, _, rfl⟩
      · have hle : 8 ≤ bytes.length := Nat.le_of_not_lt hshort
        have hword : (Stream.readWord 8 old ⟨bytes, false⟩).1 = Bytes.val (bytes.take 8) := by
          have hread := @Stream.read_append 8 (bytes.take 8) (List.length_take_of_le hle)
            (Bytes.le 8 old) (Nat.le_of_eq (Bytes.length_le 8 old)) (bytes.drop 8) false
          rw [List.take_append_drop] at hread
          show Bytes.val (Stream.read 8 (Bytes.le 8 old) ⟨bytes, false⟩).1 = _
          rw [hread]
        have hmore : (Stream.readWord 8 old ⟨bytes, false⟩).2 = ⟨bytes.drop 8, false⟩ := by
          rw [hstream, decide_eq_false hshort]
        rw [turnsFrom_of_le hle, hword, hmore, List.length_cons]
        by_cases hmarker : Bytes.val (bytes.take 8) = endMarker
        · have hmarker' : Bytes.val (bytes.take 8) = 0xFFFFFFFFFF := hmarker
          rw [if_pos hmarker, if_pos hmarker, if_pos hmarker']
          exact .inl ⟨Nat.succ_le_succ (Nat.zero_le _), _, _, rfl⟩
        · have hmarker' : ¬ Bytes.val (bytes.take 8) = 0xFFFFFFFFFF := hmarker
          rw [if_neg hmarker, if_neg hmarker, if_neg hmarker']
          rcases ih (bytes.drop 8) with ⟨hfits, cnt, f, hrun⟩ | ⟨hover, hrun⟩
          · rw [hrun, Except.ok_bind]
            exact .inl ⟨Nat.succ_le_succ hfits, _, _, rfl⟩
          · rw [hrun]
            exact .inr ⟨Nat.succ_lt_succ hover, rfl⟩

/-! ### Building the tables -/

section Build

variable {value : List Nat} {junk : Nat → Nat → UserPtr} {base : Nat}

/-- Building one level down does not abort: the frames are aligned. -/
def NeverAborts (next : Nat → Machine → Except Stop Built) : Prop :=
  ∀ (offset : Nat) (m : Machine), (∀ f ∈ m.pool, f % 4096 = 0) →
    (∀ msg, next offset m ≠ .error (.abort msg)) ∧
      ∀ b, next offset m = .ok b → ∀ f ∈ b.machine.pool, f ∈ m.pool

/-- Building one level down succeeds where the tables are in the array and there is a frame for
each. -/
def Completes (value : List Nat) (base n : Nat) (next : Nat → Machine → Except Stop Built) : Prop :=
  ∀ (j : Nat) (m : Machine), 513 * (j + (dumpTables value n j).length) ≤ value.length →
    m.heap.length = base + j → (∀ f ∈ m.pool, f % 4096 = 0) →
    (dumpTables value n j).length ≤ m.pool.length →
    ∃ b, next (513 * j) m = .ok b ∧ b.machine.pool = m.pool.drop (dumpTables value n j).length

theorem newTable_aligned {m : Machine} (haligned : ∀ f ∈ m.pool, f % 4096 = 0) :
    (m.pool = [] ∧ newTable junk m = .error .undefined) ∨
      ∃ frame pool, m.pool = frame :: pool ∧ frame % 4096 = 0 ∧
        newTable junk m = .ok (frame, ⟨m.mem, pool, m.heap ++ [⟨frame, junk m.heap.length⟩]⟩) := by
  cases hpool : m.pool with
  | nil =>
      refine .inl ⟨rfl, ?_⟩
      unfold newTable allocPage
      rw [hpool]
      rfl
  | cons frame pool =>
      have hframe : frame % 4096 = 0 := haligned frame (by rw [hpool]; exact List.mem_cons_self)
      exact .inr ⟨frame, pool, rfl, hframe, newTable_eq junk hpool hframe⟩

theorem oldPteValue_cases (offset : Nat) :
    (∃ ws, oldPteValue value offset = .ok ws ∧ ws.length = 512) ∨
      oldPteValue value offset = .error .undefined := by
  unfold oldPteValue
  split
  next hle =>
    refine .inl ⟨_, rfl, ?_⟩
    rw [List.length_take, List.length_drop]
    omega
  next => exact .inr rfl

theorem constructEntries_neverAborts {next : Nat → Machine → Except Stop Built} (level node : Nat)
    (hnext : NeverAborts next) :
    ∀ (ws : List Nat) (i offset : Nat) (m : Machine), (∀ f ∈ m.pool, f % 4096 = 0) →
      (∀ msg, constructEntries next level node i ws offset m ≠ .error (.abort msg)) ∧
        ∀ r, constructEntries next level node i ws offset m = .ok r →
          r.1.length = ws.length ∧ ∀ f ∈ r.2.2.pool, f ∈ m.pool := by
  intro ws
  induction ws with
  | nil =>
      intro i offset m _
      refine ⟨fun _ h => (by cases h), fun r hr => ?_⟩
      obtain rfl := Except.ok.inj hr
      exact ⟨rfl, fun f hf => hf⟩
  | cons w ws ih =>
      intro i offset m haligned
      rw [constructEntries]
      by_cases hw : pteIsValid w level = true
      · rw [if_pos hw]
        obtain ⟨hnot, hpool⟩ := hnext ((offset + 513) % 2 ^ 32) m haligned
        cases hb : next ((offset + 513) % 2 ^ 32) m with
        | error e =>
            refine ⟨fun msg h => hnot msg ?_, fun r h => by cases h⟩
            rw [hb, Except.error.inj h]
        | ok b =>
            have hin := hpool b hb
            obtain ⟨hnot', hrest⟩ := ih (i + 1) b.offset (b.machine.setPgd node i b.userPgd)
              fun f hf => haligned f (hin f hf)
            rw [Except.ok_bind]
            cases hr : constructEntries next level node (i + 1) ws b.offset
                (b.machine.setPgd node i b.userPgd) with
            | error e =>
                refine ⟨fun msg h => hnot' msg ?_, fun r h => by cases h⟩
                rw [hr, Except.error.inj h]
            | ok r =>
                obtain ⟨hlen, hsub⟩ := hrest r hr
                refine ⟨fun _ h => (by cases h), fun r' hr' => ?_⟩
                obtain rfl := Except.ok.inj hr'
                exact ⟨congrArg (· + 1) hlen, fun f hf => hin f (hsub f hf)⟩
      · rw [if_neg hw]
        obtain ⟨hnot, hrest⟩ := ih (i + 1) offset m haligned
        cases hr : constructEntries next level node (i + 1) ws offset m with
        | error e =>
            refine ⟨fun msg h => hnot msg ?_, fun r h => by cases h⟩
            rw [hr, Except.error.inj h]
        | ok r =>
            obtain ⟨hlen, hsub⟩ := hrest r hr
            refine ⟨fun _ h => (by cases h), fun r' hr' => ?_⟩
            obtain rfl := Except.ok.inj hr'
            exact ⟨congrArg (· + 1) hlen, hsub⟩

theorem grConstructPgt_neverAborts (n : Nat) : NeverAborts (grConstructPgt junk value n) := by
  induction n with
  | zero =>
      intro offset m haligned
      rw [grConstructPgt]
      rcases @newTable_aligned junk m haligned with ⟨-, hnew⟩ | ⟨frame, pool, hpool, hframe, hnew⟩
      · rw [hnew]
        exact ⟨fun _ h => (by cases h), fun _ h => by cases h⟩
      · rw [hnew, Except.ok_bind]
        rcases @oldPteValue_cases value offset with ⟨ws, hold, hlength⟩ | hold
        · dsimp only
          rw [hold, Except.ok_bind, finishTable_eq hframe hlength]
          refine ⟨fun _ h => (by cases h), fun b hb f hf => ?_⟩
          obtain rfl := Except.ok.inj hb
          rw [hpool]
          exact List.mem_cons_of_mem _ hf
        · dsimp only
          rw [hold]
          exact ⟨fun _ h => (by cases h), fun _ h => by cases h⟩
  | succ n ih =>
      intro offset m haligned
      rw [grConstructPgt]
      rcases @newTable_aligned junk m haligned with ⟨-, hnew⟩ | ⟨frame, pool, hpool, hframe, hnew⟩
      · rw [hnew]
        exact ⟨fun _ h => (by cases h), fun _ h => by cases h⟩
      · rw [hnew, Except.ok_bind]
        rcases @oldPteValue_cases value offset with ⟨ws, hold, hlength⟩ | hold
        · dsimp only
          rw [hold, Except.ok_bind]
          have hlater : ∀ f ∈ pool, f ∈ m.pool := fun f hf => by
            rw [hpool]
            exact List.mem_cons_of_mem _ hf
          obtain ⟨hnot, hrest⟩ := constructEntries_neverAborts (3 - (n + 1)) m.heap.length ih ws 0
            offset ⟨m.mem, pool, m.heap ++ [⟨frame, junk m.heap.length⟩]⟩
            fun f hf => haligned f (hlater f hf)
          cases hr : constructEntries (grConstructPgt junk value n) (3 - (n + 1)) m.heap.length 0 ws
              offset ⟨m.mem, pool, m.heap ++ [⟨frame, junk m.heap.length⟩]⟩ with
          | error e =>
              refine ⟨fun msg h => hnot msg ?_, fun b h => by cases h⟩
              rw [hr, Except.error.inj h]
          | ok r =>
              obtain ⟨hlen, hsub⟩ := hrest r hr
              rw [Except.ok_bind, finishTable_eq hframe (hlen.trans hlength)]
              refine ⟨fun _ h => (by cases h), fun b hb f hf => ?_⟩
              obtain rfl := Except.ok.inj hb
              exact hlater f (hsub f hf)
        · dsimp only
          rw [hold]
          exact ⟨fun _ h => (by cases h), fun _ h => by cases h⟩

theorem oldPteValue_inside (hlen : value.length < 2 ^ 32) {j : Nat}
    (hj : 513 * (j + 1) ≤ value.length) :
    oldPteValue value (513 * j) = .ok (dumpTable value j) ∧ (dumpTable value j).length = 512 := by
  have hcursor : (513 * j + 1) % 2 ^ 32 = 513 * j + 1 := Nat.mod_eq_of_lt (by omega)
  unfold oldPteValue dumpTable
  rw [hcursor, if_pos (by omega), List.length_take, List.length_drop]
  exact ⟨rfl, by omega⟩

/-- **The loop over the entries completes** where the tables they announce are in the array. -/
theorem constructEntries_completes {n node : Nat} {next : Nat → Machine → Except Stop Built}
    (hlen : value.length < 2 ^ 32) (hshape : ShapesBelow value junk base n next)
    (hnext : Completes value base n next) (level : Nat) :
    ∀ (ws : List Nat) (i last : Nat) (m : Machine),
      513 * (last + 1 + (tablesOf (dumpTables value n) level ws last).length) ≤ value.length →
      m.heap.length = base + last + 1 → (∀ f ∈ m.pool, f % 4096 = 0) →
      (tablesOf (dumpTables value n) level ws last).length ≤ m.pool.length →
      ∃ r, constructEntries next level node i ws (513 * last) m = .ok r ∧
        r.1.length = ws.length ∧
        r.2.2.pool = m.pool.drop (tablesOf (dumpTables value n) level ws last).length := by
  intro ws
  induction ws with
  | nil => exact fun i last m _ _ _ _ => ⟨_, rfl, rfl, rfl⟩
  | cons w ws ih =>
      intro i last m hinside hgrown haligned hroom
      rw [constructEntries]
      rw [tablesOf] at hinside hroom ⊢
      by_cases hw : pteIsValid w level = true
      · rw [if_pos hw, List.length_append] at hinside hroom
        rw [if_pos hw, if_pos hw, List.length_append]
        have hcursor : (513 * last + 513) % 2 ^ 32 = 513 * (last + 1) := by
          rw [Nat.mod_eq_of_lt (by omega)]
          omega
        rw [hcursor]
        obtain ⟨b, hb, hpool⟩ := hnext (last + 1) m (by omega) (by omega) haligned (by omega)
        have hbuilt := hshape (last + 1) m b (by omega) (by omega) hb
        have hoffset : b.offset = 513 * (last + (dumpTables value n (last + 1)).length) := by
          have := hbuilt.offset
          omega
        have hset : (b.machine.setPgd node i b.userPgd).heap.length = b.machine.heap.length :=
          List.length_modify ..
        have hgrown' := hbuilt.grown
        have hpool' : (b.machine.setPgd node i b.userPgd).pool
            = m.pool.drop (dumpTables value n (last + 1)).length := hpool
        obtain ⟨r, hr, hlength, hrest⟩ := ih (i + 1)
          (last + (dumpTables value n (last + 1)).length) (b.machine.setPgd node i b.userPgd)
          (by omega) (by rw [hset]; omega)
          (fun f hf => haligned f (List.mem_of_mem_drop (hpool' ▸ hf)))
          (by rw [hpool', List.length_drop]; omega)
        rw [hb, Except.ok_bind, hoffset, hr]
        refine ⟨_, rfl, congrArg (· + 1) hlength, ?_⟩
        show r.2.2.pool = _
        rw [hrest, hpool', List.drop_drop]
      · rw [if_neg hw] at hinside hroom
        rw [if_neg hw, if_neg hw]
        obtain ⟨r, hr, hlength, hrest⟩ := ih (i + 1) last m hinside hgrown haligned hroom
        rw [hr]
        exact ⟨_, rfl, congrArg (· + 1) hlength, hrest⟩

theorem grConstructPgt_completes (hlen : value.length < 2 ^ 32) (n : Nat) :
    Completes value base n (grConstructPgt junk value n) := by
  induction n with
  | zero =>
      intro j m hinside hgrown haligned hroom
      have hone : (dumpTables value 0 j).length = 1 := rfl
      rw [hone] at hinside hroom ⊢
      obtain ⟨hold, hlength⟩ := oldPteValue_inside hlen hinside
      rcases @newTable_aligned junk m haligned with ⟨hempty, -⟩ | ⟨frame, pool, hpool, hframe, hnew⟩
      · rw [hempty] at hroom
        exact absurd hroom (by decide)
      · rw [grConstructPgt, hnew, Except.ok_bind]
        dsimp only
        rw [hold, Except.ok_bind, finishTable_eq hframe hlength]
        exact ⟨_, rfl, by rw [hpool]; rfl⟩
  | succ n ih =>
      intro j m hinside hgrown haligned hroom
      have hcount : (dumpTables value (n + 1) j).length
          = (tablesOf (dumpTables value n) (3 - (n + 1)) (dumpTable value j) j).length + 1 := by
        rw [dumpTables, List.length_cons]
      rw [hcount] at hinside hroom ⊢
      obtain ⟨hold, hlength⟩ := oldPteValue_inside hlen (j := j) (by omega)
      rcases @newTable_aligned junk m haligned with ⟨hempty, -⟩ | ⟨frame, pool, hpool, hframe, hnew⟩
      · rw [hempty] at hroom
        exact absurd hroom (Nat.not_succ_le_zero _)
      · rw [grConstructPgt, hnew, Except.ok_bind]
        dsimp only
        rw [hold, Except.ok_bind]
        have hlater : ∀ f ∈ pool, f % 4096 = 0 := fun f hf =>
          haligned f (by rw [hpool]; exact List.mem_cons_of_mem _ hf)
        rw [hpool, List.length_cons] at hroom
        obtain ⟨r, hr, hwords, hrest⟩ := @constructEntries_completes value junk base n m.heap.length
          _ hlen (grConstructPgt_shape hlen n) ih (3 - (n + 1)) (dumpTable value j) 0 j
          ⟨m.mem, pool, m.heap ++ [⟨frame, junk m.heap.length⟩]⟩ (by omega)
          (by
            show (m.heap ++ [_]).length = _
            rw [List.length_append, List.length_singleton, hgrown])
          hlater (by dsimp only; omega)
        rw [hr, Except.ok_bind, finishTable_eq hframe (hwords.trans hlength)]
        refine ⟨_, rfl, ?_⟩
        show r.2.2.pool = _
        rw [hrest, hpool, List.drop_succ_cons]

/-- **The reconstruction stays inside the array exactly when the tables do.** -/
theorem grConstructPgt_fits (hlen : value.length < 2 ^ 32) {m : Machine}
    (haligned : ∀ f ∈ m.pool, f % 4096 = 0) (hroom : value.length / 513 ≤ m.pool.length) :
    grConstructPgt junk value 3 0 m ≠ .error .undefined ↔
      513 * (dumpTables value 3 0).length ≤ value.length := by
  constructor
  · intro hne
    cases hrun : grConstructPgt junk value 3 0 m with
    | error e =>
        cases e with
        | abort msg => exact absurd hrun ((grConstructPgt_neverAborts 3 0 m haligned).1 msg)
        | undefined => exact absurd hrun hne
    | ok b =>
        have hinside := (grConstructPgt_shape hlen 3 0 m b (Nat.zero_le _) rfl hrun).inside
        rwa [Nat.zero_add] at hinside
  · intro hinside
    obtain ⟨b, hrun, -⟩ := @grConstructPgt_completes value junk m.heap.length hlen 3 0 m
      (by rwa [Nat.zero_add]) rfl haligned (by omega)
    have hrun' : grConstructPgt junk value 3 0 m = .ok b := hrun
    rw [hrun']
    exact fun h => by cases h

end Build

/-! ### The whole file -/

theorem pgtRemained_lt (size : Nat) : pgtRemained size < 2 ^ 32 := Nat.mod_lt _ (Nat.two_pow_pos 32)

/-- The stream after the header. -/
theorem stream_after_header (junk : PgtJunk) (file : List UInt8) :
    (((((Stream.open file).readWord 8 junk.size).2.readWord 8 junk.transtab).2.readWord 8
      junk.memattr).2.readWord 8 junk.transcfg).2 = ⟨file.drop 32, decide (file.length < 32)⟩ := by
  show Stream.mk (List.drop 8 (List.drop 8 (List.drop 8 (List.drop 8 file)))) _ = _
  rw [List.drop_drop, List.drop_drop, List.drop_drop]
  refine congrArg (Stream.mk _) ?_
  show (((false || decide (file.length < 8)) || decide ((file.drop 8).length < 8)
    || decide (((file.drop 8).drop 8).length < 8))
    || decide ((((file.drop 8).drop 8).drop 8).length < 8)) = decide (file.length < 32)
  simp only [List.length_drop, Bool.false_or, ← Bool.decide_or]
  refine decide_eq_decide.mpr ?_
  omega

/-- First the array is filled, then the tables are built from it. -/
theorem grPgtInit_eq (junk : PgtJunk) (m : Machine) (file : List UInt8) :
    grPgtInit junk m file
      = readPgtValue ((List.range (pgtRemained (headerSize junk file))).map junk.word)
          ⟨file.drop 32, decide (file.length < 32)⟩ >>= fun r =>
        grConstructPgt junk.node r.1 3 0 m >>= fun b =>
          .ok ⟨(((Stream.open file).readWord 8 junk.size).2.readWord 8 junk.transtab).1, b.pgd,
            b.userPgd, b.machine, r.1, r.2.1, b.offset, r.2.2.eof⟩ := by
  rw [← stream_after_header junk file]
  rfl

/-- **Whatever the bytes, loading the page table stays inside its array exactly when the words that
are stored and the tables that are announced fit into it.** -/
theorem grPgtInit_safe_iff (junk : PgtJunk) (file : List UInt8) {m : Machine}
    (haligned : ∀ f ∈ m.pool, f % 4096 = 0)
    (hroom : pgtRemained (headerSize junk file) / 513 ≤ m.pool.length) :
    grPgtInit junk m file ≠ .error .undefined ↔ PgtInBounds junk file := by
  have hlength : ((List.range (pgtRemained (headerSize junk file))).map junk.word).length
      = pgtRemained (headerSize junk file) := by
    rw [List.length_map, List.length_range]
  have harray : (pgtArray junk file).length = pgtRemained (headerSize junk file) := by
    rw [pgtArray, length_fillPgt, hlength]
  -- once the array is filled, it is up to the tables
  have htables : ∀ cnt f, readPgtValue ((List.range (pgtRemained (headerSize junk file))).map
        junk.word) ⟨file.drop 32, decide (file.length < 32)⟩ = .ok (pgtArray junk file, cnt, f) →
      (grPgtInit junk m file ≠ .error .undefined ↔
        513 * (dumpTables (pgtArray junk file) 3 0).length
          ≤ pgtRemained (headerSize junk file)) := by
    intro cnt f hread
    rw [grPgtInit_eq, hread, Except.ok_bind]
    rw [← harray, ← @grConstructPgt_fits _ junk.node (by rw [harray]; exact pgtRemained_lt _) m
      haligned (by rw [harray]; exact hroom)]
    dsimp only
    cases grConstructPgt junk.node (pgtArray junk file) 3 0 m with
    | error e =>
        cases e with
        | abort msg => exact ⟨fun _ h => (by cases h), fun _ h => (by cases h)⟩
        | undefined => exact ⟨fun h => absurd rfl h, fun h => absurd rfl h⟩
    | ok b => exact ⟨fun _ h => (by cases h), fun _ h => (by cases h)⟩
  by_cases hshort : file.length < 32
  · have hread := readPgtValue_end ((List.range (pgtRemained (headerSize junk file))).map junk.word)
      (f := ⟨file.drop 32, decide (file.length < 32)⟩) (decide_eq_true hshort)
    have hsame : pgtArray junk file
        = (List.range (pgtRemained (headerSize junk file))).map junk.word :=
      fillPgt_end _ (decide_eq_true hshort)
    have hfill : fillTurns file = 0 := if_pos hshort
    rw [htables _ _ (by rw [hread, hsame])]
    exact ⟨fun h => ⟨by rw [hfill]; exact Nat.zero_le _, h⟩, fun h => h.tables⟩
  · have hfill : fillTurns file = turnsFrom (file.drop 32) := if_neg hshort
    have heof : (⟨file.drop 32, decide (file.length < 32)⟩ : Stream) = ⟨file.drop 32, false⟩ := by
      rw [decide_eq_false hshort]
    rcases readPgtValue_fits ((List.range (pgtRemained (headerSize junk file))).map junk.word)
      (file.drop 32) with ⟨hfits, cnt, f, hread⟩ | ⟨hover, hread⟩
    · rw [← heof] at hread
      rw [htables cnt f hread]
      rw [hlength, ← hfill] at hfits
      exact ⟨fun h => ⟨hfits, h⟩, fun h => h.tables⟩
    · rw [hlength, ← hfill] at hover
      rw [grPgtInit_eq, heof, hread]
      exact ⟨fun h => absurd rfl h, fun h => absurd h.fill (Nat.not_le_of_lt hover)⟩

/-! ### A size field that is too small -/

/-- A file with room for one word by its size field, and two words in it. -/
def smallFile : List UInt8 := Bytes.words [40, 0, 0, 0, 2, 2]

theorem smallFile_room :
    (∀ f ∈ rootMachine.pool, f % 4096 = 0) ∧
      pgtRemained (headerSize zeroJunk smallFile) / 513 ≤ rootMachine.pool.length :=
  ⟨by decide, by decide⟩

/-- A file that ends with its header, and whose size field has room for a table. -/
def tableFile : List UInt8 := Bytes.words [32 + 8 * 514, 0, 0, 0]

theorem tableFile_room :
    pgtRemained (headerSize zeroJunk tableFile) / 513 ≤ rootMachine.pool.length := by
  decide

theorem tableFile_inBounds : PgtInBounds zeroJunk tableFile :=
  ⟨by decide, by decide +kernel⟩

/-- Its second word is stored behind the array. -/
theorem smallFile_not_safe :
    grPgtInit zeroJunk rootMachine smallFile = .error .undefined := by
  have heof : decide (smallFile.length < 32) = false := by decide
  rw [grPgtInit_eq, heof]
  rcases readPgtValue_fits ((List.range (pgtRemained (headerSize zeroJunk smallFile))).map
    zeroJunk.word) (smallFile.drop 32) with ⟨hfits, -⟩ | ⟨-, hread⟩
  · exact absurd hfits (by decide)
  · rw [hread]
    rfl

/-- What is true of every file is true of this one, and of a file with one table, which is
read. -/
theorem smallFile_safe_iff :
    ((∀ f ∈ rootMachine.pool, f % 4096 = 0) ∧
      pgtRemained (headerSize zeroJunk smallFile) / 513 ≤ rootMachine.pool.length) ∧
    (grPgtInit zeroJunk rootMachine smallFile ≠ .error .undefined ↔
      PgtInBounds zeroJunk smallFile) ∧
    grPgtInit zeroJunk rootMachine tableFile ≠ .error .undefined := by
  obtain ⟨haligned, hroom⟩ := smallFile_room
  exact ⟨⟨haligned, hroom⟩, grPgtInit_safe_iff zeroJunk smallFile haligned hroom,
    (grPgtInit_safe_iff zeroJunk tableFile haligned tableFile_room).mpr tableFile_inBounds⟩

end GpuReplay.Replayer
