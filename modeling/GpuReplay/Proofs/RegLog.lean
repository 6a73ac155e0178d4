/-
The register log: recorded in a ring, printed, scanned and linked.

`Ring` says what the ring holds, the accesses added last, whether or not it has wrapped.
As long as it has not, the dump is a line for each access, each line scans back to what it
was printed from, and the last one leaves the file at its end, so that the loop stops
there.  `Linked` says what the list of nodes is.
-/
import GpuReplay.Driver.IoHistory
import GpuReplay.Lib.RingBuffer
import GpuReplay.Replayer.RegList

namespace GpuReplay

open Driver Replayer Text

/-! ### The ring -/

/-- An access to a register, as `gr_io_history_add` is told of it. -/
structure RegAccess extends RegOp where
  now : Nat
  current : Nat
  deriving Repr, DecidableEq

/-- The arguments fit their types, and registers are words. -/
structure RegAccess.WF (a : RegAccess) : Prop where
  word : a.offset % 4 = 0
  offset_lt : a.offset < 2 ^ 32
  value_lt : a.value < 2 ^ 32
  now_lt : a.now < 2 ^ 64

/-- The entry of an access. -/
def RegAccess.io (a : RegAccess) : IoAccess := ⟨a.offset ||| a.writeFlag, a.value, a.now, a.current⟩

theorem RegAccess.timestamp_io (a : RegAccess) : a.io.timestamp = a.now := rfl

/-- One access recorded. -/
def recordAccess (h : IoHistory) (a : RegAccess) : IoHistory :=
  grIoHistoryAdd h a.offset a.value a.writeFlag a.now a.current

/-- The accesses recorded, one after the other. -/
def recordAll (h : IoHistory) (accesses : List RegAccess) : IoHistory := accesses.foldl recordAccess h

/-- The ring holds the last of `accesses`, as many as there is room for.  The count may have
overflowed; it is then not their number, but still the place of the next one. -/
structure Ring (h : IoHistory) (accesses : List RegAccess) : Prop where
  size_pos : 0 < h.size
  count_lt : h.count < 2 ^ 64
  count_le : h.count ≤ accesses.length
  place : h.count % h.size = accesses.length % h.size
  filling : h.count < h.size → h.count = accesses.length
  slots : ∀ i a, accesses[i]? = some a → accesses.length ≤ i + h.size → h.buf (i % h.size) = a.io

theorem ring_init (junk : Nat → IoAccess) {size : Nat} (hsize : 0 < size) :
    Ring (grIoHistoryInit junk size) [] where
  size_pos := hsize
  count_lt := Nat.two_pow_pos 64
  count_le := Nat.le_refl 0
  place := rfl
  filling := fun _ => rfl
  slots := fun _ a h => absurd h.symm (Option.some_ne_none a)

/-- The count can go on: it does not overflow, or the size divides what it overflows at. -/
def CanCount (size length : Nat) : Prop := length < 2 ^ 64 ∨ (size ∣ 2 ^ 64 ∧ size < 2 ^ 64)

/-- What the ring says of the count and of the slots. -/
theorem ring_iff {h : IoHistory} {accesses : List RegAccess} :
    Ring h accesses ↔ 0 < h.size ∧ RingBuffer.Counts (2 ^ 64) h.size h.count accesses.length ∧
      RingBuffer.Holds Eq h.size h.buf (accesses.map RegAccess.io) := by
  refine ⟨fun hr => ⟨hr.size_pos, ⟨hr.count_lt, hr.count_le, hr.place, hr.filling⟩, ?_⟩,
    fun ⟨hpos, hc, hslots⟩ => ⟨hpos, hc.lt, hc.le, hc.place, hc.filling, fun i a hi hlast => ?_⟩⟩
  · intro i io hi hlast
    rw [List.getElem?_map] at hi
    obtain ⟨a, ha, rfl⟩ := Option.map_eq_some_iff.mp hi
    rw [List.length_map] at hlast
    exact hr.slots i a ha hlast
  · refine hslots i a.io ?_ (by rwa [List.length_map])
    rw [List.getElem?_map, hi]
    rfl

/-- The entry of an access goes to the slot the count says. -/
theorem holds_record {h : IoHistory} {accesses : List RegAccess}
    (hslots : RingBuffer.Holds Eq h.size h.buf (accesses.map RegAccess.io))
    (hplace : h.count % h.size = accesses.length % h.size) (a : RegAccess) :
    RingBuffer.Holds Eq h.size (fun i => if i = h.count % h.size then a.io else h.buf i)
      ((accesses ++ [a]).map RegAccess.io) := by
  rw [List.map_append]
  refine hslots.add (fun j hj b hb => ?_) ?_
  · rw [List.length_map, ← hplace] at hj
    rwa [if_neg hj]
  · rw [List.length_map, ← hplace, if_pos rfl]

theorem Ring.record {h : IoHistory} {accesses : List RegAccess} (hr : Ring h accesses)
    (a : RegAccess) (hroom : CanCount h.size (accesses.length + 1)) :
    Ring (recordAccess h a) (accesses ++ [a]) := by
  obtain ⟨hpos, hcount, hslots⟩ := ring_iff.mp hr
  refine ring_iff.mpr ⟨hpos, ?_, ?_⟩
  · rw [List.length_append]
    exact hcount.next hroom
  · exact holds_record hslots hcount.place a

theorem size_recordAll (h : IoHistory) (accesses : List RegAccess) :
    (recordAll h accesses).size = h.size := by
  induction accesses generalizing h with
  | nil => rfl
  | cons a accesses ih => exact ih (recordAccess h a)

theorem ring_recordAll {h : IoHistory} {accesses : List RegAccess} (hr : Ring h accesses) :
    ∀ more : List RegAccess, accesses.length + more.length < 2 ^ 64 →
      Ring (recordAll h more) (accesses ++ more) := by
  intro more
  induction more generalizing h accesses with
  | nil =>
      intro _
      rw [List.append_nil]
      exact hr
  | cons a more ih =>
      intro hroom
      rw [List.length_cons] at hroom
      have hnext := ih (hr.record a (Or.inl (by omega))) (by
        rw [List.length_append, List.length_singleton]
        omega)
      rwa [List.append_assoc] at hnext

/-- The dump takes as many turns as there are accesses in the ring. -/
theorem Ring.iters_eq {h : IoHistory} {accesses : List RegAccess} (hr : Ring h accesses) :
    h.iters = min accesses.length h.size :=
  (ring_iff.mp hr).2.1.kept_eq

/-- **The dump goes over the accesses recorded last, in order.** -/
theorem Ring.entries {h : IoHistory} {accesses : List RegAccess} (hr : Ring h accesses) :
    (List.range h.iters).map h.entry =
      (accesses.drop (accesses.length - h.iters)).map RegAccess.io := by
  obtain ⟨-, hcount, hslots⟩ := ring_iff.mp hr
  have hlength : accesses.length = (accesses.map RegAccess.io).length := (List.length_map _).symm
  rw [List.map_drop, hlength]
  exact hslots.read (by rwa [List.length_map])

/-! ### A line -/

/-- What the replay should make of an access: `delta` is the time since the one before. -/
def RegAccess.replayed (a : RegAccess) (delta : Nat) : RegIo :=
  ⟨delta, if a.write then 'W' else 'R', a.offset, a.value⟩

/-- The flag comes off the address again. -/
theorem RegAccess.WF.unfold {a : RegAccess} (h : a.WF) :
    (a.offset ||| a.writeFlag) % 2 = a.writeFlag ∧
      (a.offset ||| a.writeFlag) % 2 ^ 32 / 2 * 2 = a.offset := by
  have hlt := h.offset_lt
  have heven : a.offset % 2 = 0 := by
    have := h.word
    omega
  unfold RegOp.writeFlag
  cases a.write with
  | false =>
      rw [if_neg Bool.false_ne_true, Nat.or_zero]
      omega
  | true =>
      have hor : a.offset ||| 1 = a.offset + 1 := by
        have := Nat.two_pow_add_eq_or_of_lt (i := 1) (b := 1) (by decide) (a.offset / 2)
        rw [show 2 ^ 1 * (a.offset / 2) = a.offset by omega] at this
        exact this.symm
      rw [if_pos rfl, hor]
      omega

theorem literal_cons (c : Char) (rest : List Char) (eof : Bool) :
    literal c ⟨c :: rest, eof⟩ = .ok ⟨rest, eof⟩ := if_pos rfl

/-- **A line scans back to the access it was printed for.** -/
theorem scanReg_dumpLine {a : RegAccess} (h : a.WF) {delta : Nat} (hdelta : delta < 2 ^ 64)
    (io : RegIo) (rest : List Char) (eof : Bool) :
    scanReg io ⟨dumpLine delta a.io ++ rest, eof⟩ =
      (a.replayed delta, skipSpace ⟨'\n' :: rest, eof⟩) := by
  obtain ⟨hflag, hoffset⟩ := h.unfold
  have hdir : (if a.io.addr % 2 = 1 then 'W' else 'R') = if a.write then 'W' else 'R' := by
    show (if (a.offset ||| a.writeFlag) % 2 = 1 then 'W' else 'R') = _
    rw [hflag]
    unfold RegOp.writeFlag
    cases a.write with
    | false => rfl
    | true => rfl
  have hline : dumpLine delta a.io ++ rest = Nat.toDigits 10 delta ++ ',' ::
      (if a.write then 'W' else 'R') :: ',' :: (Nat.toDigits 16 a.offset ++ ',' ::
        (Nat.toDigits 16 a.value ++ '\n' :: rest)) := by
    unfold dumpLine
    rw [hdir]
    show _ ++ ',' :: _ :: ',' :: (Nat.toDigits 16 ((a.offset ||| a.writeFlag) % 2 ^ 32 / 2 * 2) ++
      ',' :: (Nat.toDigits 16 a.value ++ ['\n'])) ++ rest = _
    rw [hoffset]
    simp only [List.append_assoc, List.cons_append, List.nil_append]
  have hdigits : ∀ {n : Nat}, n < 2 ^ 64 → ∀ rest, scanUnsigned 16
      ⟨Nat.toDigits 16 n ++ ',' :: rest, eof⟩ = .ok (n, ⟨',' :: rest, eof⟩) := fun hn rest =>
    scanUnsigned_toDigits (by decide) (by decide) hn (by decide) (by decide) rest eof
  have hlast : scanUnsigned 16 ⟨Nat.toDigits 16 a.value ++ '\n' :: rest, eof⟩ =
      .ok (a.value, ⟨'\n' :: rest, eof⟩) :=
    scanUnsigned_toDigits (by decide) (by decide) (Nat.lt_trans h.value_lt (by decide))
      (by decide) (by decide) rest eof
  rw [hline]
  unfold scanReg
  rw [scanUnsigned_toDigits (by decide) (by decide) hdelta (by decide) (by decide)]
  dsimp only
  rw [literal_cons]
  dsimp only [scanChar]
  rw [literal_cons]
  dsimp only
  rw [hdigits (Nat.lt_trans h.offset_lt (by decide))]
  dsimp only
  rw [literal_cons]
  dsimp only
  rw [hlast]
  dsimp only
  rw [Nat.mod_eq_of_lt h.offset_lt, Nat.mod_eq_of_lt h.value_lt]
  rfl

/-! ### The list -/

/-- The list holds `ios`, linked from head to tail. -/
structure Linked (list : RegList) (ios : List RegIo) : Prop where
  cnt : list.cnt = ios.length
  entries : list.nodes.map Prod.fst = ios
  ends : ios ≠ [] → list.head = 0 ∧ list.pos = 0 ∧ list.tail + 1 = ios.length
  links : ∀ i, i + 1 < ios.length → list.nodes[i]?.bind Prod.snd = some (i + 1)

theorem linked_empty (list : RegList) : Linked { list with cnt := 0, nodes := [] } [] where
  cnt := rfl
  entries := rfl
  ends := fun h => absurd rfl h
  links := fun _ hi => absurd hi (Nat.not_lt_zero _)

theorem Linked.append {list : RegList} {ios : List RegIo} (h : Linked list ios) (io : RegIo) :
    Linked (list.append io) (ios ++ [io]) := by
  have hlength : list.nodes.length = ios.length := by
    rw [← h.entries, List.length_map]
  have hone : (ios ++ [io]).length = ios.length + 1 := List.length_append
  unfold RegList.append
  by_cases hcnt : list.cnt = 0
  · have hnil : ios = [] := List.eq_nil_of_length_eq_zero (h.cnt.symm.trans hcnt)
    have hnodes : list.nodes = [] := List.eq_nil_of_length_eq_zero (by rw [hlength, hnil]; rfl)
    rw [if_pos hcnt, hnil, hnodes]
    exact ⟨rfl, rfl, fun _ => ⟨rfl, rfl, rfl⟩, fun i hi => absurd hi (by simp)⟩
  · have hne : ios ≠ [] := fun hnil => hcnt (by rw [h.cnt, hnil]; rfl)
    obtain ⟨hhead, hpos, htail⟩ := h.ends hne
    rw [if_neg hcnt]
    refine ⟨by rw [hone]; exact congrArg (· + 1) h.cnt, ?_, fun _ => ⟨hhead, hpos, ?_⟩, ?_⟩
    · -- the link changes, not the entry
      have hkept : (list.nodes.modify list.tail fun node => (node.1, some list.nodes.length)).map
          Prod.fst = list.nodes.map Prod.fst := by
        refine List.ext_getElem? fun i => ?_
        rw [List.getElem?_map, List.getElem?_map]
        by_cases hi : list.tail = i
        · rw [hi, List.getElem?_modify_eq]
          cases list.nodes[i]? with
          | none => rfl
          | some node => rfl
        · rw [List.getElem?_modify_ne _ _ hi]
      rw [List.map_append, hkept, h.entries]
      rfl
    · rw [hone, hlength]
    · intro i hi
      rw [hone] at hi
      dsimp only
      have hi' : i < list.nodes.length := by omega
      rw [List.getElem?_append_left (by rw [List.length_modify]; exact hi')]
      by_cases hlast : list.tail = i
      · rw [hlast, List.getElem?_modify_eq, List.getElem?_eq_getElem hi']
        show some list.nodes.length = some (i + 1)
        rw [hlength, ← htail, hlast]
      · rw [List.getElem?_modify_ne _ _ hlast]
        exact h.links i (by omega)

/-- What the replay should make of accesses, the one before them at time `prevTs`. -/
def replayedFrom : Nat → List RegAccess → List RegIo
  | _, [] => []
  | prevTs, a :: accesses =>
      a.replayed ((a.now + 2 ^ 64 - prevTs) % 2 ^ 64) :: replayedFrom a.now accesses

/-- After a line comes the next, which starts with a digit. -/
theorem skipSpace_dumpLoop (prevTs : Nat) (a : RegAccess) (accesses : List RegAccess) :
    skipSpace ⟨'\n' :: dumpLoop prevTs ((a :: accesses).map RegAccess.io), false⟩ =
      ⟨dumpLoop prevTs ((a :: accesses).map RegAccess.io), false⟩ := by
  obtain ⟨d, ds, hd, heq⟩ := toDigits_head (show 1 < 10 by decide) (by decide)
    ((a.now + 2 ^ 64 - prevTs) % 2 ^ 64)
  obtain ⟨rest, hrest⟩ : ∃ rest, dumpLoop prevTs ((a :: accesses).map RegAccess.io) =
      d.digitChar :: rest := by
    rw [List.map_cons, dumpLoop, RegAccess.timestamp_io, dumpLine, heq]
    exact ⟨_, rfl⟩
  rw [hrest]
  exact skipSpace_cons (by decide) (isSpace_digitChar (Nat.lt_trans hd (by decide))) rest false

/-- A turn of the loop. -/
theorem regInitLoop_turn (junk : Nat → RegIo) (fuel : Nat) (list : RegList) (text : List Char) :
    regInitLoop junk (fuel + 1) list ⟨text, false⟩ =
      regInitLoop junk fuel (list.append (scanReg (junk list.nodes.length) ⟨text, false⟩).1)
        (scanReg (junk list.nodes.length) ⟨text, false⟩).2 := by
  rw [regInitLoop, if_neg Bool.false_ne_true]

/-- **The loop takes a turn for each line.** -/
theorem regInitLoop_dump (junk : Nat → RegIo) :
    ∀ (accesses : List RegAccess) (a : RegAccess) (prevTs fuel : Nat) (list : RegList)
      (ios : List RegIo), (∀ b ∈ a :: accesses, b.WF) → Linked list ios →
      accesses.length + 1 < fuel →
      ∃ list', regInitLoop junk fuel list
          ⟨dumpLoop prevTs ((a :: accesses).map RegAccess.io), false⟩ = some list' ∧
        Linked list' (ios ++ replayedFrom prevTs (a :: accesses)) := by
  intro accesses
  induction accesses with
  | nil =>
      intro a prevTs fuel list ios hwf hlist hfuel
      obtain ⟨fuel, rfl⟩ : ∃ n, fuel = n + 2 := ⟨fuel - 2, by
        rw [List.length_nil] at hfuel
        omega⟩
      have hscan := scanReg_dumpLine (hwf a List.mem_cons_self)
        (Nat.mod_lt (a.now + 2 ^ 64 - prevTs) (Nat.two_pow_pos 64)) (junk list.nodes.length) [] false
      rw [skipSpace_last (by decide)] at hscan
      refine ⟨list.append (a.replayed ((a.now + 2 ^ 64 - prevTs) % 2 ^ 64)), ?_,
        hlist.append _⟩
      rw [regInitLoop_turn, List.map_cons, List.map_nil, dumpLoop, dumpLoop,
        RegAccess.timestamp_io, hscan]
      exact if_pos rfl
  | cons b accesses ih =>
      intro a prevTs fuel list ios hwf hlist hfuel
      obtain ⟨fuel, rfl⟩ : ∃ n, fuel = n + 1 := ⟨fuel - 1, by omega⟩
      have hscan := scanReg_dumpLine (hwf a List.mem_cons_self)
        (Nat.mod_lt (a.now + 2 ^ 64 - prevTs) (Nat.two_pow_pos 64)) (junk list.nodes.length)
        (dumpLoop a.now ((b :: accesses).map RegAccess.io)) false
      rw [skipSpace_dumpLoop] at hscan
      obtain ⟨list', hloop, hlinked⟩ := ih b a.now fuel
        (list.append (a.replayed ((a.now + 2 ^ 64 - prevTs) % 2 ^ 64))) _
        (fun c hc => hwf c (List.mem_cons_of_mem a hc)) (hlist.append _) (by
          rw [List.length_cons] at hfuel
          omega)
      refine ⟨list', ?_, ?_⟩
      · rw [regInitLoop_turn, List.map_cons, dumpLoop, RegAccess.timestamp_io, hscan]
        exact hloop
      · rw [List.append_assoc] at hlinked
        exact hlinked

/-- The same with the times that passed. -/
def elapsedFrom : Nat → List RegAccess → List RegIo
  | _, [] => []
  | prevTs, a :: accesses => a.replayed (a.now - prevTs) :: elapsedFrom a.now accesses

theorem replayedFrom_eq :
    ∀ (accesses : List RegAccess) (prevTs : Nat), (∀ a ∈ accesses, a.WF ∧ prevTs ≤ a.now) →
      accesses.Pairwise (fun a b => a.now ≤ b.now) →
      replayedFrom prevTs accesses = elapsedFrom prevTs accesses := by
  intro accesses
  induction accesses with
  | nil => exact fun _ _ _ => rfl
  | cons a accesses ih =>
      intro prevTs hwf hmono
      obtain ⟨hfirst, hrest⟩ := List.pairwise_cons.mp hmono
      obtain ⟨hok, hle⟩ := hwf a List.mem_cons_self
      have hlt := hok.now_lt
      have hdelta : (a.now + 2 ^ 64 - prevTs) % 2 ^ 64 = a.now - prevTs := by omega
      rw [replayedFrom, elapsedFrom, hdelta,
        ih a.now (fun b hb => ⟨(hwf b (List.mem_cons_of_mem a hb)).1, hfirst b hb⟩) hrest]

/-! ### The round trip -/

/-- **Recorded, dumped and loaded, the accesses are a list of themselves**, with the time
since the access before in place of the time: as long as the history has room for all. -/
theorem grRegInitList_dump {accesses : List RegAccess} {size : Nat}
    (hcount : 1 ≤ accesses.length ∧ accesses.length ≤ size) (hsize : size < 2 ^ 16)
    (hwf : ∀ a ∈ accesses, a.WF) (hmono : accesses.Pairwise fun a b => a.now ≤ b.now)
    (junkBuf : Nat → IoAccess) (junk : Nat → RegIo) (list : RegList) {fuel : Nat}
    (hfuel : accesses.length < fuel) :
    ∃ list', grRegInitList junk fuel list
        (grIoHistoryDump (recordAll (grIoHistoryInit junkBuf size) accesses)) = some list' ∧
      Linked list' (elapsedFrom (accesses.head?.map RegAccess.now |>.getD 0) accesses) := by
  have hsmall : (2 : Nat) ^ 16 < 2 ^ 64 := by decide
  have hring := ring_recordAll (ring_init junkBuf (by omega : 0 < size)) accesses (by
    rw [List.length_nil]
    omega)
  rw [List.nil_append] at hring
  obtain ⟨a, rest, rfl⟩ : ∃ a rest, accesses = a :: rest :=
    List.exists_cons_of_length_pos (by omega)
  have hiters : (recordAll (grIoHistoryInit junkBuf size) (a :: rest)).iters =
      (a :: rest).length := by
    rw [hring.iters_eq, size_recordAll]
    exact Nat.min_eq_left hcount.2
  have hentries := hring.entries
  rw [hiters, Nat.sub_self, List.drop_zero] at hentries
  -- the first entry is the first access
  have hfirst : (recordAll (grIoHistoryInit junkBuf size) (a :: rest)).entry 0 = a.io := by
    rw [List.length_cons, List.range_succ_eq_map, List.map_cons] at hentries
    exact (List.cons.inj hentries).1
  have hdump : grIoHistoryDump (recordAll (grIoHistoryInit junkBuf size) (a :: rest)) =
      dumpLoop a.now ((a :: rest).map RegAccess.io) := by
    unfold grIoHistoryDump
    rw [hfirst, hiters, hentries]
    rfl
  obtain ⟨list', hloop, hlinked⟩ := regInitLoop_dump junk rest a a.now fuel _ [] hwf
    (linked_empty list) (by
      rw [List.length_cons] at hfuel
      exact hfuel)
  refine ⟨list', ?_, ?_⟩
  · rw [hdump]
    exact hloop
  · rw [List.nil_append, replayedFrom_eq (a :: rest) a.now (fun b hb => ⟨hwf b hb, ?_⟩) hmono]
      at hlinked
    · exact hlinked
    · rcases List.mem_cons.mp hb with rfl | hb
      · exact Nat.le_refl _
      · exact (List.pairwise_cons.mp hmono).1 b hb

/-- Two accesses in a history with room for two. -/
theorem grRegInitList_dump_two :
    ∃ list', grRegInitList (fun _ => ⟨0, 'R', 0, 0⟩) 3 ⟨0, 0, 0, 0, []⟩
        (grIoHistoryDump (recordAll (grIoHistoryInit (fun _ => ⟨0, 0, 0, 0⟩) 2)
          [⟨⟨0x28, 0xff, true⟩, 5, 1⟩, ⟨⟨0x2428, 0, false⟩, 9, 2⟩])) = some list' ∧
      Linked list' [⟨0, 'W', 0x28, 0xff⟩, ⟨4, 'R', 0x2428, 0⟩] := by
  have hwf : ∀ a ∈ [(⟨⟨0x28, 0xff, true⟩, 5, 1⟩ : RegAccess), ⟨⟨0x2428, 0, false⟩, 9, 2⟩], a.WF := by
    intro a ha
    rcases List.mem_cons.mp ha with rfl | ha
    · exact ⟨by decide, by decide, by decide, by decide⟩
    · rw [List.mem_singleton.mp ha]
      exact ⟨by decide, by decide, by decide, by decide⟩
  exact grRegInitList_dump (by decide) (by decide) hwf (by simp) _ _ _ (by decide)

end GpuReplay
