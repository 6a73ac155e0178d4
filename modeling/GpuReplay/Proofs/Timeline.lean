/-
What the timeline's history makes of the messages in a stream.

The encoders are generated from one list of layouts; the decoder of the history is
written by hand, one case for each of some ninety messages, each with the offsets of the
words it prints and the number of bytes it steps over.  Nothing in a packet says where a
message ends, so the two agree only if every case does.

A packet's bytes are messages one after another (`keeps_run`).  A scan of such bytes
keeps step with the messages exactly when each message, wherever it stands, is read
right, which is what `Lib/Cursor.lean` says about scans in general.  And whether a message
is read right depends on its case and its arguments alone (`reads_iff`): the case has to
print words at the places of the layout and has to step over what the arguments take.

Six cases do not do that always.  Four step over a wrong number of bytes whatever the
arguments, one steps over a fixed number although its message ends with a string, and
one prints the right number of words from the wrong places.
-/
import Mathlib.Data.List.Forall2
import GpuReplay.Proofs.TlPacking

namespace GpuReplay.Driver

variable {K : Type} {c : TlCatalog K}

/-! ### Reading one message -/

variable {h : TlHistory K}

/-- The arguments of a message that are numbers. -/
def TlArg.word : TlArg → Option Nat
  | p v => some v.toNat
  | I v => some v.toNat
  | L v => some v.toNat
  | s _ => none

def TlMsg.words (m : TlMsg c) : List Nat := m.args.filterMap TlArg.word

/-- The bytes of the arguments, which is what a case has to step over. -/
def TlMsg.argsSize (m : TlMsg c) : Nat := (m.args.map TlArg.size).sum

/-- The line says what the message says: its time stamp, thread and type, and values only
that are its arguments, in order. -/
structure TlLine.Of (h : TlHistory K) (m : TlMsg h.catalog) (line : TlLine) : Prop where
  timestamp : line.timestamp = m.timestamp.toNat
  tid : line.tid = m.tid.toNat
  type : line.type = h.catalog.msgId m.kind
  name : h.names[line.type]? = some line.name
  printed : line.printed.map Prod.snd <+: m.words

/-- The bytes of the message are in the packet at `i`. -/
structure MsgAt (data : ByteMem) (i : Nat) (m : TlMsg c) : Prop where
  bytes : data.read i m.msgSize = m.bytes
  fits : i + m.msgSize ≤ packetSize

/-- What both decoders are like: the cases follow the ids, and every id has a name. -/
structure TlHistory.Lawful (h : TlHistory K) : Prop where
  catalog : h.catalog.Lawful
  enum : ∀ k, h.all[h.catalog.msgId k]? = some k
  named : ∀ k, h.catalog.msgId k < h.names.length
  idLt : ∀ k, h.catalog.msgId k < 2 ^ 32

theorem readPacket_le {data : ByteMem} {i k v : Nat} (hread : data.read i k = Bytes.le k v)
    (hv : v < 256 ^ k) (hfits : i + k ≤ packetSize) : readPacket data i k = some v := by
  rw [readPacket, if_pos hfits, hread, Bytes.val_le hv]

namespace MsgAt

variable {data : ByteMem} {i : Nat} {m : TlMsg c}

/-- The arguments are behind the sixteen bytes of the header. -/
theorem args (hm : MsgAt data i m) :
    data.read (i + 16) (argsBytes m.args).length = argsBytes m.args := by
  have hread := hm.bytes
  rw [TlMsg.bytes] at hread
  have hrest := (ByteMem.read_append (ByteMem.read_append
    (ByteMem.read_append hread).2).2).2
  simpa only [Bytes.length_le, Nat.add_assoc, Nat.reduceAdd] using hrest

theorem args_fits (hm : MsgAt data i m) :
    i + 16 + (argsBytes m.args).length ≤ packetSize := by
  have hfits := hm.fits
  rw [TlMsg.msgSize] at hfits
  rw [length_argsBytes]
  omega

end MsgAt

/-- The line that is printed for a message, whatever its case reads. -/
theorem timelineStep_eq (law : h.Lawful) {data : ByteMem} {i : Nat} {m : TlMsg h.catalog}
    (hm : MsgAt data i m) : ∃ name, h.names[h.catalog.msgId m.kind]? = some name
      ∧ timelineStep h data i
        = ((h.historyCase m.kind).print data (i + 16)).map fun printed =>
          (⟨m.timestamp.toNat, h.tag, m.tid.toNat, h.catalog.msgId m.kind, name, printed⟩,
            i + 16 + (h.historyCase m.kind).advance) := by
  have hname := List.getElem?_eq_getElem (law.named m.kind)
  refine ⟨_, hname, ?_⟩
  have hread := hm.bytes
  have hfits := hm.args_fits
  rw [TlMsg.bytes] at hread
  have htype := (ByteMem.read_append hread).1
  have htail := (ByteMem.read_append hread).2
  have hts := (ByteMem.read_append htail).1
  have htid := (ByteMem.read_append (ByteMem.read_append htail).2).1
  simp only [Bytes.length_le, Nat.add_assoc, Nat.reduceAdd] at htype hts htid
  have hid : h.catalog.msgId m.kind < 256 ^ 4 := law.idLt m.kind
  have htype' := readPacket_le htype hid (by omega)
  have hts' := readPacket_le hts m.timestamp.toNat_lt (by omega)
  have htid' := readPacket_le htid m.tid.toNat_lt (by omega)
  have hswitch : h.switch (h.catalog.msgId m.kind) = h.historyCase m.kind := by
    rw [TlHistory.switch, law.enum]
  simp only [timelineStep, htype', hts', htid', hname, hswitch, Option.bind_eq_bind,
    Option.bind_some]
  cases (h.historyCase m.kind).print data (i + 16) with
  | none => rfl
  | some printed => rfl

/-- The labels do not matter for what is read. -/
theorem print_values (data : ByteMem) (j : Nat) (case : TlCase) :
    (case.print data j).map (List.map Prod.snd)
      = (case.prints.map Prod.snd).mapM (TlWord.read data j) := by
  unfold TlCase.print
  induction case.prints with
  | nil => rfl
  | cons lw prints ih =>
      obtain ⟨label, w⟩ := lw
      rw [List.map_cons, List.mapM_cons, List.mapM_cons, ← ih]
      cases hw : w.read data j with
      | none => simp [hw]
      | some v =>
          simp only [hw, Option.map_some, Option.bind_eq_bind, Option.bind_some]
          generalize List.mapM (m := Option) _ prints = tail
          cases tail with
          | none => rfl
          | some printed => rfl

/-- **A message is read right exactly when its case steps over its arguments and prints
their values.** -/
theorem reads_iff (law : h.Lawful) {data : ByteMem} {i : Nat} {m : TlMsg h.catalog}
    (hm : MsgAt data i m) :
    (timelineCursor h data).Reads TlMsg.msgSize (TlLine.Of h) i m
      ↔ (h.historyCase m.kind).advance = m.argsSize
        ∧ ∃ vs, ((h.historyCase m.kind).prints.map Prod.snd).mapM
            (TlWord.read data (i + 16)) = some vs ∧ vs <+: m.words := by
  obtain ⟨name, hname, hstep⟩ := timelineStep_eq law hm
  have hsize : m.msgSize = 16 + m.argsSize := rfl
  constructor
  · rintro ⟨line, hline, hof⟩
    change timelineStep h data i = _ at hline
    rw [hstep] at hline
    obtain ⟨printed, hprinted, heq⟩ := Option.map_eq_some_iff.mp hline
    obtain ⟨rfl, hnext⟩ := Prod.mk.inj heq
    refine ⟨by omega, printed.map Prod.snd, ?_, hof.printed⟩
    rw [← print_values, hprinted]
    rfl
  · rintro ⟨hadvance, vs, hvs, hprefix⟩
    rw [← print_values] at hvs
    obtain ⟨printed, hprinted, rfl⟩ := Option.map_eq_some_iff.mp hvs
    rw [hprinted, Option.map_some] at hstep
    rw [hadvance, Nat.add_assoc, ← hsize] at hstep
    exact ⟨_, hstep, ⟨rfl, rfl, rfl, hname, hprefix⟩⟩

/-! ### Words at the places of the layout -/

/-- The words of a layout that lie before its string. -/
def layoutWords : Nat → List TlFormat → List TlWord
  | _, [] => []
  | o, .p :: fs => .u64 o :: layoutWords (o + 8) fs
  | o, .I :: fs => .u32 o :: layoutWords (o + 4) fs
  | o, .L :: fs => .u64 o :: layoutWords (o + 8) fs
  | _, .s :: _ => []

/-- The words of the layout are the values of the arguments. -/
theorem mapM_layoutWords {data : ByteMem} {j : Nat} {args : List TlArg} :
    ∀ {o : Nat}, data.read (j + o) (argsBytes args).length = argsBytes args →
      j + o + (argsBytes args).length ≤ packetSize →
      ∃ vs, (layoutWords o (args.map TlArg.format)).mapM (TlWord.read data j) = some vs
        ∧ vs <+: args.filterMap TlArg.word := by
  induction args with
  | nil => exact fun _ _ => ⟨[], rfl, List.nil_prefix⟩
  | cons arg args ih =>
      intro o hread hfits
      have hparts := ByteMem.read_append hread
      rw [argsBytes_cons, List.length_append] at hfits
      rw [TlArg.length_bytes] at hparts hfits
      -- a word read right, and behind it the words of the other arguments
      have hcons : ∀ (w : TlWord) (v : Nat), w.read data j = some v → arg.word = some v →
          ∃ vs, (w :: layoutWords (o + arg.size) (args.map TlArg.format)).mapM
              (TlWord.read data j) = some vs
            ∧ vs <+: (arg :: args).filterMap TlArg.word := by
        intro w v hw hv
        obtain ⟨vs, hvs, hprefix⟩ := ih (o := o + arg.size)
          (by rw [← Nat.add_assoc]; exact hparts.2) (by omega)
        refine ⟨v :: vs, ?_, ?_⟩
        · rw [List.mapM_cons, hw, hvs]
          rfl
        · rw [List.filterMap_cons, hv]
          exact (List.prefix_cons_inj v).mpr hprefix
      have hlen : j + o + arg.size ≤ packetSize := by omega
      cases arg with
      | p v => exact hcons (.u64 o) v.toNat (readPacket_le hparts.1 v.toNat_lt hlen) rfl
      | I v => exact hcons (.u32 o) v.toNat (readPacket_le hparts.1 v.toNat_lt hlen) rfl
      | L v => exact hcons (.u64 o) v.toNat (readPacket_le hparts.1 v.toNat_lt hlen) rfl
      | s string => exact ⟨[], rfl, List.nil_prefix⟩

/-- **A case that prints the first words of the layout reads a message right exactly when it
steps over the arguments.** -/
theorem reads_iff_of_layout (law : h.Lawful) {data : ByteMem} {i : Nat} {m : TlMsg h.catalog}
    (hm : MsgAt data i m)
    (hwords : (h.historyCase m.kind).prints.map Prod.snd
      <+: layoutWords 0 (h.catalog.format m.kind)) :
    (timelineCursor h data).Reads TlMsg.msgSize (TlLine.Of h) i m
      ↔ (h.historyCase m.kind).advance = m.argsSize := by
  rw [reads_iff law hm]
  refine and_iff_left ?_
  obtain ⟨more, hmore⟩ := hwords
  rw [← m.fits] at hmore
  obtain ⟨vs, hvs, hprefix⟩ := mapM_layoutWords (j := i + 16) (o := 0) hm.args hm.args_fits
  rw [← hmore, List.mapM_append] at hvs
  cases hfirst : ((h.historyCase m.kind).prints.map Prod.snd).mapM
      (TlWord.read data (i + 16)) with
  | none =>
      rw [hfirst] at hvs
      cases hvs
  | some first =>
      rw [hfirst] at hvs
      obtain ⟨second, -, heq⟩ := Option.bind_eq_some_iff.mp
        ((Option.bind_some first _).symm.trans hvs)
      obtain rfl := Option.some.inj heq
      exact ⟨first, rfl, (List.prefix_append first second).trans hprefix⟩

/-! ### The history of a stream -/

/-- The history keeps step with the stream: it goes over the packets one by one, and in
each from message to message, with a line for each one that says what the message says. -/
def Decodes (h : TlHistory K) (dump : Bool) (s : KbaseTlstream)
    (ops : List (TlOp h.catalog)) : Prop :=
  ∃ lines, timelineHistory h dump (runTlOps dump s ops) = some lines
    ∧ List.Forall₂ (Cursor.Follows TlMsg.msgSize (TlLine.Of h) (packetStart s.numbered))
        (packOps (packetStart s.numbered) ops).packets lines

/-- Going over numbered things, one result each. -/
theorem mapM_range'_forall₂ {α β : Type*} {f : Nat → Option β} {R : α → β → Prop}
    {xs : List α} : ∀ {k : Nat},
      (∃ ys, (List.range' k xs.length).mapM f = some ys ∧ List.Forall₂ R xs ys)
        ↔ ∀ i x, xs[i]? = some x → ∃ y, f (k + i) = some y ∧ R x y := by
  induction xs with
  | nil =>
      intro k
      exact ⟨fun _ _ _ hx => (by cases hx), fun _ => ⟨[], rfl, .nil⟩⟩
  | cons x xs ih =>
      intro k
      rw [List.length_cons, List.range'_succ, List.mapM_cons]
      constructor
      · rintro ⟨ys, hys, hall⟩ i x' hx'
        cases hall with
        | cons hR hrest =>
            rename_i y ys
            obtain ⟨y', hy', htail⟩ := Option.bind_eq_some_iff.mp hys
            obtain ⟨ys', hys', heq⟩ := Option.bind_eq_some_iff.mp htail
            obtain ⟨rfl, rfl⟩ := List.cons.inj (Option.some.inj heq)
            cases i with
            | zero =>
                obtain rfl := Option.some.inj hx'
                exact ⟨y', hy', hR⟩
            | succ i =>
                have hnext := ih.mp ⟨ys', hys', hrest⟩ i x' hx'
                rwa [Nat.add_right_comm] at hnext
      · intro hall
        obtain ⟨y, hy, hR⟩ := hall 0 x rfl
        obtain ⟨ys, hys, hrest⟩ := ih.mpr fun i x' hx' => by
          have hnext := hall (i + 1) x' hx'
          rwa [← Nat.add_assoc, Nat.add_right_comm] at hnext
        rw [Nat.add_zero] at hy
        refine ⟨y :: ys, ?_, .cons hR hrest⟩
        rw [hy, Option.bind_eq_bind, Option.bind_some, hys]
        rfl

theorem length_mapM {α β : Type*} {f : α → Option β} {xs : List α} :
    ∀ {ys : List β}, xs.mapM f = some ys → ys.length = xs.length := by
  induction xs with
  | nil =>
      intro ys hys
      rw [← Option.some.inj hys]
      rfl
  | cons x xs ih =>
      intro ys hys
      rw [List.mapM_cons] at hys
      obtain ⟨y, -, htail⟩ := Option.bind_eq_some_iff.mp hys
      obtain ⟨zs, hzs, heq⟩ := Option.bind_eq_some_iff.mp htail
      rw [← Option.some.inj heq, List.length_cons, List.length_cons, ih hzs]

/-- The messages of a packet, each where it is. -/
theorem along_msgAt {data : ByteMem} {ms : List (TlMsg c)} :
    ∀ {i : Nat}, data.read i (Cursor.total TlMsg.msgSize ms) = ms.flatMap TlMsg.bytes →
      i + Cursor.total TlMsg.msgSize ms ≤ packetSize →
      Cursor.Along TlMsg.msgSize (MsgAt data) i ms := by
  induction ms with
  | nil => exact fun _ _ => trivial
  | cons m ms ih =>
      intro i hread hfits
      rw [Cursor.total_cons] at hfits
      rw [Cursor.total_cons, List.flatMap_cons] at hread
      have hparts := ByteMem.read_append hread
      rw [m.length_bytes] at hparts
      have hlen : (ms.flatMap TlMsg.bytes).length = Cursor.total TlMsg.msgSize ms := by
        have hall := congrArg List.length hread
        rw [ByteMem.length_read, List.length_append, m.length_bytes] at hall
        omega
      rw [hlen] at hparts
      exact ⟨⟨hparts.1, by omega⟩, ih hparts.2 (by omega)⟩

/-- The packets that are still in the ring, of all there have been. -/
def Packing.kept (dump : Bool) (p : Packing K c) : List (List (TlMsg c)) :=
  p.packets.drop (p.packets.length - packetCount dump)

/-- The history shows the packets that are still in the ring, in order, with a line for each of
their messages that says what the message says. -/
def Shows (h : TlHistory K) (dump : Bool) (s : KbaseTlstream)
    (ops : List (TlOp h.catalog)) : Prop :=
  ∃ lines, timelineHistory h dump (runTlOps dump s ops) = some lines
    ∧ List.Forall₂ (Cursor.Follows TlMsg.msgSize (TlLine.Of h) (packetStart s.numbered))
        ((packOps (packetStart s.numbered) ops).kept dump) lines

/-- Slot `0` holds the oldest packet in the ring, so that the packets are in the order of their
slots: the ring has not wrapped, or the packet being written is in the last slot. -/
def FromFirstSlot (dump : Bool) (wbi : Nat) : Prop :=
  wbi < packetCount dump ∨ (wbi + 1) % packetCount dump = 0

/-- What is kept is as many packets as the history goes over, where slot `0` holds the oldest. -/
theorem Keeps.length_kept {dump : Bool} {s : KbaseTlstream} {p : Packing K c}
    (h : Keeps dump s p) :
    (p.kept dump).length = s.wbi % packetCount dump + 1 ↔ FromFirstSlot dump s.wbi := by
  have hpos := packetCount_pos dump
  unfold Packing.kept FromFirstSlot
  rw [List.length_drop, h.length_packets]
  have hlt := Nat.mod_lt s.wbi hpos
  by_cases hwrap : s.wbi < packetCount dump
  · rw [Nat.mod_eq_of_lt hwrap]
    omega
  · have hsucc := Nat.succ_mod_succ_eq_zero_iff (a := s.wbi) (b := packetCount dump - 1)
    rw [Nat.sub_add_cancel hpos] at hsucc
    rw [hsucc]
    omega

/-- The packet in a slot, where slot `0` holds the oldest. -/
theorem Keeps.slot {dump : Bool} {s : KbaseTlstream} {p : Packing K c} (h : Keeps dump s p)
    (hfirst : FromFirstSlot dump s.wbi) {i : Nat} {ms : List (TlMsg c)}
    (hi : (p.kept dump)[i]? = some ms) :
    (s.buffer i).Holds (packetStart s.numbered) ms := by
  have hpos := packetCount_pos dump
  have hlen := h.length_packets
  unfold Packing.kept at hi
  rw [List.getElem?_drop] at hi
  have hlt := (List.getElem?_eq_some_iff.mp hi).1
  have hslot := h.held _ _ hi (by omega)
  have hmod : (p.packets.length - packetCount dump + i) % packetCount dump = i := by
    rcases hfirst with hwrap | hlast
    · rw [show p.packets.length - packetCount dump = 0 by omega, Nat.zero_add]
      exact Nat.mod_eq_of_lt (by omega)
    · rw [← hlen] at hlast
      have hge : packetCount dump ≤ p.packets.length :=
        Nat.le_of_dvd (by omega) (Nat.dvd_of_mod_eq_zero hlast)
      rw [Nat.add_mod, Nat.mod_eq_zero_of_dvd (Nat.dvd_sub (Nat.dvd_of_mod_eq_zero hlast) (Nat.dvd_refl _)),
        Nat.zero_add, Nat.mod_mod, Nat.mod_eq_of_lt (by omega)]
  rwa [hmod] at hslot

/-- **The history shows what is in the ring exactly when slot `0` holds the oldest packet and
every message in the ring is of a kind, and has arguments, that its case reads right wherever the
message stands.** -/
theorem shows_iff (law : h.Lawful) {G : TlMsg h.catalog → Prop}
    (hG : ∀ data i m, MsgAt data i m →
      ((timelineCursor h data).Reads TlMsg.msgSize (TlLine.Of h) i m ↔ G m))
    (dump : Bool) (s : KbaseTlstream) (ops : List (TlOp h.catalog)) :
    Shows h dump s ops ↔ FromFirstSlot dump (runTlOps dump s ops).wbi ∧
      ∀ m ∈ ((packOps (packetStart s.numbered) ops).kept dump).flatten, G m := by
  obtain ⟨hnumbered, hkeeps⟩ := keeps_run law.catalog dump s ops
  have hpacket : FromFirstSlot dump (runTlOps dump s ops).wbi → ∀ i ms,
      ((packOps (packetStart s.numbered) ops).kept dump)[i]? = some ms →
      ((∃ ls, (timelineCursor h ((runTlOps dump s ops).buffer i).data).scan
            ((runTlOps dump s ops).buffer i).size (packetStart s.numbered) = some ls
          ∧ Cursor.Follows TlMsg.msgSize (TlLine.Of h) (packetStart s.numbered) ms ls)
        ↔ ∀ m ∈ ms, G m) := by
    intro hfirst i ms hms
    have hheld := hkeeps.slot hfirst hms
    have hfits := hheld.fits
    rw [hnumbered] at hheld
    rw [hheld.size, Cursor.scan_follows_iff _ TlMsg.msgSize_pos]
    rw [hheld.size] at hfits
    exact Cursor.along_iff (hG _) (along_msgAt hheld.bytes hfits)
  unfold Shows timelineHistory
  simp only [List.mem_flatten]
  constructor
  · intro hshows
    have hfirst : FromFirstSlot dump (runTlOps dump s ops).wbi := by
      obtain ⟨lines, hlines, hall⟩ := hshows
      have hlength := length_mapM hlines
      rw [List.length_range] at hlength
      exact hkeeps.length_kept.mp (hall.length_eq.trans hlength)
    refine ⟨hfirst, ?_⟩
    rw [← hkeeps.length_kept.mpr hfirst, hnumbered, List.range_eq_range',
      mapM_range'_forall₂] at hshows
    simp only [Nat.zero_add] at hshows
    rintro m ⟨ms, hmem, hm⟩
    obtain ⟨i, hi⟩ := List.getElem?_of_mem hmem
    exact (hpacket hfirst i ms hi).mp (hshows i ms hi) m hm
  · rintro ⟨hfirst, hall⟩
    rw [← hkeeps.length_kept.mpr hfirst, hnumbered, List.range_eq_range', mapM_range'_forall₂]
    simp only [Nat.zero_add]
    intro i ms hms
    exact (hpacket hfirst i ms hms).mpr fun m hm => hall m ⟨ms, List.mem_of_getElem? hms, hm⟩

/-- **The history keeps step with a stream exactly when every message is of a kind, and has
arguments, that its case reads right wherever the message stands.** -/
theorem decodes_iff (law : h.Lawful) {G : TlMsg h.catalog → Prop}
    (hG : ∀ data i m, MsgAt data i m →
      ((timelineCursor h data).Reads TlMsg.msgSize (TlLine.Of h) i m ↔ G m))
    (dump : Bool) (s : KbaseTlstream) (ops : List (TlOp h.catalog))
    (hwrap : (runTlOps dump s ops).wbi < packetCount dump) :
    Decodes h dump s ops ↔ ∀ m ∈ messages ops, G m := by
  have hkept : (packOps (packetStart s.numbered) ops).kept dump =
      (packOps (packetStart s.numbered) ops).packets := by
    have hlen := (keeps_run law.catalog dump s ops).2.length_packets
    unfold Packing.kept
    rw [Nat.sub_eq_zero_of_le (by omega), List.drop_zero]
  have hfirst : FromFirstSlot dump (runTlOps dump s ops).wbi := Or.inl hwrap
  have hshows := shows_iff law hG dump s ops
  unfold Shows at hshows
  rw [hkept, flatten_packOps, and_iff_right hfirst] at hshows
  exact hshows

/-! ### The cases of the two decoders -/

theorem objCatalog_lawful : objCatalog.Lawful where
  stringLast k := by cases k <;> decide
  short k := by cases k <;> decide

theorem auxCatalog_lawful : auxCatalog.Lawful where
  stringLast k := by cases k <;> decide
  short k := by cases k <;> decide

theorem objHistory_lawful : objHistory.Lawful where
  catalog := objCatalog_lawful
  enum k := by cases k <;> rfl
  named k := by cases k <;> decide
  idLt k := by cases k <;> decide

theorem auxHistory_lawful : auxHistory.Lawful where
  catalog := auxCatalog_lawful
  enum k := by cases k <;> rfl
  named k := by cases k <;> decide
  idLt k := by cases k <;> decide

/-- The bytes of a layout without a string. -/
def layoutSize : List TlFormat → Nat
  | [] => 0
  | .p :: fs => 8 + layoutSize fs
  | .I :: fs => 4 + layoutSize fs
  | .L :: fs => 8 + layoutSize fs
  | .s :: fs => layoutSize fs

theorem sum_size_eq_layoutSize {args : List TlArg} :
    TlFormat.s ∉ args.map TlArg.format →
      (args.map TlArg.size).sum = layoutSize (args.map TlArg.format) := by
  induction args with
  | nil => exact fun _ => rfl
  | cons arg args ih =>
      intro hs
      rw [List.map_cons, List.mem_cons, not_or] at hs
      rw [List.map_cons, List.sum_cons, ih hs.2]
      cases arg with
      | p v => rfl
      | I v => rfl
      | L v => rfl
      | s string => exact absurd rfl hs.1

theorem TlMsg.argsSize_eq {m : TlMsg c} (hs : TlFormat.s ∉ c.format m.kind) :
    m.argsSize = layoutSize (c.format m.kind) := by
  rw [← m.fits] at hs ⊢
  exact sum_size_eq_layoutSize hs

/-- The cases that step over the wrong number of bytes, whatever the arguments are. -/
def TlMsgIdObj.misstepped (k : TlMsgIdObj) : Prop :=
  k = .kbaseTlKbaseKcpuqueueEnqueueFenceWait
    ∨ k = .kbaseTlKbaseArrayItemKcpuqueueExecuteJitAllocEnd
    ∨ k = .kbaseTlKbaseArrayEndKcpuqueueExecuteJitAllocEnd

instance (k : TlMsgIdObj) : Decidable k.misstepped :=
  inferInstanceAs (Decidable (_ ∨ _ ∨ _))

/-- The other cases of the object stream print the first words of the layout. -/
theorem objCase_words (k : TlMsgIdObj) (hk : ¬ k.misstepped) :
    (k.historyCase.prints.map Prod.snd) <+: layoutWords 0 k.format := by
  cases k <;> first | decide | exact absurd (by decide) hk

theorem objCase_advance (k : TlMsgIdObj) (hk : k ≠ .kbaseTlRetAtomLpu) :
    TlFormat.s ∉ k.format ∧ (k.historyCase.advance = layoutSize k.format ↔ ¬ k.misstepped) := by
  cases k <;> first | exact absurd rfl hk | decide

theorem format_eq_p {arg : TlArg} (hf : arg.format = .p) : ∃ v, arg = .p v := by
  cases arg with
  | p v => exact ⟨v, rfl⟩
  | I v => cases hf
  | L v => cases hf
  | s string => cases hf

theorem format_eq_I {arg : TlArg} (hf : arg.format = .I) : ∃ v, arg = .I v := by
  cases arg with
  | p v => cases hf
  | I v => exact ⟨v, rfl⟩
  | L v => cases hf
  | s string => cases hf

theorem format_eq_s {arg : TlArg} (hf : arg.format = .s) : ∃ string, arg = .s string := by
  cases arg with
  | p v => cases hf
  | I v => cases hf
  | L v => cases hf
  | s string => exact ⟨string, rfl⟩

/-- The messages of the object stream that are read right: those whose case steps over the
right number of bytes, and of the one with a string those whose string has 14 characters. -/
structure ObjClean (m : TlMsg objCatalog) : Prop where
  kind : ¬ m.kind.misstepped
  string : ∀ string, TlArg.s string ∈ m.args → string.length = 14

theorem objReads_iff (data : ByteMem) (i : Nat) (m : TlMsg objHistory.catalog)
    (hm : MsgAt data i m) :
    (timelineCursor objHistory data).Reads TlMsg.msgSize (TlLine.Of objHistory) i m
      ↔ ObjClean m := by
  have hfits := m.fits
  by_cases hmis : m.kind.misstepped
  · have hk : m.kind ≠ .kbaseTlRetAtomLpu := by
      intro hk
      rw [hk] at hmis
      exact absurd hmis (by decide)
    obtain ⟨hs, hadvance⟩ := objCase_advance m.kind hk
    refine ⟨fun hreads => ?_, fun hclean => absurd hmis hclean.kind⟩
    have heq := ((reads_iff objHistory_lawful hm).mp hreads).1
    rw [TlMsg.argsSize_eq hs] at heq
    exact absurd hmis (hadvance.mp heq)
  rw [reads_iff_of_layout objHistory_lawful hm (objCase_words m.kind hmis)]
  by_cases hk : m.kind = .kbaseTlRetAtomLpu
  · -- 35 bytes are two pointers, a length of four bytes, 14 characters and a terminator
    have hformat : m.args.map TlArg.format = [.p, .p, .s] := by rw [hfits, hk]; rfl
    obtain ⟨x, xs, hargs, hx, hxs⟩ := List.map_eq_cons_iff.mp hformat
    obtain ⟨y, ys, rfl, hy, hys⟩ := List.map_eq_cons_iff.mp hxs
    obtain ⟨z, zs, rfl, hz, hzs⟩ := List.map_eq_cons_iff.mp hys
    obtain rfl := List.map_eq_nil_iff.mp hzs
    obtain ⟨atom, rfl⟩ := format_eq_p hx
    obtain ⟨lpu, rfl⟩ := format_eq_p hy
    obtain ⟨string, rfl⟩ := format_eq_s hz
    have hsize : m.argsSize = 8 + (8 + (4 + 1 + min string.length 64)) := by
      rw [TlMsg.argsSize, hargs]
      rfl
    have hadvance : (objHistory.historyCase m.kind).advance = 35 := by
      rw [hk]
      rfl
    rw [hsize, hadvance]
    constructor
    · intro hlen
      refine ⟨hmis, fun other hmem => ?_⟩
      rw [hargs] at hmem
      have hother : other = string := by simpa using hmem
      rw [hother]
      omega
    · intro hclean
      have hlen := hclean.string string (by simp [hargs])
      omega
  · obtain ⟨hs, hadvance⟩ := objCase_advance m.kind hk
    rw [TlMsg.argsSize_eq hs]
    refine hadvance.trans ⟨fun hkind => ⟨hkind, fun string hmem => ?_⟩, fun hclean => hclean.kind⟩
    refine absurd ?_ hs
    have hformat := List.mem_map_of_mem (f := TlArg.format) hmem
    rwa [hfits] at hformat

theorem auxCase_words (k : TlMsgIdAux) (hk : k ≠ .kbaseAuxEventJobSlot) :
    (k.historyCase.prints.map Prod.snd) <+: layoutWords 0 k.format
      ∧ (k.historyCase.advance = layoutSize k.format ↔ k ≠ .kbaseAuxPagefault)
      ∧ TlFormat.s ∉ k.format := by
  cases k <;> first | exact absurd rfl hk | decide

/-- The messages of the auxiliary stream that are read right: those that are no page fault,
and of the job slot events those where the words read four bytes too early happen to be the
arguments. -/
structure AuxClean (m : TlMsg auxCatalog) : Prop where
  kind : m.kind ≠ .kbaseAuxPagefault
  jobSlot : m.kind = .kbaseAuxEventJobSlot → ∀ ctx slot atom event,
    m.args = [.p ctx, .I slot, .I atom, .I event] →
      ctx.toNat / 2 ^ 32 = slot.toNat ∧ slot = atom ∧ atom = event

/-- What is printed for a job slot event. -/
theorem jobSlot_values {data : ByteMem} {i : Nat} {m : TlMsg auxCatalog} (hm : MsgAt data i m)
    {ctx : UInt64} {slot atom event : UInt32}
    (hargs : m.args = [.p ctx, .I slot, .I atom, .I event]) :
    (TlMsgIdAux.kbaseAuxEventJobSlot.historyCase.prints.map Prod.snd).mapM
        (TlWord.read data (i + 16))
      = some [ctx.toNat, ctx.toNat / 2 ^ 32, slot.toNat, atom.toNat] := by
  have hread := hm.args
  have hfits := hm.args_fits
  rw [hargs] at hread hfits
  have hlen : (argsBytes [.p ctx, .I slot, .I atom, .I event]).length = 20 := rfl
  rw [hlen] at hfits
  -- the pointer is its low half and its high half
  have hbytes : argsBytes [.p ctx, .I slot, .I atom, .I event]
      = Bytes.le 4 ctx.toNat ++ (Bytes.le 4 (ctx.toNat / 2 ^ 32) ++ (Bytes.le 4 slot.toNat
          ++ (Bytes.le 4 atom.toNat ++ Bytes.le 4 event.toNat))) := by
    have hctx : Bytes.le 8 ctx.toNat = Bytes.le 4 ctx.toNat ++ Bytes.le 4 (ctx.toNat / 2 ^ 32) :=
      Bytes.le_add 4 4 _
    simp only [argsBytes_cons, TlArg.bytes, hctx, List.append_assoc]
    rw [argsBytes, List.flatMap_nil, List.append_nil]
  have hwhole : data.read (i + 16) (TlArg.bytes (.p ctx)).length = TlArg.bytes (.p ctx) :=
    (ByteMem.read_append hread).1
  rw [hbytes] at hread
  have hlow := (ByteMem.read_append hread).2
  have hhigh := ByteMem.read_append hlow
  have hslot := ByteMem.read_append hhigh.2
  simp only [Bytes.length_le, Nat.add_assoc, Nat.reduceAdd] at hhigh hslot
  have hctxLt : ctx.toNat < 2 ^ 64 := ctx.toNat_lt
  have hread0 : readPacket data (i + 16 + 0) 8 = some ctx.toNat :=
    readPacket_le hwhole ctx.toNat_lt (by omega)
  have hread4 : readPacket data (i + 16 + 4) 4 = some (ctx.toNat / 2 ^ 32) :=
    readPacket_le hhigh.1 (by omega) (by omega)
  have hread8 : readPacket data (i + 16 + 8) 4 = some slot.toNat :=
    readPacket_le hslot.1 slot.toNat_lt (by omega)
  have hatom := (ByteMem.read_append hslot.2).1
  rw [Bytes.length_le] at hatom
  have hread12 : readPacket data (i + 16 + 12) 4 = some atom.toNat :=
    readPacket_le hatom atom.toNat_lt (by omega)
  simp only [TlMsgIdAux.historyCase, List.map_cons, List.map_nil, List.mapM_cons, List.mapM_nil,
    TlWord.read, hread0, hread4, hread8, hread12, Option.bind_eq_bind, Option.bind_some]
  rfl

theorem auxReads_iff (data : ByteMem) (i : Nat) (m : TlMsg auxHistory.catalog)
    (hm : MsgAt data i m) :
    (timelineCursor auxHistory data).Reads TlMsg.msgSize (TlLine.Of auxHistory) i m
      ↔ AuxClean m := by
  have hfits := m.fits
  by_cases hk : m.kind = .kbaseAuxEventJobSlot
  · have hformat : m.args.map TlArg.format = [.p, .I, .I, .I] := by rw [hfits, hk]; rfl
    obtain ⟨x, xs, hargs, hx, hxs⟩ := List.map_eq_cons_iff.mp hformat
    obtain ⟨y, ys, rfl, hy, hys⟩ := List.map_eq_cons_iff.mp hxs
    obtain ⟨z, zs, rfl, hz, hzs⟩ := List.map_eq_cons_iff.mp hys
    obtain ⟨w, ws, rfl, hw, hws⟩ := List.map_eq_cons_iff.mp hzs
    obtain rfl := List.map_eq_nil_iff.mp hws
    obtain ⟨ctx, rfl⟩ := format_eq_p hx
    obtain ⟨slot, rfl⟩ := format_eq_I hy
    obtain ⟨atom, rfl⟩ := format_eq_I hz
    obtain ⟨event, rfl⟩ := format_eq_I hw
    have hwords : m.words = [ctx.toNat, slot.toNat, atom.toNat, event.toNat] := by
      rw [TlMsg.words, hargs]
      rfl
    have hadvance : (auxHistory.historyCase m.kind).advance = m.argsSize := by
      rw [hk, TlMsg.argsSize, hargs]
      rfl
    have hvalues := jobSlot_values hm hargs
    rw [reads_iff auxHistory_lawful hm, hk]
    change _ ∧ (∃ vs, (TlMsgIdAux.kbaseAuxEventJobSlot.historyCase.prints.map Prod.snd).mapM _
      = some vs ∧ _) ↔ _
    rw [hvalues, hwords]
    constructor
    · rintro ⟨-, vs, hvs, hprefix⟩
      obtain rfl := Option.some.inj hvs
      have heq := hprefix.eq_of_length rfl
      refine ⟨by rw [hk]; decide, fun _ ctx' slot' atom' event' hargs' => ?_⟩
      rw [hargs] at hargs'
      simp only [List.cons.injEq, TlArg.p.injEq, TlArg.I.injEq, and_true] at hargs' heq
      obtain ⟨rfl, rfl, rfl, rfl⟩ := hargs'
      exact ⟨heq.2.1, UInt32.toNat_inj.mp heq.2.2.1, UInt32.toNat_inj.mp heq.2.2.2⟩
    · intro hclean
      obtain ⟨hctx, rfl, rfl⟩ := hclean.jobSlot hk ctx slot atom event hargs
      rw [hctx]
      refine ⟨?_, _, rfl, List.prefix_refl _⟩
      rw [← hk]
      exact hadvance
  · obtain ⟨hwords, hadvance, hs⟩ := auxCase_words m.kind hk
    rw [reads_iff_of_layout auxHistory_lawful hm hwords, TlMsg.argsSize_eq hs]
    exact hadvance.trans ⟨fun hkind => ⟨hkind, fun hslot => absurd hslot hk⟩,
      fun hclean => hclean.kind⟩

/-! ### The two histories -/

/-- **The history of a timeline stream that has not wrapped keeps step with it exactly when
no message of the stream is one that its case does not read right.**  Every message is in
one packet, in order; in the object stream three kinds of messages are never read right, and
the one with a string only when the string has 14 characters; in the auxiliary stream page
faults are never read right, and job slot events only by coincidence. -/
theorem timelineHistory_iff (dump : Bool) (s : KbaseTlstream) :
    (∀ ops : List (TlOp objCatalog), (runTlOps dump s ops).wbi < packetCount dump →
      (packOps (packetStart s.numbered) ops).packets.flatten = messages ops
        ∧ (Decodes objHistory dump s ops ↔ ∀ m ∈ messages ops, ObjClean m))
    ∧ (∀ ops : List (TlOp auxCatalog), (runTlOps dump s ops).wbi < packetCount dump →
      (packOps (packetStart s.numbered) ops).packets.flatten = messages ops
        ∧ (Decodes auxHistory dump s ops ↔ ∀ m ∈ messages ops, AuxClean m)) :=
  ⟨fun ops hwrap => ⟨flatten_packOps _ ops,
      decodes_iff objHistory_lawful objReads_iff dump s ops hwrap⟩,
    fun ops hwrap => ⟨flatten_packOps _ ops,
      decodes_iff auxHistory_lawful auxReads_iff dump s ops hwrap⟩⟩

/-- A stream of zeros, numbered as both streams are. -/
def blankStream : KbaseTlstream := ⟨fun _ => ⟨0, fun _ => 0⟩, 0, 0, true, 0⟩

/-- A page fault and an allocation of pages. -/
def faultOps : List (TlOp auxCatalog) :=
  [.msg ⟨.kbaseAuxPagefault, 1000, 7, [.I 1, .I 0, .L 4], rfl⟩,
    .msg ⟨.kbaseAuxPagesalloc, 2000, 7, [.I 1, .L 8], rfl⟩]

/-- The context and the atom of a job. -/
def atomOps : List (TlOp objCatalog) :=
  [.msg ⟨.kbaseTlNewCtx, 1000, 7, [.p 64, .I 1, .I 7], rfl⟩,
    .flush,
    .msg ⟨.kbaseTlRetAtomLpu, 2000, 7, [.p 128, .p 192, .s (List.replicate 14 97)], rfl⟩]

theorem timelineHistory_atom_pages :
    (packOps 12 atomOps).packets.flatten = messages atomOps
      ∧ (Decodes objHistory false blankStream atomOps ↔ ∀ m ∈ messages atomOps, ObjClean m) :=
  (timelineHistory_iff false blankStream).1 atomOps (by decide)

/-- The history steps over eight bytes too many behind a page fault, into the message that
follows. -/
theorem pagefault_not_decoded : ¬ Decodes auxHistory false blankStream faultOps := by
  intro hdec
  have hall := (decodes_iff auxHistory_lawful auxReads_iff false blankStream faultOps
    (by decide)).mp hdec
  exact (hall _ List.mem_cons_self).kind rfl

end GpuReplay.Driver
