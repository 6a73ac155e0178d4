/-
What a timeline stream holds after any messages and flushes.

The encoders of `mali_kbase_tracepoints.c` are generated from one list of layouts, and
`kbase_tlstream_msgbuf_acquire` puts a message into the packet it still fits into.  A
stream so refines a `Packing`, the messages sorted into packets (`keeps_run`): what is in
a packet's bytes are its messages, one after another.
-/
import Mathlib.Data.List.Induction
import GpuReplay.Driver.Timeline
import GpuReplay.Lib.RingBuffer

namespace GpuReplay.Driver

variable {K : Type} {c : TlCatalog K}

/-! ### The bytes of a message -/

/-- The bytes an argument takes in a packet. -/
def TlArg.bytes : TlArg → List UInt8
  | p v => Bytes.le 8 v.toNat
  | I v => Bytes.le 4 v.toNat
  | L v => Bytes.le 8 v.toNat
  | s string => Bytes.le 4 (string.length + 1) ++ (string.take strlenMax ++ [0])

@[simp] theorem TlArg.length_bytes (arg : TlArg) : arg.bytes.length = arg.size := by
  cases arg with
  | p v => exact Bytes.length_le ..
  | I v => exact Bytes.length_le ..
  | L v => exact Bytes.length_le ..
  | s string =>
      simp only [bytes, size, List.length_append, Bytes.length_le, List.length_take,
        List.length_singleton, strlenMax]
      omega

/-- The bytes of a list of arguments. -/
def argsBytes (args : List TlArg) : List UInt8 := args.flatMap TlArg.bytes

@[simp] theorem argsBytes_cons (arg : TlArg) (args : List TlArg) :
    argsBytes (arg :: args) = arg.bytes ++ argsBytes args := rfl

theorem length_argsBytes (args : List TlArg) :
    (argsBytes args).length = (args.map TlArg.size).sum := by
  induction args with
  | nil => rfl
  | cons arg args ih =>
      rw [argsBytes_cons, List.length_append, ih, TlArg.length_bytes, List.map_cons, List.sum_cons]

/-- The bytes of a message: id, time stamp, thread, arguments. -/
def TlMsg.bytes (m : TlMsg c) : List UInt8 :=
  Bytes.le 4 (c.msgId m.kind) ++ (Bytes.le 8 m.timestamp.toNat
    ++ (Bytes.le 4 m.tid.toNat ++ argsBytes m.args))

theorem TlMsg.length_bytes (m : TlMsg c) : m.bytes.length = m.msgSize := by
  simp only [bytes, msgSize, List.length_append, Bytes.length_le, length_argsBytes]
  omega

theorem TlMsg.msgSize_pos (m : TlMsg c) : 0 < m.msgSize := by
  unfold msgSize
  omega

/-! ### What the encoders write -/

/-- An argument that is no string leaves the position behind its bytes. -/
theorem serialize_word {arg : TlArg} (h : arg.format ≠ .s) (buffer : Nat)
    (st : ByteMem × Nat) :
    arg.serialize buffer st = (st.1.write (buffer + st.2) arg.bytes, st.2 + arg.size) := by
  cases arg with
  | p v => simp [TlArg.serialize, kbasepSerializeBytes, TlArg.bytes, TlArg.size]
  | I v => simp [TlArg.serialize, kbasepSerializeBytes, TlArg.bytes, TlArg.size]
  | L v => simp [TlArg.serialize, kbasepSerializeBytes, TlArg.bytes, TlArg.size]
  | s string => exact absurd rfl h

/-- An argument puts its bytes where the position is. -/
theorem serialize_fst (arg : TlArg) (buffer : Nat) (st : ByteMem × Nat) :
    (arg.serialize buffer st).1 = st.1.write (buffer + st.2) arg.bytes := by
  cases arg with
  | p v => rfl
  | I v => rfl
  | L v => rfl
  | s string =>
      -- the characters go in before their length
      have hmax : 4 + 1 + min string.length strlenMax - 4 - 1 = min string.length strlenMax := by
        omega
      have htake : string.take (min string.length strlenMax) = string.take strlenMax := by
        rw [Nat.min_comm, ← List.take_take, List.take_length]
      have hjoin := ByteMem.write_write_append st.1 (buffer + st.2)
        (Bytes.le 4 (string.length + 1)) (string.take strlenMax ++ [0])
      rw [Bytes.length_le, Nat.add_assoc] at hjoin
      simp only [TlArg.serialize, kbasepSerializeString, TlArg.bytes, hmax, htake, hjoin]

/-- A string is at most the last of the arguments. -/
def StringLast (fs : List TlFormat) : Prop := TlFormat.s ∉ fs.dropLast

instance (fs : List TlFormat) : Decidable (StringLast fs) :=
  inferInstanceAs (Decidable (¬ TlFormat.s ∈ fs.dropLast))

/-- The arguments go in one after another. -/
theorem foldl_serialize (buffer : Nat) {args : List TlArg} :
    StringLast (args.map TlArg.format) → ∀ st : ByteMem × Nat,
      (args.foldl (fun st arg => arg.serialize buffer st) st).1
        = st.1.write (buffer + st.2) (argsBytes args) := by
  induction args with
  | nil => exact fun _ st => (ByteMem.write_nil ..).symm
  | cons arg args ih =>
      intro hlast st
      cases args with
      | nil =>
          have hone : argsBytes [arg] = arg.bytes := List.append_nil _
          rw [hone]
          exact serialize_fst arg buffer st
      | cons next args =>
          have hmem : TlFormat.s ∉ arg.format :: ((next :: args).map TlArg.format).dropLast := hlast
          have hword : arg.format ≠ .s := fun hs => hmem (hs ▸ List.mem_cons_self)
          have hrest : StringLast ((next :: args).map TlArg.format) :=
            fun hs => hmem (List.mem_cons_of_mem _ hs)
          rw [List.foldl_cons, ih hrest, serialize_word hword, argsBytes_cons arg,
            ByteMem.write_append, TlArg.length_bytes, Nat.add_assoc]

/-- **A tracepoint puts its message's bytes where it has reserved room for them.** -/
theorem emit_eq (dump : Bool) {m : TlMsg c} (hlast : StringLast (c.format m.kind))
    (s : KbaseTlstream) :
    m.emit dump s
      = kbaseTlstreamMsgbufRelease
          ((kbaseTlstreamMsgbufAcquire dump s m.msgSize).1.modifyPacket
            (kbaseTlstreamMsgbufAcquire dump s m.msgSize).2.1 fun p =>
              { p with
                data := ((kbaseTlstreamMsgbufAcquire dump s m.msgSize).1.buffer
                    (kbaseTlstreamMsgbufAcquire dump s m.msgSize).2.1).data.write
                  (kbaseTlstreamMsgbufAcquire dump s m.msgSize).2.2 m.bytes }) := by
  rw [← m.fits] at hlast
  simp only [TlMsg.emit, kbasepSerializeTimestamp, kbasepSerializeBytes,
    foldl_serialize _ hlast, TlMsg.bytes, ByteMem.write_append, Bytes.length_le, Nat.add_zero,
    Nat.zero_add, Nat.add_assoc, Nat.reduceAdd]

/-! ### Messages in packets -/

/-- Messages sorted into packets: the packets that were submitted, and the one being
written. -/
structure Packing (K : Type) (c : TlCatalog K) where
  closed : List (List (TlMsg c))
  current : List (TlMsg c)

namespace Packing

def packets (p : Packing K c) : List (List (TlMsg c)) := p.closed ++ [p.current]

/-- A message goes into the packet being written if there is room for it. -/
def add (start : Nat) (p : Packing K c) (m : TlMsg c) : Packing K c :=
  if packetSize < start + Cursor.total TlMsg.msgSize p.current + m.msgSize then
    ⟨p.packets, [m]⟩
  else ⟨p.closed, p.current ++ [m]⟩

/-- A packet with messages in it is submitted. -/
def flush (p : Packing K c) : Packing K c :=
  if p.current = [] then p else ⟨p.packets, []⟩

def step (start : Nat) (p : Packing K c) : TlOp c → Packing K c
  | .msg m => p.add start m
  | .flush => p.flush

end Packing

/-- The messages of a list of operations. -/
def messages : List (TlOp c) → List (TlMsg c)
  | [] => []
  | .msg m :: ops => m :: messages ops
  | .flush :: ops => messages ops

/-- The messages of a list of operations, sorted into packets. -/
def packOps (start : Nat) (ops : List (TlOp c)) : Packing K c :=
  ops.foldl (Packing.step start) ⟨[], []⟩

theorem flatten_step (start : Nat) (p : Packing K c) (op : TlOp c) :
    (p.step start op).packets.flatten = p.packets.flatten ++ messages [op] := by
  cases op with
  | msg m =>
      simp only [Packing.step, Packing.add, messages]
      split <;> simp [Packing.packets]
  | flush =>
      simp only [Packing.step, Packing.flush, messages]
      split <;> simp [Packing.packets]

theorem messages_cons (op : TlOp c) (ops : List (TlOp c)) :
    messages (op :: ops) = messages [op] ++ messages ops := by
  cases op with
  | msg m => rfl
  | flush => rfl

/-- **Every message is in one packet, in order.** -/
theorem flatten_packOps (start : Nat) (ops : List (TlOp c)) :
    (packOps start ops).packets.flatten = messages ops := by
  have hrun : ∀ (ops : List (TlOp c)) (p : Packing K c),
      (ops.foldl (Packing.step start) p).packets.flatten = p.packets.flatten ++ messages ops := by
    intro ops
    induction ops with
    | nil => exact fun p => (List.append_nil _).symm
    | cons op ops ih =>
        intro p
        rw [List.foldl_cons, ih, flatten_step, messages_cons op ops, List.append_assoc]
  exact hrun ops ⟨[], []⟩

/-! ### A stream holds its packing -/

/-- The packet holds the messages, from `start` on. -/
structure TlPacket.Holds (pkt : TlPacket) (start : Nat) (ms : List (TlMsg c)) : Prop where
  size : pkt.size = start + Cursor.total TlMsg.msgSize ms
  bytes : pkt.data.read start (Cursor.total TlMsg.msgSize ms) = ms.flatMap TlMsg.bytes
  fits : pkt.size ≤ packetSize

/-- What is written below the first message does not matter. -/
theorem TlPacket.Holds.of_data {pkt pkt' : TlPacket} {start : Nat} {ms : List (TlMsg c)}
    (h : pkt.Holds start ms) (hsize : pkt'.size = pkt.size)
    (hdata : ∀ a, start ≤ a → pkt'.data a = pkt.data a) : pkt'.Holds start ms where
  size := hsize.trans h.size
  bytes := (ByteMem.read_congr fun _ _ => hdata _ (Nat.le_add_right ..)).trans h.bytes
  fits := hsize ▸ h.fits

theorem holds_nil {pkt : TlPacket} {start : Nat} (hsize : pkt.size = start)
    (hfits : start ≤ packetSize) : pkt.Holds (c := c) start [] where
  size := hsize
  bytes := rfl
  fits := hsize ▸ hfits

/-- One more message, written behind the others. -/
theorem TlPacket.Holds.snoc {pkt : TlPacket} {start : Nat} {ms : List (TlMsg c)}
    (h : pkt.Holds start ms) {m : TlMsg c} (hfits : pkt.size + m.msgSize ≤ packetSize) :
    TlPacket.Holds ⟨pkt.size + m.msgSize, pkt.data.write pkt.size m.bytes⟩ start (ms ++ [m]) where
  size := by
    have hsize := h.size
    rw [Cursor.total_append, Cursor.total_cons, Cursor.total_nil]
    show pkt.size + m.msgSize = _
    omega
  bytes := by
    have hlen := m.length_bytes
    have happ := ByteMem.read_write_append pkt.data start (Cursor.total TlMsg.msgSize ms) m.bytes
    rw [hlen, h.bytes] at happ
    rw [Cursor.total_append, Cursor.total_cons, Cursor.total_nil, Nat.add_zero, h.size, happ,
      List.flatMap_append, List.flatMap_singleton]
  fits := hfits

/-- The stream's packets hold the last of the packing's: all of them until the ring wraps. -/
structure Keeps (dump : Bool) (s : KbaseTlstream) (p : Packing K c) : Prop where
  index : s.wbi = p.closed.length
  held : RingBuffer.Holds (fun pkt ms => TlPacket.Holds pkt (packetStart s.numbered) ms)
    (packetCount dump) s.buffer p.packets

theorem packetCount_pos (dump : Bool) : 0 < packetCount dump := by cases dump <;> decide

@[simp] theorem modifyPacket_self (s : KbaseTlstream) (i : Nat) (f : TlPacket → TlPacket) :
    (s.modifyPacket i f).buffer i = f (s.buffer i) := Function.update_self ..

theorem modifyPacket_of_ne (s : KbaseTlstream) {i j : Nat} (h : j ≠ i)
    (f : TlPacket → TlPacket) : (s.modifyPacket i f).buffer j = s.buffer j :=
  Function.update_of_ne h ..

/-- A packet that is submitted keeps its messages. -/
theorem submit_holds (dump : Bool) {s : KbaseTlstream} (raw wbSize : Nat) {i : Nat}
    {ms : List (TlMsg c)} (h : (s.buffer i).Holds (packetStart s.numbered) ms) :
    ((kbasepTlstreamMsgbufSubmit dump s raw wbSize).1.buffer i).Holds
      (packetStart s.numbered) ms := by
  simp only [kbasepTlstreamMsgbufSubmit]
  by_cases hi : i = raw % packetCount dump
  · rw [← hi, modifyPacket_self]
    refine h.of_data rfl fun a ha => ?_
    -- the header ends at byte 8, the number of a numbered packet at byte 12
    cases hn : s.numbered with
    | false =>
        simp only [hn, packetStart, packetHeaderSize] at ha
        exact ByteMem.write_apply_of_not_mem _ (Or.inr (by rw [Bytes.length_le]; exact ha))
    | true =>
        simp only [hn, packetStart, packetHeaderSize, packetNumberSize, if_pos] at ha
        simp only [if_pos, kbasepPacketNumberUpdate, kbasepPacketHeaderUpdate, packetHeaderSize]
        rw [ByteMem.write_apply_of_not_mem _ (Or.inr (by rw [Bytes.length_le]; omega)),
          ByteMem.write_apply_of_not_mem _ (Or.inr (by rw [Bytes.length_le]; omega))]
  · rw [modifyPacket_of_ne _ hi]
    exact h

@[simp] theorem submit_snd (dump : Bool) (s : KbaseTlstream) (raw wbSize : Nat) :
    (kbasepTlstreamMsgbufSubmit dump s raw wbSize).2 = packetStart s.numbered := rfl

@[simp] theorem release_buffer (s : KbaseTlstream) :
    (kbaseTlstreamMsgbufRelease s).buffer = s.buffer := rfl

theorem run_numbered (dump : Bool) (s : KbaseTlstream) (op : TlOp c) :
    (op.run dump s).numbered = s.numbered := by
  cases op with
  | msg m =>
      show (kbaseTlstreamMsgbufAcquire dump s m.msgSize).1.numbered = s.numbered
      simp only [kbaseTlstreamMsgbufAcquire]
      split <;> rfl
  | flush =>
      simp only [TlOp.run, kbaseTlstreamFlushStream]
      split <;> rfl

namespace Keeps

variable {dump : Bool} {s : KbaseTlstream} {p : Packing K c}

theorem length_packets (h : Keeps dump s p) : p.packets.length = s.wbi + 1 := by
  rw [h.index]
  simp [Packing.packets]

theorem current (h : Keeps dump s p) :
    (s.buffer (s.wbi % packetCount dump)).Holds (packetStart s.numbered) p.current := by
  rw [h.index]
  exact h.held.last (packetCount_pos dump)

/-- The packets once the one being written is submitted and the next one holds `ms`. -/
theorem next (h : Keeps dump s p) {ms : List (TlMsg c)} {s' : KbaseTlstream}
    (hwbi : s'.wbi = s.wbi + 1) (hnumbered : s'.numbered = s.numbered) (wbSize : Nat)
    (hold : ∀ i, i ≠ (s.wbi + 1) % packetCount dump →
      s'.buffer i = (kbasepTlstreamMsgbufSubmit dump s s.wbi wbSize).1.buffer i)
    (hnew : (s'.buffer ((s.wbi + 1) % packetCount dump)).Holds (packetStart s.numbered) ms) :
    Keeps dump s' (⟨p.packets, ms⟩ : Packing K c) where
  index := hwbi.trans h.length_packets.symm
  held := by
    rw [hnumbered]
    refine h.held.add (fun j hj qs hqs => ?_) ?_
    · rw [h.length_packets] at hj
      rw [hold j hj]
      exact submit_holds dump _ _ hqs
    · rw [h.length_packets]
      exact hnew

/-- The packets once the one being written holds `ms`. -/
theorem same (h : Keeps dump s p) {ms : List (TlMsg c)} {s' : KbaseTlstream}
    (hwbi : s'.wbi = s.wbi) (hnumbered : s'.numbered = s.numbered)
    (hold : ∀ i, i ≠ s.wbi % packetCount dump → s'.buffer i = s.buffer i)
    (hnew : (s'.buffer (s.wbi % packetCount dump)).Holds (packetStart s.numbered) ms) :
    Keeps dump s' (⟨p.closed, ms⟩ : Packing K c) where
  index := hwbi.trans h.index
  held := by
    rw [hnumbered]
    refine h.held.replace (fun j hj qs hqs => ?_) ?_
    · rw [← h.index] at hj
      rw [hold j hj]
      exact hqs
    · rw [← h.index]
      exact hnew

end Keeps

/-- What both catalogs are like: a string is the last argument if there is one, and there
are so few arguments that every message fits into an empty packet. -/
structure TlCatalog.Lawful (c : TlCatalog K) : Prop where
  stringLast : ∀ k, StringLast (c.format k)
  short : ∀ k, (c.format k).length ≤ 10

theorem TlArg.size_le (arg : TlArg) : arg.size ≤ 69 := by
  cases arg with
  | p v => exact Nat.le_of_ble_eq_true rfl
  | I v => exact Nat.le_of_ble_eq_true rfl
  | L v => exact Nat.le_of_ble_eq_true rfl
  | s string =>
      simp only [size, strlenMax]
      omega

theorem TlMsg.fits_packet (law : c.Lawful) (m : TlMsg c) (numbered : Bool) :
    packetStart numbered + m.msgSize ≤ packetSize := by
  have hargs : ∀ args : List TlArg, (args.map TlArg.size).sum ≤ 69 * args.length := by
    intro args
    induction args with
    | nil => exact Nat.le_refl _
    | cons arg args ih =>
        have harg := arg.size_le
        rw [List.map_cons, List.sum_cons, List.length_cons]
        omega
  have hlen : m.args.length ≤ 10 := by
    rw [← List.length_map, m.fits]
    exact law.short m.kind
  have hstart : packetStart numbered ≤ 12 := by cases numbered <;> decide
  have hsum := hargs m.args
  unfold msgSize packetSize
  omega

theorem packetStart_le (numbered : Bool) : packetStart numbered ≤ packetSize := by
  cases numbered <;> decide

theorem holds_empty {pkt : TlPacket} {numbered : Bool} (hsize : pkt.size = packetStart numbered) :
    pkt.Holds (c := c) (packetStart numbered) [] :=
  holds_nil hsize (packetStart_le numbered)

/-- **A tracepoint's message goes where the packing puts it.** -/
theorem keeps_emit (law : c.Lawful) {dump : Bool} {s : KbaseTlstream} {p : Packing K c}
    (h : Keeps dump s p) (m : TlMsg c) :
    Keeps dump (m.emit dump s) (p.add (packetStart s.numbered) m) := by
  have hcur := h.current
  have hroom : (packetSize < (s.buffer (s.wbi % packetCount dump)).size + m.msgSize)
      = (packetSize < packetStart s.numbered + Cursor.total TlMsg.msgSize p.current
          + m.msgSize) := by
    rw [hcur.size]
  rw [emit_eq dump (law.stringLast m.kind)]
  unfold Packing.add
  by_cases hfull : packetSize < (s.buffer (s.wbi % packetCount dump)).size + m.msgSize
  · rw [if_pos (hroom ▸ hfull)]
    simp only [kbaseTlstreamMsgbufAcquire, if_pos hfull]
    have hempty : TlPacket.Holds (c := c)
        ⟨packetStart s.numbered, ((kbasepTlstreamMsgbufSubmit dump s s.wbi
          (s.buffer (s.wbi % packetCount dump)).size).1.buffer
            ((s.wbi + 1) % packetCount dump)).data⟩ (packetStart s.numbered) [] :=
      holds_empty rfl
    refine h.next rfl rfl (s.buffer (s.wbi % packetCount dump)).size (fun i hi => ?_) ?_
    · rw [release_buffer, modifyPacket_of_ne _ hi, modifyPacket_of_ne _ hi]
    · have hone := hempty.snoc (m.fits_packet law s.numbered)
      simpa only [release_buffer, submit_snd, modifyPacket_self, List.nil_append] using hone
  · rw [if_neg (hroom ▸ hfull)]
    simp only [kbaseTlstreamMsgbufAcquire, if_neg hfull]
    refine h.same rfl rfl (fun i hi => ?_) ?_
    · rw [release_buffer, modifyPacket_of_ne _ hi, modifyPacket_of_ne _ hi]
    · have hone := hcur.snoc (Nat.le_of_not_lt hfull)
      simpa only [release_buffer, submit_snd, modifyPacket_self, List.nil_append] using hone

theorem keeps_flush {dump : Bool} {s : KbaseTlstream} {p : Packing K c} (h : Keeps dump s p) :
    Keeps dump (kbaseTlstreamFlushStream dump s) p.flush := by
  have hcur := h.current
  unfold Packing.flush
  cases hms : p.current with
  | nil =>
      have hsize : (s.buffer (s.wbi % packetCount dump)).size = packetStart s.numbered := by
        rw [hcur.size, hms]
        rfl
      have hnot : ¬ packetStart s.numbered < (s.buffer (s.wbi % packetCount dump)).size := by omega
      rw [if_pos rfl]
      simp only [kbaseTlstreamFlushStream, if_neg hnot]
      exact h
  | cons m ms =>
      have hpos := m.msgSize_pos
      have hsize : packetStart s.numbered < (s.buffer (s.wbi % packetCount dump)).size := by
        rw [hcur.size, hms, Cursor.total_cons]
        omega
      rw [if_neg (List.cons_ne_nil _ _)]
      simp only [kbaseTlstreamFlushStream, if_pos hsize]
      refine h.next rfl rfl (s.buffer (s.wbi % packetCount dump)).size
        (fun i hi => modifyPacket_of_ne _ hi _) ?_
      rw [modifyPacket_self]
      exact holds_empty rfl

theorem keeps_reset (dump : Bool) (s : KbaseTlstream) :
    Keeps dump (kbaseTlstreamReset dump s) (⟨[], []⟩ : Packing K c) where
  index := rfl
  held := by
    refine (RingBuffer.holds_nil (kbaseTlstreamReset dump s).buffer).add (fun _ _ _ h => h) ?_
    refine holds_empty ?_
    simp only [kbaseTlstreamReset]
    rw [if_pos (Nat.mod_lt _ (packetCount_pos dump))]

/-- **A stream keeps its last messages**, sorted into packets. -/
theorem keeps_run (law : c.Lawful) (dump : Bool) (s : KbaseTlstream) (ops : List (TlOp c)) :
    (runTlOps dump s ops).numbered = s.numbered
      ∧ Keeps dump (runTlOps dump s ops) (packOps (packetStart s.numbered) ops) := by
  induction ops using List.reverseRecOn with
  | nil => exact ⟨rfl, keeps_reset dump s⟩
  | append_singleton ops op ih =>
      simp only [runTlOps, packOps, List.foldl_append, List.foldl_cons, List.foldl_nil] at ih ⊢
      obtain ⟨hnumbered, hkeeps⟩ := ih
      refine ⟨(run_numbered dump _ op).trans hnumbered, ?_⟩
      cases op with
      | msg m =>
          rw [← hnumbered]
          rw [← hnumbered] at hkeeps
          exact keeps_emit law hkeeps m
      | flush => exact keeps_flush hkeeps

end GpuReplay.Driver
