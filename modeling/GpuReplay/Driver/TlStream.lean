/-
Timeline streams: `mali_kbase_tlstream.c`, `mali_kbase_tl_serialize.h`.

A stream is a ring of packets of bytes.  A tracepoint reserves room for its message in
the packet being written, going on to the next packet when the message does not fit, and
serializes the message there.
-/
import GpuReplay.Lib.ByteMem

namespace GpuReplay.Driver

/-! ### Packets: `mali_kbase_mipe_proto.h` -/

def packetSize : Nat := 4096

/-- `PACKET_COUNT`, which depends on `CONFIG_MALI_JOB_DUMP` and `CONFIG_MALI_VECTOR_DUMP`. -/
def packetCount (dump : Bool) : Nat := if dump then 64 else 32

def strlenMax : Nat := 64

def packetHeaderSize : Nat := 8
def packetNumberSize : Nat := 4

/-- `_BITFIELD_SET_FIELD`. -/
def bitfieldSetField (pos len value : Nat) : Nat := ((1 <<< len - 1) <<< pos) &&& (value <<< pos)

/-- `MIPE_PACKET_HEADER_W0`. -/
def mipePacketHeaderW0 (pktFamily pktClass pktType streamId : Nat) : Nat :=
  bitfieldSetField 26 6 pktFamily ||| bitfieldSetField 19 7 pktClass
    ||| bitfieldSetField 16 3 pktType ||| bitfieldSetField 0 8 streamId

/-- `MIPE_PACKET_HEADER_W1`. -/
def mipePacketHeaderW1 (packetLength seqbit : Nat) : Nat :=
  bitfieldSetField 0 24 packetLength ||| bitfieldSetField 24 1 seqbit

/-- One of a stream's packets. -/
structure TlPacket where
  size : Nat
  data : ByteMem

/-- `struct kbase_tlstream`.  The write index is the raw one, taken modulo
`PACKET_COUNT` where it is used. -/
structure KbaseTlstream where
  buffer : Nat → TlPacket
  wbi : Nat
  rbi : Nat
  numbered : Bool
  autoflushCounter : Int

/-- The stream with its packet `i` changed. -/
def KbaseTlstream.modifyPacket (s : KbaseTlstream) (i : Nat) (f : TlPacket → TlPacket) :
    KbaseTlstream :=
  { s with buffer := Function.update s.buffer i (f (s.buffer i)) }

/-- Where the first message of a packet goes. -/
def packetStart (numbered : Bool) : Nat :=
  packetHeaderSize + if numbered then packetNumberSize else 0

/-- `kbasep_packet_header_setup`. -/
def kbasepPacketHeaderSetup (buffer : ByteMem) (pktFamily pktClass pktType streamId : Nat)
    (numbered : Bool) : ByteMem :=
  buffer.write 0 (Bytes.le 4 (mipePacketHeaderW0 pktFamily pktClass pktType streamId)
    ++ Bytes.le 4 (mipePacketHeaderW1 0 numbered.toNat))

/-- `kbasep_packet_header_update`. -/
def kbasepPacketHeaderUpdate (buffer : ByteMem) (dataSize : Nat) (numbered : Bool) : ByteMem :=
  buffer.write 4 (Bytes.le 4 (mipePacketHeaderW1 dataSize numbered.toNat))

/-- `kbasep_packet_number_update`. -/
def kbasepPacketNumberUpdate (buffer : ByteMem) (counter : Nat) : ByteMem :=
  buffer.write packetHeaderSize (Bytes.le 4 counter)

/-! ### Streams -/

/-- `enum tl_stream_type`. -/
inductive TlStreamType
  | objSummary | obj | aux
  deriving DecidableEq

/-- `tl_stream_cfg`: family, class, type and stream id. -/
def tlStreamCfg : TlStreamType → Nat × Nat × Nat × Nat
  | .objSummary => (1, 0, 2, 1)
  | .obj => (1, 0, 1, 1)
  | .aux => (1, 1, 1, 1)

/-- `kbase_tlstream_reset`. -/
def kbaseTlstreamReset (dump : Bool) (s : KbaseTlstream) : KbaseTlstream :=
  { s with
    buffer := fun i =>
      if i < packetCount dump then { s.buffer i with size := packetStart s.numbered }
      else s.buffer i
    wbi := 0
    rbi := 0 }

/-- `kbase_tlstream_init`: only packets of type `TL_PACKET_TYPE_BODY` are numbered. -/
def kbaseTlstreamInit (dump : Bool) (s : KbaseTlstream) (streamType : TlStreamType) :
    KbaseTlstream :=
  let (pktFamily, pktClass, pktType, streamId) := tlStreamCfg streamType
  let numbered : Bool := pktType = 1
  kbaseTlstreamReset dump
    { s with
      numbered := numbered
      buffer := fun i =>
        if i < packetCount dump then
          { s.buffer i with
            data := kbasepPacketHeaderSetup (s.buffer i).data pktFamily pktClass pktType streamId
              numbered }
        else s.buffer i }

/-- `kbasep_tlstream_msgbuf_submit`: the packet gets its header, the next one is empty. -/
def kbasepTlstreamMsgbufSubmit (dump : Bool) (s : KbaseTlstream) (wbIdxRaw wbSize : Nat) :
    KbaseTlstream × Nat :=
  let wbIdx := wbIdxRaw % packetCount dump
  let s := s.modifyPacket wbIdx fun p =>
    let data := kbasepPacketHeaderUpdate p.data (wbSize - packetHeaderSize) s.numbered
    { p with data := if s.numbered then kbasepPacketNumberUpdate data wbIdxRaw else data }
  ({ s with autoflushCounter := -1, wbi := s.wbi + 1 }, packetStart s.numbered)

/-- `kbase_tlstream_msgbuf_acquire`: the stream, and the packet and the offset in it
where the message goes. -/
def kbaseTlstreamMsgbufAcquire (dump : Bool) (s : KbaseTlstream) (msgSize : Nat) :
    KbaseTlstream × Nat × Nat :=
  let wbIdxRaw := s.wbi
  let wbIdx := wbIdxRaw % packetCount dump
  let wbSize := (s.buffer wbIdx).size
  if packetSize < wbSize + msgSize then
    let (s, wbSize) := kbasepTlstreamMsgbufSubmit dump s wbIdxRaw wbSize
    let wbIdx := (wbIdxRaw + 1) % packetCount dump
    (s.modifyPacket wbIdx fun p => { p with size := wbSize + msgSize }, wbIdx, wbSize)
  else
    (s.modifyPacket wbIdx fun p => { p with size := wbSize + msgSize }, wbIdx, wbSize)

/-- `kbase_tlstream_msgbuf_release`. -/
def kbaseTlstreamMsgbufRelease (s : KbaseTlstream) : KbaseTlstream :=
  { s with autoflushCounter := 0 }

/-- `kbase_tlstream_flush_stream`: an empty packet is not submitted. -/
def kbaseTlstreamFlushStream (dump : Bool) (s : KbaseTlstream) : KbaseTlstream :=
  let wbIdxRaw := s.wbi
  let wbIdx := wbIdxRaw % packetCount dump
  let wbSize := (s.buffer wbIdx).size
  if packetStart s.numbered < wbSize then
    let (s, wbSize) := kbasepTlstreamMsgbufSubmit dump s wbIdxRaw wbSize
    let wbIdx := (wbIdxRaw + 1) % packetCount dump
    s.modifyPacket wbIdx fun p => { p with size := wbSize }
  else s

/-! ### Serialization

`buffer` is where the message starts in the packet's bytes; the bytes written so far and
the position in the message go from one call to the next. -/

/-- `kbasep_serialize_bytes`. -/
def kbasepSerializeBytes (buffer : Nat) (bytes : List UInt8) (st : ByteMem × Nat) :
    ByteMem × Nat :=
  (st.1.write (buffer + st.2) bytes, st.2 + bytes.length)

/-- `kbasep_serialize_timestamp`, given what the clock says. -/
def kbasepSerializeTimestamp (buffer : Nat) (timestamp : UInt64) (st : ByteMem × Nat) :
    ByteMem × Nat :=
  kbasepSerializeBytes buffer (Bytes.le 8 timestamp.toNat) st

/-- `kbasep_serialize_string`: `strlcpy` cuts the string to the room there is, and returns
the length it has uncut. -/
def kbasepSerializeString (buffer : Nat) (string : List UInt8) (maxWriteSize : Nat)
    (st : ByteMem × Nat) : ByteMem × Nat :=
  let maxWriteSize := maxWriteSize - 4
  let data := st.1.write (buffer + (st.2 + 4)) (string.take (maxWriteSize - 1) ++ [0])
  let stringLen := string.length + 1
  (data.write (buffer + st.2) (Bytes.le 4 stringLen), st.2 + 4 + stringLen)

/-! ### Messages -/

/-- The letters of a message's layout: a pointer, a `u32`, a `u64`, a string. -/
inductive TlFormat
  | p | I | L | s
  deriving DecidableEq

/-- An argument of a tracepoint; pointers have 64 bits, and a string is the characters
before its terminator. -/
inductive TlArg
  | p (v : UInt64)
  | I (v : UInt32)
  | L (v : UInt64)
  | s (string : List UInt8)
  deriving DecidableEq

namespace TlArg

def format : TlArg → TlFormat
  | p _ => .p
  | I _ => .I
  | L _ => .L
  | s _ => .s

/-- The term of `msg_size` for the argument. -/
def size : TlArg → Nat
  | p _ => 8
  | I _ => 4
  | L _ => 8
  | s string => 4 + 1 + min string.length strlenMax

def serialize (buffer : Nat) : TlArg → ByteMem × Nat → ByteMem × Nat
  | p v => kbasepSerializeBytes buffer (Bytes.le 8 v.toNat)
  | I v => kbasepSerializeBytes buffer (Bytes.le 4 v.toNat)
  | L v => kbasepSerializeBytes buffer (Bytes.le 8 v.toNat)
  | s string => kbasepSerializeString buffer string (4 + 1 + min string.length strlenMax)

end TlArg

/-- The kinds of messages of a stream: the `enum` of message ids and the layout of each. -/
structure TlCatalog (K : Type) where
  msgId : K → Nat
  format : K → List TlFormat

/-- A call of a `__kbase_tlstream_*` function, with what the clock says and the calling
thread. -/
structure TlMsg {K : Type} (c : TlCatalog K) where
  kind : K
  timestamp : UInt64
  tid : UInt32
  args : List TlArg
  fits : args.map TlArg.format = c.format kind

/-- The `msg_size` of the call. -/
def TlMsg.msgSize {K : Type} {c : TlCatalog K} (m : TlMsg c) : Nat :=
  4 + 8 + 4 + (m.args.map TlArg.size).sum

/-- The body of `__kbase_tlstream_*`: all of them are this one, each with its own id and
arguments. -/
def TlMsg.emit {K : Type} {c : TlCatalog K} (dump : Bool) (m : TlMsg c) (s : KbaseTlstream) :
    KbaseTlstream :=
  let (s, wbIdx, buffer) := kbaseTlstreamMsgbufAcquire dump s m.msgSize
  let st := ((s.buffer wbIdx).data, 0)
  let st := kbasepSerializeBytes buffer (Bytes.le 4 (c.msgId m.kind)) st
  let st := kbasepSerializeTimestamp buffer m.timestamp st
  let st := kbasepSerializeBytes buffer (Bytes.le 4 m.tid.toNat) st
  let st := m.args.foldl (fun st arg => arg.serialize buffer st) st
  kbaseTlstreamMsgbufRelease (s.modifyPacket wbIdx fun p => { p with data := st.1 })

/-- What happens to a stream: a tracepoint, or the flush of the autoflush timer. -/
inductive TlOp {K : Type} (c : TlCatalog K)
  | msg (m : TlMsg c)
  | flush

def TlOp.run {K : Type} {c : TlCatalog K} (dump : Bool) (s : KbaseTlstream) :
    TlOp c → KbaseTlstream
  | .msg m => m.emit dump s
  | .flush => kbaseTlstreamFlushStream dump s

/-- A stream that was reset, after some operations. -/
def runTlOps {K : Type} {c : TlCatalog K} (dump : Bool) (s : KbaseTlstream)
    (ops : List (TlOp c)) : KbaseTlstream :=
  ops.foldl (TlOp.run dump) (kbaseTlstreamReset dump s)

end GpuReplay.Driver
