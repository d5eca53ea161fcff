import PacketAudit.Packets.Fields

namespace PacketAudit

/-!
# Classic capture files

`_ClassicPcapHandle` and `read_batch` of `capture.py`, for a capture file that
is read without the native binding.  A read past the end of the file returns
what is there.
-/

/-! ## The handle -/

inductive ByteOrder where
  | little
  | big
  deriving Repr, DecidableEq

/-- An unsigned number of `struct.unpack`. -/
def ByteOrder.number (order : ByteOrder) (data : Bytes) : Nat :=
  match order with
  | little => bigEndian data.reverse
  | big => bigEndian data

inductive Precision where
  | micro
  | nano
  deriving Repr, DecidableEq

/-- What `CaptureError` or one of its subclasses says. -/
inductive PcapFault where
  | capture (message : String)
  | pcapyUnavailable (message : String)
  deriving Repr, DecidableEq

/-- `_ClassicPcapHeader`. -/
structure ClassicPcapHeader where
  seconds : Nat
  fraction : Nat
  capturedLength : Nat
  wireLength : Nat
  timestampPrecision : Precision
  deriving Repr, DecidableEq

/-- `_ClassicPcapHandle`, with the bytes of the file that are not read yet. -/
structure ClassicPcapHandle where
  file : Bytes
  endian : ByteOrder
  precision : Precision
  datalink : Nat
  snaplen : Nat
  received : Nat := 0
  closed : Bool := false
  deriving Repr, DecidableEq

namespace ClassicPcapHandle

/-- `_MAGIC`. -/
def magic? (header : Bytes) : Option (ByteOrder × Precision) :=
  if header = [0xd4, 0xc3, 0xb2, 0xa1] then some (.little, .micro)
  else if header = [0xa1, 0xb2, 0xc3, 0xd4] then some (.big, .micro)
  else if header = [0x4d, 0x3c, 0xb2, 0xa1] then some (.little, .nano)
  else if header = [0xa1, 0xb2, 0x3c, 0x4d] then some (.big, .nano)
  else none

/-- The largest packet that is read, whatever the file declares. -/
def safetyLimit : Nat := 16 * 1024 * 1024

/-- `__init__`, for a file that can be opened. -/
def init (path : String) (content : Bytes) :
    Except PcapFault ClassicPcapHandle :=
  let header := content.take 24
  if header.length ≠ 24 then
    .error (.capture s!"capture file {path} has a short global header")
  else if header.take 4 = [0x0a, 0x0d, 0x0d, 0x0a] then
    .error (.pcapyUnavailable
      ("pcapng replay requires pcapy-ng (classic pcap is supported " ++
        "without it)"))
  else
    match magic? (header.take 4) with
    | none =>
        .error (.capture
          s!"capture file {path} has an unknown pcap magic value")
    | some (endian, precision) =>
        let field := fun start stop => endian.number (header.extract start stop)
        let major := field 4 6
        let minor := field 6 8
        let snaplen := field 16 20
        if major ≠ 2 ∨ minor ≠ 4 then
          .error (.capture
            s!"unsupported classic pcap version {major}.{minor} in {path}")
        else if snaplen < 1 ∨ safetyLimit < snaplen then
          .error (.capture
            s!"capture file {path} declares an unsafe snaplen")
        else
          .ok {
            file := content.drop 24
            endian := endian
            precision := precision
            datalink := field 20 24
            snaplen := snaplen
          }

/-- A fraction of a second is less than this. -/
def fractionLimit (handle : ClassicPcapHandle) : Nat :=
  match handle.precision with
  | .nano => 1000000000
  | .micro => 1000000

/-- The fields of a record header of sixteen bytes. -/
def header (handle : ClassicPcapHandle) (data : Bytes) : ClassicPcapHeader where
  seconds := handle.endian.number (data.extract 0 4)
  fraction := handle.endian.number (data.extract 4 8)
  capturedLength := handle.endian.number (data.extract 8 12)
  wireLength := handle.endian.number (data.extract 12 16)
  timestampPrecision := handle.precision

/-- `next`: a record and what is left, or nothing at the end. -/
def next (handle : ClassicPcapHandle) :
    Except PcapFault
      (Option ((ClassicPcapHeader × Bytes) × ClassicPcapHandle)) :=
  if handle.closed then
    .ok none
  else
    let recordHeader := handle.file.take 16
    if recordHeader.isEmpty then
      .ok none
    else if recordHeader.length ≠ 16 then
      .error (.capture "classic pcap ends inside a packet header")
    else
      let header := handle.header recordHeader
      if handle.fractionLimit ≤ header.fraction then
        .error (.capture
          "classic pcap packet has an invalid timestamp fraction")
      else if handle.snaplen < header.capturedLength ∨
          safetyLimit < header.capturedLength then
        .error (.capture
          "classic pcap packet length exceeds its snapshot or safety limit")
      else if header.wireLength < header.capturedLength then
        .error (.capture
          "classic pcap wire length is shorter than captured length")
      else
        let data := (handle.file.drop 16).take header.capturedLength
        if data.length ≠ header.capturedLength then
          .error (.capture "classic pcap ends inside packet data")
        else
          .ok (some ((header, data), { handle with
            file := handle.file.drop (16 + header.capturedLength)
            received := handle.received + 1 }))

end ClassicPcapHandle

/-! ## The source -/

/-- `_PcapySource` over a classic handle, as `PcapyOfflineSource` builds it. -/
structure OfflineSource where
  handle : ClassicPcapHandle
  interface : String
  sessionId : String
  batchSize : Nat
  packetId : Nat := 0
  closed : Bool := false
  eof : Bool := false
  deriving Repr, DecidableEq

/-- What `read_batch` raises. -/
inductive ReadFault where
  | value (message : String)
  | capture (fault : PcapFault)
  deriving Repr, DecidableEq

/-- `_timestamp_ns`. -/
def ClassicPcapHeader.timestampNs (header : ClassicPcapHeader) : Int :=
  let multiplier :=
    match header.timestampPrecision with
    | .nano => 1
    | .micro => 1000
  header.seconds * 1000000000 + header.fraction * multiplier

namespace OfflineSource

/-- `PcapyOfflineSource`, for a capture file of this content. -/
def openFile
    (path : String)
    (content : Bytes)
    (interface sessionId : String)
    (batchSize : Nat) : Except ReadFault OfflineSource :=
  match ClassicPcapHandle.init path content with
  | .error fault => .error (.capture fault)
  | .ok handle =>
      if batchSize < 1 then
        .error (.value "batch_size must be positive")
      else
        .ok {
          handle := handle
          interface := interface
          sessionId := sessionId
          batchSize := batchSize
        }

/-- `_record`. -/
def record
    (source : OfflineSource)
    (header : ClassicPcapHeader)
    (raw : Bytes) : Except PcapFault (CapturedPacket × OfflineSource) :=
  if header.capturedLength ≠ raw.length ∨
      header.wireLength < header.capturedLength then
    .error (.capture "capture record lengths do not match its payload")
  else
    .ok ({
      sessionId := source.sessionId
      packetId := source.packetId + 1
      timestampNs := header.timestampNs
      interface := source.interface
      datalink := source.handle.datalink
      capturedLength := header.capturedLength
      wireLength := header.wireLength
      raw := raw
    }, { source with packetId := source.packetId + 1 })

/-- One round of the loop: a packet, or the end of the file. -/
def nextPacket (source : OfflineSource) :
    Except PcapFault (Option (CapturedPacket × OfflineSource)) := do
  match ← source.handle.next with
  | none => .ok none
  | some ((header, data), handle) =>
      some <$> { source with handle := handle }.record header data

/-- The loop of `read_batch`, for at most `limit` packets. -/
def readPackets :
    (limit : Nat) → OfflineSource →
      Except PcapFault (List CapturedPacket × OfflineSource)
  | 0, source => .ok ([], source)
  | limit + 1, source => do
      match ← source.nextPacket with
      | none => .ok ([], { source with eof := true })
      | some (packet, source) =>
          let (batch, source) ← readPackets limit source
          .ok (packet :: batch, source)

/-- `read_batch`. -/
def readBatch
    (source : OfflineSource)
    (maxPackets : Option Int) :
    Except ReadFault (List CapturedPacket × OfflineSource) :=
  if source.closed ∨ source.eof then
    .ok ([], source)
  else
    let limit := maxPackets.getD source.batchSize
    if limit < 1 then
      .error (.value "max_packets must be positive")
    else
      (source.readPackets limit.toNat).mapError .capture

end OfflineSource

end PacketAudit
