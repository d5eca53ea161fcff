import PacketAudit.Library.Segments
import PacketAudit.Library.OrderedTable
import PacketAudit.Library.Trace

namespace PacketAudit

/-!
# Records passed between capture, reassembly and detection

The records of `models.py` that the packet parsers and the two reassemblers
read and write.  Packet bytes are lists of `UInt8`; timestamps and stream
positions are integers.  The exporter's records are left to the modules that
use them.
-/

/-- A Python `bytes` value. -/
abbrev Bytes := List UInt8

/-- One side of a transport conversation. -/
structure Endpoint where
  address : String
  port : Nat := 0
  deriving Repr, DecidableEq

/-- `Endpoint.sort_key` order: the address text first, then the port. -/
def Endpoint.sortsBefore (left right : Endpoint) : Bool :=
  decide (left.address < right.address) ||
    (decide (left.address = right.address) && decide (left.port ≤ right.port))

/-- Canonical bidirectional flow identity with capture context. -/
structure FlowKey where
  protocol : Nat
  endpointA : Endpoint
  endpointB : Endpoint
  interface : String
  vlanIds : List Nat := []
  deriving Repr, DecidableEq

/-- The direction index of a chunk: 0 from endpoint a to b, 1 from b to a. -/
inductive Direction where
  | aToB
  | bToA
  deriving Repr, DecidableEq

namespace Direction

/-- `1 - direction`. -/
def opposite : Direction → Direction
  | aToB => bToA
  | bToA => aToB

@[simp] theorem opposite_ne (direction : Direction) :
    direction.opposite ≠ direction := by
  cases direction <;> decide

@[simp] theorem ne_opposite (direction : Direction) :
    direction ≠ direction.opposite :=
  (opposite_ne direction).symm

theorem eq_or_eq_opposite (direction other : Direction) :
    other = direction ∨ other = direction.opposite := by
  cases direction <;> cases other <;> decide

end Direction

/-- `FlowKey.canonical`: both directions of a conversation share one key. -/
def FlowKey.canonical
    (protocol : Nat)
    (src : String)
    (sport : Nat)
    (dst : String)
    (dport : Nat)
    (interface : String)
    (vlanIds : List Nat) : FlowKey × Direction :=
  let left : Endpoint := ⟨src, sport⟩
  let right : Endpoint := ⟨dst, dport⟩
  if left.sortsBefore right then
    (⟨protocol, left, right, interface, vlanIds⟩, .aToB)
  else
    (⟨protocol, right, left, interface, vlanIds⟩, .bToA)

/-- One frame delivered by the capture source. -/
structure CapturedPacket where
  sessionId : String
  packetId : Nat
  timestampNs : Int
  interface : String
  datalink : Nat
  capturedLength : Nat
  wireLength : Nat
  raw : Bytes
  deriving Repr, DecidableEq

/-- One decoded packet, before or after fragment reassembly. -/
structure ParsedPacket where
  sessionId : String
  packetId : Nat
  timestampNs : Int
  interface : String
  capturedLength : Nat
  wireLength : Nat
  ipVersion : Nat
  src : String
  dst : String
  protocol : Nat
  vlanIds : List Nat
  networkPayload : Bytes
  truncated : Bool := false
  fragmentId : Option Nat := none
  fragmentOffset : Nat := 0
  moreFragments : Bool := false
  transportParsed : Bool := false
  sport : Nat := 0
  dport : Nat := 0
  tcpSeq : Nat := 0
  tcpAck : Nat := 0
  tcpFlags : Nat := 0
  transportPayload : Bytes := []
  sourcePacketIds : List Nat := []
  deriving Repr, DecidableEq

namespace ParsedPacket

/-- The canonical flow of a packet and the packet's direction in it. -/
def flow (packet : ParsedPacket) : FlowKey × Direction :=
  FlowKey.canonical packet.protocol packet.src packet.sport packet.dst
    packet.dport packet.interface packet.vlanIds

/--
`packet.source_packet_ids or (packet.packet_id,)`: the captured packets whose
bytes this packet carries.
-/
def contributingIds (packet : ParsedPacket) : List Nat :=
  if packet.sourcePacketIds.isEmpty then [packet.packetId]
  else packet.sourcePacketIds

end ParsedPacket

/-- Captured-packet provenance for one absolute stream-offset interval. -/
structure ProvenanceSpan where
  streamStart : Int
  streamEnd : Int
  packetIds : List Nat
  packetIdsComplete : Bool := true
  deriving Repr, DecidableEq

/-- The completeness labels a reassembler can give to a chunk. -/
inductive Completeness where
  | complete
  | midstream
  | gapped
  | truncated
  | encrypted
  | parserError
  | potential
  deriving Repr, DecidableEq

/-- A contiguous run of newly reassembled stream bytes. -/
structure StreamChunk where
  flow : FlowKey
  direction : Direction
  streamOffset : Int
  data : Bytes
  packetIds : List Nat
  firstTimestampNs : Int
  lastTimestampNs : Int
  connectionEpoch : Nat := 0
  completeness : Completeness := .complete
  provenanceSpans : List ProvenanceSpan := []
  deriving Repr, DecidableEq

/-- The stream offset right after the chunk. -/
def StreamChunk.streamEnd (chunk : StreamChunk) : Int :=
  chunk.streamOffset + chunk.data.length

/-! ## Packet identifiers in first-seen order -/

/-- Append the identifiers that a list does not have yet. -/
def addPacketIds (known added : List Nat) : List Nat :=
  added.foldl
    (fun ids packetId => if packetId ∈ ids then ids else ids ++ [packetId])
    known

@[simp] theorem addPacketIds_nil (known : List Nat) :
    addPacketIds known [] = known := rfl

theorem addPacketIds_cons
    (known : List Nat)
    (packetId : Nat)
    (rest : List Nat) :
    addPacketIds known (packetId :: rest) =
      addPacketIds (if packetId ∈ known then known else known ++ [packetId])
        rest := rfl

theorem addPacketIds_append
    (known first second : List Nat) :
    addPacketIds known (first ++ second) =
      addPacketIds (addPacketIds known first) second := by
  simp [addPacketIds, List.foldl_append]

/-- Adding identifiers keeps the known ones and adds exactly the new ones. -/
theorem mem_addPacketIds
    {known added : List Nat}
    {packetId : Nat} :
    packetId ∈ addPacketIds known added ↔
      packetId ∈ known ∨ packetId ∈ added := by
  induction added generalizing known with
  | nil =>
      simp
  | cons first rest inductionHypothesis =>
      rw [addPacketIds_cons, inductionHypothesis]
      by_cases isKnown : first ∈ known
      · simp only [isKnown, ↓reduceIte, List.mem_cons]
        constructor
        · intro member
          exact member.imp_right .inr
        · intro member
          rcases member with inKnown | isFirst | inRest
          · exact .inl inKnown
          · exact .inl (isFirst ▸ isKnown)
          · exact .inr inRest
      · simp [isKnown, or_assoc]

/-- Identifiers that are all known are not added again. -/
theorem addPacketIds_of_subset
    {known added : List Nat}
    (subset : ∀ packetId ∈ added, packetId ∈ known) :
    addPacketIds known added = known := by
  induction added with
  | nil =>
      rfl
  | cons first rest inductionHypothesis =>
      rw [addPacketIds_cons, if_pos (subset first List.mem_cons_self)]
      exact inductionHypothesis fun packetId member =>
        subset packetId (List.mem_cons_of_mem _ member)

/-- The collected identifiers are the first occurrences, in order. -/
theorem addPacketIds_eq_eraseDups (packetIds : List Nat) :
    addPacketIds [] packetIds = packetIds.eraseDups := by
  have loop
      (remaining known : List Nat) :
      List.eraseDupsBy.loop (· == ·) remaining known =
        addPacketIds known.reverse remaining := by
    induction remaining generalizing known with
    | nil =>
        rfl
    | cons first rest inductionHypothesis =>
        unfold List.eraseDupsBy.loop
        rw [addPacketIds_cons]
        by_cases isKnown : first ∈ known
        · have found : known.any (first == ·) = true := by
            simpa using isKnown
          simp only [found, List.mem_reverse, isKnown, ↓reduceIte]
          exact inductionHypothesis known
        · have notFound : known.any (first == ·) = false := by
            rw [List.any_eq_false]
            intro packetId member same
            exact isKnown (eq_of_beq same ▸ member)
          simp only [notFound, List.mem_reverse, isKnown, ↓reduceIte]
          rw [inductionHypothesis, List.reverse_cons]
  exact (loop packetIds []).symm

end PacketAudit
