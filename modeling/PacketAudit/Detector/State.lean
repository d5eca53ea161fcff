import PacketAudit.Detector.Spans
import PacketAudit.Detector.Ntlm

namespace PacketAudit.Detector

/-!
# The state of the detector

The records of `detectors.py` that `SensitiveDetector` keeps between calls,
with its limits and the sizes it accounts for.  Statistics, peaks and the
parser positions of single protocols are left out: nothing here reads them.
-/

open Library

/-! ## Limits -/

/-- The constructor arguments of `SensitiveDetector` that bound its state. -/
structure DetectorLimits where
  overlapBytes : Nat
  maxFlows : Nat
  maxRetainedBytes : Nat
  maxMetadataEntries : Nat
  maxProvenanceSpans : Nat
  maxProvenancePacketIdRefs : Nat
  maxPacketIdsPerFinding : Nat
  overlapBytes_ge : 4096 ≤ overlapBytes
  maxFlows_pos : 1 ≤ maxFlows
  maxRetainedBytes_ge : 4096 ≤ maxRetainedBytes
  maxMetadataEntries_ge : 64 ≤ maxMetadataEntries
  maxProvenanceSpans_ge : 64 ≤ maxProvenanceSpans
  maxProvenancePacketIdRefs_ge : 64 ≤ maxProvenancePacketIdRefs
  maxPacketIdsPerFinding_pos : 1 ≤ maxPacketIdsPerFinding

namespace DetectorLimits

/-- The limits of a detector constructed without arguments. -/
def default : DetectorLimits where
  overlapBytes := 128 * 1024
  maxFlows := 20000
  maxRetainedBytes := 128 * 1024 * 1024
  maxMetadataEntries := 131072
  maxProvenanceSpans := 131072
  maxProvenancePacketIdRefs := 4 * 131072
  maxPacketIdsPerFinding := 8192
  overlapBytes_ge := by decide
  maxFlows_pos := (by decide : 0 < 20000)
  maxRetainedBytes_ge := by decide
  maxMetadataEntries_ge := by decide
  maxProvenanceSpans_ge := by decide
  maxProvenancePacketIdRefs_ge := by decide
  maxPacketIdsPerFinding_pos := by decide

/-- `max_ntlm_correlation_bytes`. -/
def maxNtlmCorrelationBytes (limits : DetectorLimits) : Nat :=
  max 1024 (min (16 * 1024 * 1024) (limits.maxRetainedBytes / 4))

/-- `max_ntlm_correlation_bytes_per_flow`. -/
def maxNtlmCorrelationBytesPerFlow (limits : DetectorLimits) : Nat :=
  min (1024 * 1024) limits.maxNtlmCorrelationBytes

/-- `max_ntlm_correlation_objects`. -/
def maxNtlmCorrelationObjects (limits : DetectorLimits) : Nat :=
  max 8 (min 65536 (limits.maxRetainedBytes / 2048))

/-- `max_ntlm_correlation_objects_per_flow`. -/
def maxNtlmCorrelationObjectsPerFlow (limits : DetectorLimits) : Nat :=
  min 64 limits.maxNtlmCorrelationObjects

end DetectorLimits

/-! ## Values -/

/-- The Python values that findings and pending authentications hold. -/
inductive Value where
  | text (value : String)
  | bytes (value : Bytes)
  | dict (items : List (Value × Value))
  | sequence (items : List Value)
  | number (value : Int)
  | null
  | other

mutual

/-- `_pending_auth_value_bytes`. -/
def Value.pendingBytes : Value → Nat
  | .text value => 64 + value.utf8ByteSize
  | .bytes value => 64 + value.length
  | .dict items => 128 + 48 * items.length + pendingBytesOfItems items
  | .sequence items => 64 + 8 * items.length + pendingBytesOfList items
  | .number _ => 32
  | .null => 32
  | .other => 128

/-- The sizes of a mapping's keys and items. -/
def pendingBytesOfItems : List (Value × Value) → Nat
  | [] => 0
  | item :: rest => pendingBytesOfItem item + pendingBytesOfItems rest

/-- The sizes of one key and its item. -/
def pendingBytesOfItem : Value × Value → Nat
  | (key, item) => key.pendingBytes + item.pendingBytes

/-- The sizes of a sequence's items. -/
def pendingBytesOfList : List Value → Nat
  | [] => 0
  | item :: rest => item.pendingBytes + pendingBytesOfList rest

end

/-- A direction as the integer of the source. -/
def directionNumber : Direction → Int
  | .aToB => 0
  | .bToA => 1

/-! ## What a flow keeps -/

/-- A detector flow id: a flow, with the connection epoch of a stream. -/
structure FlowId where
  flow : FlowKey
  connectionEpoch : Option Nat
  deriving Repr, DecidableEq

/-- `_DirectionState`: the retained tail of one direction. -/
structure DirectionState where
  baseOffset : Int := 0
  data : Bytes := []
  packetIds : List Nat := []
  provenanceSpans : List ProvenanceSpan := []
  deriving Repr, DecidableEq

/-- The stream offset right after the tail. -/
def DirectionState.tailEnd (tail : DirectionState) : Int :=
  tail.baseOffset + tail.data.length

/-- `_NtlmChallenge`. -/
structure NtlmChallenge where
  direction : Direction
  offset : Int
  timestampNs : Int
  challenge : Bytes
  packetIds : List Nat
  packetIdsComplete : Bool := true
  correlationId : Nat := 0
  retainedSize : Nat := 0
  smbSession : Option Nat := none
  deriving Repr, DecidableEq

/-- `_NtlmResponse`. -/
structure NtlmResponse where
  direction : Direction
  offset : Int
  timestampNs : Int
  username : String
  domain : String
  workstation : String
  lmResponse : Bytes
  ntResponse : Bytes
  packetIds : List Nat
  packetIdsComplete : Bool := true
  correlationId : Nat := 0
  retainedSize : Nat := 0
  smbSession : Option Nat := none
  deriving Repr, DecidableEq

/-- `_ntlm_challenge_size`. -/
def NtlmChallenge.size (challenge : NtlmChallenge) : Nat :=
  160 + challenge.challenge.length + 8 * challenge.packetIds.length

/-- `_ntlm_response_size`. -/
def NtlmResponse.size (response : NtlmResponse) : Nat :=
  224 +
    (response.username.utf8ByteSize + response.domain.utf8ByteSize +
      response.workstation.utf8ByteSize) +
    response.lmResponse.length + response.ntResponse.length +
    8 * response.packetIds.length

/-- A direction with an SMB2 session, the scope of one exchange. -/
structure NtlmScope where
  direction : Direction
  smbSession : Option Nat
  deriving Repr, DecidableEq

/-- The key of a retained challenge. -/
def NtlmChallenge.scope (challenge : NtlmChallenge) : NtlmScope :=
  ⟨challenge.direction, challenge.smbSession⟩

/-- The scope in which a response is paired. -/
def NtlmResponse.scope (response : NtlmResponse) : NtlmScope :=
  ⟨response.direction, response.smbSession⟩

/-- The kind and the key of a retained NTLM entry. -/
inductive NtlmKey where
  | challenge (scope : NtlmScope)
  | response (correlationId : Nat)
  deriving Repr, DecidableEq

/-- The mappings and the loss markers of pending authentications. -/
structure PendingAuth where
  plaintextUsers : OrderedTable (String × Direction) Value
  smtpPending : OrderedTable Direction Value
  imapPending : OrderedTable Direction Value
  pendingAuthLoss : List (String × Direction)

/-- The position a finding or a state change reaches: `(packet id, end)`. -/
abbrev Marker := Nat × Int

/-- Tuple comparison of two markers. -/
def Marker.before (left right : Marker) : Bool :=
  decide (left.1 < right.1) ||
    (decide (left.1 = right.1) && decide (left.2 < right.2))

/-- The scope of an emission high-water mark. -/
structure EmissionScope where
  detector : String
  direction : Direction
  emissionScope : List (Option Nat) := []
  deriving Repr, DecidableEq

/-- `_FlowState`. -/
structure FlowState where
  directions : OrderedTable Direction DirectionState := .empty
  emittedHighwater : OrderedTable EmissionScope Marker := .empty
  stateHighwater : OrderedTable (String × Direction) Marker := .empty
  attempts : OrderedTable String Nat := .empty
  ntlmChallenges : OrderedTable NtlmScope NtlmChallenge := .empty
  ntlmResponses : OrderedTable Nat NtlmResponse := .empty
  ntlmCorrelationBytes : Int := 0
  ntlmPairHighwater : OrderedTable NtlmScope Int := .empty
  smb2Seen : Bool := false
  ntlmZeroSessionAmbiguous : Bool := false
  ntlmZeroSessionLastType3Ns : Int := 0
  pendingAuth : PendingAuth := ⟨.empty, .empty, .empty, []⟩
  pendingAuthBytes : Int := 0
  pendingAuthObjects : Int := 0
  ntlmScanCursors : OrderedTable Direction Int := .empty
  ntlmPending : OrderedTable Direction Bool := .empty
  lastTimestampNs : Int := 0
  lastActivityNs : Int := 0

/-- How many spans and packet identifiers spans hold. -/
structure ProvenanceCounts where
  spans : Int
  packetIdRefs : Int
  deriving Repr, DecidableEq

/-- `_provenance_counts`. -/
def provenanceCounts (spans : List ProvenanceSpan) : ProvenanceCounts where
  spans := spans.length
  packetIdRefs := (spans.map fun span => (span.packetIds.length : Int)).sum

namespace PendingAuth

/-- The size of a mapping's entries and their number. -/
def mappingSize
    {κ : Type}
    (keyValue : κ → Value)
    (mapping : OrderedTable κ Value) : Nat × Nat :=
  ((mapping.entries.map fun entry =>
      256 + (keyValue entry.1).pendingBytes + entry.2.pendingBytes).sum,
    mapping.size)

/-- A direction as a key. -/
def directionKey (direction : Direction) : Value :=
  .number (directionNumber direction)

/-- A protocol or marker kind and a direction as a key. -/
def kindKey (key : String × Direction) : Value :=
  .sequence [.text key.1, directionKey key.2]

/-- `_state_pending_auth_size`: the bytes and the objects. -/
def measured (pending : PendingAuth) : Nat × Nat :=
  let plaintext := mappingSize kindKey pending.plaintextUsers
  let smtp := mappingSize directionKey pending.smtpPending
  let imap := mappingSize directionKey pending.imapPending
  let loss := pending.pendingAuthLoss.map fun marker =>
    96 + (kindKey marker).pendingBytes
  (plaintext.1 + smtp.1 + imap.1 + loss.sum,
    plaintext.2 + smtp.2 + imap.2 + loss.length)

end PendingAuth

namespace FlowState

/-- `_state_tail_bytes`. -/
def tailBytes (state : FlowState) : Int :=
  state.directions.sum fun tail => tail.data.length

/-- The sizes of the retained NTLM entries. -/
def ntlmRetained (state : FlowState) : Int :=
  (state.ntlmChallenges.sum fun challenge => challenge.retainedSize) +
    state.ntlmResponses.sum fun response => response.retainedSize

/-- `_state_ntlm_objects`. -/
def ntlmObjects (state : FlowState) : Nat :=
  state.ntlmChallenges.size + state.ntlmResponses.size

/-- `_state_metadata_entries`. -/
def metadataEntries (state : FlowState) : Int :=
  state.emittedHighwater.size + state.stateHighwater.size +
    state.ntlmPairHighwater.size

/-- `_flow_provenance_counts`. -/
def flowProvenanceCounts (state : FlowState) : ProvenanceCounts where
  spans :=
    state.directions.sum fun tail =>
      (provenanceCounts tail.provenanceSpans).spans
  packetIdRefs :=
    state.directions.sum fun tail =>
      (provenanceCounts tail.provenanceSpans).packetIdRefs

end FlowState

/-! ## The detector -/

/-- The mutable state of `SensitiveDetector`. -/
structure SensitiveDetector where
  flows : OrderedTable FlowId FlowState := .empty
  retainedTailBytes : Int := 0
  metadataEntries : Int := 0
  provenance : ProvenanceCounts := ⟨0, 0⟩
  pendingAuthBytes : Int := 0
  pendingAuthObjects : Int := 0
  ntlmCorrelationIndex : OrderedTable Nat (FlowId × NtlmKey) := .empty
  ntlmCorrelationBytes : Int := 0
  nextNtlmCorrelationId : Nat := 1

/-- `_retained_bytes`. -/
def SensitiveDetector.retainedBytes (detector : SensitiveDetector) : Int :=
  detector.retainedTailBytes + detector.ntlmCorrelationBytes +
    detector.pendingAuthBytes

/-! ## What a call observes and reports -/

/-- `_ScanContext`. -/
structure ScanContext where
  flow : FlowKey
  flowId : FlowId
  connectionEpoch : Option Nat
  direction : Direction
  baseOffset : Option Int
  data : Bytes
  packetIds : List Nat
  provenanceSpans : List ProvenanceSpan
  packetIdsComplete : Bool
  observedTimestampNs : Int
  completeness : Completeness
  isDatagram : Bool := false
  deriving Repr, DecidableEq

/-- `Finding`, without its random and clock-dependent labels. -/
structure Finding where
  observedTimestampNs : Int
  category : String
  protocol : String
  detector : String
  materialType : String
  material : Value
  confidence : String
  completeness : Completeness
  flowId : FlowId
  direction : Direction
  packetIds : List Nat
  streamOffset : Option Int
  attemptOrdinal : Nat
  fields : List (String × Value)
  limitations : List String
  connectionEpoch : Option Nat
  packetIdsComplete : Bool

/-- What the packets of a finding were taken from. -/
inductive FindingBasis where
  /-- Its byte range, from an absolute position to another. -/
  | byteRange (first last : Int)
  /-- Identifiers the scanner passed to `_emit`. -/
  | override
  /-- A challenge, out of those retained then, and a response. -/
  | exchange
      (retained : List NtlmChallenge)
      (challenge : NtlmChallenge)
      (response : NtlmResponse)

/-- An NTLM message that `_handle_ntlm_blob` is to correlate. -/
inductive NtlmMessage where
  | challenge (challenge : NtlmChallenge)
  | response (response : NtlmResponse)

/-- The counters whose updates are clamped with `max(0, …)`. -/
inductive ClampedCounter where
  | retainedTailBytes
  | pendingAuthBytes
  | pendingAuthObjects
  | ntlmCorrelationBytes
  | flowNtlmCorrelationBytes
  deriving Repr, DecidableEq

/-- What can be observed while the detector works. -/
inductive DetectorEvent where
  /-- A stream chunk is merged into its tail. -/
  | fed (chunk : StreamChunk)
  /-- `max(0, value)` is assigned to a counter. -/
  | clamped (counter : ClampedCounter) (value : Int)
  /-- A flow and all it held is dropped. -/
  | dropped (flowId : FlowId)
  /-- An NTLM message is handled in this state of its flow. -/
  | handled (flowId : FlowId) (before : FlowState) (message : NtlmMessage)
  /-- A finding is returned. -/
  | found (context : ScanContext) (finding : Finding) (basis : FindingBasis)

end PacketAudit.Detector
