import PacketAudit.Detector.Merge

namespace PacketAudit.Detector

/-!
# Findings and NTLM correlation

`_emit`, the correlation of NTLM challenges with responses, and the raw NTLM
scanner.
-/

open Library

/-! ## Findings -/

/-- The arguments of `_emit`. -/
structure Emission where
  detector : String
  start : Int
  stop : Int
  category : String
  protocol : String
  materialType : String
  material : Value
  confidence : String := "confirmed"
  completeness : Option Completeness := none
  fields : List (String × Value) := []
  limitations : List String := []
  emissionScope : List (Option Nat) := []
  packetIdsOverride : Option (List Nat × Bool) := none
  /-- Limitations the caller appends to the finding. -/
  laterLimitations : List String := []

/-- The messages of an exchange, with the challenges retained then. -/
structure Exchange where
  retained : List NtlmChallenge
  challenge : NtlmChallenge
  response : NtlmResponse
  deriving Repr, DecidableEq

namespace ScanContext

/-- The absolute position of a position in the scanned data. -/
def absolute (context : ScanContext) (position : Int) : Int :=
  context.baseOffset.getD 0 + position

/-- `_provenance_for_span`. -/
def provenance
    (limits : DetectorLimits)
    (start stop : Int)
    (context : ScanContext) : List Nat × Bool :=
  provenanceForSpan limits.maxPacketIdsPerFinding context.packetIds
    context.packetIdsComplete context.provenanceSpans
    (context.absolute start) (context.absolute stop)

/-- `_position_marker`. -/
def positionMarker (stop : Int) (context : ScanContext) : Marker :=
  match context.baseOffset with
  | none => (context.packetIds.foldl max 0, stop)
  | some baseOffset => (0, baseOffset + stop)

end ScanContext

namespace Emission

/-- The scope of the high-water mark of a finding. -/
def scope (request : Emission) (context : ScanContext) : EmissionScope where
  detector := request.detector
  direction := context.direction
  emissionScope := request.emissionScope

/-- The packet identifiers of the finding. -/
def packetIds
    (request : Emission)
    (limits : DetectorLimits)
    (context : ScanContext) : List Nat × Bool :=
  match request.packetIdsOverride with
  | none => context.provenance limits request.start request.stop
  | some (packetIds, complete) =>
      limitProvenanceIds limits.maxPacketIdsPerFinding packetIds complete

/-- What the packets of the finding are taken from. -/
def basis
    (request : Emission)
    (context : ScanContext)
    (exchange : Option Exchange) : FindingBasis :=
  match exchange, request.packetIdsOverride with
  | some exchange, _ =>
      .exchange exchange.retained exchange.challenge exchange.response
  | none, some _ => .override
  | none, none =>
      .byteRange (context.absolute request.start)
        (context.absolute request.stop)

/-- The finding `_emit` builds. -/
def finding
    (request : Emission)
    (limits : DetectorLimits)
    (context : ScanContext)
    (attemptOrdinal : Nat) : Finding :=
  let packetIds := request.packetIds limits context
  {
    observedTimestampNs := context.observedTimestampNs
    category := request.category
    protocol := request.protocol
    detector := request.detector
    materialType := request.materialType
    material := request.material
    confidence := request.confidence
    completeness := request.completeness.getD context.completeness
    flowId := context.flowId
    direction := context.direction
    packetIds := packetIds.1
    streamOffset := context.baseOffset.map (· + request.start)
    attemptOrdinal
    fields := request.fields
    limitations :=
      request.limitations ++
        (if packetIds.2 then []
          else ["Captured-packet provenance is bounded or incomplete" ++
            " for this finding."]) ++
        request.laterLimitations
    connectionEpoch := context.connectionEpoch
    packetIdsComplete := packetIds.2
  }

end Emission

/-- Count an attempt at a material type. -/
def FlowState.countAttempt
    (materialType : String)
    (state : FlowState) : FlowState :=
  { state with
    attempts :=
      state.attempts.set materialType
        ((state.attempts.get? materialType).getD 0 + 1) }

namespace SensitiveDetector

/-- The end of `_emit`, once the high-water mark is set. -/
def report
    (limits : DetectorLimits)
    (context : ScanContext)
    (exchange : Option Exchange)
    (request : Emission)
    (detector : SensitiveDetector) :
    Outcome SensitiveDetector DetectorEvent :=
  let counted :=
    detector.reviseFlow context.flowId
      (FlowState.countAttempt request.materialType)
  let ordinal :=
    ((counted.stateOf context.flowId).attempts.get?
      request.materialType).getD 0
  {
    state := counted
    events := [
      .found context (request.finding limits context ordinal)
        (request.basis context exchange)
    ]
  }

/-- `_emit`: the answer tells whether there is a finding. -/
def emit
    (limits : DetectorLimits)
    (context : ScanContext)
    (exchange : Option Exchange)
    (request : Emission)
    (detector : SensitiveDetector) :
    Outcome (SensitiveDetector × Bool) DetectorEvent :=
  let scope := request.scope context
  let marker := context.positionMarker request.stop
  (setHighwater limits context.flowId
      (fun state => state.emittedHighwater.get? scope)
      (fun state =>
        { state with
          emittedHighwater := state.emittedHighwater.set scope marker })
      marker detector).bind fun answer =>
    if answer.2 then
      (answer.1.report limits context exchange request).bind fun next =>
        .quiet (next, true)
    else
      .quiet (answer.1, false)

/-- `_state_once`. -/
def stateOnce
    (limits : DetectorLimits)
    (context : ScanContext)
    (name : String)
    (stop : Int)
    (detector : SensitiveDetector) :
    Outcome (SensitiveDetector × Bool) DetectorEvent :=
  let scope := (name, context.direction)
  let marker := context.positionMarker stop
  setHighwater limits context.flowId
    (fun state => state.stateHighwater.get? scope)
    (fun state =>
      { state with stateHighwater := state.stateHighwater.set scope marker })
    marker detector

end SensitiveDetector

/-! ## Pairing -/

/-- A challenge that may answer for a response: the candidates' conditions. -/
def NtlmResponse.answeredBy
    (response : NtlmResponse)
    (challenge : NtlmChallenge) : Bool :=
  decide (challenge.direction ≠ response.direction) &&
    decide (challenge.timestampNs ≤ response.timestampNs) &&
    decide (challenge.smbSession = response.smbSession)

/-- Candidates are compared by time, then by offset. -/
def NtlmChallenge.rankedBefore (left right : NtlmChallenge) : Bool :=
  decide (left.timestampNs < right.timestampNs) ||
    (decide (left.timestampNs = right.timestampNs) &&
      decide (left.offset < right.offset))

/-- `max(candidates, key=…)`: the first of the highest ones. -/
def bestOf : List NtlmChallenge → Option NtlmChallenge
  | [] => none
  | first :: rest =>
      match bestOf rest with
      | none => some first
      | some other =>
          if first.rankedBefore other then some other else some first

/-- The retained challenges of a flow. -/
def FlowState.retainedChallenges (state : FlowState) : List NtlmChallenge :=
  state.ntlmChallenges.entries.map Prod.snd

/-- The best candidate for a response. -/
def bestChallenge?
    (retained : List NtlmChallenge)
    (response : NtlmResponse) : Option NtlmChallenge :=
  bestOf (retained.filter response.answeredBy)

/-- The response lies at or before the last one paired in its scope. -/
def FlowState.pairedAlready
    (response : NtlmResponse)
    (state : FlowState) : Bool :=
  (state.ntlmPairHighwater.get? response.scope).any fun offset =>
    decide (response.offset ≤ offset)

/-- The context a pairing is reported in: that of the response. -/
def responseContext
    (response : NtlmResponse)
    (context : ScanContext) : ScanContext :=
  { context with
    direction := response.direction
    baseOffset := some response.offset
    observedTimestampNs := response.timestampNs }

/-- The emission of `_correlate_ntlm`. -/
def pairEmission
    (limits : DetectorLimits)
    (challenge : NtlmChallenge)
    (response : NtlmResponse)
    (hashcat : String)
    (mode : Nat)
    (materialType : String) : Emission where
  detector := "ntlm_challenge_response_correlation"
  start := 0
  stop := 1
  category := "credential"
  protocol := "ntlm"
  materialType
  material := .dict [
    (.text "hashcat", .text hashcat),
    (.text "hashcat_mode", .number mode),
    (.text "smb_session_id",
      (response.smbSession.map fun session =>
        Value.number session).getD .null),
    (.text "username", .text response.username),
    (.text "domain", .text response.domain),
    (.text "workstation", .text response.workstation),
    (.text "challenge_hex", .text (hexText challenge.challenge)),
    (.text "lm_response_hex", .text (hexText response.lmResponse)),
    (.text "nt_response_hex", .text (hexText response.ntResponse))
  ]
  confidence := if response.smbSession = some 0 then "high" else "confirmed"
  fields := [
    ("challenge_stream_offset", .number challenge.offset),
    ("response_stream_offset", .number response.offset),
    ("hashcat_mode", .number mode)
  ]
  limitations :=
    ["Challenge-response material does not demonstrate authentication" ++
        " success.",
      "This is not a plaintext password or a reusable NT hash."] ++
      (if response.smbSession = some 0 then
        ["SMB2 SessionId is zero; association uses the sole unresolved" ++
          " challenge in this TCP connection."]
      else [])
  emissionScope := [response.smbSession]
  packetIdsOverride :=
    some
      (combineProvenance limits.maxPacketIdsPerFinding [
        (challenge.packetIds, challenge.packetIdsComplete),
        (response.packetIds, response.packetIdsComplete)
      ])

namespace SensitiveDetector

/-- Forget a queued response. -/
def forgetResponse
    (flowId : FlowId)
    (response : NtlmResponse)
    (detector : SensitiveDetector) :
    Outcome SensitiveDetector DetectorEvent :=
  if response.correlationId ≠ 0 then
    detector.removeEntry flowId (.response response.correlationId)
  else
    .quiet detector

/-- `_reserve_metadata_entry`, unless the scope has a mark already. -/
def reservePairMark
    (limits : DetectorLimits)
    (flowId : FlowId)
    (response : NtlmResponse)
    (detector : SensitiveDetector) :
    Outcome (SensitiveDetector × Bool) DetectorEvent :=
  if ((detector.stateOf flowId).ntlmPairHighwater.get?
      response.scope).isNone then
    detector.reserveMetadataEntry limits flowId
  else
    .quiet (detector, true)

/-- The end of `_correlate_ntlm`: mark the response and report the pair. -/
def reportPair
    (limits : DetectorLimits)
    (context : ScanContext)
    (exchange : Exchange)
    (request : Emission)
    (detector : SensitiveDetector) :
    Outcome SensitiveDetector DetectorEvent :=
  let response := exchange.response
  let marked :=
    detector.reviseFlow context.flowId fun state =>
      { state with
        ntlmPairHighwater :=
          state.ntlmPairHighwater.set response.scope response.offset }
  (marked.emit limits (responseContext response context) (some exchange)
      request).bind fun answer =>
    if answer.2 && decide (response.smbSession = some 0) then
      .quiet
        (answer.1.reviseFlow context.flowId fun state =>
          { state with
            ntlmZeroSessionLastType3Ns :=
              max state.ntlmZeroSessionLastType3Ns response.timestampNs })
    else
      .quiet answer.1

/-- `_correlate_ntlm`. -/
def correlateNtlm
    (limits : DetectorLimits)
    (context : ScanContext)
    (response : NtlmResponse)
    (detector : SensitiveDetector) :
    Outcome SensitiveDetector DetectorEvent :=
  let state := detector.stateOf context.flowId
  let retained := state.retainedChallenges
  match bestChallenge? retained response with
  | none => .quiet detector
  | some challenge =>
      if state.pairedAlready response then
        .quiet detector
      else
        match
          hashcatLine response.username response.domain challenge.challenge
            response.lmResponse response.ntResponse with
        | none => detector.forgetResponse context.flowId response
        | some (hashcat, mode, materialType) =>
            (detector.forgetResponse context.flowId response).bind
              fun next =>
                (next.reservePairMark limits context.flowId response).bind
                  fun answer =>
                    if answer.2 then
                      answer.1.reportPair limits context
                        ⟨retained, challenge, response⟩
                        (pairEmission limits challenge response hashcat
                          mode materialType)
                    else
                      .quiet answer.1

/-- `_correlate_pending_ntlm`. -/
def correlatePendingNtlm
    (limits : DetectorLimits)
    (context : ScanContext)
    (detector : SensitiveDetector) :
    Outcome SensitiveDetector DetectorEvent :=
  let responses :=
    (detector.stateOf context.flowId).ntlmResponses.entries.map Prod.snd
  runAll (correlateNtlm limits context) responses detector

/-! ## Messages -/

/-- A message is about to be correlated. -/
def noteHandled
    (flowId : FlowId)
    (message : NtlmMessage)
    (detector : SensitiveDetector) :
    Outcome SensitiveDetector DetectorEvent where
  state := detector
  events := [.handled flowId (detector.stateOf flowId) message]

/-- The end of `_handle_ntlm_blob` for a Type 2 message. -/
def handleChallenge
    (limits : DetectorLimits)
    (context : ScanContext)
    (challenge : NtlmChallenge)
    (detector : SensitiveDetector) :
    Outcome SensitiveDetector DetectorEvent :=
  let existing :=
    (detector.stateOf context.flowId).ntlmChallenges.get? challenge.scope
  ((detector.noteHandled context.flowId (.challenge challenge)).andThen
    (if existing.all fun other => decide (other.offset < challenge.offset)
      then retainNtlmChallenge limits context.flowId challenge
      else .quiet)).andThen
    (correlatePendingNtlm limits context)

/-- The end of `_handle_ntlm_blob` for a Type 3 message. -/
def handleResponse
    (limits : DetectorLimits)
    (context : ScanContext)
    (response : NtlmResponse)
    (detector : SensitiveDetector) :
    Outcome SensitiveDetector DetectorEvent :=
  let state := detector.stateOf context.flowId
  (detector.noteHandled context.flowId (.response response)).andThen
    (if state.retainedChallenges.any response.answeredBy then
      correlateNtlm limits context response
    else if
        state.ntlmResponses.entries.any fun entry =>
          decide (entry.2.direction = response.direction) &&
            decide (entry.2.offset = response.offset) then
      .quiet
    else
      retainNtlmResponse limits context.flowId response)

end SensitiveDetector

/-- An NTLM token in the scanned data, with what its scanner found out. -/
structure NtlmToken where
  blob : Bytes
  start : Nat
  stop : Nat
  detector : String
  encodedValue : Option String := none
  smbSession : Option Nat := none
  correlationAllowed : Bool := true
  deriving Repr, DecidableEq

namespace NtlmToken

/-- The `material` items that both message types have. -/
def commonMaterial
    (token : NtlmToken)
    (messageType messageEnd : Nat) : List (Value × Value) :=
  [(.text "message_type", .number messageType),
    (.text "raw_hex", .text (hexText (token.blob.take messageEnd)))] ++
    (token.encodedValue.toList.map fun encoded =>
      (.text "encoded", .text encoded))

/-- The limitation of a message that is not correlated. -/
def laterLimitations
    (token : NtlmToken)
    (kind : String)
    (state : FlowState) : List String :=
  if token.correlationAllowed then
    []
  else if token.smbSession = some 0 ∧ state.ntlmZeroSessionAmbiguous then
    ["Multiple zero-ID SMB2 challenges make correlation ambiguous."]
  else
    ["SMB2 session framing is unavailable; " ++ kind ++
      " was not correlated."]

/-- The emission for a Type 2 message. -/
def challengeEmission
    (token : NtlmToken)
    (state : FlowState)
    (challenge : Bytes)
    (messageEnd : Nat) : Emission where
  detector := token.detector
  start := token.start
  stop := token.stop
  category := "authentication"
  protocol := "ntlm"
  materialType := "ntlm_type2_challenge"
  material :=
    .dict
      (token.commonMaterial 2 messageEnd ++
        [(.text "challenge_hex", .text (hexText challenge))])
  fields := [("hashcat_mode", .null)]
  laterLimitations := token.laterLimitations "challenge" state

/-- The emission for a Type 3 message. -/
def responseEmission
    (token : NtlmToken)
    (state : FlowState)
    (values : Type3Values)
    (messageEnd : Nat) : Emission where
  detector := token.detector
  start := token.start
  stop := token.stop
  category := "credential"
  protocol := "ntlm"
  materialType := "ntlm_type3_response"
  material :=
    .dict
      (token.commonMaterial 3 messageEnd ++ [
        (.text "username", .text values.username),
        (.text "domain", .text values.domain),
        (.text "workstation", .text values.workstation),
        (.text "lm_response_hex", .text (hexText values.lmResponse)),
        (.text "nt_response_hex", .text (hexText values.ntResponse))
      ])
  limitations :=
    ["Type 3 is an authentication response, not a plaintext password or" ++
      " reusable NT hash."]
  laterLimitations := token.laterLimitations "response" state

end NtlmToken

namespace SensitiveDetector

/-- `_handle_ntlm_blob`. -/
def handleNtlmBlob
    (limits : DetectorLimits)
    (context : ScanContext)
    (token : NtlmToken)
    (detector : SensitiveDetector) :
    Outcome SensitiveDetector DetectorEvent :=
  let state := detector.stateOf context.flowId
  let offset := context.absolute token.start
  let packetIds := context.provenance limits token.start token.stop
  match decodeNtlm token.blob with
  | none => .quiet detector
  | some (.type2 challenge, messageEnd) =>
      (detector.emit limits context none
          (token.challengeEmission state challenge messageEnd)).bind
        fun answer =>
          if token.correlationAllowed then
            answer.1.handleChallenge limits context {
              direction := context.direction
              offset
              timestampNs := context.observedTimestampNs
              challenge
              packetIds := packetIds.1
              packetIdsComplete := packetIds.2
              smbSession := token.smbSession
            }
          else
            .quiet answer.1
  | some (.type3 values, messageEnd) =>
      (detector.emit limits context none
          (token.responseEmission state values messageEnd)).bind
        fun answer =>
          if token.correlationAllowed then
            answer.1.handleResponse limits context {
              direction := context.direction
              offset
              timestampNs := context.observedTimestampNs
              username := values.username
              domain := values.domain
              workstation := values.workstation
              lmResponse := values.lmResponse
              ntResponse := values.ntResponse
              packetIds := packetIds.1
              packetIdsComplete := packetIds.2
              smbSession := token.smbSession
            }
          else
            .quiet answer.1

end SensitiveDetector

/-! ## The raw scanner -/

/-- `_ports(flow) & {139, 445}`. -/
def smbPorts (flow : FlowKey) : Bool :=
  flow.endpointA.port ∈ [139, 445] || flow.endpointB.port ∈ [139, 445]

/-- Whether SMB2 has been seen once this message is looked at. -/
def smb2SeenAt (context : ScanContext) (state : FlowState) : Bool :=
  state.smb2Seen ||
    match state.directions.get? context.direction, context.baseOffset with
    | some retained, some _ =>
        smbPorts context.flow && smb2HeaderSeen retained.data
    | _, _ => false

/-- The SMB2 session around a message in the retained tail. -/
def smbSessionAt
    (context : ScanContext)
    (start length : Nat)
    (state : FlowState) : Option Nat :=
  match state.directions.get? context.direction, context.baseOffset with
  | some retained, some baseOffset =>
      let position := baseOffset + start - retained.baseOffset
      if 0 ≤ position ∧ position < retained.data.length then
        smb2SessionForToken retained.data position.toNat length
      else
        none
  | _, _ => none

/-- Whether the zero session is ambiguous once this message is looked at. -/
def zeroSessionAmbiguousAt
    (context : ScanContext)
    (smbSession : Option Nat)
    (values : NtlmValues)
    (state : FlowState) : Bool :=
  state.ntlmZeroSessionAmbiguous ||
    match smbSession, values with
    | some 0, .type2 challenge =>
        (state.ntlmChallenges.get? ⟨context.direction, some 0⟩).any
          fun prior =>
            decide (prior.challenge ≠ challenge) &&
              (decide
                  (state.ntlmZeroSessionLastType3Ns ≤ prior.timestampNs) ||
                decide
                  (context.observedTimestampNs ≤
                    state.ntlmZeroSessionLastType3Ns))
    | _, _ => false

namespace SensitiveDetector

/-- One round of `_scan_ntlm_raw`; the answer is `pending`. -/
def scanNtlmMatch
    (limits : DetectorLimits)
    (context : ScanContext)
    (start : Nat)
    (progress : SensitiveDetector × Bool) :
    Outcome (SensitiveDetector × Bool) DetectorEvent :=
  let (detector, pending) := progress
  match decodeNtlm (context.data.drop start) with
  | none => .quiet (detector, true)
  | some (values, length) =>
      let state := detector.stateOf context.flowId
      let seen := smb2SeenAt context state
      let smbSession := smbSessionAt context start length state
      let ambiguous :=
        zeroSessionAmbiguousAt context smbSession values state
      let noted :=
        detector.reviseFlow context.flowId fun state =>
          { state with
            smb2Seen := seen
            ntlmZeroSessionAmbiguous := ambiguous }
      (noted.handleNtlmBlob limits context {
        blob := (context.data.drop start).take length
        start
        stop := start + length
        detector := "raw_ntlmssp"
        smbSession
        correlationAllowed :=
          (!seen || smbSession.isSome) &&
            !(decide (smbSession = some 0) && ambiguous)
      }).bind fun next => .quiet (next, pending)

/-- `_scan_ntlm_raw`. -/
def scanNtlmRaw
    (limits : DetectorLimits)
    (context : ScanContext)
    (detector : SensitiveDetector) :
    Outcome SensitiveDetector DetectorEvent :=
  (runAll (scanNtlmMatch limits context) (signatureStarts context.data)
      (detector, false)).bind fun progress =>
    .quiet
      (progress.1.reviseFlow context.flowId fun state =>
        { state with
          ntlmPending :=
            state.ntlmPending.set context.direction progress.2 })

end SensitiveDetector

end PacketAudit.Detector
