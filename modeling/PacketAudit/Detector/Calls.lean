import PacketAudit.Detector.Correlation

namespace PacketAudit.Detector

/-!
# The calls of the detector

`process_stream`, `process_datagram` and `expire`.  A scan is a list of
effects: what its scanners may do to the state and report, in any number and
order.  The raw NTLM scanner is one effect; the other scanners appear as the
calls they make of `_emit`, `_state_once` and `_handle_ntlm_blob`, and as
changes of the pending authentications.
-/

open Library

/-! ## The window of the raw NTLM scanner -/

namespace FlowState

/-- `state.scan_cursors.get((direction, "_scan_ntlm_raw"), base_offset)`. -/
def ntlmCursor
    (direction : Direction)
    (baseOffset : Int)
    (state : FlowState) : Int :=
  (state.ntlmScanCursors.get? direction).getD baseOffset

/-- Move the scanner's cursor to the end of the scanned data. -/
def advanceNtlmCursor
    (direction : Direction)
    (baseOffset absoluteEnd : Int)
    (state : FlowState) : FlowState :=
  { state with
    ntlmScanCursors :=
      state.ntlmScanCursors.set direction
        (max (state.ntlmCursor direction baseOffset) absoluteEnd) }

/-- `state.ntlm_pending.get(direction, False)`. -/
def ntlmIsPending (direction : Direction) (state : FlowState) : Bool :=
  (state.ntlmPending.get? direction).getD false

end FlowState

/-- `_scanner_gate` for `_scan_ntlm_raw`. -/
def ntlmGate
    (context : ScanContext)
    (baseOffset : Int)
    (state : FlowState) : Bool :=
  let absoluteEnd := baseOffset + context.data.length
  let cursor := state.ntlmCursor context.direction baseOffset
  let start := max baseOffset (min cursor absoluteEnd - 16) - baseOffset
  !context.data.isEmpty &&
    (state.ntlmIsPending context.direction ||
      (findSub ntlmSignature context.data start.toNat
        context.data.length).isSome)

/-- `_scanner_window` for `_scan_ntlm_raw`, without the cursor update. -/
def ntlmWindow
    (limits : DetectorLimits)
    (context : ScanContext)
    (baseOffset : Int)
    (state : FlowState) : ScanContext :=
  let overlap :=
    if state.ntlmIsPending context.direction then
      min limits.overlapBytes (128 * 1024)
    else
      16
  let cursor := state.ntlmCursor context.direction baseOffset
  let wantedStart := max baseOffset (cursor - overlap)
  if wantedStart - baseOffset ≤ 0 then
    context
  else
    { context with
      baseOffset := some wantedStart
      data := context.data.drop (wantedStart - baseOffset).toNat }

/-! ## Effects of a scan -/

/-- What a scanner may do. -/
inductive ScanEffect where
  /-- The raw NTLM scanner, on data with these positions blanked. -/
  | ntlmRaw (blanked : Nat → Bool)
  /-- `_handle_ntlm_blob` for a token another scanner found. -/
  | ntlmToken (token : NtlmToken)
  /-- `_emit` in the context of the call. -/
  | emit (request : Emission)
  /-- `_emit` for a retained tail from the stream's beginning on. -/
  | emitRetained (direction : Direction) (request : Emission)
  /-- `_state_once`. -/
  | stateOnce (name : String) (stop : Int)
  /-- A change of the pending authentications. -/
  | pendingAuth (next : PendingAuth)

/-- Blank positions of the data, as `masked_body` does. -/
def blank (blanked : Nat → Bool) (data : Bytes) : Bytes :=
  data.mapIdx fun index byte => if blanked index then 0 else byte

/-- `client_ctx` of `_scan_socks5`. -/
def retainedContext
    (context : ScanContext)
    (direction : Direction)
    (tail : DirectionState)
    (request : Emission) : ScanContext :=
  let matching := tail.provenanceSpans.filter fun span =>
    request.start < span.streamEnd && span.streamStart < request.stop
  { context with
    direction
    baseOffset := some 0
    data := tail.data
    packetIds := tail.packetIds
    provenanceSpans := tail.provenanceSpans
    packetIdsComplete :=
      !matching.isEmpty && matching.all ProvenanceSpan.packetIdsComplete }

namespace SensitiveDetector

/-- The raw NTLM scanner behind its gate and its window. -/
def scanNtlmWindow
    (limits : DetectorLimits)
    (context : ScanContext)
    (detector : SensitiveDetector) :
    Outcome SensitiveDetector DetectorEvent :=
  match context.baseOffset with
  | none => detector.scanNtlmRaw limits context
  | some baseOffset =>
      let state := detector.stateOf context.flowId
      let advanced :=
        detector.reviseFlow context.flowId
          (FlowState.advanceNtlmCursor context.direction baseOffset
            (baseOffset + context.data.length))
      let window := ntlmWindow limits context baseOffset state
      if ntlmGate context baseOffset state && !window.data.isEmpty then
        advanced.scanNtlmRaw limits window
      else
        .quiet advanced

/-- Apply one effect. -/
def perform
    (limits : DetectorLimits)
    (context : ScanContext)
    (effect : ScanEffect)
    (detector : SensitiveDetector) :
    Outcome SensitiveDetector DetectorEvent :=
  match effect with
  | .ntlmRaw blanked =>
      detector.scanNtlmWindow limits
        { context with data := blank blanked context.data }
  | .ntlmToken token =>
      if token.start < context.data.length then
        detector.handleNtlmBlob limits context token
      else
        .quiet detector
  | .emit request =>
      (detector.emit limits context none request).bind fun answer =>
        .quiet answer.1
  | .emitRetained direction request =>
      match
        (detector.stateOf context.flowId).directions.get? direction with
      | none => .quiet detector
      | some tail =>
          if tail.baseOffset = 0 then
            (detector.emit limits
                (retainedContext context direction tail request) none
                request).bind fun answer =>
              .quiet answer.1
          else
            .quiet detector
  | .stateOnce name stop =>
      (detector.stateOnce limits context name stop).bind fun answer =>
        .quiet answer.1
  | .pendingAuth next =>
      .quiet
        (detector.reviseFlow context.flowId fun state =>
          { state with pendingAuth := next })

/-- The end of a call: its scan, and then the caps. -/
def scanAndEnforce
    (limits : DetectorLimits)
    (context : ScanContext)
    (effects : List ScanEffect)
    (detector : SensitiveDetector) :
    Outcome SensitiveDetector DetectorEvent :=
  ((runAll (perform limits context) effects detector).andThen
    (refreshPendingAuth context.flowId)).andThen
    (enforceRetainedCap limits context.flowId)

/-- Note when a packet of a flow was seen. -/
def noteTimestamp
    (flowId : FlowId)
    (timestampNs : Int)
    (detector : SensitiveDetector) : SensitiveDetector :=
  detector.reviseFlow flowId fun state =>
    { state with lastTimestampNs := max state.lastTimestampNs timestampNs }

/-- `process_stream`. -/
def processStream
    (limits : DetectorLimits)
    (clock : Int)
    (chunk : StreamChunk)
    (effects : List ScanEffect)
    (detector : SensitiveDetector) :
    Outcome SensitiveDetector DetectorEvent :=
  let flowId := chunkFlowId chunk
  (detector.openFlow limits clock flowId).bind fun opened =>
    ((opened.noteTimestamp flowId chunk.lastTimestampNs).mergeStream limits
        chunk).bind fun merged =>
      merged.1.scanAndEnforce limits merged.2 effects

/-- The scan context of a datagram. -/
def datagramContext (packet : ParsedPacket) : ScanContext where
  flow := packet.flow.1
  flowId := ⟨packet.flow.1, none⟩
  connectionEpoch := none
  direction := packet.flow.2
  baseOffset := none
  data := packet.transportPayload
  packetIds := packet.contributingIds
  provenanceSpans :=
    [⟨0, packet.transportPayload.length, packet.contributingIds, true⟩]
  packetIdsComplete := true
  observedTimestampNs := packet.timestampNs
  completeness := if packet.truncated then .truncated else .complete
  isDatagram := true

/-- `process_datagram`. -/
def processDatagram
    (limits : DetectorLimits)
    (clock : Int)
    (packet : ParsedPacket)
    (effects : List ScanEffect)
    (detector : SensitiveDetector) :
    Outcome SensitiveDetector DetectorEvent :=
  if !packet.transportParsed || packet.transportPayload.isEmpty then
    .quiet detector
  else
    let context := datagramContext packet
    (detector.openFlow limits clock context.flowId).bind fun opened =>
      (opened.noteTimestamp context.flowId packet.timestampNs).scanAndEnforce
        limits context effects

/-- The arguments of `expire`. -/
inductive Expiry where
  | flow (flowId : FlowId)
  | cutoffs (timestampNs activityNs : Option Int)
  deriving Repr, DecidableEq

/-- `key == flow_id or key.startswith(f"{flow_id}|epoch=")`. -/
def expiresWith (flowId key : FlowId) : Bool :=
  decide (key = flowId) ||
    (flowId.connectionEpoch.isNone && decide (key.flow = flowId.flow))

/-- The flow was last observed before a cutoff. -/
def staleBefore
    (timestampNs activityNs : Option Int)
    (state : FlowState) : Bool :=
  (timestampNs.any fun cutoff => decide (state.lastTimestampNs < cutoff)) ||
    activityNs.any fun cutoff => decide (state.lastActivityNs < cutoff)

/-- The flows an expiry forgets. -/
def expiring (expiry : Expiry) (detector : SensitiveDetector) : List FlowId :=
  let chosen := fun (entry : FlowId × FlowState) =>
    match expiry with
    | .flow flowId => expiresWith flowId entry.1
    | .cutoffs timestampNs activityNs =>
        staleBefore timestampNs activityNs entry.2
  (detector.flows.entries.filter chosen).map Prod.fst

/-- `expire`. -/
def expire
    (expiry : Expiry)
    (detector : SensitiveDetector) :
    Outcome SensitiveDetector DetectorEvent :=
  runAll dropFlow (detector.expiring expiry) detector

end SensitiveDetector

/-! ## Runs -/

/-- One call of the detector, with the effects of its scan. -/
inductive DetectorCall where
  | stream (clock : Int) (chunk : StreamChunk) (effects : List ScanEffect)
  | datagram
      (clock : Int)
      (packet : ParsedPacket)
      (effects : List ScanEffect)
  | expire (expiry : SensitiveDetector.Expiry)

/-- Make one call. -/
def DetectorCall.apply
    (limits : DetectorLimits)
    (call : DetectorCall)
    (detector : SensitiveDetector) :
    Outcome SensitiveDetector DetectorEvent :=
  match call with
  | .stream clock chunk effects =>
      detector.processStream limits clock chunk effects
  | .datagram clock packet effects =>
      detector.processDatagram limits clock packet effects
  | .expire expiry => detector.expire expiry

/-- A sequence of calls of a new detector. -/
def SensitiveDetector.run
    (limits : DetectorLimits)
    (calls : List DetectorCall) :
    Outcome SensitiveDetector DetectorEvent :=
  runAll (DetectorCall.apply limits) calls {}

end PacketAudit.Detector
