import PacketAudit.Supervisor.Accounting
import PacketAudit.Supervisor.Routing
import PacketAudit.Packets.Safety

namespace PacketAudit

open Library

/-!
# The capture loop

One round of the loop in `AuditSupervisor.run`: the frames of a capture batch
are numbered, decoded and routed to the pending batch of a worker, ingress and
egress frames are described, and the pending batches are dispatched worker by
worker.
-/

/-- The configuration of a capture; `suppressing` is the suppressor's. -/
structure CaptureConfig where
  routing : RouteConfig
  dispatch : DispatchConfig
  suppressing : Option SuppressorLimits

/-- What the capture loop keeps from one batch to the next. -/
structure CaptureState where
  packetId : Nat := 0
  capturedPackets : Nat := 0
  captureParseErrors : Nat := 0
  captureIgnoredPackets : Nat := 0
  routes : RouteState := {}
  dispatch : DispatchState := {}

/-- Why a round raised. -/
inductive CaptureFault where
  | parserFatal (fault : PacketFault)
  | index
  | dispatch
  deriving Repr, DecidableEq

/-- `_record` gives every frame of a source the next packet identifier. -/
def numberFrames : Nat → List CapturedPacket → List CapturedPacket
  | _, [] => []
  | last, frame :: rest =>
      { frame with packetId := last + 1 } :: numberFrames (last + 1) rest

/-- The locals of a round: pending batches and described frames. -/
structure Gathering where
  state : CaptureState
  pending : List (List ParsedPacket)
  frameCandidates : OrderedTable Nat ForwardedFrame := .empty

/-- Describe a frame when suppression is active. -/
def addCandidate
    (suppressing : Option SuppressorLimits)
    (captured : CapturedPacket)
    (parsed : ParsedPacket)
    (candidates : OrderedTable Nat ForwardedFrame) :
    OrderedTable Nat ForwardedFrame :=
  match suppressing with
  | none => candidates
  | some limits =>
      match describeForwardedFrame captured parsed limits.localMac with
      | none => candidates
      | some frame => candidates.set parsed.packetId frame

/-- The body of the loop over a batch, at one clock reading. -/
def gatherFrame
    (digest : String → Nat)
    (config : CaptureConfig)
    (gathering : Gathering)
    (captured : CapturedPacket)
    (now : Int) : Except CaptureFault Gathering :=
  let state := {
    gathering.state with
    capturedPackets := gathering.state.capturedPackets + 1
  }
  match parsePacketStrict captured with
  | .error (.decode _) =>
      .ok { gathering with
        state := {
          state with captureParseErrors := state.captureParseErrors + 1
        } }
  | .error fault => .error (.parserFatal fault)
  | .ok none =>
      .ok { gathering with
        state := {
          state with
          captureIgnoredPackets := state.captureIgnoredPackets + 1
        } }
  | .ok (some parsed) =>
      let (routes, shard) :=
        state.routes.route digest config.routing parsed now
      if shard < gathering.pending.length then
        .ok {
          state := { state with routes }
          pending :=
            gathering.pending.modify shard fun packets => packets ++ [parsed]
          frameCandidates :=
            addCandidate config.suppressing captured parsed
              gathering.frameCandidates
        }
      else
        .error .index

/-- The loop over a batch. -/
def gatherBatch
    (digest : String → Nat)
    (config : CaptureConfig)
    (clock : Nat → Int) :
    List CapturedPacket → Gathering → Except CaptureFault Gathering
  | [], gathering => .ok gathering
  | captured :: rest, gathering => do
      let next ←
        gatherFrame digest config gathering captured (clock captured.packetId)
      gatherBatch digest config clock rest next

/-- The calls of `_dispatch_batch` for the pending batches. -/
def pendingCalls
    (gathering : Gathering)
    (conditions : Nat → QueueConditions) : List DispatchCall :=
  gathering.pending.mapIdx fun shard packets =>
    {
      shard
      packets
      frames := gathering.frameCandidates
      conditions := conditions shard
    }

/-- Whether every call of a log returned. -/
def allReturned (events : List DispatchEvent) : Bool :=
  events.all fun
    | .ended ending => decide (ending = .returned)
    | _ => true

/-- What a round reads besides its state. -/
structure CaptureBatch where
  frames : List CapturedPacket
  clock : Nat → Int
  conditions : Nat → QueueConditions

/-- The locals at the start of a round, with the source's next identifiers. -/
def startRound
    (config : CaptureConfig)
    (batch : CaptureBatch)
    (state : CaptureState) : Gathering where
  state := { state with packetId := state.packetId + batch.frames.length }
  pending := List.replicate config.routing.workers []

/-- The pending batches of a round. -/
def gatherRound
    (digest : String → Nat)
    (config : CaptureConfig)
    (batch : CaptureBatch)
    (state : CaptureState) : Except CaptureFault Gathering :=
  gatherBatch digest config batch.clock
    (numberFrames state.packetId batch.frames)
    (startRound config batch state)

/-- One round; a call of `_dispatch_batch` that does not return ends it. -/
def captureBatch
    (digest : String → Nat)
    (config : CaptureConfig)
    (batch : CaptureBatch)
    (state : CaptureState) :
    Except CaptureFault (Outcome CaptureState DispatchEvent) := do
  let gathered ← gatherRound digest config batch state
  let dispatched :=
    dispatchAll config.dispatch config.suppressing
      (pendingCalls gathered batch.conditions) gathered.state.dispatch
  if allReturned dispatched.events then
    .ok {
      state := { gathered.state with dispatch := dispatched.state }
      events := dispatched.events
    }
  else
    .error .dispatch

/-- A capture of several batches. -/
def captureAll
    (digest : String → Nat)
    (config : CaptureConfig) :
    List CaptureBatch → CaptureState →
      Except CaptureFault (Outcome CaptureState DispatchEvent)
  | [], state => .ok (.quiet state)
  | batch :: rest, state => do
      let first ← captureBatch digest config batch state
      let later ← captureAll digest config rest first.state
      .ok { state := later.state, events := first.events ++ later.events }

/-! ## No frame stops the capture -/

/-- A frame is counted, ignored or routed; it is never fatal to the loop. -/
theorem gatherFrame_not_fatal
    (digest : String → Nat)
    (config : CaptureConfig)
    (gathering : Gathering)
    (captured : CapturedPacket)
    (now : Int)
    (fault : PacketFault) :
    gatherFrame digest config gathering captured now ≠
      .error (.parserFatal fault) := by
  intro fatal
  unfold gatherFrame at fatal
  split at fatal
  case h_1 => cases fatal
  case h_2 raisedFault notDecode raised =>
    obtain ⟨message, rfl⟩ := parsePacketStrict_faults captured _ raised
    exact notDecode message rfl
  case h_3 => cases fatal
  case h_4 parsed _ =>
    simp only at fatal
    split at fatal
    · cases fatal
    · cases fatal

/-- No batch of frames makes the capture loop raise a parser fault. -/
theorem gatherBatch_not_fatal
    (digest : String → Nat)
    (config : CaptureConfig)
    (clock : Nat → Int)
    (frames : List CapturedPacket)
    (gathering : Gathering)
    (fault : PacketFault) :
    gatherBatch digest config clock frames gathering ≠
      .error (.parserFatal fault) := by
  induction frames generalizing gathering with
  | nil =>
      intro fatal
      cases fatal
  | cons captured rest inductionHypothesis =>
      intro fatal
      unfold gatherBatch at fatal
      cases gathered :
          gatherFrame digest config gathering captured
            (clock captured.packetId) with
      | error raised =>
          rw [gathered] at fatal
          obtain rfl := Except.error.inj fatal
          exact gatherFrame_not_fatal _ _ _ _ _ fault gathered
      | ok next =>
          rw [gathered] at fatal
          exact inductionHypothesis next fatal

end PacketAudit
