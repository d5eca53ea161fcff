import PacketAudit.Models

namespace PacketAudit

/-!
# One direction of a TCP stream

The per-direction half of `TCPReassembler`: the pending segments of one
direction, the drain of contiguous bytes, gap skipping, flushing, and the
insertion of one packet's payload.  Every function acts on a `DirectionView`,
which is the direction's own state together with the counters shared by the
whole reassembler.

Besides the chunks, the functions log three facts that the source does not
return: that a direction received its first `next_seq`, at which absolute
sequence position a payload arrived, and how far a gap was skipped.
-/

open Library

/-- Where the bytes of a pending segment came from. -/
structure SegmentOrigin where
  packetIds : List Nat
  timestampNs : Int
  deriving Repr, DecidableEq

/-- A pending segment, positioned by absolute sequence number. -/
abbrev TcpSegment := Segment UInt8 SegmentOrigin

/-- The validated constructor arguments of `TCPReassembler`. -/
structure TcpLimits where
  idleNs : Nat
  maxFlows : Nat
  maxOutOfOrder : Nat
  maxStreamBytesPerDirection : Nat
  maxBufferedBytes : Nat
  maxBufferedSegments : Nat
  consumedHistoryBytes : Nat
  maxSegmentsPerDirection : Nat
  maxFlows_pos : 1 ≤ maxFlows
  maxOutOfOrder_pos : 1 ≤ maxOutOfOrder
  maxStreamBytesPerDirection_pos : 1 ≤ maxStreamBytesPerDirection
  maxBufferedBytes_pos : 1 ≤ maxBufferedBytes
  maxBufferedSegments_pos : 1 ≤ maxBufferedSegments
  consumedHistoryBytes_pos : 1 ≤ consumedHistoryBytes
  maxSegmentsPerDirection_pos : 1 ≤ maxSegmentsPerDirection

namespace TcpLimits

/-- The bound on the pending bytes of one direction. -/
def maxPendingPerDirection (limits : TcpLimits) : Nat :=
  min limits.maxOutOfOrder limits.maxStreamBytesPerDirection

/-- The limits of a reassembler constructed without arguments. -/
def default : TcpLimits where
  idleNs := 300 * 1000000000
  maxFlows := 20000
  maxOutOfOrder := 512 * 1024
  maxStreamBytesPerDirection := 2 * 1024 * 1024
  maxBufferedBytes := 128 * 1024 * 1024
  maxBufferedSegments := 65536
  consumedHistoryBytes := 128 * 1024
  maxSegmentsPerDirection := 4096
  maxFlows_pos := by decide
  maxOutOfOrder_pos := by decide
  maxStreamBytesPerDirection_pos := (by decide : 0 < 2 * 1024 * 1024)
  maxBufferedBytes_pos := by decide
  maxBufferedSegments_pos := (by decide : 0 < 65536)
  consumedHistoryBytes_pos := by decide
  maxSegmentsPerDirection_pos := (by decide : 0 < 4096)

end TcpLimits

/-- The state kept for one direction of a flow. -/
structure DirectionState where
  connectionEpoch : Nat := 0
  nextSeq : Option Int := none
  streamOffset : Int := 0
  midstream : Bool := false
  hadGap : Bool := false
  synSeq : Option Nat := none
  pending : List TcpSegment := []
  pendingBytes : Int := 0
  consumedHistoryStart : Option Int := none
  consumedHistory : Bytes := []
  peerAckedSeq : Option Int := none
  lastSeenNs : Int := 0
  closed : Bool := false
  deriving Repr, DecidableEq

/-- The counters shared by all flows of a reassembler. -/
structure TcpCounters where
  bufferedBytes : Int := 0
  bufferedSegments : Int := 0
  peakBufferedSegments : Int := 0
  evictedFlows : Int := 0
  budgetEvictedFlows : Int := 0
  expiredFlows : Int := 0
  retransmittedBytes : Int := 0
  overlapConflicts : Int := 0
  gapBytes : Int := 0
  deriving Repr, DecidableEq

/-- One direction together with the shared counters. -/
structure DirectionView where
  direction : DirectionState
  counters : TcpCounters
  deriving Repr, DecidableEq

/-- A payload at the absolute sequence positions it was unwrapped to. -/
structure Arrival where
  flow : FlowKey
  connectionEpoch : Nat
  direction : Direction
  start : Int
  nextSeq : Int
  data : Bytes
  packetIds : List Nat
  keepalive : Bool
  deriving Repr, DecidableEq

/-- What a reassembler does, in order; `emitted` chunks are the returned ones. -/
inductive TcpEvent where
  | opened
      (connectionEpoch : Nat)
      (direction : Direction)
      (nextSeq : Int)
      (midstream : Bool)
  | arrived (arrival : Arrival)
  | skipped
      (connectionEpoch : Nat)
      (direction : Direction)
      (gap : Int)
  | emitted (chunk : StreamChunk)
  deriving Repr, DecidableEq

/-- The returned chunk recorded by an event. -/
@[simp] def TcpEvent.chunk? : TcpEvent → Option StreamChunk
  | .emitted chunk => some chunk
  | _ => none

/-- The arrival recorded by an event. -/
@[simp] def TcpEvent.arrival? : TcpEvent → Option Arrival
  | .arrived arrival => some arrival
  | _ => none

/-- Overwrite the label of a returned chunk, if a label is given. -/
def TcpEvent.relabel (completeness : Option Completeness) :
    TcpEvent → TcpEvent
  | .emitted chunk =>
      .emitted { chunk with
        completeness := completeness.getD chunk.completeness }
  | event => event

/-- The chunks a list of events returned, in order. -/
def chunks (events : List TcpEvent) : List StreamChunk :=
  events.filterMap TcpEvent.chunk?

/-- The payloads a list of events received, in order. -/
def arrivals (events : List TcpEvent) : List Arrival :=
  events.filterMap TcpEvent.arrival?

/-- `_SEQ_MODULUS`. -/
def seqModulus : Int := 4294967296

/-- `_SEQ_HALF`. -/
def seqHalf : Int := 2147483648

/--
`_unwrap_sequence`: map a 32-bit sequence number into the epoch nearest
`reference`.  Masking with `0xFFFFFFFF` and its complement is the remainder
and the rest of a floor division by the modulus.
-/
def unwrapSequence (sequence reference : Int) : Int :=
  let candidate :=
    reference - reference % seqModulus + sequence % seqModulus
  if seqHalf < candidate - reference then
    candidate - seqModulus
  else if seqHalf < reference - candidate then
    candidate + seqModulus
  else
    candidate

/-- `_tcp_uncovered_segments`: the payload parts no pending segment holds. -/
def tcpUncoveredSegments
    (start : Int)
    (data : Bytes)
    (packetIds : List Nat)
    (timestampNs : Int)
    (existing : List TcpSegment) : List TcpSegment :=
  uncovered ⟨start, data, ⟨packetIds, timestampNs⟩⟩ existing

/-- `_remember_consumed`: keep a bounded suffix of the emitted bytes. -/
def rememberConsumed
    (limits : TcpLimits)
    (state : DirectionState)
    (start : Int)
    (data : Bytes) : DirectionState :=
  if data.isEmpty then
    state
  else
    let historyEnd :=
      state.consumedHistoryStart.map (· + (state.consumedHistory.length : Int))
    let kept := if historyEnd = some start then state.consumedHistory else []
    let historyStart :=
      if historyEnd = some start then state.consumedHistoryStart
      else some start
    let history := kept ++ data
    let excess := history.length - limits.consumedHistoryBytes
    { state with
      consumedHistoryStart := historyStart.map (· + (excess : Int))
      consumedHistory := history.drop excess }

/--
`_conflicts_with_consumed`: the retained emitted bytes contradict a
retransmission.
-/
def conflictsWithConsumed
    (state : DirectionState)
    (start : Int)
    (data : Bytes) : Bool :=
  match state.consumedHistoryStart with
  | none => false
  | some historyStart =>
      if state.consumedHistory.isEmpty || data.isEmpty then
        false
      else
        overlapDiffers start data historyStart state.consumedHistory

/-- Append a span, extending an adjacent last span of equal provenance. -/
def pushSpan
    (spans : List ProvenanceSpan)
    (span : ProvenanceSpan) : List ProvenanceSpan :=
  match spans.getLast? with
  | none => [span]
  | some previous =>
      if previous.streamEnd = span.streamStart ∧
          previous.packetIds = span.packetIds ∧
          previous.packetIdsComplete = span.packetIdsComplete then
        spans.dropLast ++ [{ previous with streamEnd := span.streamEnd }]
      else
        spans ++ [span]

/-- The local variables of `_drain` while it walks the pending segments. -/
structure DrainState where
  view : DirectionView
  parts : List Bytes := []
  packetIds : List Nat := []
  spans : List ProvenanceSpan := []
  timestamps : List Int := []

namespace DrainState

/-- Remove the first pending segment, `repeated` bytes of it already seen. -/
def pop
    (drained : DrainState)
    (segment : TcpSegment)
    (rest : List TcpSegment)
    (repeated : Int) : DrainState :=
  let direction := drained.view.direction
  let counters := drained.view.counters
  { drained with
    view := {
      direction := {
        direction with
        pending := rest
        pendingBytes := direction.pendingBytes - segment.data.length
      }
      counters := {
        counters with
        bufferedBytes := counters.bufferedBytes - segment.data.length
        bufferedSegments := counters.bufferedSegments - 1
        retransmittedBytes := counters.retransmittedBytes + repeated
      }
    } }

/-- Add the new bytes of a popped segment to the chunk under construction. -/
def consume
    (limits : TcpLimits)
    (drained : DrainState)
    (segment : TcpSegment)
    (next : Int)
    (newData : Bytes) : DrainState :=
  let direction := drained.view.direction
  let streamEnd := direction.streamOffset + newData.length
  { view := {
      direction := {
        rememberConsumed limits direction next newData with
        nextSeq := some (next + newData.length)
        streamOffset := streamEnd
      }
      counters := drained.view.counters
    }
    parts := drained.parts ++ [newData]
    packetIds := addPacketIds drained.packetIds segment.tag.packetIds
    spans :=
      pushSpan drained.spans {
        streamStart := direction.streamOffset
        streamEnd := streamEnd
        packetIds := segment.tag.packetIds
      }
    timestamps := drained.timestamps ++ [segment.tag.timestampNs] }

end DrainState

/-- The loop of `_drain` over the pending segments. -/
def drainLoop (limits : TcpLimits) :
    List TcpSegment → Int → DrainState → DrainState
  | [], _, drained => drained
  | segment :: rest, next, drained =>
      if segment.stop ≤ next then
        drainLoop limits rest next
          (drained.pop segment rest segment.data.length)
      else if next < segment.start then
        drained
      else
        let trim := (next - segment.start).toNat
        let newData := segment.data.drop trim
        let popped := drained.pop segment rest trim
        if newData.isEmpty then
          drainLoop limits rest next popped
        else
          drainLoop limits rest (next + newData.length)
            (popped.consume limits segment next newData)

/-- The label of a chunk leaving a direction. -/
def completenessOf
    (state : DirectionState)
    (forcedGap : Bool) : Completeness :=
  if forcedGap || state.hadGap then .gapped
  else if state.midstream then .midstream
  else .complete

/-- The chunk `_drain` returns for what its loop collected. -/
def DrainState.toChunk
    (drained : DrainState)
    (flow : FlowKey)
    (direction : Direction)
    (startOffset : Int)
    (forcedGap : Bool) : StreamChunk where
  flow := flow
  direction := direction
  streamOffset := startOffset
  data := drained.parts.flatten
  packetIds := drained.packetIds
  -- The source takes the minimum and maximum of a nonempty list.
  firstTimestampNs := drained.timestamps.min?.getD 0
  lastTimestampNs := drained.timestamps.max?.getD 0
  connectionEpoch := drained.view.direction.connectionEpoch
  completeness := completenessOf drained.view.direction forcedGap
  provenanceSpans := drained.spans

/-- `_drain`: emit the pending bytes that continue the stream. -/
def drain
    (limits : TcpLimits)
    (flow : FlowKey)
    (direction : Direction)
    (forcedGap : Bool)
    (view : DirectionView) : Outcome DirectionView TcpEvent :=
  match view.direction.nextSeq with
  | none => .quiet view
  | some next =>
      let drained :=
        drainLoop limits view.direction.pending next { view := view }
      {
        state := drained.view
        events :=
          if drained.parts.isEmpty then
            []
          else
            [.emitted
              (drained.toChunk flow direction view.direction.streamOffset
                forcedGap)]
      }

/-- The gap part of `_skip_to_next_segment`: resume at the first segment. -/
def skipGap
    (direction : Direction)
    (next : Int)
    (first : TcpSegment)
    (view : DirectionView) : Outcome DirectionView TcpEvent :=
  let gap := first.start - next
  {
    state := {
      direction := {
        view.direction with
        nextSeq := some first.start
        streamOffset := view.direction.streamOffset + gap
        hadGap := true
      }
      counters := {
        view.counters with
        gapBytes := view.counters.gapBytes + gap
      }
    }
    events := [.skipped view.direction.connectionEpoch direction gap]
  }

/-- `_skip_to_next_segment`. -/
def skipToNextSegment
    (limits : TcpLimits)
    (flow : FlowKey)
    (direction : Direction)
    (view : DirectionView) : Outcome DirectionView TcpEvent :=
  match view.direction.nextSeq, view.direction.pending with
  | some next, first :: _ =>
      if next < first.start then
        (skipGap direction next first view).andThen
          (drain limits flow direction true)
      else
        drain limits flow direction true view
  | _, _ => .quiet view

/-- The loop of `_flush_direction`, for at most `fuel` rounds. -/
def flushLoop
    (limits : TcpLimits)
    (flow : FlowKey)
    (direction : Direction) :
    Nat → DirectionView → Outcome DirectionView TcpEvent
  | 0, view => .quiet view
  | fuel + 1, view =>
      if view.direction.pending.isEmpty then
        .quiet view
      else
        let before := view.direction.pending.length
        ((drain limits flow direction false view).andThen fun drained =>
          if !drained.direction.pending.isEmpty ∧
              drained.direction.pending.length = before then
            skipToNextSegment limits flow direction drained
          else
            .quiet drained).andThen
          (flushLoop limits flow direction fuel)

/--
`_flush_direction`: empty the pending list.  Every round removes a pending
segment, so their number bounds the rounds.
-/
def flushDirection
    (limits : TcpLimits)
    (flow : FlowKey)
    (direction : Direction)
    (view : DirectionView) : Outcome DirectionView TcpEvent :=
  flushLoop limits flow direction view.direction.pending.length view

/-- The pending limits of a direction are exceeded. -/
def exceedsDirectionLimits
    (limits : TcpLimits)
    (state : DirectionState) : Bool :=
  decide ((limits.maxPendingPerDirection : Int) < state.pendingBytes) ||
    decide (limits.maxSegmentsPerDirection < state.pending.length)

/-- The per-direction limit loop of `process`, for at most `fuel` rounds. -/
def enforceDirectionLimits
    (limits : TcpLimits)
    (flow : FlowKey)
    (direction : Direction) :
    Nat → DirectionView → Outcome DirectionView TcpEvent
  | 0, view => .quiet view
  | fuel + 1, view =>
      if exceedsDirectionLimits limits view.direction then
        let forced := skipToNextSegment limits flow direction view
        if (chunks forced.events).isEmpty then
          forced
        else
          forced.andThen (enforceDirectionLimits limits flow direction fuel)
      else
        .quiet view

/-- The pending segments whose bytes contradict the payload. -/
def pendingConflicts
    (start : Int)
    (payload : Bytes)
    (pending : List TcpSegment) : Nat :=
  (pending.filter fun old =>
    overlapDiffers start payload old.start old.data).length

/--
The part of `process` that stores a payload reaching past `next_seq`: the
already consumed front is trimmed off and the rest is carved around the
pending segments, whose bytes were seen first.
-/
def insertPayload
    (packetIds : List Nat)
    (timestampNs : Int)
    (start next : Int)
    (payload : Bytes)
    (view : DirectionView) : DirectionView :=
  let trim := (next - start).toNat
  let fresh := payload.drop trim
  let freshStart := start + trim
  let pending := view.direction.pending
  let additions :=
    tcpUncoveredSegments freshStart fresh packetIds timestampNs pending
  let added : Int := totalLength additions
  let covered : Int := fresh.length - added
  let counters := view.counters
  let bufferedSegments := counters.bufferedSegments + additions.length
  {
    direction := {
      view.direction with
      pending := insertSorted pending additions
      pendingBytes := view.direction.pendingBytes + added
    }
    counters := {
      counters with
      retransmittedBytes := counters.retransmittedBytes + trim + covered
      overlapConflicts :=
        counters.overlapConflicts +
          pendingConflicts freshStart fresh pending
      bufferedBytes := counters.bufferedBytes + added
      bufferedSegments := bufferedSegments
      peakBufferedSegments :=
        max counters.peakBufferedSegments bufferedSegments
    }
  }

/-- Count a retransmission that contradicts retained emitted bytes. -/
def countConsumedConflict
    (start next : Int)
    (payload : Bytes)
    (view : DirectionView) : DirectionView :=
  if start < next ∧ conflictsWithConsumed view.direction start payload then
    { view with
      counters := {
        view.counters with
        overlapConflicts := view.counters.overlapConflicts + 1
      } }
  else
    view

/-- A payload whose bytes were all consumed before. -/
def countRetransmission
    (payload : Bytes)
    (view : DirectionView) : DirectionView :=
  { view with
    counters := {
      view.counters with
      retransmittedBytes := view.counters.retransmittedBytes + payload.length
    } }

/--
The payload part of `process` on one direction, up to the per-direction
limits.
-/
def receivePayload
    (limits : TcpLimits)
    (flow : FlowKey)
    (direction : Direction)
    (packetIds : List Nat)
    (timestampNs : Int)
    (start next : Int)
    (payload : Bytes)
    (view : DirectionView) : Outcome DirectionView TcpEvent :=
  let counted := countConsumedConflict start next payload view
  if start + payload.length ≤ next then
    .quiet (countRetransmission payload counted)
  else
    (drain limits flow direction false
      (insertPayload packetIds timestampNs start next payload
        counted)).andThen fun drained =>
      enforceDirectionLimits limits flow direction
        drained.direction.pending.length drained

end PacketAudit
