import PacketAudit.Packets.Fields
import PacketAudit.Tcp.Direction

namespace PacketAudit

/-!
# The TCP reassembler

`TCPReassembler` as a state with an explicit table of flows.  `process` is cut
into the stages of the source function, in its order: restart on a new SYN,
flow entry, acknowledgement, sequence start, payload, budget eviction and
close.  Monotonic clock readings are arguments.
-/

open Library

namespace ParsedPacket

/-- `_TCP_FIN` is set. -/
def fin (packet : ParsedPacket) : Bool :=
  decide (packet.tcpFlags &&& 0x01 ≠ 0)

/-- `_TCP_SYN` is set. -/
def syn (packet : ParsedPacket) : Bool :=
  decide (packet.tcpFlags &&& 0x02 ≠ 0)

/-- `_TCP_RST` is set. -/
def rst (packet : ParsedPacket) : Bool :=
  decide (packet.tcpFlags &&& 0x04 ≠ 0)

/-- `_TCP_ACK` is set. -/
def ack (packet : ParsedPacket) : Bool :=
  decide (packet.tcpFlags &&& 0x10 ≠ 0)

/-- `raw_payload_sequence`: a SYN occupies one sequence number. -/
def rawPayloadSequence (packet : ParsedPacket) : Int :=
  ((packet.tcpSeq : Int) + (if packet.syn then 1 else 0)) % seqModulus

end ParsedPacket

/-- The key of the flow table: capture session and canonical flow. -/
abbrev FlowId := String × FlowKey

/-- The table key of a packet. -/
def ParsedPacket.flowId (packet : ParsedPacket) : FlowId :=
  (packet.sessionId, packet.flow.1)

/-- The state of one flow, both directions together. -/
structure FlowState where
  flow : FlowKey
  connectionEpoch : Nat
  directions : Direction → DirectionState
  lastSeenNs : Int := 0
  activityNs : Int := 0

namespace FlowState

/-- Replace the state of one direction. -/
def setDirection
    (state : FlowState)
    (direction : Direction)
    (next : DirectionState) : FlowState :=
  { state with directions := Function.update state.directions direction next }

/-- A quantity summed over both directions. -/
def sumDirections
    (state : FlowState)
    (measure : DirectionState → Int) : Int :=
  measure (state.directions .aToB) + measure (state.directions .bToA)

/-- Both directions were closed. -/
def allClosed (state : FlowState) : Bool :=
  (state.directions .aToB).closed && (state.directions .bToA).closed

end FlowState

/-- The mutable state of `TCPReassembler`. -/
structure TCPReassembler where
  flows : OrderedTable FlowId FlowState
  nextConnectionEpoch : Nat
  counters : TcpCounters

namespace TCPReassembler

/-- A new reassembler numbering its epochs within one namespace. -/
def new (epochNamespace : Nat) : TCPReassembler where
  flows := .empty
  nextConnectionEpoch := epochNamespace <<< 32 ||| 1
  counters := {}

/-- `active_flows`. -/
def activeFlows (reassembler : TCPReassembler) : Nat :=
  reassembler.flows.size

/-- Run a direction function on one direction of one flow. -/
def onDirection
    (key : FlowId)
    (direction : Direction)
    (apply : DirectionView → Outcome DirectionView TcpEvent)
    (reassembler : TCPReassembler) : Outcome TCPReassembler TcpEvent :=
  match reassembler.flows.get? key with
  | none => .quiet reassembler
  | some state =>
      let result := apply ⟨state.directions direction, reassembler.counters⟩
      {
        state := {
          reassembler with
          flows :=
            reassembler.flows.set key
              (state.setDirection direction result.state.direction)
          counters := result.state.counters
        }
        events := result.events
      }

/-- `_remove_flow`: drop a flow and its share of the buffer counters. -/
def removeFlow
    (key : FlowId)
    (reassembler : TCPReassembler) : TCPReassembler :=
  match reassembler.flows.get? key with
  | none => reassembler
  | some state =>
      let pending := state.sumDirections fun direction =>
        direction.pendingBytes
      let pendingSegments := state.sumDirections fun direction =>
        (direction.pending.length : Int)
      { reassembler with
        flows := reassembler.flows.erase key
        counters := {
          reassembler.counters with
          bufferedBytes := reassembler.counters.bufferedBytes - pending
          bufferedSegments :=
            reassembler.counters.bufferedSegments - pendingSegments
        } }

/-- Flush both directions of a flow, then drop it. -/
def closeFlow
    (limits : TcpLimits)
    (key : FlowId)
    (flow : FlowKey)
    (reassembler : TCPReassembler) : Outcome TCPReassembler TcpEvent :=
  ((reassembler.onDirection key .aToB
      (flushDirection limits flow .aToB)).andThen
    (onDirection key .bToA (flushDirection limits flow .bToA))).andThen
    fun flushed => .quiet (flushed.removeFlow key)

/-- `_evict_oldest`. -/
def evictOldest
    (limits : TcpLimits)
    (budget : Bool)
    (reassembler : TCPReassembler) : Outcome TCPReassembler TcpEvent :=
  match reassembler.flows.oldest? with
  | none => .quiet reassembler
  | some key =>
      match reassembler.flows.get? key with
      | none => .quiet reassembler
      | some state =>
          (reassembler.closeFlow limits key state.flow).andThen fun removed =>
            .quiet { removed with
              counters := {
                removed.counters with
                evictedFlows := removed.counters.evictedFlows + 1
                budgetEvictedFlows :=
                  removed.counters.budgetEvictedFlows +
                    (if budget then 1 else 0)
              } }

/-- Evict oldest flows while a condition holds, for at most `fuel` rounds. -/
def evictWhile
    (limits : TcpLimits)
    (budget : Bool)
    (condition : TCPReassembler → Bool) :
    Nat → TCPReassembler → Outcome TCPReassembler TcpEvent
  | 0, reassembler => .quiet reassembler
  | fuel + 1, reassembler =>
      if condition reassembler then
        (reassembler.evictOldest limits budget).andThen
          (evictWhile limits budget condition fuel)
      else
        .quiet reassembler

/-- `len(self._flows) >= self.max_flows`. -/
def flowTableFull
    (limits : TcpLimits)
    (reassembler : TCPReassembler) : Bool :=
  decide (limits.maxFlows ≤ reassembler.flows.size)

/-- The condition of the budget eviction loop. -/
def overBudget
    (limits : TcpLimits)
    (reassembler : TCPReassembler) : Bool :=
  (decide
      ((limits.maxBufferedBytes : Int) <
        reassembler.counters.bufferedBytes) ||
    decide
      ((limits.maxBufferedSegments : Int) <
        reassembler.counters.bufferedSegments)) &&
    decide (0 < reassembler.flows.size)

/-- A bare SYN that does not repeat the direction's open SYN. -/
def restarts
    (packet : ParsedPacket)
    (reassembler : TCPReassembler) : Bool :=
  match reassembler.flows.get? packet.flowId with
  | none => false
  | some state =>
      let prior := state.directions packet.flow.2
      packet.syn && !packet.ack &&
        (decide (prior.synSeq ≠ some packet.tcpSeq) || prior.closed)

/-- Stage 1 of `process`: a new SYN ends the old connection of its tuple. -/
def restart
    (limits : TcpLimits)
    (packet : ParsedPacket)
    (reassembler : TCPReassembler) : Outcome TCPReassembler TcpEvent :=
  if reassembler.restarts packet then
    reassembler.closeFlow limits packet.flowId packet.flow.1
  else
    .quiet reassembler

/-- The state of a flow at its creation. -/
def freshFlow
    (flow : FlowKey)
    (connectionEpoch : Nat)
    (timestampNs clock : Int) : FlowState where
  flow := flow
  connectionEpoch := connectionEpoch
  directions := fun _ => { connectionEpoch := connectionEpoch }
  lastSeenNs := timestampNs
  activityNs := clock

/-- Add a flow under the next connection epoch. -/
def createFlow
    (clock : Int)
    (packet : ParsedPacket)
    (reassembler : TCPReassembler) : TCPReassembler :=
  { reassembler with
    nextConnectionEpoch := reassembler.nextConnectionEpoch + 1
    flows :=
      reassembler.flows.set packet.flowId
        (freshFlow packet.flow.1 reassembler.nextConnectionEpoch
          packet.timestampNs clock) }

/-- Stage 2 of `process`: find the flow of the packet or make room for it. -/
def enter
    (limits : TcpLimits)
    (clock : Int)
    (packet : ParsedPacket)
    (reassembler : TCPReassembler) : Outcome TCPReassembler TcpEvent :=
  match reassembler.flows.get? packet.flowId with
  | some _ =>
      .quiet { reassembler with
        flows := reassembler.flows.moveToEnd packet.flowId }
  | none =>
      (reassembler.evictWhile limits false (flowTableFull limits)
        reassembler.flows.size).andThen fun roomy =>
          .quiet (roomy.createFlow clock packet)

/-- Change a flow in place. -/
def reviseFlow
    (key : FlowId)
    (revise : FlowState → FlowState)
    (reassembler : TCPReassembler) : TCPReassembler :=
  match reassembler.flows.get? key with
  | none => reassembler
  | some state =>
      { reassembler with
        flows := reassembler.flows.set key (revise state) }

/-- Note when a packet of a flow and direction was seen. -/
def touched
    (clock : Int)
    (packet : ParsedPacket)
    (state : FlowState) : FlowState :=
  let directional := state.directions packet.flow.2
  { state.setDirection packet.flow.2
      { directional with
        lastSeenNs := max directional.lastSeenNs packet.timestampNs } with
    lastSeenNs := max state.lastSeenNs packet.timestampNs
    activityNs := clock }

/-- An acknowledgement is the first or lies past the highest one so far. -/
def ackAdvances (peerAck : Int) : Option Int → Bool
  | none => true
  | some acked => decide (acked < peerAck)

/-- Note what the packet acknowledges of the opposite direction. -/
def acknowledged
    (packet : ParsedPacket)
    (state : FlowState) : FlowState :=
  let opposite := state.directions packet.flow.2.opposite
  match packet.ack, opposite.nextSeq with
  | true, some next =>
      let peerAck := unwrapSequence packet.tcpAck next
      if ackAdvances peerAck opposite.peerAckedSeq then
        state.setDirection packet.flow.2.opposite
          { opposite with peerAckedSeq := some peerAck }
      else
        state
  | _, _ => state

/-- Give a direction its first `next_seq` and note the SYN number. -/
def startSequence
    (packet : ParsedPacket)
    (view : DirectionView) : Outcome DirectionView TcpEvent :=
  let state := view.direction
  let starts :=
    state.nextSeq.isNone &&
      (packet.syn || !packet.transportPayload.isEmpty)
  let started : DirectionState :=
    if starts then
      { state with
        synSeq := if packet.syn then some packet.tcpSeq else state.synSeq
        nextSeq := some packet.rawPayloadSequence
        midstream := !packet.syn }
    else
      state
  let noted : DirectionState :=
    if packet.syn && started.synSeq.isNone then
      { started with synSeq := some packet.tcpSeq }
    else
      started
  {
    state := { view with direction := noted }
    events :=
      if starts then
        [.opened state.connectionEpoch packet.flow.2
          packet.rawPayloadSequence (!packet.syn)]
      else
        []
  }

/-- Stages 2 to 4 of `process`: everything before the payload is looked at. -/
def prepare
    (limits : TcpLimits)
    (clock : Int)
    (packet : ParsedPacket)
    (reassembler : TCPReassembler) : Outcome TCPReassembler TcpEvent :=
  (((reassembler.restart limits packet).andThen
    (enter limits clock packet)).andThen fun entered =>
      .quiet (entered.reviseFlow packet.flowId fun state =>
        acknowledged packet (touched clock packet state))).andThen
    (onDirection packet.flowId packet.flow.2 (startSequence packet))

/--
A one-octet TCP keepalive at `SND.NXT - 1` whose octet the peer has already
acknowledged.
-/
def isKeepalive
    (packet : ParsedPacket)
    (start next : Int)
    (state : DirectionState) : Bool :=
  decide (packet.transportPayload.length = 1) && packet.ack &&
    !packet.syn && !packet.fin && !packet.rst &&
    decide (start = next - 1) &&
    match state.peerAckedSeq with
    | none => false
    | some acked => decide (next ≤ acked)

/-- The absolute sequence position of a packet's payload in its direction. -/
def payloadStart (packet : ParsedPacket) (next : Int) : Int :=
  unwrapSequence packet.rawPayloadSequence next

/-- The arrival of a packet's payload in a direction that expects `next`. -/
def arrivalOf
    (packet : ParsedPacket)
    (next : Int)
    (state : DirectionState) : Arrival where
  flow := packet.flow.1
  connectionEpoch := state.connectionEpoch
  direction := packet.flow.2
  start := payloadStart packet next
  nextSeq := next
  data := packet.transportPayload
  packetIds := packet.contributingIds
  keepalive := isKeepalive packet (payloadStart packet next) next state

/-- The payload part of `process` on the packet's own direction. -/
def acceptPayload
    (limits : TcpLimits)
    (packet : ParsedPacket)
    (view : DirectionView) : Outcome DirectionView TcpEvent :=
  match view.direction.nextSeq with
  | none => .quiet view
  | some next =>
      if packet.transportPayload.isEmpty then
        .quiet view
      else
        let arrival := arrivalOf packet next view.direction
        let logged : Outcome DirectionView TcpEvent :=
          ⟨view, [.arrived arrival]⟩
        if arrival.keepalive then
          logged
        else
          logged.andThen
            (receivePayload limits packet.flow.1 packet.flow.2
              packet.contributingIds packet.timestampNs arrival.start next
              packet.transportPayload)

/-- The payload is a recognised keepalive, on which `process` returns early. -/
def returnsEarly
    (packet : ParsedPacket)
    (reassembler : TCPReassembler) : Bool :=
  match reassembler.flows.get? packet.flowId with
  | none => false
  | some state =>
      match (state.directions packet.flow.2).nextSeq with
      | none => false
      | some next =>
          !packet.transportPayload.isEmpty &&
            (arrivalOf packet next (state.directions packet.flow.2)).keepalive

/-- The payload reaches past `next_seq`, so that a part of it may be stored. -/
def storesPayload
    (packet : ParsedPacket)
    (reassembler : TCPReassembler) : Bool :=
  match reassembler.flows.get? packet.flowId with
  | none => false
  | some state =>
      match (state.directions packet.flow.2).nextSeq with
      | none => false
      | some next =>
          !packet.transportPayload.isEmpty &&
            decide
              (next <
                payloadStart packet next + packet.transportPayload.length)

/-- Stage 6 of `process`: evict oldest flows until the budgets are met. -/
def enforceBudget
    (limits : TcpLimits)
    (reassembler : TCPReassembler) : Outcome TCPReassembler TcpEvent :=
  reassembler.evictWhile limits true (overBudget limits)
    reassembler.flows.size

/-- Mark a direction closed. -/
def markClosed (direction : Direction) (state : FlowState) : FlowState :=
  state.setDirection direction
    { state.directions direction with closed := true }

/-- The packet ends the whole connection of its tuple. -/
def endsConnection
    (packet : ParsedPacket)
    (reassembler : TCPReassembler) : Bool :=
  match reassembler.flows.get? packet.flowId with
  | none => false
  | some state => packet.rst || state.allClosed

/-- Stage 7 of `process`: FIN and RST. -/
def finish
    (limits : TcpLimits)
    (packet : ParsedPacket)
    (reassembler : TCPReassembler) : Outcome TCPReassembler TcpEvent :=
  let key := packet.flowId
  let flow := packet.flow.1
  let direction := packet.flow.2
  let closing : Outcome TCPReassembler TcpEvent :=
    if packet.fin || packet.rst then
      (reassembler.onDirection key direction
        (flushDirection limits flow direction)).andThen fun flushed =>
          .quiet (flushed.reviseFlow key (markClosed direction))
    else
      .quiet reassembler
  closing.andThen fun closed =>
    if closed.endsConnection packet then
      (closed.onDirection key direction.opposite
        (flushDirection limits flow direction.opposite)).andThen
          fun flushed => .quiet (flushed.removeFlow key)
    else
      .quiet closed

/--
`process` for a packet that takes part in reassembly.  After the budget
eviction the packet's own flow may be gone; every later stage then leaves the
state alone, as the early return of the source does.
-/
def processTcp
    (limits : TcpLimits)
    (clock : Int)
    (packet : ParsedPacket)
    (reassembler : TCPReassembler) : Outcome TCPReassembler TcpEvent :=
  (reassembler.prepare limits clock packet).andThen fun prepared =>
    let accepted :=
      prepared.onDirection packet.flowId packet.flow.2
        (acceptPayload limits packet)
    if prepared.returnsEarly packet then
      accepted
    else if prepared.storesPayload packet then
      (accepted.andThen (enforceBudget limits)).andThen
        (finish limits packet)
    else
      accepted.andThen (finish limits packet)

/-- The packet is decoded TCP. -/
def accepts (packet : ParsedPacket) : Bool :=
  decide (packet.protocol = ipprotoTcp) && packet.transportParsed

/-- `process`: accept one parsed packet and emit newly contiguous bytes. -/
def process
    (limits : TcpLimits)
    (clock : Int)
    (packet : ParsedPacket)
    (reassembler : TCPReassembler) : Outcome TCPReassembler TcpEvent :=
  if accepts packet then
    reassembler.processTcp limits clock packet
  else
    .quiet reassembler

/-- Flush and drop a list of flows, in order. -/
def closeFlows
    (limits : TcpLimits) :
    List FlowId → TCPReassembler → Outcome TCPReassembler TcpEvent
  | [], reassembler => .quiet reassembler
  | key :: rest, reassembler =>
      match reassembler.flows.get? key with
      | none => reassembler.closeFlows limits rest
      | some state =>
          (reassembler.closeFlow limits key state.flow).andThen
            (closeFlows limits rest)

/-- The stale keys of `expire`, from its optional capture clock. -/
def staleFlows
    (limits : TcpLimits)
    (now : Option Int)
    (clock : Int)
    (reassembler : TCPReassembler) : List FlowId :=
  match now with
  | some now =>
      (reassembler.flows.entries.filter fun entry =>
        decide ((limits.idleNs : Int) ≤ now - entry.2.lastSeenNs)).map
          Prod.fst
  | none =>
      (reassembler.flows.entries.takeWhile fun entry =>
        decide ((limits.idleNs : Int) ≤ clock - entry.2.activityNs)).map
          Prod.fst

/-- `expire`: flush and drop idle flows. -/
def expire
    (limits : TcpLimits)
    (now : Option Int)
    (clock : Int)
    (reassembler : TCPReassembler) : Outcome TCPReassembler TcpEvent :=
  let stale := reassembler.staleFlows limits now clock
  (reassembler.closeFlows limits stale).andThen fun closed =>
    .quiet { closed with
      counters := {
        closed.counters with
        expiredFlows := closed.counters.expiredFlows + stale.length
      } }

/-- `flush_all`: flush and drop every flow. -/
def flushAll
    (limits : TcpLimits)
    (completeness : Option Completeness)
    (reassembler : TCPReassembler) : Outcome TCPReassembler TcpEvent :=
  let flushed :=
    reassembler.closeFlows limits
      (reassembler.flows.entries.map Prod.fst)
  { flushed with events := flushed.events.map (TcpEvent.relabel completeness) }

end TCPReassembler

/-- One call of a reassembler method, with its clock reading. -/
inductive TcpOperation where
  | process (clock : Int) (packet : ParsedPacket)
  | expire (now : Option Int) (clock : Int)
  | flushAll (completeness : Option Completeness)

/-- Perform one call. -/
def TcpOperation.apply
    (limits : TcpLimits) :
    TcpOperation → TCPReassembler → Outcome TCPReassembler TcpEvent
  | .process clock packet => TCPReassembler.process limits clock packet
  | .expire now clock => TCPReassembler.expire limits now clock
  | .flushAll completeness => TCPReassembler.flushAll limits completeness

/-- Perform a list of calls. -/
def TCPReassembler.run
    (limits : TcpLimits)
    (operations : List TcpOperation)
    (reassembler : TCPReassembler) : Outcome TCPReassembler TcpEvent :=
  runAll (TcpOperation.apply limits) operations reassembler

/-- A segment from one client to one server, for worked examples. -/
def sampleSegment
    (packetId seq flags : Nat)
    (payload : Bytes) : ParsedPacket where
  sessionId := "session"
  packetId := packetId
  timestampNs := packetId
  interface := "eth0"
  capturedLength := 54 + payload.length
  wireLength := 54 + payload.length
  ipVersion := 4
  src := "10.0.0.1"
  dst := "10.0.0.2"
  protocol := ipprotoTcp
  vlanIds := []
  networkPayload := []
  transportParsed := true
  sport := 1234
  dport := 80
  tcpSeq := seq
  tcpFlags := flags
  transportPayload := payload

end PacketAudit
