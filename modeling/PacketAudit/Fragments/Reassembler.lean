import PacketAudit.Library.Coalesce
import PacketAudit.Packets.Decode

namespace PacketAudit

/-!
# The fragment reassembler

`FragmentReassembler` as a state with an explicit table of datagrams under
reassembly.  `process` is cut into the stages of the source function: entry,
final end, conflict check, insertion, limits and completion.  Monotonic clock
readings are arguments.
-/

open Library

/-- The identity of a fragmented datagram. -/
structure FragmentKey where
  sessionId : String
  interface : String
  vlanIds : List Nat
  ipVersion : Nat
  src : String
  dst : String
  protocol : Nat
  fragmentId : Nat
  deriving Repr, DecidableEq

/-- `_key`, for packets that carry a fragment identification. -/
def ParsedPacket.fragmentKey? (packet : ParsedPacket) : Option FragmentKey :=
  packet.fragmentId.map fun fragmentId => {
    sessionId := packet.sessionId
    interface := packet.interface
    vlanIds := packet.vlanIds
    ipVersion := packet.ipVersion
    src := packet.src
    dst := packet.dst
    protocol := packet.protocol
    fragmentId
  }

/-- The end of a fragment's bytes within its datagram. -/
def ParsedPacket.fragmentEnd (packet : ParsedPacket) : Nat :=
  packet.fragmentOffset + packet.networkPayload.length

/-- A whole datagram: no fragment identification, or an atomic fragment. -/
def ParsedPacket.unfragmented (packet : ParsedPacket) : Bool :=
  packet.fragmentId.isNone ||
    (decide (packet.fragmentOffset = 0) && !packet.moreFragments)

/-- Bytes of a datagram at their offset. -/
abbrev ByteRange := Segment UInt8 Unit

/-- The bytes of a fragment at their offset. -/
def ParsedPacket.byteRange (packet : ParsedPacket) : ByteRange where
  start := packet.fragmentOffset
  data := packet.networkPayload
  tag := ()

/-- The limits of a fragment reassembler. -/
structure FragmentLimits where
  idleNs : Nat
  maxDatagrams : Nat
  maxDatagramBytes : Nat
  maxBufferedBytes : Nat
  maxRangesPerDatagram : Nat
  maxBufferedRanges : Nat
  maxBufferedProvenanceEntries : Nat
  maxDatagrams_pos : 1 ≤ maxDatagrams
  maxDatagramBytes_pos : 1 ≤ maxDatagramBytes
  maxBufferedBytes_pos : 1 ≤ maxBufferedBytes
  maxRangesPerDatagram_pos : 1 ≤ maxRangesPerDatagram
  maxBufferedRanges_pos : 1 ≤ maxBufferedRanges
  maxBufferedProvenanceEntries_pos : 1 ≤ maxBufferedProvenanceEntries

/-- The limits of a reassembler constructed without arguments. -/
def FragmentLimits.default : FragmentLimits where
  idleNs := 30 * 1000000000
  maxDatagrams := 4096
  maxDatagramBytes := 2 * 1024 * 1024
  maxBufferedBytes := 64 * 1024 * 1024
  maxRangesPerDatagram := 4096
  maxBufferedRanges := 65536
  maxBufferedProvenanceEntries := 65536
  maxDatagrams_pos := by decide
  maxDatagramBytes_pos := by decide
  maxBufferedBytes_pos := by decide
  maxRangesPerDatagram_pos := by decide
  maxBufferedRanges_pos := by decide
  maxBufferedProvenanceEntries_pos := by decide

/-! ## One datagram -/

/-- The state kept for one datagram under reassembly. -/
structure FragmentState where
  firstFragment : Option ParsedPacket := none
  ranges : List ByteRange := []
  finalEnd : Option Nat := none
  lastSeenNs : Int := 0
  activityNs : Int := 0
  firstSeenNs : Int := 0
  latestPacketId : Nat := 0
  truncated : Bool := false
  bufferedBytes : Int := 0
  sourcePacketIds : List Nat := []
  deriving Repr, DecidableEq

namespace FragmentState

/-- The state of a datagram whose first fragment arrives now. -/
def new (clock : Int) (packet : ParsedPacket) : FragmentState where
  lastSeenNs := packet.timestampNs
  activityNs := clock
  firstSeenNs := packet.timestampNs
  latestPacketId := packet.packetId

/-- The updates every accepted fragment makes before its bytes are compared. -/
def touch
    (clock : Int)
    (packet : ParsedPacket)
    (state : FragmentState) : FragmentState :=
  { state with
    lastSeenNs := max state.lastSeenNs packet.timestampNs
    activityNs := clock
    latestPacketId := max state.latestPacketId packet.packetId
    truncated := state.truncated || packet.truncated
    firstFragment :=
      if packet.fragmentOffset = 0 ∧ state.firstFragment = none then
        some packet
      else
        state.firstFragment }

/-- A final fragment ends elsewhere than the final fragment seen before. -/
def finalEndDiffers (packet : ParsedPacket) (state : FragmentState) : Bool :=
  !packet.moreFragments &&
    state.finalEnd.any fun finalEnd =>
      decide (finalEnd ≠ packet.fragmentEnd)

/-- Record the end of the datagram when the fragment is final. -/
def recordFinalEnd
    (packet : ParsedPacket)
    (state : FragmentState) : FragmentState :=
  { state with
    finalEnd :=
      if packet.moreFragments then state.finalEnd
      else some packet.fragmentEnd }

/-- `_has_conflicting_overlap` with the ranges held. -/
def hasConflictingOverlap
    (packet : ParsedPacket)
    (state : FragmentState) : Bool :=
  state.ranges.any fun old =>
    overlapDiffers packet.fragmentOffset packet.networkPayload
      old.start old.data

/-- `additions`: the parts of the fragment not represented in the ranges. -/
def additions (packet : ParsedPacket) (state : FragmentState) :
    List ByteRange :=
  uncovered packet.byteRange state.ranges

/-- The range objects before merging, the new ones marked `true`. -/
def marked
    (packet : ParsedPacket)
    (state : FragmentState) : List (Segment UInt8 Bool) :=
  insertSorted
    (state.ranges.map (Segment.retag false))
    ((state.additions packet).map (Segment.retag true))

/--
`added`.  The new range objects are measured after `_merge_adjacent_byte_ranges`
ran over them: an object other ranges were joined to counts with their bytes.
-/
def added (packet : ParsedPacket) (state : FragmentState) : Nat :=
  totalLength
    ((coalesce (state.marked packet) ++ absorbed (state.marked packet)).filter
      fun range => range.tag)

/-- Insert the bytes of a fragment and the packets they came from. -/
def insert (packet : ParsedPacket) (state : FragmentState) : FragmentState :=
  { state with
    ranges := (coalesce (state.marked packet)).map (Segment.retag ())
    bufferedBytes := state.bufferedBytes + state.added packet
    sourcePacketIds :=
      if (state.additions packet).isEmpty then
        state.sourcePacketIds
      else
        addPacketIds state.sourcePacketIds packet.contributingIds }

/-- The outcome of the assembly loop. -/
inductive Assembly where
  | incomplete
  | conflict
  | complete (payload : Bytes)
  deriving Repr, DecidableEq

/-- The assembly loop over the ranges from a cursor on. -/
def assembleFrom
    (finalEnd cursor : Int)
    (assembled : Bytes) : List ByteRange → Assembly
  | [] => if cursor = finalEnd then .complete assembled else .incomplete
  | item :: rest =>
      if item.start ≠ cursor then
        .incomplete
      else if finalEnd < item.stop then
        .conflict
      else if item.stop = finalEnd then
        .complete (assembled ++ item.data)
      else
        assembleFrom finalEnd item.stop (assembled ++ item.data) rest

/-- `completed`: the first fragment as the header of the whole datagram. -/
def completed
    (base : ParsedPacket)
    (payload : Bytes)
    (state : FragmentState) : ParsedPacket :=
  { base with
    packetId := state.latestPacketId
    timestampNs := state.lastSeenNs
    networkPayload := payload
    truncated := false
    fragmentId := none
    fragmentOffset := 0
    moreFragments := false
    transportParsed := false
    sport := 0
    dport := 0
    tcpSeq := 0
    tcpAck := 0
    tcpFlags := 0
    transportPayload := []
    sourcePacketIds := state.sourcePacketIds }

/-- What the bytes held amount to, with the first fragment when it matters. -/
def assemble (state : FragmentState) : Assembly × Option ParsedPacket :=
  match state.firstFragment, state.finalEnd with
  | some base, some finalEnd =>
      if state.truncated then (.incomplete, none)
      else (assembleFrom finalEnd 0 [] state.ranges, some base)
  | _, _ => (.incomplete, none)

end FragmentState

/-! ## All datagrams -/

/-- The counters of a fragment reassembler. -/
structure FragmentCounters where
  bufferedBytes : Int := 0
  bufferedRanges : Int := 0
  bufferedProvenanceEntries : Int := 0
  peakBufferedRanges : Int := 0
  peakBufferedProvenanceEntries : Int := 0
  expiredDatagrams : Nat := 0
  evictedDatagrams : Nat := 0
  overlapConflicts : Nat := 0
  malformedFragments : Nat := 0
  deriving Repr, DecidableEq

/-- The mutable state of `FragmentReassembler`. -/
structure FragmentReassembler where
  states : OrderedTable FragmentKey FragmentState := .empty
  counters : FragmentCounters := {}

/-- The state after a call and what the call returned or raised. -/
structure FragmentResult where
  reassembler : FragmentReassembler
  returned : Except PacketFault (Option ParsedPacket)

/-- The last step of `process`: decode the headers of a whole datagram. -/
def transportReady
    (packet : ParsedPacket) : Except PacketFault (Option ParsedPacket) := do
  let normalized ← normalizeReassembledIpv6 packet
  some <$> parseTransport normalized

namespace FragmentReassembler

/-- `_discard`. -/
def discard
    (key : FragmentKey)
    (reassembler : FragmentReassembler) : FragmentReassembler :=
  match reassembler.states.get? key with
  | none => reassembler
  | some state => {
      states := reassembler.states.erase key
      counters := {
        reassembler.counters with
        bufferedBytes :=
          reassembler.counters.bufferedBytes - state.bufferedBytes
        bufferedRanges :=
          reassembler.counters.bufferedRanges - state.ranges.length
        bufferedProvenanceEntries :=
          reassembler.counters.bufferedProvenanceEntries -
            state.sourcePacketIds.length
      }
    }

/-- Discard a datagram and count it as evicted. -/
def evict
    (key : FragmentKey)
    (reassembler : FragmentReassembler) : FragmentReassembler :=
  let discarded := reassembler.discard key
  { discarded with
    counters := {
      discarded.counters with
      evictedDatagrams := discarded.counters.evictedDatagrams + 1
    } }

/-- Discard a datagram and count an overlap conflict. -/
def conflict
    (key : FragmentKey)
    (reassembler : FragmentReassembler) : FragmentReassembler :=
  let discarded := reassembler.discard key
  { discarded with
    counters := {
      discarded.counters with
      overlapConflicts := discarded.counters.overlapConflicts + 1
    } }

/-- Discard a datagram and count a malformed fragment. -/
def malformed
    (key : FragmentKey)
    (reassembler : FragmentReassembler) : FragmentReassembler :=
  let discarded := reassembler.discard key
  { discarded with
    counters := {
      discarded.counters with
      malformedFragments := discarded.counters.malformedFragments + 1
    } }

/-- The condition of the eviction loop. -/
def overLimits
    (limits : FragmentLimits)
    (reassembler : FragmentReassembler) : Bool :=
  decide (limits.maxDatagrams < reassembler.states.size) ||
    decide
      ((limits.maxBufferedBytes : Int) <
        reassembler.counters.bufferedBytes) ||
    decide
      ((limits.maxBufferedRanges : Int) <
        reassembler.counters.bufferedRanges) ||
    decide
      ((limits.maxBufferedProvenanceEntries : Int) <
        reassembler.counters.bufferedProvenanceEntries)

/-- The eviction loop, for at most as many rounds as there are datagrams. -/
def evictWhileOverLimits
    (limits : FragmentLimits) :
    Nat → FragmentReassembler → FragmentReassembler
  | 0, reassembler => reassembler
  | rounds + 1, reassembler =>
      if reassembler.overLimits limits then
        match reassembler.states.oldest? with
        | none => reassembler
        | some oldest =>
            evictWhileOverLimits limits rounds (reassembler.evict oldest)
      else
        reassembler

/-- `_evict_to_limits`. -/
def evictToLimits
    (limits : FragmentLimits)
    (reassembler : FragmentReassembler) : FragmentReassembler :=
  reassembler.evictWhileOverLimits limits reassembler.states.size

/-- The checks that make a fragment malformed. -/
def isMalformed (limits : FragmentLimits) (packet : ParsedPacket) : Bool :=
  decide (limits.maxDatagramBytes < packet.fragmentEnd) ||
    (packet.moreFragments &&
      (packet.networkPayload.isEmpty ||
        decide (packet.networkPayload.length % 8 ≠ 0)))

/-- The state a fragment is added to: the one held, or a new one. -/
def stateFor
    (key : FragmentKey)
    (clock : Int)
    (packet : ParsedPacket)
    (reassembler : FragmentReassembler) : FragmentState :=
  ((reassembler.states.get? key).getD (.new clock packet)).touch clock packet

/-- Write a datagram's state back, behind all others. -/
def hold
    (key : FragmentKey)
    (state : FragmentState)
    (reassembler : FragmentReassembler) : FragmentReassembler :=
  { reassembler with
    states := (reassembler.states.moveToEnd key).set key state }

/-- Hold a state with the fragment inserted, and count what was added. -/
def store
    (key : FragmentKey)
    (packet : ParsedPacket)
    (state : FragmentState)
    (reassembler : FragmentReassembler) : FragmentReassembler :=
  let inserted := state.insert packet
  let ranges :=
    reassembler.counters.bufferedRanges +
      (inserted.ranges.length - state.ranges.length)
  let provenance :=
    reassembler.counters.bufferedProvenanceEntries +
      (inserted.sourcePacketIds.length - state.sourcePacketIds.length)
  let held := reassembler.hold key inserted
  { held with
    counters := {
      held.counters with
      bufferedBytes := held.counters.bufferedBytes + state.added packet
      bufferedRanges := ranges
      bufferedProvenanceEntries := provenance
      peakBufferedRanges := max held.counters.peakBufferedRanges ranges
      peakBufferedProvenanceEntries :=
        max held.counters.peakBufferedProvenanceEntries provenance
    } }

/-- Return the datagram if the bytes held complete it. -/
def complete
    (key : FragmentKey)
    (reassembler : FragmentReassembler) : FragmentResult :=
  match reassembler.states.get? key with
  | none => ⟨reassembler, .ok none⟩
  | some state =>
      match state.assemble with
      | (.complete payload, some base) =>
          ⟨reassembler.discard key,
            transportReady (state.completed base payload)⟩
      | (.conflict, _) => ⟨reassembler.conflict key, .ok none⟩
      | _ => ⟨reassembler, .ok none⟩

/-- The limits checked after an insertion, then completion. -/
def settle
    (limits : FragmentLimits)
    (key : FragmentKey)
    (reassembler : FragmentReassembler) : FragmentResult :=
  match reassembler.states.get? key with
  | none => ⟨reassembler, .ok none⟩
  | some state =>
      if limits.maxRangesPerDatagram < state.ranges.length then
        ⟨reassembler.evict key, .ok none⟩
      else
        (reassembler.evictToLimits limits).complete key

/-- `process` for a well-formed fragment of a fragmented datagram. -/
def collect
    (limits : FragmentLimits)
    (key : FragmentKey)
    (clock : Int)
    (packet : ParsedPacket)
    (reassembler : FragmentReassembler) : FragmentResult :=
  let state := reassembler.stateFor key clock packet
  let entered := reassembler.hold key state
  if state.finalEndDiffers packet then
    ⟨entered.conflict key, .ok none⟩
  else
    let state := state.recordFinalEnd packet
    if state.hasConflictingOverlap packet then
      ⟨(entered.hold key state).conflict key, .ok none⟩
    else
      (entered.store key packet state).settle limits key

/-- `process`. -/
def process
    (limits : FragmentLimits)
    (clock : Int)
    (packet : ParsedPacket)
    (reassembler : FragmentReassembler) : FragmentResult :=
  match packet.fragmentKey? with
  | none => ⟨reassembler, .ok (some packet)⟩
  | some key =>
      if packet.unfragmented then
        ⟨reassembler, .ok (some packet)⟩
      else if isMalformed limits packet then
        ⟨reassembler.malformed key, .ok none⟩
      else
        reassembler.collect limits key clock packet

/-- The stale keys of `expire`, from its optional capture clock. -/
def staleDatagrams
    (limits : FragmentLimits)
    (now : Option Int)
    (clock : Int)
    (reassembler : FragmentReassembler) : List FragmentKey :=
  match now with
  | some now =>
      (reassembler.states.entries.filter fun entry =>
        decide ((limits.idleNs : Int) ≤ now - entry.2.lastSeenNs)).map
          Prod.fst
  | none =>
      (reassembler.states.entries.takeWhile fun entry =>
        decide ((limits.idleNs : Int) ≤ clock - entry.2.activityNs)).map
          Prod.fst

/-- `expire`. -/
def expire
    (limits : FragmentLimits)
    (now : Option Int)
    (clock : Int)
    (reassembler : FragmentReassembler) : FragmentReassembler :=
  let stale := reassembler.staleDatagrams limits now clock
  let discarded := stale.foldl (fun state key => state.discard key) reassembler
  { discarded with
    counters := {
      discarded.counters with
      expiredDatagrams := discarded.counters.expiredDatagrams + stale.length
    } }

end FragmentReassembler

/-- One call of a reassembler method, with its clock reading. -/
inductive FragmentOperation where
  | process (clock : Int) (packet : ParsedPacket)
  | expire (now : Option Int) (clock : Int)

/-- A fragment passed to `process` and what the call returned or raised. -/
structure FragmentReturn where
  packet : ParsedPacket
  returned : Except PacketFault (Option ParsedPacket)

/-- Perform one call. -/
def FragmentOperation.apply
    (limits : FragmentLimits) :
    FragmentOperation → FragmentReassembler →
      Outcome FragmentReassembler FragmentReturn
  | .process clock packet, reassembler =>
      let result := reassembler.process limits clock packet
      ⟨result.reassembler, [⟨packet, result.returned⟩]⟩
  | .expire now clock, reassembler =>
      .quiet (reassembler.expire limits now clock)

/-- Perform a list of calls. -/
def FragmentReassembler.run
    (limits : FragmentLimits)
    (operations : List FragmentOperation)
    (reassembler : FragmentReassembler) :
    Outcome FragmentReassembler FragmentReturn :=
  runAll (FragmentOperation.apply limits) operations reassembler

end PacketAudit
