import PacketAudit.Tcp.Drain
import PacketAudit.Tcp.Reassembler

namespace PacketAudit

/-!
# The steps of one direction

`DirectionStep` lists everything a reassembler can do to the stream state of a
direction.  The direction functions are finite sequences of these steps, so an
invariant of the steps is an invariant of every function.
-/

open Library

/-- The sequence position right after the payload. -/
def Arrival.stop (arrival : Arrival) : Int :=
  arrival.start + arrival.data.length

/-- A payload reaches a direction in its present state. -/
structure Arrives
    (flow : FlowKey)
    (direction : Direction)
    (view : DirectionView)
    (arrival : Arrival) : Prop where
  expects : view.direction.nextSeq = some arrival.nextSeq
  sameFlow : arrival.flow = flow
  epoch : arrival.connectionEpoch = view.direction.connectionEpoch
  side : arrival.direction = direction
  nonempty : arrival.data ≠ []

/-- One change of the stream state of a direction. -/
inductive DirectionStep
    (limits : TcpLimits)
    (flow : FlowKey)
    (direction : Direction) :
    DirectionView → List TcpEvent → DirectionView → Prop where
  | start
      {view : DirectionView}
      (sequence : Int)
      (midstream : Bool)
      (synSeq : Option Nat)
      (idle : view.direction.nextSeq = none)
      (lower : 0 ≤ sequence)
      (upper : sequence < seqModulus) :
      DirectionStep limits flow direction view
        [.opened view.direction.connectionEpoch direction sequence midstream]
        { view with
          direction := {
            view.direction with
            nextSeq := some sequence
            midstream := midstream
            synSeq := synSeq
          } }
  | probe
      {view : DirectionView}
      (arrival : Arrival)
      (arrives : Arrives flow direction view arrival)
      (keepalive : arrival.keepalive = true)
      (behind : arrival.stop ≤ arrival.nextSeq) :
      DirectionStep limits flow direction view [.arrived arrival] view
  | repetition
      {view : DirectionView}
      (arrival : Arrival)
      (arrives : Arrives flow direction view arrival)
      (notKeepalive : arrival.keepalive = false)
      (behind : arrival.stop ≤ arrival.nextSeq) :
      DirectionStep limits flow direction view [.arrived arrival]
        (countRetransmission arrival.data
          (countConsumedConflict arrival.start arrival.nextSeq arrival.data
            view))
  | store
      {view : DirectionView}
      (arrival : Arrival)
      (timestampNs : Int)
      (arrives : Arrives flow direction view arrival)
      (notKeepalive : arrival.keepalive = false)
      (reaches : arrival.nextSeq < arrival.stop) :
      DirectionStep limits flow direction view [.arrived arrival]
        (insertPayload arrival.packetIds timestampNs arrival.start
          arrival.nextSeq arrival.data
          (countConsumedConflict arrival.start arrival.nextSeq arrival.data
            view))
  | drain
      {view : DirectionView}
      (forcedGap : Bool)
      (label : Option Completeness) :
      DirectionStep limits flow direction view
        ((drain limits flow direction forcedGap view).events.map
          (TcpEvent.relabel label))
        (drain limits flow direction forcedGap view).state
  | gap
      {view : DirectionView}
      {next : Int}
      {first : TcpSegment}
      {rest : List TcpSegment}
      (expects : view.direction.nextSeq = some next)
      (pending : view.direction.pending = first :: rest)
      (hole : next < first.start) :
      DirectionStep limits flow direction view
        (skipGap direction next first view).events
        (skipGap direction next first view).state

@[simp] theorem TcpEvent.relabel_none (event : TcpEvent) :
    event.relabel none = event := by
  cases event <;> rfl

@[simp] theorem map_relabel_none (events : List TcpEvent) :
    events.map (TcpEvent.relabel none) = events := by
  rw [show TcpEvent.relabel none = id from funext TcpEvent.relabel_none]
  simp

@[simp] theorem TcpEvent.relabel_relabel
    (outer inner : Option Completeness)
    (event : TcpEvent) :
    (event.relabel inner).relabel outer = event.relabel (outer.or inner) := by
  cases event with
  | emitted chunk => cases outer <;> rfl
  | opened => rfl
  | arrived => rfl
  | skipped => rfl

/-- Relabelling the chunk of a step gives a step. -/
theorem DirectionStep.relabel
    {limits : TcpLimits}
    {flow : FlowKey}
    {direction : Direction}
    {before after : DirectionView}
    {events : List TcpEvent}
    (completeness : Option Completeness)
    (step : DirectionStep limits flow direction before events after) :
    DirectionStep limits flow direction before
      (events.map (TcpEvent.relabel completeness)) after := by
  cases step with
  | start sequence midstream synSeq idle lower upper =>
      exact .start sequence midstream synSeq idle lower upper
  | probe arrival arrives keepalive behind =>
      exact .probe arrival arrives keepalive behind
  | repetition arrival arrives notKeepalive behind =>
      exact .repetition arrival arrives notKeepalive behind
  | store arrival timestampNs arrives notKeepalive reaches =>
      exact .store arrival timestampNs arrives notKeepalive reaches
  | drain forcedGap label =>
      rw [List.map_map, show
        TcpEvent.relabel completeness ∘ TcpEvent.relabel label =
          TcpEvent.relabel (completeness.or label) from
        funext (TcpEvent.relabel_relabel completeness label)]
      exact .drain forcedGap _
  | gap expects pending hole =>
      exact .gap expects pending hole

/-! ## What storing a payload does -/

@[simp] theorem countConsumedConflict_direction
    (start next : Int)
    (payload : Bytes)
    (view : DirectionView) :
    (countConsumedConflict start next payload view).direction =
      view.direction := by
  unfold countConsumedConflict
  split <;> rfl

/-- The part of a payload that lies at or past `next_seq`. -/
def freshPart
    (packetIds : List Nat)
    (timestampNs : Int)
    (start next : Int)
    (payload : Bytes) : TcpSegment :=
  (Segment.mk start payload ⟨packetIds, timestampNs⟩).dropFront
    (next - start).toNat

theorem freshPart_start
    {packetIds : List Nat}
    {timestampNs start next : Int}
    {payload : Bytes} :
    (freshPart packetIds timestampNs start next payload).start =
      max start next := by
  simp only [freshPart, Segment.dropFront]
  omega

/-- The fresh part holds the payload's bytes from `next_seq` on. -/
theorem at?_freshPart
    {packetIds : List Nat}
    {timestampNs start next position : Int}
    {payload : Bytes}
    (ahead : next ≤ position) :
    (freshPart packetIds timestampNs start next payload).at? position =
      (valueAt start payload position).map
        (·, SegmentOrigin.mk packetIds timestampNs) := by
  unfold freshPart
  rw [Segment.at?_dropFront, Segment.at?_eq_valueAt]
  simp only
  by_cases fromStart : start ≤ position
  · rw [if_pos (by omega)]
  · rw [if_neg (by omega)]
    simp [valueAt, fromStart]

/-- What storing a payload that reaches past `next_seq` does. -/
structure Stored
    (packetIds : List Nat)
    (timestampNs start next : Int)
    (payload : Bytes)
    (before after : DirectionView) : Prop where
  exists_additions :
    ∃ additions,
      CarveSpec before.direction.pending
        [freshPart packetIds timestampNs start next payload] additions ∧
      after.direction =
        { before.direction with
          pending := insertSorted before.direction.pending additions
          pendingBytes :=
            before.direction.pendingBytes + totalLength additions } ∧
      after.counters.bufferedBytes =
        before.counters.bufferedBytes + totalLength additions ∧
      after.counters.bufferedSegments =
        before.counters.bufferedSegments + additions.length ∧
      after.counters.retransmittedBytes =
        before.counters.retransmittedBytes + payload.length -
          totalLength additions
  gapBytes : after.counters.gapBytes = before.counters.gapBytes

theorem insertPayload_stored
    (packetIds : List Nat)
    (timestampNs : Int)
    {start next : Int}
    {payload : Bytes}
    (reaches : next < start + payload.length)
    (view : DirectionView) :
    Stored packetIds timestampNs start next payload view
      (insertPayload packetIds timestampNs start next payload
        (countConsumedConflict start next payload view)) := by
  have counterUnchanged :
      ∀ measure : TcpCounters → Int,
        (∀ counters conflicts,
          measure { counters with overlapConflicts := conflicts } =
            measure counters) →
        measure
            (countConsumedConflict start next payload view).counters =
          measure view.counters := by
    intro measure insensitive
    unfold countConsumedConflict
    split
    · exact insensitive _ _
    · rfl
  refine {
    exists_additions :=
      ⟨tcpUncoveredSegments (start + ((next - start).toNat : Int))
        (payload.drop (next - start).toNat) packetIds timestampNs
        view.direction.pending, ?_, ?_, ?_, ?_, ?_⟩
    gapBytes := ?_
  }
  · exact
      uncovered_spec (fun old _ => old.start_le_stop)
        (freshPart packetIds timestampNs start next payload)
  · simp [insertPayload]
  · simp only [insertPayload, countConsumedConflict_direction]
    rw [counterUnchanged TcpCounters.bufferedBytes fun _ _ => rfl]
  · simp only [insertPayload, countConsumedConflict_direction]
    rw [counterUnchanged TcpCounters.bufferedSegments fun _ _ => rfl]
  · simp only [insertPayload, countConsumedConflict_direction,
      List.length_drop]
    rw [counterUnchanged TcpCounters.retransmittedBytes fun _ _ => rfl]
    omega
  · exact counterUnchanged TcpCounters.gapBytes fun _ _ => rfl

namespace Stored

variable
  {packetIds : List Nat}
  {timestampNs start next : Int}
  {payload : Bytes}
  {before after : DirectionView}

/-- Storing keeps the usual shape of the pending list. -/
theorem wf
    (stored : Stored packetIds timestampNs start next payload before after)
    (expects : before.direction.nextSeq = some next)
    (wf : before.direction.Wf) :
    after.direction.Wf := by
  obtain ⟨additions, spec, directionIs, -, -, -⟩ := stored.exists_additions
  rw [directionIs]
  refine {
    idle := ?_
    solid := solid_insertSorted wf.solid spec.solid
    ordered := ?_
    ahead := ?_
    bytes := ?_
  }
  · intro idle
    rw [expects] at idle
    cases idle
  · apply ordered_insertSorted wf.solid wf.ordered spec.solid spec.ordered
    intro position covered
    obtain ⟨held, holds⟩ := covers_iff_holds.mp covered
    exact (spec.holds.mp holds).2
  · intro expected segment isExpected member
    rw [expects] at isExpected
    cases isExpected
    rcases mem_insertSorted.mp member with old | added
    · exact wf.ahead expects old
    · obtain ⟨piece, isFresh, -, lower, -⟩ := spec.origin segment added
      obtain rfl := List.mem_singleton.mp isFresh
      rw [freshPart_start] at lower
      omega
  · simp only
    rw [totalLength_insertSorted, wf.bytes]
    push_cast
    rfl

/--
After storing, a position at or past `next_seq` holds what it held before, or
else the payload's byte.
-/
theorem holds_iff
    (stored : Stored packetIds timestampNs start next payload before after)
    {position : Int}
    (ahead : next ≤ position)
    {byte : UInt8}
    {origin : SegmentOrigin} :
    Holds after.direction.pending position (byte, origin) ↔
      Holds before.direction.pending position (byte, origin) ∨
        (valueAt start payload position = some byte ∧
          origin = ⟨packetIds, timestampNs⟩ ∧
          ¬ Covers before.direction.pending position) := by
  obtain ⟨additions, spec, directionIs, -, -, -⟩ := stored.exists_additions
  rw [directionIs]
  simp only
  rw [holds_insertSorted, spec.holds, holds_cons, at?_freshPart ahead]
  simp only [Option.map_eq_some_iff, Prod.mk.injEq, not_holds_nil, or_false]
  constructor
  · intro holds
    rcases holds with old | ⟨⟨value, held, rfl, rfl⟩, uncovered⟩
    · exact .inl old
    · exact .inr ⟨held, rfl, uncovered⟩
  · intro holds
    rcases holds with old | ⟨held, rfl, uncovered⟩
    · exact .inl old
    · exact .inr ⟨⟨byte, held, rfl, rfl⟩, uncovered⟩

/-- After storing, the payload's positions at or past `next_seq` are held. -/
theorem covers_iff
    (stored : Stored packetIds timestampNs start next payload before after)
    {position : Int}
    (ahead : next ≤ position) :
    Covers after.direction.pending position ↔
      Covers before.direction.pending position ∨
        (start ≤ position ∧ position < start + payload.length) := by
  rw [← valueAt_isSome]
  constructor
  · intro covered
    obtain ⟨⟨byte, origin⟩, held⟩ := covers_iff_holds.mp covered
    rcases (stored.holds_iff ahead).mp held with old | ⟨isByte, -, -⟩
    · exact .inl (covers_iff_holds.mpr ⟨_, old⟩)
    · exact .inr (Option.isSome_iff_exists.mpr ⟨byte, isByte⟩)
  · intro covered
    by_cases old : Covers before.direction.pending position
    · obtain ⟨⟨byte, origin⟩, held⟩ := covers_iff_holds.mp old
      exact covers_iff_holds.mpr
        ⟨_, (stored.holds_iff ahead).mpr (.inl held)⟩
    · obtain ⟨byte, isByte⟩ :=
        Option.isSome_iff_exists.mp (covered.resolve_left old)
      exact covers_iff_holds.mpr
        ⟨_, (stored.holds_iff ahead).mpr (.inr ⟨isByte, rfl, old⟩)⟩

end Stored

/-! ## Steps keep the shape of a direction -/

/-- A drain of a direction that expects nothing does nothing. -/
theorem drain_idle
    (limits : TcpLimits)
    (flow : FlowKey)
    (direction : Direction)
    (forcedGap : Bool)
    {view : DirectionView}
    (idle : view.direction.nextSeq = none) :
    drain limits flow direction forcedGap view = .quiet view := by
  simp [drain, idle]

theorem Drained.wf
    {flow : FlowKey}
    {direction : Direction}
    {forcedGap : Bool}
    {view : DirectionView}
    {next : Int}
    {ready blocked : List TcpSegment}
    {outcome : Outcome DirectionView TcpEvent}
    (drained :
      Drained flow direction forcedGap view next ready blocked outcome)
    (wf : view.direction.Wf) :
    outcome.state.direction.Wf := by
  have split := drained.split
  rw [drained.directionAfter]
  refine {
    idle := by simp
    solid := fun segment member =>
      wf.solid segment (split ▸ List.mem_append_right _ member)
    ordered :=
      (List.pairwise_append.mp (split ▸ wf.ordered)).2.1
    ahead := ?_
    bytes := ?_
  }
  · intro expected segment isExpected member
    cases isExpected
    exact (drained.stopped segment member).le
  · simp only
    rw [wf.bytes, split, totalLength_append]
    push_cast
    ring

theorem Drained.length_blocked
    {flow : FlowKey}
    {direction : Direction}
    {forcedGap : Bool}
    {view : DirectionView}
    {next : Int}
    {ready blocked : List TcpSegment}
    {outcome : Outcome DirectionView TcpEvent}
    (drained :
      Drained flow direction forcedGap view next ready blocked outcome) :
    view.direction.pending.length =
      ready.length + outcome.state.direction.pending.length := by
  rw [drained.split, drained.directionAfter, List.length_append]

/-- A drain whose direction expects the first segment removes a segment. -/
theorem Drained.ready_ne_nil
    {flow : FlowKey}
    {direction : Direction}
    {forcedGap : Bool}
    {view : DirectionView}
    {next : Int}
    {ready blocked : List TcpSegment}
    {outcome : Outcome DirectionView TcpEvent}
    (drained :
      Drained flow direction forcedGap view next ready blocked outcome)
    {first : TcpSegment}
    {rest : List TcpSegment}
    (pending : view.direction.pending = first :: rest)
    (starts : first.start = next) :
    ready ≠ [] := by
  intro noneReady
  have stopped := drained.stopped first
  have split := drained.split
  rw [noneReady, pending, List.nil_append] at split
  rw [← split, noneReady] at stopped
  have := stopped List.mem_cons_self
  simp only [totalLength_nil, Nat.cast_zero, add_zero] at this
  omega

/-- Every step keeps the shape of the direction and its buffer accounting. -/
structure StepFacts (before after : DirectionView) : Prop where
  wf : after.direction.Wf
  epoch :
    after.direction.connectionEpoch = before.direction.connectionEpoch
  closed : after.direction.closed = before.direction.closed
  bufferedBytes :
    after.counters.bufferedBytes - after.direction.pendingBytes =
      before.counters.bufferedBytes - before.direction.pendingBytes
  bufferedSegments :
    after.counters.bufferedSegments - after.direction.pending.length =
      before.counters.bufferedSegments - before.direction.pending.length

theorem DirectionStep.facts
    {limits : TcpLimits}
    {flow : FlowKey}
    {direction : Direction}
    {before after : DirectionView}
    {events : List TcpEvent}
    (step : DirectionStep limits flow direction before events after)
    (wf : before.direction.Wf) :
    StepFacts before after := by
  cases step with
  | start sequence midstream synSeq idle lower upper =>
      obtain ⟨noPending, -, -, -⟩ := wf.idle idle
      exact {
        wf := {
          idle := by simp
          solid := wf.solid
          ordered := wf.ordered
          ahead := by simp [noPending]
          bytes := wf.bytes
        }
        epoch := rfl
        closed := rfl
        bufferedBytes := rfl
        bufferedSegments := rfl
      }
  | probe arrival arrives keepalive behind =>
      exact {
        wf := wf
        epoch := rfl
        closed := rfl
        bufferedBytes := rfl
        bufferedSegments := rfl
      }
  | repetition arrival arrives notKeepalive behind =>
      refine {
        wf := ?_
        epoch := ?_
        closed := ?_
        bufferedBytes := ?_
        bufferedSegments := ?_
      }
      · simpa [countRetransmission] using wf
      · simp [countRetransmission]
      · simp [countRetransmission]
      · unfold countRetransmission countConsumedConflict
        split <;> rfl
      · unfold countRetransmission countConsumedConflict
        split <;> rfl
  | store arrival timestampNs arrives notKeepalive reaches =>
      have stored :=
        insertPayload_stored arrival.packetIds timestampNs reaches before
      obtain ⟨additions, -, directionIs, bytes, segments, -⟩ :=
        stored.exists_additions
      refine {
        wf := stored.wf arrives.expects wf
        epoch := ?_
        closed := ?_
        bufferedBytes := ?_
        bufferedSegments := ?_
      }
      · rw [directionIs]
      · rw [directionIs]
      · rw [directionIs, bytes]
        simp only
        ring
      · rw [directionIs, segments]
        simp only
        rw [length_insertSorted]
        push_cast
        ring
  | drain forcedGap label =>
      cases expects : before.direction.nextSeq with
      | none =>
          rw [drain_idle limits flow direction forcedGap expects]
          exact {
            wf := wf
            epoch := rfl
            closed := rfl
            bufferedBytes := rfl
            bufferedSegments := rfl
          }
      | some next =>
          obtain ⟨ready, blocked, drained⟩ :=
            drain_spec limits flow direction forcedGap wf expects
          refine {
            wf := drained.wf wf
            epoch := ?_
            closed := ?_
            bufferedBytes := ?_
            bufferedSegments := ?_
          }
          · rw [drained.directionAfter]
          · rw [drained.directionAfter]
          · rw [drained.directionAfter, drained.countersAfter]
            simp only
            ring
          · rw [drained.directionAfter, drained.countersAfter]
            simp only
            rw [drained.split, List.length_append]
            push_cast
            ring
  | @gap next first rest expects pending hole =>
      have ordered := wf.ordered
      rw [pending] at ordered
      refine {
        wf := {
          idle := by simp [skipGap]
          solid := wf.solid
          ordered := wf.ordered
          ahead := ?_
          bytes := wf.bytes
        }
        epoch := rfl
        closed := rfl
        bufferedBytes := rfl
        bufferedSegments := rfl
      }
      intro expected segment isExpected member
      cases isExpected
      have inPending : segment ∈ first :: rest := pending ▸ member
      rcases List.mem_cons.mp inPending with isFirst | inRest
      · exact le_of_eq (congrArg Segment.start isFirst.symm)
      · have before := (List.pairwise_cons.mp ordered).1 segment inRest
        exact first.start_le_stop.trans before

theorem StepFacts.refl
    {view : DirectionView}
    (wf : view.direction.Wf) :
    StepFacts view view where
  wf := wf
  epoch := rfl
  closed := rfl
  bufferedBytes := rfl
  bufferedSegments := rfl

theorem StepFacts.trans
    {first second third : DirectionView}
    (earlier : StepFacts first second)
    (later : StepFacts second third) :
    StepFacts first third where
  wf := later.wf
  epoch := later.epoch.trans earlier.epoch
  closed := later.closed.trans earlier.closed
  bufferedBytes := later.bufferedBytes.trans earlier.bufferedBytes
  bufferedSegments := later.bufferedSegments.trans earlier.bufferedSegments

/-- What one step keeps, a sequence of steps keeps. -/
theorem facts_of_follows
    {limits : TcpLimits}
    {flow : FlowKey}
    {direction : Direction}
    {view : DirectionView}
    {outcome : Outcome DirectionView TcpEvent}
    (follows :
      outcome.FollowsFrom (DirectionStep limits flow direction) view)
    (wf : view.direction.Wf) :
    StepFacts view outcome.state :=
  Steps.stateInvariant (motive := StepFacts view)
    (fun facts step => facts.trans (step.facts facts.wf)) follows (.refl wf)

/-- Steps keep the shape of a direction. -/
theorem wf_of_follows
    {limits : TcpLimits}
    {flow : FlowKey}
    {direction : Direction}
    {view : DirectionView}
    {outcome : Outcome DirectionView TcpEvent}
    (follows :
      outcome.FollowsFrom (DirectionStep limits flow direction) view)
    (wf : view.direction.Wf) :
    outcome.state.direction.Wf :=
  (facts_of_follows follows wf).wf

/-! ## The direction functions are sequences of steps -/

variable
  (limits : TcpLimits)
  (flow : FlowKey)
  (direction : Direction)
  {view : DirectionView}

theorem drain_follows (forcedGap : Bool) :
    (drain limits flow direction forcedGap view).FollowsFrom
      (DirectionStep limits flow direction) view := by
  have step : DirectionStep limits flow direction view _ _ :=
    .drain forcedGap none
  rw [map_relabel_none] at step
  exact .single step

theorem skipToNextSegment_follows :
    (skipToNextSegment limits flow direction view).FollowsFrom
      (DirectionStep limits flow direction) view := by
  unfold skipToNextSegment
  split
  case h_1 next first rest expects pending =>
    split
    case isTrue hole =>
      exact Outcome.FollowsFrom.andThen
        (.single (.gap expects pending hole)) (drain_follows limits flow direction true)
    case isFalse => exact drain_follows limits flow direction true
  case h_2 => exact .quiet view

/-- A recognised keepalive lies entirely behind `next_seq`. -/
theorem stop_le_of_isKeepalive
    {packet : ParsedPacket}
    {start next : Int}
    {state : DirectionState}
    (keepalive : TCPReassembler.isKeepalive packet start next state = true) :
    packet.transportPayload.length = 1 ∧
      start + packet.transportPayload.length = next := by
  simp only [TCPReassembler.isKeepalive, Bool.and_eq_true,
    decide_eq_true_eq] at keepalive
  omega

/-! ## A flush empties the pending list -/

/-- Skipping to the next segment drains a direction that expects it. -/
theorem skipToNextSegment_drains
    (wf : view.direction.Wf)
    {first : TcpSegment}
    {rest : List TcpSegment}
    (pending : view.direction.pending = first :: rest) :
    ∃ resumed : DirectionView,
      resumed.direction.Wf ∧
        resumed.direction.nextSeq = some first.start ∧
        resumed.direction.pending = first :: rest ∧
        (skipToNextSegment limits flow direction view).state =
          (drain limits flow direction true resumed).state ∧
        chunks (skipToNextSegment limits flow direction view).events =
          chunks (drain limits flow direction true resumed).events := by
  cases expects : view.direction.nextSeq with
  | none =>
      have noPending := (wf.idle expects).1
      rw [pending] at noPending
      cases noPending
  | some next =>
      unfold skipToNextSegment
      simp only [expects, pending]
      by_cases hole : next < first.start
      · rw [if_pos hole]
        have skip : DirectionStep limits flow direction view _ _ :=
          .gap expects pending hole
        exact ⟨(skipGap direction next first view).state,
          (skip.facts wf).wf, rfl, pending, rfl, rfl⟩
      · rw [if_neg hole]
        have starts : first.start = next := by
          have member : first ∈ view.direction.pending :=
            pending ▸ List.mem_cons_self
          have := wf.ahead expects member
          omega
        exact ⟨view, wf, starts ▸ expects, pending, rfl, rfl⟩

/-- Skipping to the next segment removes at least that segment. -/
theorem skipToNextSegment_length
    (wf : view.direction.Wf)
    (nonempty : view.direction.pending ≠ []) :
    (skipToNextSegment limits flow
        direction view).state.direction.pending.length <
      view.direction.pending.length := by
  obtain ⟨first, rest, pending⟩ := List.exists_cons_of_ne_nil nonempty
  obtain ⟨resumed, resumedWf, expects, same, stateIs, -⟩ :=
    skipToNextSegment_drains limits flow direction wf pending
  obtain ⟨ready, blocked, drained⟩ :=
    drain_spec limits flow direction true resumedWf expects
  have positive := List.length_pos_iff.mpr (drained.ready_ne_nil same rfl)
  have lengths := drained.length_blocked
  rw [same, ← pending] at lengths
  rw [stateIs]
  omega

/-- A drain never adds a pending segment. -/
theorem drain_length
    (forcedGap : Bool)
    (wf : view.direction.Wf) :
    (drain limits flow direction forcedGap
        view).state.direction.pending.length ≤
      view.direction.pending.length := by
  cases expects : view.direction.nextSeq with
  | none =>
      rw [drain_idle limits flow direction forcedGap expects]
      exact le_refl _
  | some next =>
      obtain ⟨ready, blocked, drained⟩ :=
        drain_spec limits flow direction forcedGap wf expects
      have := drained.length_blocked
      omega

/-- One round of a flush removes a pending segment. -/
theorem flushRound_progress
    (wf : view.direction.Wf)
    (nonempty : view.direction.pending ≠ []) :
    let round :=
      (drain limits flow direction false view).andThen fun drained =>
        if !drained.direction.pending.isEmpty ∧
            drained.direction.pending.length =
              view.direction.pending.length then
          skipToNextSegment limits flow direction drained
        else
          .quiet drained
    round.state.direction.Wf ∧
      round.state.direction.pending.length <
        view.direction.pending.length := by
  have drainWf :=
    wf_of_follows (drain_follows limits flow direction false) wf
  have shorter := drain_length limits flow direction false wf
  simp only [Outcome.state_andThen]
  split
  case isTrue stuck =>
    have removes :=
      skipToNextSegment_length limits flow direction drainWf
        (by simpa using stuck.1)
    exact ⟨wf_of_follows
      (skipToNextSegment_follows limits flow direction) drainWf, by omega⟩
  case isFalse progress =>
    refine ⟨drainWf, ?_⟩
    simp only [Outcome.state_quiet]
    by_cases drainedAll :
        (drain limits flow direction false
          view).state.direction.pending = []
    · rw [drainedAll]
      exact List.length_pos_iff.mpr nonempty
    · have changed :
          (drain limits flow direction false
            view).state.direction.pending.length ≠
          view.direction.pending.length := by
        intro same
        exact progress ⟨by simpa using drainedAll, same⟩
      omega

theorem flushLoop_pending
    {fuel : Nat}
    (wf : view.direction.Wf)
    (enough : view.direction.pending.length ≤ fuel) :
    (flushLoop limits flow direction fuel view).state.direction.pending =
      [] := by
  induction fuel generalizing view with
  | zero =>
      exact List.length_eq_zero_iff.mp (Nat.le_zero.mp enough)
  | succ fuel inductionHypothesis =>
      unfold flushLoop
      split
      case isTrue empty => simpa using empty
      case isFalse nonempty =>
        obtain ⟨roundWf, shorter⟩ :=
          flushRound_progress limits flow direction wf
            (by simpa using nonempty)
        exact inductionHypothesis roundWf (by omega)

/-- Flushing a well-formed direction leaves nothing pending. -/
theorem flushDirection_pending (wf : view.direction.Wf) :
    (flushDirection limits flow direction view).state.direction.pending =
      [] :=
  flushLoop_pending limits flow direction wf (le_refl _)

end PacketAudit
