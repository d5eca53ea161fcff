import PacketAudit.Tcp.Direction

namespace PacketAudit

/-!
# What a drain does

On pending segments that are ordered, nonempty and not behind `next_seq`,
`_drain` removes the longest front of segments that continue the stream
without a hole.  `Drained` states this together with the exact contents and
provenance of the emitted chunk.
-/

open Library

/-! ## Provenance spans -/

/-- Nonempty spans that follow one another from `first` to `last`. -/
def Tiles : Int → Int → List ProvenanceSpan → Prop
  | first, last, [] => first = last
  | first, last, span :: rest =>
      span.streamStart = first ∧ first < span.streamEnd ∧
        Tiles span.streamEnd last rest

/-- Some span carries these identifiers at a stream offset. -/
def SpanAt
    (spans : List ProvenanceSpan)
    (offset : Int)
    (packetIds : List Nat) : Prop :=
  ∃ span ∈ spans,
    span.streamStart ≤ offset ∧ offset < span.streamEnd ∧
      span.packetIds = packetIds

theorem Tiles.le
    {first last : Int}
    {spans : List ProvenanceSpan}
    (tiles : Tiles first last spans) :
    first ≤ last := by
  induction spans generalizing first with
  | nil =>
      exact le_of_eq tiles
  | cons span rest inductionHypothesis =>
      obtain ⟨-, nonempty, later⟩ := tiles
      exact nonempty.le.trans (inductionHypothesis later)

theorem Tiles.append
    {first middle last : Int}
    {spans more : List ProvenanceSpan}
    (tiles : Tiles first middle spans)
    (moreTiles : Tiles middle last more) :
    Tiles first last (spans ++ more) := by
  induction spans generalizing first with
  | nil =>
      have same : first = middle := tiles
      subst same
      exact moreTiles
  | cons span rest inductionHypothesis =>
      obtain ⟨starts, nonempty, later⟩ := tiles
      exact ⟨starts, nonempty, inductionHypothesis later⟩

/-- A tiling with a last span is a shorter tiling followed by that span. -/
theorem Tiles.of_append_singleton
    {first last : Int}
    {spans : List ProvenanceSpan}
    {span : ProvenanceSpan}
    (tiles : Tiles first last (spans ++ [span])) :
    Tiles first span.streamStart spans ∧
      span.streamStart < span.streamEnd ∧ span.streamEnd = last := by
  induction spans generalizing first with
  | nil =>
      obtain ⟨starts, nonempty, ends⟩ := tiles
      exact ⟨starts.symm, starts ▸ nonempty, ends⟩
  | cons head rest inductionHypothesis =>
      obtain ⟨starts, nonempty, later⟩ := tiles
      obtain ⟨front, lastNonempty, ends⟩ := inductionHypothesis later
      exact ⟨⟨starts, nonempty, front⟩, lastNonempty, ends⟩

/-- How a pushed span changes a list: appended, or merged with the last one. -/
theorem pushSpan_cases
    (spans : List ProvenanceSpan)
    (span : ProvenanceSpan) :
    pushSpan spans span = spans ++ [span] ∨
      ∃ front previous,
        spans = front ++ [previous] ∧
          previous.streamEnd = span.streamStart ∧
          previous.packetIds = span.packetIds ∧
          previous.packetIdsComplete = span.packetIdsComplete ∧
          pushSpan spans span =
            front ++ [{ previous with streamEnd := span.streamEnd }] := by
  rcases List.eq_nil_or_concat spans with empty | ⟨front, previous, shape⟩
  · subst empty
    exact .inl rfl
  · rw [List.concat_eq_append] at shape
    subst shape
    unfold pushSpan
    rw [List.getLast?_concat]
    simp only
    split
    case isTrue mergeable =>
      exact .inr ⟨front, previous, rfl, mergeable.1, mergeable.2.1,
        mergeable.2.2, by simp⟩
    case isFalse =>
      exact .inl rfl

theorem tiles_pushSpan
    {first : Int}
    {spans : List ProvenanceSpan}
    {span : ProvenanceSpan}
    (tiles : Tiles first span.streamStart spans)
    (nonempty : span.streamStart < span.streamEnd) :
    Tiles first span.streamEnd (pushSpan spans span) := by
  rcases pushSpan_cases spans span with
    appended | ⟨front, previous, shape, adjacent, -, -, merged⟩
  · rw [appended]
    exact tiles.append ⟨rfl, nonempty, rfl⟩
  · rw [merged]
    subst shape
    obtain ⟨frontTiles, previousNonempty, -⟩ := tiles.of_append_singleton
    exact frontTiles.append
      ⟨rfl, previousNonempty.trans (adjacent ▸ nonempty), rfl⟩

/-- A pushed span is found at its own offsets, the others where they were. -/
theorem spanAt_pushSpan
    {first : Int}
    {spans : List ProvenanceSpan}
    {span : ProvenanceSpan}
    (tiles : Tiles first span.streamStart spans)
    (nonempty : span.streamStart < span.streamEnd)
    {offset : Int}
    {packetIds : List Nat}
    (found :
      SpanAt spans offset packetIds ∨
        (span.streamStart ≤ offset ∧ offset < span.streamEnd ∧
          span.packetIds = packetIds)) :
    SpanAt (pushSpan spans span) offset packetIds := by
  rcases pushSpan_cases spans span with
    appended | ⟨front, previous, shape, adjacent, sameIds, -, merged⟩
  · rw [appended]
    rcases found with ⟨earlier, member, inside⟩ | inside
    · exact ⟨earlier, List.mem_append_left _ member, inside⟩
    · exact ⟨span, by simp, inside⟩
  · rw [merged]
    subst shape
    obtain ⟨-, previousNonempty, -⟩ := tiles.of_append_singleton
    rcases found with ⟨earlier, member, lower, upper, ids⟩ | ⟨lower, upper, ids⟩
    · rcases List.mem_append.mp member with inFront | isPrevious
      · exact ⟨earlier, List.mem_append_left _ inFront, lower, upper, ids⟩
      · obtain rfl := List.mem_singleton.mp isPrevious
        refine ⟨{ earlier with streamEnd := span.streamEnd }, by simp,
          lower, ?_, ids⟩
        simp only
        omega
    · refine ⟨{ previous with streamEnd := span.streamEnd }, by simp,
        ?_, upper, sameIds.trans ids⟩
      simp only
      omega

/-- Merging equal identifiers does not change which ones were collected. -/
theorem addPacketIds_pushSpan
    (spans : List ProvenanceSpan)
    (span : ProvenanceSpan) :
    addPacketIds [] ((pushSpan spans span).flatMap ProvenanceSpan.packetIds) =
      addPacketIds
        (addPacketIds [] (spans.flatMap ProvenanceSpan.packetIds))
        span.packetIds := by
  rcases pushSpan_cases spans span with
    appended | ⟨front, previous, shape, -, sameIds, -, merged⟩
  · rw [appended, List.flatMap_append, addPacketIds_append]
    simp
  · rw [merged]
    subst shape
    simp only [List.flatMap_append, List.flatMap_singleton]
    symm
    apply addPacketIds_of_subset
    intro packetId member
    rw [mem_addPacketIds, List.mem_append]
    exact .inr (.inr (sameIds ▸ member))

/-! ## Retained emitted bytes -/

/-- The consumed history holds a byte at an absolute sequence position. -/
def DirectionState.Retains
    (state : DirectionState)
    (position : Int)
    (byte : UInt8) : Prop :=
  ∃ historyStart,
    state.consumedHistoryStart = some historyStart ∧
      valueAt historyStart state.consumedHistory position = some byte

/-- Every retained byte was retained before or is one of the new bytes. -/
theorem retains_rememberConsumed
    {limits : TcpLimits}
    {state : DirectionState}
    {start position : Int}
    {data : Bytes}
    {byte : UInt8}
    (retained :
      (rememberConsumed limits state start data).Retains position byte) :
    state.Retains position byte ∨
      valueAt start data position = some byte := by
  unfold rememberConsumed at retained
  split at retained
  case isTrue => exact .inl retained
  case isFalse =>
    obtain ⟨historyStart, isStart, held⟩ := retained
    simp only at isStart held
    by_cases continues :
        state.consumedHistoryStart.map
          (· + (state.consumedHistory.length : Int)) = some start
    · simp only [continues, ↓reduceIte] at isStart held
      cases known : state.consumedHistoryStart with
      | none =>
          simp [known] at isStart
      | some first =>
          simp only [known, Option.map_some, Option.some.injEq]
            at isStart continues
          subst isStart
          rcases (valueAt_append ..).mp (valueAt_drop held) with old | new
          · exact .inl ⟨first, known, old⟩
          · exact .inr (continues ▸ new)
    · simp only [continues, ↓reduceIte, Option.map_some, Option.some.injEq,
        List.nil_append] at isStart held
      subst isStart
      exact .inr (valueAt_drop held)

/-- Remembering bytes changes nothing but the history. -/
theorem rememberConsumed_eq
    (limits : TcpLimits)
    (state : DirectionState)
    (start : Int)
    (data : Bytes) :
    rememberConsumed limits state start data =
      { state with
        consumedHistoryStart :=
          (rememberConsumed limits state start data).consumedHistoryStart
        consumedHistory :=
          (rememberConsumed limits state start data).consumedHistory } := by
  unfold rememberConsumed
  split <;> rfl

/-! ## The drain loop -/

/-- The segments start at a position and continue without a hole. -/
def Chained : Int → List TcpSegment → Prop
  | _, [] => True
  | next, segment :: rest =>
      segment.start = next ∧ Chained segment.stop rest

/-- Take a list of segments that continue the stream into a drain. -/
def absorb
    (limits : TcpLimits)
    (blocked : List TcpSegment) :
    List TcpSegment → Int → DrainState → DrainState
  | [], _, drained => drained
  | segment :: rest, next, drained =>
      absorb limits blocked rest (next + segment.data.length)
        ((drained.pop segment (rest ++ blocked) 0).consume limits segment
          next segment.data)

/-- The drain absorbs the longest front without a hole and then stops. -/
theorem drainLoop_eq_absorb
    (limits : TcpLimits)
    {pending : List TcpSegment}
    {next : Int}
    (solid : Solid pending)
    (ordered : Ordered pending)
    (ahead : ∀ segment ∈ pending, next ≤ segment.start)
    (drained : DrainState) :
    ∃ ready blocked,
      pending = ready ++ blocked ∧
        Chained next ready ∧
        (∀ segment ∈ blocked,
          next + (totalLength ready : Int) < segment.start) ∧
        drainLoop limits pending next drained =
          absorb limits blocked ready next drained := by
  induction pending generalizing next drained with
  | nil =>
      exact ⟨[], [], rfl, trivial, by simp, rfl⟩
  | cons segment rest inductionHypothesis =>
      obtain ⟨segmentBefore, restOrdered⟩ := List.pairwise_cons.mp ordered
      have nonempty := solid segment List.mem_cons_self
      have forward := Segment.start_lt_stop nonempty
      have starts := ahead segment List.mem_cons_self
      by_cases continues : segment.start = next
      · have stopIs :
            segment.stop = next + (segment.data.length : Int) := by
          rw [← continues]
          rfl
        obtain ⟨ready, blocked, shape, chained, stopped, absorbed⟩ :=
          inductionHypothesis
            (fun later member => solid later (List.mem_cons_of_mem _ member))
            restOrdered segmentBefore
            ((drained.pop segment rest 0).consume limits segment next
              segment.data)
        refine ⟨segment :: ready, blocked, by rw [shape]; rfl,
          ⟨continues, chained⟩, ?_, ?_⟩
        · intro later member
          have := stopped later member
          rw [totalLength_cons]
          push_cast
          omega
        · have notSeen : ¬ segment.stop ≤ next := by omega
          have notBlocked : ¬ next < segment.start := by omega
          have noTrim : (next - segment.start).toNat = 0 := by omega
          have notEmpty : segment.data.isEmpty = false := by
            simpa using nonempty
          simp only [drainLoop, notSeen, ↓reduceIte, notBlocked, noTrim,
            List.drop_zero, notEmpty, Bool.false_eq_true]
          rw [stopIs] at absorbed
          simp only [absorb]
          rw [← shape]
          exact absorbed
      · have blocked : next < segment.start := by omega
        refine ⟨[], segment :: rest, rfl, trivial, ?_, ?_⟩
        · intro later member
          simp only [totalLength_nil, Nat.cast_zero, add_zero]
          rcases List.mem_cons.mp member with isFirst | inRest
          · exact isFirst ▸ blocked
          · have := segmentBefore later inRest
            omega
        · have notSeen : ¬ segment.stop ≤ next := by omega
          simp [drainLoop, notSeen, blocked, absorb]

/-- What absorbing segments does to the direction and the counters. -/
theorem absorb_view
    (limits : TcpLimits)
    {blocked ready : List TcpSegment}
    {next : Int}
    (drained : DrainState)
    (pending : drained.view.direction.pending = ready ++ blocked)
    (expects : drained.view.direction.nextSeq = some next) :
    let result := absorb limits blocked ready next drained
    let before := drained.view.direction
    result.view.direction =
        { before with
          pending := blocked
          pendingBytes := before.pendingBytes - totalLength ready
          nextSeq := some (next + totalLength ready)
          streamOffset := before.streamOffset + totalLength ready
          consumedHistoryStart := result.view.direction.consumedHistoryStart
          consumedHistory := result.view.direction.consumedHistory } ∧
      result.view.counters =
        { drained.view.counters with
          bufferedBytes :=
            drained.view.counters.bufferedBytes - totalLength ready
          bufferedSegments :=
            drained.view.counters.bufferedSegments - ready.length } := by
  induction ready generalizing next drained with
  | nil =>
      have pendingIs : drained.view.direction.pending = blocked := pending
      refine ⟨?_, ?_⟩
      · simp [absorb, ← pendingIs, ← expects]
      · simp [absorb]
  | cons segment rest inductionHypothesis =>
      obtain ⟨directionIs, countersAre⟩ :=
        @inductionHypothesis (next + segment.data.length)
          ((drained.pop segment (rest ++ blocked) 0).consume limits segment
            next segment.data)
          (by
            simp only [DrainState.consume]
            rw [rememberConsumed_eq]
            rfl)
          rfl
      simp only [absorb]
      refine ⟨?_, ?_⟩
      · rw [directionIs]
        simp only [DrainState.consume, DrainState.pop, totalLength_cons]
        rw [rememberConsumed_eq]
        simp only [DirectionState.mk.injEq, Option.some.injEq, and_true,
          true_and]
        push_cast
        omega
      · rw [countersAre]
        simp only [DrainState.consume, DrainState.pop, totalLength_cons,
          List.length_cons, TcpCounters.mk.injEq, and_true, true_and]
        push_cast
        omega

/--
The chunk under construction holds bytes of the given segments, from one
sequence position and stream offset on, each under its own identifiers.
-/
structure Collected
    (segments : List TcpSegment)
    (position offset : Int)
    (drained : DrainState) : Prop where
  length :
    (drained.parts.flatten.length : Int) =
      drained.view.direction.streamOffset - offset
  tiles :
    Tiles offset drained.view.direction.streamOffset drained.spans
  bytes :
    ∀ {index : Nat} {byte : UInt8},
      drained.parts.flatten[index]? = some byte →
      ∃ origin,
        Holds segments (position + index) (byte, origin) ∧
          SpanAt drained.spans (offset + index) origin.packetIds
  packetIds :
    drained.packetIds =
      addPacketIds [] (drained.spans.flatMap ProvenanceSpan.packetIds)

/-- Consuming a segment that continues the stream keeps the collection. -/
theorem Collected.consume
    (limits : TcpLimits)
    {segments rest : List TcpSegment}
    {position offset next : Int}
    {drained : DrainState}
    (collected : Collected segments position offset drained)
    {segment : TcpSegment}
    (member : segment ∈ segments)
    (nonempty : segment.data ≠ [])
    (continues : segment.start = next)
    (reached :
      next =
        position + (drained.view.direction.streamOffset - offset)) :
    Collected segments position offset
      ((drained.pop segment rest 0).consume limits segment next
        segment.data) := by
  have positive := List.length_pos_iff.mpr nonempty
  have lengthBefore := collected.length
  let span : ProvenanceSpan := {
    streamStart := drained.view.direction.streamOffset
    streamEnd := drained.view.direction.streamOffset + segment.data.length
    packetIds := segment.tag.packetIds
  }
  have spanNonempty : span.streamStart < span.streamEnd := by
    simp only [span]
    omega
  refine {
    length := ?_
    tiles := ?_
    bytes := ?_
    packetIds := ?_
  }
  · simp only [DrainState.consume, DrainState.pop, List.flatten_append,
      List.flatten_cons, List.flatten_nil, List.append_nil,
      List.length_append]
    push_cast
    omega
  · exact tiles_pushSpan collected.tiles spanNonempty
  · intro index byte found
    simp only [DrainState.consume, DrainState.pop, List.flatten_append,
      List.flatten_cons, List.flatten_nil, List.append_nil] at found
    by_cases inEarlier : index < drained.parts.flatten.length
    · rw [List.getElem?_append_left inEarlier] at found
      obtain ⟨origin, held, spanned⟩ := collected.bytes found
      exact ⟨origin, held,
        spanAt_pushSpan collected.tiles spanNonempty (.inl spanned)⟩
    · rw [List.getElem?_append_right (by omega)] at found
      obtain ⟨inside, -⟩ := List.getElem?_eq_some_iff.mp found
      refine ⟨segment.tag, ⟨segment, member, ?_⟩, ?_⟩
      · have atIndex :
            position + (index : Int) =
              segment.start +
                ((index - drained.parts.flatten.length : Nat) : Int) := by
          omega
        rw [atIndex, Segment.at?_offset, found]
        rfl
      · apply spanAt_pushSpan collected.tiles spanNonempty
        refine .inr ⟨?_, ?_, rfl⟩
        · simp only [span]
          omega
        · simp only [span]
          omega
  · simp only [DrainState.consume, DrainState.pop]
    rw [addPacketIds_pushSpan, collected.packetIds]

/-- Absorbing segments collects their bytes. -/
theorem Collected.absorb
    (limits : TcpLimits)
    {segments blocked ready : List TcpSegment}
    {position offset next : Int}
    {drained : DrainState}
    (collected : Collected segments position offset drained)
    (members : ∀ segment ∈ ready, segment ∈ segments)
    (solid : Solid ready)
    (chained : Chained next ready)
    (reached :
      next =
        position + (drained.view.direction.streamOffset - offset)) :
    Collected segments position offset
      (absorb limits blocked ready next drained) := by
  induction ready generalizing next drained with
  | nil =>
      exact collected
  | cons segment rest inductionHypothesis =>
      obtain ⟨continues, restChained⟩ := chained
      apply inductionHypothesis
      · exact collected.consume limits (members segment List.mem_cons_self)
          (solid segment List.mem_cons_self) continues reached
      · exact fun later member =>
          members later (List.mem_cons_of_mem _ member)
      · exact fun later member =>
          solid later (List.mem_cons_of_mem _ member)
      · rw [← continues]
        exact restChained
      · simp only [DrainState.consume, DrainState.pop]
        omega

/-- Retained bytes after absorbing come from the history or the segments. -/
theorem retains_absorb
    (limits : TcpLimits)
    {blocked ready : List TcpSegment}
    {next position : Int}
    {drained : DrainState}
    {byte : UInt8}
    (chained : Chained next ready)
    (retained :
      (absorb limits blocked ready next drained).view.direction.Retains
        position byte) :
    drained.view.direction.Retains position byte ∨
      ∃ origin, Holds ready position (byte, origin) := by
  induction ready generalizing next drained with
  | nil =>
      exact .inl retained
  | cons segment rest inductionHypothesis =>
      obtain ⟨continues, restChained⟩ := chained
      have restFrom : Chained (next + segment.data.length) rest := by
        rw [← continues]
        exact restChained
      rcases inductionHypothesis restFrom retained with
        before | ⟨origin, held⟩
      · have remembered :
            (rememberConsumed limits
              (drained.pop segment (rest ++ blocked) 0).view.direction
              next segment.data).Retains position byte :=
          before
        rcases retains_rememberConsumed remembered with old | new
        · exact .inl old
        · refine .inr ⟨segment.tag, holds_cons.mpr (.inl ?_)⟩
          rw [Segment.at?_eq_valueAt, continues, new]
          rfl
      · exact .inr ⟨origin, holds_cons.mpr (.inr held)⟩

theorem parts_absorb
    (limits : TcpLimits)
    (blocked ready : List TcpSegment)
    (next : Int)
    (drained : DrainState) :
    (absorb limits blocked ready next drained).parts =
      drained.parts ++ ready.map Segment.data := by
  induction ready generalizing next drained with
  | nil =>
      simp [absorb]
  | cons segment rest inductionHypothesis =>
      simp [absorb, inductionHypothesis, DrainState.consume, DrainState.pop]

/-- Chained segments cover exactly the positions they span. -/
theorem Chained.covers_iff
    {next : Int}
    {segments : List TcpSegment}
    (chained : Chained next segments)
    {position : Int} :
    Covers segments position ↔
      next ≤ position ∧ position < next + (totalLength segments : Int) := by
  induction segments generalizing next with
  | nil =>
      simp
  | cons segment rest inductionHypothesis =>
      obtain ⟨starts, restChained⟩ := chained
      rw [covers_cons, inductionHypothesis restChained, totalLength_cons]
      unfold Segment.Contains Segment.stop
      push_cast
      omega

/-! ## The drain -/

/-- The pending segments of a direction are in their usual shape. -/
structure DirectionState.Wf (state : DirectionState) : Prop where
  idle :
    state.nextSeq = none →
      state.pending = [] ∧ state.streamOffset = 0 ∧ state.hadGap = false ∧
        state.consumedHistoryStart = none
  solid : Solid state.pending
  ordered : Ordered state.pending
  ahead :
    ∀ {next segment},
      state.nextSeq = some next →
      segment ∈ state.pending →
      next ≤ segment.start
  bytes : state.pendingBytes = totalLength state.pending

/-- What a drain of a direction that expects `next` did. -/
structure Drained
    (flow : FlowKey)
    (direction : Direction)
    (forcedGap : Bool)
    (view : DirectionView)
    (next : Int)
    (ready blocked : List TcpSegment)
    (outcome : Outcome DirectionView TcpEvent) : Prop where
  split : view.direction.pending = ready ++ blocked
  chained : Chained next ready
  stopped :
    ∀ segment ∈ blocked, next + (totalLength ready : Int) < segment.start
  directionAfter :
    outcome.state.direction =
      { view.direction with
        pending := blocked
        pendingBytes := view.direction.pendingBytes - totalLength ready
        nextSeq := some (next + totalLength ready)
        streamOffset := view.direction.streamOffset + totalLength ready
        consumedHistoryStart :=
          outcome.state.direction.consumedHistoryStart
        consumedHistory := outcome.state.direction.consumedHistory }
  countersAfter :
    outcome.state.counters =
      { view.counters with
        bufferedBytes := view.counters.bufferedBytes - totalLength ready
        bufferedSegments :=
          view.counters.bufferedSegments - ready.length }
  retained :
    ∀ {position byte},
      outcome.state.direction.Retains position byte →
      view.direction.Retains position byte ∨
        ∃ origin, Holds ready position (byte, origin)
  silent : ready = [] → outcome.events = []
  emits :
    ready ≠ [] →
    ∃ chunk,
      outcome.events = [.emitted chunk] ∧
        chunk.flow = flow ∧
        chunk.direction = direction ∧
        chunk.connectionEpoch = view.direction.connectionEpoch ∧
        chunk.streamOffset = view.direction.streamOffset ∧
        chunk.data = (ready.map Segment.data).flatten ∧
        chunk.completeness = completenessOf view.direction forcedGap ∧
        Tiles chunk.streamOffset chunk.streamEnd chunk.provenanceSpans ∧
        chunk.packetIds =
          (chunk.provenanceSpans.flatMap
            ProvenanceSpan.packetIds).eraseDups ∧
        ∀ {index : Nat} {byte : UInt8},
          chunk.data[index]? = some byte →
          ∃ origin,
            Holds ready (next + index) (byte, origin) ∧
              SpanAt chunk.provenanceSpans (chunk.streamOffset + index)
                origin.packetIds

theorem length_flatten_data (segments : List TcpSegment) :
    (segments.map Segment.data).flatten.length = totalLength segments := by
  rw [List.length_flatten, List.map_map]
  rfl

/-- Every drain of a well-formed direction is as described by `Drained`. -/
theorem drain_spec
    (limits : TcpLimits)
    (flow : FlowKey)
    (direction : Direction)
    (forcedGap : Bool)
    {view : DirectionView}
    (wf : view.direction.Wf)
    {next : Int}
    (expects : view.direction.nextSeq = some next) :
    ∃ ready blocked,
      Drained flow direction forcedGap view next ready blocked
        (drain limits flow direction forcedGap view) := by
  obtain ⟨ready, blocked, split, chained, stopped, absorbed⟩ :=
    drainLoop_eq_absorb limits wf.solid wf.ordered
      (fun segment member => wf.ahead expects member) { view := view }
  obtain ⟨directionIs, countersAre⟩ :=
    absorb_view limits { view := view } split expects
  have parts := parts_absorb limits blocked ready next { view := view }
  have readySolid : Solid ready := fun segment member =>
    wf.solid segment (split ▸ List.mem_append_left _ member)
  have collected :
      Collected ready next view.direction.streamOffset
        (absorb limits blocked ready next { view := view }) :=
    Collected.absorb limits
      { length := by simp
        tiles := rfl
        bytes := by simp
        packetIds := rfl }
      (fun _ member => member) readySolid chained (by simp)
  refine ⟨ready, blocked, ?_⟩
  unfold drain
  rw [expects]
  simp only [absorbed]
  refine {
    split := split
    chained := chained
    stopped := stopped
    directionAfter := directionIs
    countersAfter := countersAre
    retained := retains_absorb limits chained
    silent := ?_
    emits := ?_
  }
  · intro noneReady
    subst noneReady
    simp [absorb]
  · intro someReady
    have partsNonempty :
        (absorb limits blocked ready next { view := view }).parts.isEmpty =
          false := by
      simpa [parts] using someReady
    refine ⟨_, by rw [partsNonempty]; rfl, rfl, rfl, ?_, rfl, ?_, ?_, ?_,
      ?_, ?_⟩
    · simp only [DrainState.toChunk]
      rw [directionIs]
    · simp [DrainState.toChunk, parts]
    · simp only [DrainState.toChunk, completenessOf]
      rw [directionIs]
    · have chunkEnd := collected.length
      simp only [StreamChunk.streamEnd, DrainState.toChunk]
      rw [chunkEnd, add_sub_cancel]
      exact collected.tiles
    · rw [← addPacketIds_eq_eraseDups]
      exact collected.packetIds
    · exact collected.bytes

end PacketAudit
