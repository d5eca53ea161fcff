import PacketAudit.Tcp.FirstSeen
import PacketAudit.Tcp.Conservation

namespace PacketAudit

/-!
# Bytes across the connection epochs of one tuple

Within one epoch no position is emitted twice.  A tuple whose state was
discarded starts over in a new epoch, so across epochs the same position is
emitted twice exactly when payloads of two epochs brought it.
-/

open Library

/-- The payload reaches a position at or past the `next_seq` it found. -/
def Arrival.Brings (arrival : Arrival) (position : Int) : Prop :=
  arrival.nextSeq ≤ position ∧ arrival.Covers position

/-- A chunk of a history lies over a position, counted from its base. -/
def Delivers (log : List TcpEvent) (position : Int) : Prop :=
  ∃ base,
    firstNextSeq log = some base ∧
      ∃ chunk ∈ chunks log,
        base + chunk.streamOffset ≤ position ∧
          position < base + chunk.streamEnd

/-! ## Every position brought is delivered or pending -/

/-- What was brought to a direction is delivered or still pending. -/
structure DeliveredState
    (flow : FlowKey)
    (direction : Direction)
    (log : List TcpEvent)
    (state : DirectionState) : Prop where
  firstSeen : FirstSeenState flow direction log state
  sameFlow : ∀ arrival ∈ arrivals log, arrival.flow = flow
  accounted :
    ∀ position,
      (∃ arrival ∈ arrivals log, arrival.Brings position) ↔
        Delivers log position ∨ Covers state.pending position

/-- Events without a chunk deliver nothing. -/
theorem delivers_append_of_chunks_eq_nil
    {log events : List TcpEvent}
    (silent : chunks events = [])
    {base : Int}
    (known : firstNextSeq log = some base)
    (position : Int) :
    Delivers (log ++ events) position ↔ Delivers log position := by
  unfold Delivers
  rw [firstNextSeq_append_of_some known, known, chunks_append, silent,
    List.append_nil]

namespace DeliveredState

variable
  {flow : FlowKey}
  {direction : Direction}
  {log : List TcpEvent}

/-- A payload that brings nothing leaves the account as it is. -/
theorem receiveBehind
    {state : DirectionState}
    (invariant : DeliveredState flow direction log state)
    {arrival : Arrival}
    (expects : state.nextSeq = some arrival.nextSeq)
    (sameFlow : arrival.flow = flow)
    (behind : arrival.stop ≤ arrival.nextSeq) :
    DeliveredState flow direction (log ++ [.arrived arrival]) state where
  firstSeen := invariant.firstSeen.receiveBehind expects behind
  sameFlow := by
    simpa [or_imp, forall_and, sameFlow] using invariant.sameFlow
  accounted position := by
    rw [delivers_append_of_chunks_eq_nil (by simp)
      (invariant.firstSeen.base expects), ← invariant.accounted]
    have nothing : ¬ arrival.Brings position := by
      unfold Arrival.Brings Arrival.Covers
      omega
    simp [or_and_right, exists_or, nothing]

/-- A stored payload is pending wherever it brings a position. -/
theorem receiveStored
    {before after : DirectionView}
    (invariant : DeliveredState flow direction log before.direction)
    {arrival : Arrival}
    {timestampNs : Int}
    (wf : before.direction.Wf)
    (expects : before.direction.nextSeq = some arrival.nextSeq)
    (sameFlow : arrival.flow = flow)
    (stored :
      Stored arrival.packetIds timestampNs arrival.start arrival.nextSeq
        arrival.data before after) :
    DeliveredState flow direction (log ++ [.arrived arrival])
      after.direction where
  firstSeen := invariant.firstSeen.receiveStored wf expects stored
  sameFlow := by
    simpa [or_imp, forall_and, sameFlow] using invariant.sameFlow
  accounted position := by
    have afterWf := stored.wf expects wf
    have expectsAfter : after.direction.nextSeq = some arrival.nextSeq := by
      obtain ⟨additions, -, directionIs, -⟩ := stored.exists_additions
      rw [directionIs]
      exact expects
    have aheadOf
        {state : DirectionState}
        (stateWf : state.Wf)
        (stateExpects : state.nextSeq = some arrival.nextSeq)
        (covered : Covers state.pending position) :
        arrival.nextSeq ≤ position := by
      obtain ⟨segment, member, inside⟩ := covered
      exact (stateWf.ahead stateExpects member).trans inside.1
    have pendingAfter :
        Covers after.direction.pending position ↔
          Covers before.direction.pending position ∨
            arrival.Brings position := by
      by_cases ahead : arrival.nextSeq ≤ position
      · rw [stored.covers_iff ahead]
        simp only [Arrival.Brings, ahead, true_and]
        rfl
      · have notAfter := mt (aheadOf afterWf expectsAfter) ahead
        have notBefore := mt (aheadOf wf expects) ahead
        simp [notAfter, notBefore, Arrival.Brings, ahead]
    rw [delivers_append_of_chunks_eq_nil (by simp)
      (invariant.firstSeen.base expects), pendingAfter, ← or_assoc,
      ← invariant.accounted]
    simp [or_and_right, exists_or]

/-- A drain turns pending positions into delivered ones. -/
theorem drained
    {view : DirectionView}
    (invariant : DeliveredState flow direction log view.direction)
    (wf : view.direction.Wf)
    {next : Int}
    (expects : view.direction.nextSeq = some next)
    {forcedGap : Bool}
    {ready blocked : List TcpSegment}
    {outcome : Outcome DirectionView TcpEvent}
    (drained :
      Drained flow direction forcedGap view next ready blocked outcome)
    (label : Option Completeness) :
    DeliveredState flow direction
      (log ++ outcome.events.map (TcpEvent.relabel label))
      outcome.state.direction := by
  have base := invariant.firstSeen.base expects
  have silentArrivals :
      arrivals (outcome.events.map (TcpEvent.relabel label)) = [] := by
    by_cases noneReady : ready = []
    · rw [drained.silent noneReady]
      rfl
    · obtain ⟨chunk, eventsAre, -⟩ := drained.emits noneReady
      rw [eventsAre]
      rfl
  refine {
    firstSeen := invariant.firstSeen.drained wf expects drained label
    sameFlow := ?_
    accounted := ?_
  }
  · rw [arrivals_append, silentArrivals, List.append_nil]
    exact invariant.sameFlow
  · intro position
    rw [arrivals_append, silentArrivals, List.append_nil,
      invariant.accounted, drained.split, drained.directionAfter]
    simp only
    have split :
        Covers (ready ++ blocked) position ↔
          Covers ready position ∨ Covers blocked position := by
      simp [Covers, or_and_right, exists_or]
    rw [split, ← or_assoc]
    apply or_congr_left
    by_cases noneReady : ready = []
    · rw [drained.silent noneReady, noneReady]
      simp
    · obtain ⟨chunk, eventsAre, -, -, -, offsetIs, dataIs, -⟩ :=
        drained.emits noneReady
      have endIs :
          chunk.streamEnd =
            view.direction.streamOffset + totalLength ready := by
        rw [StreamChunk.streamEnd, offsetIs, dataIs, length_flatten_data]
      rw [drained.chained.covers_iff, eventsAre]
      unfold Delivers
      rw [firstNextSeq_append_of_some base, base]
      simp only [List.map_cons, List.map_nil, TcpEvent.relabel,
        chunks_append, chunks_singleton, TcpEvent.chunk?,
        Option.toList_some, Option.some.injEq, exists_eq_left',
        List.mem_append, List.mem_singleton, or_and_right, exists_or,
        exists_eq_left]
      apply or_congr_right
      rw [show
        StreamChunk.streamEnd
            { chunk with
              completeness := label.getD chunk.completeness } =
          chunk.streamEnd from rfl, endIs, offsetIs]
      constructor
      · rintro ⟨lower, upper⟩
        constructor <;> omega
      · rintro ⟨lower, upper⟩
        constructor <;> omega

end DeliveredState

theorem deliveredState_invariant (limits : TcpLimits) :
    DirectionInvariant limits DeliveredState where
  fresh flow direction epoch := {
    firstSeen := (firstSeenState_invariant limits).fresh flow direction epoch
    sameFlow := by simp
    accounted := by simp [Delivers]
  }
  same same invariant := {
    firstSeen := (firstSeenState_invariant limits).same same
      invariant.firstSeen
    sameFlow := invariant.sameFlow
    accounted := by
      rw [same.pending]
      exact invariant.accounted
  }
  step {flow direction log before events after} step wf invariant := by
    have firstSeen :=
      (firstSeenState_invariant limits).step step wf invariant.firstSeen
    cases step with
    | start sequence midstream synSeq idle lower upper =>
        have noLog := invariant.firstSeen.idle idle
        obtain ⟨noPending, -⟩ := wf.idle idle
        refine {
          firstSeen := firstSeen
          sameFlow := by simp [noLog]
          accounted := by simp [noLog, noPending, Delivers]
        }
    | probe arrival arrives keepalive behind =>
        exact invariant.receiveBehind arrives.expects arrives.sameFlow behind
    | repetition arrival arrives notKeepalive behind =>
        simp only [countRetransmission, countConsumedConflict_direction]
        exact invariant.receiveBehind arrives.expects arrives.sameFlow behind
    | store arrival timestampNs arrives notKeepalive reaches =>
        exact invariant.receiveStored wf arrives.expects arrives.sameFlow
          (insertPayload_stored arrival.packetIds timestampNs reaches before)
    | drain forcedGap label =>
        cases expects : before.direction.nextSeq with
        | none =>
            rw [drain_idle limits flow direction forcedGap expects]
            simpa using invariant
        | some next =>
            obtain ⟨ready, blocked, drained⟩ :=
              drain_spec limits flow direction forcedGap wf expects
            exact invariant.drained wf expects drained label
    | @gap next first rest expects pending hole =>
        refine {
          firstSeen := firstSeen
          sameFlow := by simpa [skipGap] using invariant.sameFlow
          accounted := ?_
        }
        intro position
        rw [delivers_append_of_chunks_eq_nil (by simp [skipGap])
          (invariant.firstSeen.base expects)]
        simpa [skipGap] using invariant.accounted position

/-! ## Positions across epochs -/

/-- A chunk of a log lies over an absolute position of its direction. -/
def StreamChunk.Spans
    (log : List TcpEvent)
    (chunk : StreamChunk)
    (position : Int) : Prop :=
  ∃ base,
    firstNextSeq (history chunk.connectionEpoch chunk.direction log) =
        some base ∧
      base + chunk.streamOffset ≤ position ∧
        position < base + chunk.streamEnd

/-- The chunks emitted for one flow and direction, in all epochs. -/
def chunksOfTuple
    (flow : FlowKey)
    (direction : Direction)
    (log : List TcpEvent) : List StreamChunk :=
  (chunks log).filter fun chunk =>
    chunk.flow = flow ∧ chunk.direction = direction

/-- No absolute position lies in two chunks of the tuple's direction. -/
def EmittedOnce
    (flow : FlowKey)
    (direction : Direction)
    (log : List TcpEvent) : Prop :=
  (chunksOfTuple flow direction log).Pairwise fun first second =>
    ∀ position, ¬ (first.Spans log position ∧ second.Spans log position)

/-- No two epochs of the tuple were brought the same position. -/
def NoReplay
    (flow : FlowKey)
    (direction : Direction)
    (log : List TcpEvent) : Prop :=
  ∀ first ∈ arrivals log, ∀ second ∈ arrivals log,
    first.flow = flow → first.direction = direction →
    second.flow = flow → second.direction = direction →
    first.connectionEpoch ≠ second.connectionEpoch →
    ∀ position, ¬ (first.Brings position ∧ second.Brings position)

/-- The chunks of a history are the chunks of its epoch and direction. -/
theorem mem_chunks_history
    {epoch : Nat}
    {direction : Direction}
    {log : List TcpEvent}
    {chunk : StreamChunk} :
    chunk ∈ chunks (history epoch direction log) ↔
      chunk ∈ chunks log ∧ chunk.connectionEpoch = epoch ∧
        chunk.direction = direction := by
  simp only [chunks, history, List.mem_filterMap, List.mem_filter]
  constructor
  · rintro ⟨event, ⟨member, own⟩, isChunk⟩
    cases event <;> simp at isChunk
    subst isChunk
    simp only [TcpEvent.belongsTo, Bool.and_eq_true, decide_eq_true_eq]
      at own
    exact ⟨⟨_, member, rfl⟩, own.1, own.2⟩
  · rintro ⟨⟨event, member, isChunk⟩, rfl, rfl⟩
    refine ⟨event, ⟨member, ?_⟩, isChunk⟩
    cases event <;> simp at isChunk
    subst isChunk
    simp [TcpEvent.belongsTo, TcpEvent.connectionEpoch, TcpEvent.direction]

/-- The payloads of a history are those of its epoch and direction. -/
theorem mem_arrivals_history
    {epoch : Nat}
    {direction : Direction}
    {log : List TcpEvent}
    {arrival : Arrival} :
    arrival ∈ arrivals (history epoch direction log) ↔
      arrival ∈ arrivals log ∧ arrival.connectionEpoch = epoch ∧
        arrival.direction = direction := by
  simp only [arrivals, history, List.mem_filterMap, List.mem_filter]
  constructor
  · rintro ⟨event, ⟨member, own⟩, isArrival⟩
    cases event <;> simp at isArrival
    subst isArrival
    simp only [TcpEvent.belongsTo, Bool.and_eq_true, decide_eq_true_eq]
      at own
    exact ⟨⟨_, member, rfl⟩, own.1, own.2⟩
  · rintro ⟨⟨event, member, isArrival⟩, rfl, rfl⟩
    refine ⟨event, ⟨member, ?_⟩, isArrival⟩
    cases event <;> simp at isArrival
    subst isArrival
    simp [TcpEvent.belongsTo, TcpEvent.connectionEpoch, TcpEvent.direction]

section Runs

variable
  {log : List TcpEvent}
  {reassembler : TCPReassembler}
  {flow : FlowKey}
  {direction : Direction}

/-- A position a chunk lies over was brought by a payload of its epoch. -/
theorem Recorded.brought_of_spans
    (recorded : Recorded DeliveredState log reassembler)
    {chunk : StreamChunk}
    (member : chunk ∈ chunks log)
    {position : Int}
    (spans : chunk.Spans log position) :
    ∃ arrival ∈ arrivals log,
      arrival.flow = chunk.flow ∧ arrival.direction = chunk.direction ∧
        arrival.connectionEpoch = chunk.connectionEpoch ∧
        arrival.Brings position := by
  obtain ⟨someFlow, state, invariant⟩ :=
    recorded.exists_state chunk.connectionEpoch chunk.direction
  have inHistory :
      chunk ∈
        chunks (history chunk.connectionEpoch chunk.direction log) :=
    mem_chunks_history.mpr ⟨member, rfl, rfl⟩
  obtain ⟨base, known, inside⟩ := spans
  obtain ⟨arrival, arrivalMember, brings⟩ :=
    (invariant.accounted position).mpr
      (.inl ⟨base, known, chunk, inHistory, inside⟩)
  obtain ⟨inLog, epochIs, sideIs⟩ := mem_arrivals_history.mp arrivalMember
  refine ⟨arrival, inLog, ?_, sideIs, epochIs, brings⟩
  rw [invariant.sameFlow arrival arrivalMember,
    invariant.firstSeen.sameFlow chunk inHistory]

/-- Within one epoch no position is emitted twice. -/
theorem Recorded.emittedOnce_within
    (recorded : Recorded DeliveredState log reassembler)
    (epoch : Nat) :
    ((chunksOfTuple flow direction log).filter
      fun chunk => chunk.connectionEpoch = epoch).Pairwise
        fun first second =>
          ∀ position,
            ¬ (first.Spans log position ∧ second.Spans log position) := by
  obtain ⟨someFlow, state, invariant⟩ :=
    recorded.exists_state epoch direction
  have sameList :
      (chunksOfTuple flow direction log).filter
          (fun chunk => chunk.connectionEpoch = epoch) =
        chunksOf flow epoch direction log := by
    unfold chunksOfTuple chunksOf
    rw [List.filter_filter]
    congr 1
    funext chunk
    simp only [← Bool.decide_and]
    congr 1
    apply propext
    constructor
    · rintro ⟨epochIs, flowIs, sideIs⟩
      exact ⟨flowIs, epochIs, sideIs⟩
    · rintro ⟨flowIs, epochIs, sideIs⟩
      exact ⟨epochIs, flowIs, sideIs⟩
  have increasing :
      (chunksOf flow epoch direction log).Pairwise fun earlier later =>
        earlier.streamEnd ≤ later.streamOffset := by
    rw [chunksOf_eq]
    exact invariant.firstSeen.law.increasing.sublist List.filter_sublist
  rw [sameList]
  refine increasing.imp_of_mem ?_
  intro first second firstMember secondMember before position
  rintro ⟨⟨firstBase, firstKnown, -, firstUpper⟩,
    ⟨secondBase, secondKnown, secondLower, -⟩⟩
  simp only [chunksOf, List.mem_filter, decide_eq_true_eq]
    at firstMember secondMember
  rw [firstMember.2.2.1, firstMember.2.2.2] at firstKnown
  rw [secondMember.2.2.1, secondMember.2.2.2] at secondKnown
  have sameBase := Option.some.inj (firstKnown.symm.trans secondKnown)
  omega

/-- Without a replayed position no position is emitted twice. -/
theorem Recorded.emittedOnce_of_noReplay
    (recorded : Recorded DeliveredState log reassembler)
    (noReplay : NoReplay flow direction log) :
    EmittedOnce flow direction log := by
  apply pairwise_of_classes StreamChunk.connectionEpoch
  · exact recorded.emittedOnce_within
  · intro first firstMember second secondMember different position
    rintro ⟨firstSpans, secondSpans⟩
    simp only [chunksOfTuple, List.mem_filter, decide_eq_true_eq]
      at firstMember secondMember
    obtain ⟨firstChunk, firstFlow, firstSide⟩ := firstMember
    obtain ⟨secondChunk, secondFlow, secondSide⟩ := secondMember
    obtain ⟨one, oneMember, oneFlow, oneSide, oneEpoch, oneBrings⟩ :=
      recorded.brought_of_spans firstChunk firstSpans
    obtain ⟨other, otherMember, otherFlow, otherSide, otherEpoch,
      otherBrings⟩ := recorded.brought_of_spans secondChunk secondSpans
    refine noReplay one oneMember other otherMember
      (oneFlow.trans firstFlow) (oneSide.trans firstSide)
      (otherFlow.trans secondFlow) (otherSide.trans secondSide) ?_
      position ⟨oneBrings, otherBrings⟩
    rwa [oneEpoch, otherEpoch]

/-- Once everything is flushed, every position brought is in a chunk. -/
theorem Recorded.spans_of_brought
    (recorded : Recorded DeliveredState log reassembler)
    (flushed : ∀ key, reassembler.flows.get? key = none)
    {arrival : Arrival}
    (member : arrival ∈ arrivals log)
    {position : Int}
    (brings : arrival.Brings position) :
    ∃ chunk ∈ chunksOfTuple arrival.flow arrival.direction log,
      chunk.connectionEpoch = arrival.connectionEpoch ∧
        chunk.Spans log position := by
  have inHistory :
      arrival ∈
        arrivals
          (history arrival.connectionEpoch arrival.direction log) :=
    mem_arrivals_history.mpr ⟨member, rfl, rfl⟩
  rcases recorded.past arrival.connectionEpoch arrival.direction with
    ⟨key, state, found, -⟩ | ⟨flow, state, invariant, nothingPending⟩
  · rw [flushed key] at found
    cases found
  · rcases (invariant.accounted position).mp ⟨arrival, inHistory, brings⟩
      with ⟨base, known, chunk, chunkMember, inside⟩ | pending
    · obtain ⟨inLog, epochIs, sideIs⟩ := mem_chunks_history.mp chunkMember
      refine ⟨chunk, ?_, epochIs, base, ?_, inside⟩
      · rw [invariant.sameFlow arrival inHistory]
        exact List.mem_filter.mpr
          ⟨inLog, by
            simpa using
              ⟨invariant.firstSeen.sameFlow chunk chunkMember, sideIs⟩⟩
      · rw [epochIs, sideIs]
        exact known
    · rw [nothingPending] at pending
      exact (not_covers_nil position pending).elim

/-- A replayed position is emitted twice once everything is flushed. -/
theorem Recorded.noReplay_of_emittedOnce
    (recorded : Recorded DeliveredState log reassembler)
    (flushed : ∀ key, reassembler.flows.get? key = none)
    (once : EmittedOnce flow direction log) :
    NoReplay flow direction log := by
  intro first firstMember second secondMember firstFlow firstSide secondFlow
    secondSide different position
  rintro ⟨firstBrings, secondBrings⟩
  obtain ⟨one, oneMember, oneEpoch, oneSpans⟩ :=
    recorded.spans_of_brought flushed firstMember firstBrings
  obtain ⟨other, otherMember, otherEpoch, otherSpans⟩ :=
    recorded.spans_of_brought flushed secondMember secondBrings
  rw [firstFlow, firstSide] at oneMember
  rw [secondFlow, secondSide] at otherMember
  have symmetric :
      Std.Symm fun one other : StreamChunk =>
        ∀ position,
          ¬ (one.Spans log position ∧ other.Spans log position) :=
    ⟨fun _ _ apart position both => apart position both.symm⟩
  have distinct : one ≠ other := by
    rintro rfl
    exact different (oneEpoch.symm.trans otherEpoch)
  exact once.forall oneMember otherMember distinct position
    ⟨oneSpans, otherSpans⟩

end Runs

/-- A flush brings no payload. -/
theorem arrivals_run_flushAll
    (limits : TcpLimits)
    (reassembler : TCPReassembler)
    (operations : List TcpOperation)
    (completeness : Option Completeness) :
    arrivals
        (reassembler.run limits
          (operations ++ [.flushAll completeness])).events =
      arrivals (reassembler.run limits operations).events := by
  unfold TCPReassembler.run
  rw [runAll_append, Outcome.events_andThen, arrivals_append]
  simp [runAll, TcpOperation.apply, TCPReassembler.flushAll,
    TCPReassembler.arrivals_relabel,
    arrivals_of_inputs (TCPReassembler.inputs_closeFlows limits _ _)]

/-- The packets of one connection, with no flow evicted or expired. -/
structure ConnectionRun
    (limits : TcpLimits)
    (key : FlowId)
    (packets : List ParsedPacket)
    (final : TCPReassembler) : Prop where
  sameTuple : ∀ packet ∈ packets, packet.flowId = key
  oneSyn :
    ∀ first ∈ packets, ∀ second ∈ packets,
      first.syn → second.syn → first.flow.2 = second.flow.2 →
        first.tcpSeq = second.tcpSeq
  final_eq :
    final =
      ((TCPReassembler.new 0).run limits
        (packets.map (TcpOperation.process 0))).state
  noEviction : final.counters.evictedFlows = 0
  noExpiry : final.counters.expiredFlows = 0

/-- A SYN, one byte, an RST and the byte retransmitted. -/
def replayAfterReset : List ParsedPacket :=
  [sampleSegment 1 99 0x02 [], sampleSegment 2 100 0x18 [65],
    sampleSegment 3 101 0x14 [], sampleSegment 4 100 0x18 [65]]

end PacketAudit
