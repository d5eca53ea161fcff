import PacketAudit.Tcp.Transfer

namespace PacketAudit

/-!
# Completeness of transfers

A direction opened by its SYN and fed a covering family of consistent segments
emits exactly the stream, whatever the order of the segments, their overlaps
and the traffic of the other direction.  With FINs the same holds as long as
no FIN overtakes a byte.
-/

open Library

/-! ## The opening SYN -/

/-- The packet is a bare-payload SYN that opens its direction. -/
structure OpensStream
    (reassembler : TCPReassembler)
    (packet : ParsedPacket) : Prop where
  accepts : TCPReassembler.accepts packet = true
  syn : packet.syn = true
  noFin : packet.fin = false
  noRst : packet.rst = false
  noPayload : packet.transportPayload = []
  fresh :
    ∀ known ∈ reassembler.flows.get? packet.flowId,
      reassembler.restarts packet = true ∨
        (known.directions packet.flow.2).nextSeq = none

instance
    (reassembler : TCPReassembler)
    (packet : ParsedPacket) :
    Decidable (OpensStream reassembler packet) :=
  decidable_of_iff (_ ∧ _ ∧ _ ∧ _ ∧ _ ∧ _)
    ⟨fun all =>
      ⟨all.1, all.2.1, all.2.2.1, all.2.2.2.1, all.2.2.2.2.1,
        all.2.2.2.2.2⟩,
    fun opens =>
      ⟨opens.accepts, opens.syn, opens.noFin, opens.noRst, opens.noPayload,
        opens.fresh⟩⟩

/-- The other direction has not closed, unless the SYN restarts the tuple. -/
def OtherSideOpen
    (reassembler : TCPReassembler)
    (packet : ParsedPacket) : Prop :=
  ∀ known ∈ reassembler.flows.get? packet.flowId,
    reassembler.restarts packet = true ∨
      (known.directions packet.flow.2.opposite).closed = false

instance
    (reassembler : TCPReassembler)
    (packet : ParsedPacket) :
    Decidable (OtherSideOpen reassembler packet) :=
  inferInstanceAs (Decidable (∀ known ∈ _, _))

/-- A direction that expects nothing was never used. -/
theorem DirectionState.Wf.inOrder_start
    {state : DirectionState}
    (wf : state.Wf)
    (idle : state.nextSeq = none)
    (stream : Bytes)
    (sequence : Int)
    (synSeq : Option Nat) :
    InOrder stream sequence (fun _ => False)
      { state with
        nextSeq := some sequence
        midstream := false
        synSeq := synSeq } := by
  obtain ⟨noPending, noOffset, noGap, noHistory⟩ := wf.idle idle
  exact {
    expects := by simp [noOffset]
    nonnegative := by simp [noOffset]
    within := by simp [noOffset]
    noGap := noGap
    notMidstream := rfl
    pendingAgrees := by simp [noPending]
    retainedAgrees := by
      rintro position byte ⟨start, isStart, -⟩
      simp [noHistory] at isStart
    receivedIff := by
      intro position fromBase
      simp [noPending, noOffset, fromBase]
    blocked := by simp [noPending]
  }

/-- After the flow stages the SYN finds a direction that expects nothing. -/
theorem OpensStream.entered
    {limits : TcpLimits}
    {reassembler : TCPReassembler}
    {packet : ParsedPacket}
    (opens : OpensStream reassembler packet)
    (clock : Int) :
    ∃ flow,
      (((reassembler.restart limits packet).andThen
          (TCPReassembler.enter limits clock packet)).state.flows.get?
        packet.flowId) = some flow ∧
        (flow.directions packet.flow.2).nextSeq = none ∧
        (OtherSideOpen reassembler packet →
          (flow.directions packet.flow.2.opposite).closed = false) := by
  have created
      {state : TCPReassembler}
      (absent : state.flows.get? packet.flowId = none) :
      ∃ flow,
        (state.enter limits clock packet).state.flows.get? packet.flowId =
            some flow ∧
          (flow.directions packet.flow.2).nextSeq = none ∧
          (OtherSideOpen reassembler packet →
            (flow.directions packet.flow.2.opposite).closed = false) := by
    unfold TCPReassembler.enter
    rw [absent]
    exact ⟨_, OrderedTable.get?_set_self _ _ _, rfl, fun _ => rfl⟩
  rw [Outcome.state_andThen]
  unfold TCPReassembler.restart
  split
  case isTrue restarts =>
    apply created
    rw [TCPReassembler.get?_closeFlow, if_pos rfl]
  case isFalse stays =>
    rw [Outcome.state_quiet]
    cases found : reassembler.flows.get? packet.flowId with
    | none => exact created found
    | some known =>
        have notRestarts : reassembler.restarts packet ≠ true := stays
        refine ⟨known, ?_, ?_, ?_⟩
        · simp [TCPReassembler.enter, found]
        · exact (opens.fresh known found).resolve_left notRestarts
        · intro otherOpen
          exact (otherOpen known found).resolve_left notRestarts

/-- The SYN opens its direction for any stream. -/
theorem OpensStream.fed
    {limits : TcpLimits}
    {reassembler : TCPReassembler}
    {packet : ParsedPacket}
    (wf : reassembler.Wf)
    (opens : OpensStream reassembler packet)
    (closing : Bool)
    (otherOpen : closing = true → OtherSideOpen reassembler packet)
    (clock : Int)
    (stream : Bytes) :
    ∃ epoch,
      Fed closing epoch packet.flowId packet.flow.2 stream
        packet.rawPayloadSequence (fun _ => False) 0
        (reassembler.process limits clock packet).state := by
  have processWf : (reassembler.process limits clock packet).state.Wf :=
    (TCPReassembler.process_performs wf clock packet).wf wf
  obtain ⟨flow, flowFound, idle, oppositeOpen⟩ := opens.entered clock
  have enteredFollows :
      TCPReassembler.Performs limits false reassembler
        ((reassembler.restart limits packet).andThen
          (TCPReassembler.enter limits clock packet)) :=
    TCPReassembler.Performs.andThen
      (TCPReassembler.restart_performs wf packet) wf fun restarted =>
        TCPReassembler.enter_performs restarted clock packet
  have enteredWf := enteredFollows.wf wf
  set entered :=
    ((reassembler.restart limits packet).andThen
      (TCPReassembler.enter limits clock packet)) with enteredIs
  set annotated :=
    TCPReassembler.acknowledged packet
      (TCPReassembler.touched clock packet flow) with annotatedIs
  have same : flow.SameStreams annotated :=
    (TCPReassembler.touched_sameStreams clock packet flow).trans
      (TCPReassembler.acknowledged_sameStreams packet _)
  have annotatedOwn := same.directions packet.flow.2
  have annotatedWf :=
    annotatedOwn.wf (enteredWf.directions flowFound packet.flow.2)
  have annotatedIdle :
      (annotated.directions packet.flow.2).nextSeq = none := by
    rw [annotatedOwn]
    exact idle
  have noted :
      ∃ noted : TCPReassembler,
        (entered.state.reviseFlow packet.flowId fun state =>
          TCPReassembler.acknowledged packet
            (TCPReassembler.touched clock packet state)) = noted ∧
          noted.flows.get? packet.flowId = some annotated :=
    ⟨_, rfl, by simp [TCPReassembler.reviseFlow, flowFound, annotatedIs]⟩
  obtain ⟨notedState, notedIs, notedFound⟩ := noted
  obtain ⟨synSeq, started⟩ :=
    @TCPReassembler.startSequence_of_starts packet
      ⟨annotated.directions packet.flow.2, notedState.counters⟩
      (by simp [annotatedIdle, opens.syn])
  have preparedIs :
      (reassembler.prepare limits clock packet).state =
        notedState.putDirection packet.flowId annotated packet.flow.2
          (TCPReassembler.startSequence packet
            ⟨annotated.directions packet.flow.2,
              notedState.counters⟩).state := by
    unfold TCPReassembler.prepare
    rw [← enteredIs, Outcome.state_andThen, Outcome.state_andThen,
      Outcome.state_quiet, notedIs,
      TCPReassembler.onDirection_of_get?_eq_some _ _ notedFound]
  rw [started] at preparedIs
  set opened : DirectionState := {
    annotated.directions packet.flow.2 with
    nextSeq := some packet.rawPayloadSequence
    midstream := !packet.syn
    synSeq := synSeq } with openedIs
  have preparedFound :
      (reassembler.prepare limits clock packet).state.flows.get?
          packet.flowId =
        some (annotated.setDirection packet.flow.2 opened) := by
    rw [preparedIs]
    exact TCPReassembler.get?_putDirection_self _ _ _ _ _
  have preparedWf : (reassembler.prepare limits clock packet).state.Wf :=
    (TCPReassembler.prepare_performs wf clock packet).wf wf
  have noPayload : packet.transportPayload.isEmpty = true := by
    simp [opens.noPayload]
  have acceptQuiet :
      (reassembler.prepare limits clock packet).state.onDirection
          packet.flowId packet.flow.2
          (TCPReassembler.acceptPayload limits packet) =
        .quiet (reassembler.prepare limits clock packet).state := by
    have openedNext : opened.nextSeq = some packet.rawPayloadSequence := rfl
    apply TCPReassembler.onDirection_of_quiet preparedFound
    simp only [TCPReassembler.acceptPayload,
      FlowState.directions_setDirection_self, openedNext, noPayload,
      ↓reduceIte]
  have stateIs :
      (reassembler.process limits clock packet).state =
        (reassembler.prepare limits clock packet).state := by
    unfold TCPReassembler.process TCPReassembler.processTcp
    rw [if_pos opens.accepts, Outcome.state_andThen]
    simp only [acceptQuiet, Outcome.quiet_andThen]
    have finishes :
        (reassembler.prepare limits clock packet).state.finish limits
            packet =
          .quiet (reassembler.prepare limits clock packet).state :=
      TCPReassembler.finish_of_open preparedFound
        (preparedWf.live preparedFound) opens.noFin opens.noRst
    split
    · rfl
    · have storesNothing :
          (reassembler.prepare limits clock packet).state.storesPayload
            packet = false := by
        unfold TCPReassembler.storesPayload
        rw [preparedFound]
        simp only [noPayload, Bool.not_true, Bool.false_and]
        split <;> rfl
      rw [storesNothing, finishes]
      rfl
  refine ⟨(annotated.directions packet.flow.2).connectionEpoch, {
    wf := processWf
    exists_state := ?_
  }⟩
  rw [stateIs]
  refine ⟨_, preparedFound, ?_, ?_, ?_, ?_⟩
  · rw [FlowState.directions_setDirection_self, openedIs]
    simp only [opens.syn, Bool.not_true]
    exact annotatedWf.inOrder_start annotatedIdle stream _ _
  · rw [FlowState.directions_setDirection_self]
  · rw [FlowState.directions_setDirection_self]
    exact (annotatedWf.idle annotatedIdle).2.1
  · intro isClosing
    rw [FlowState.directions_setDirection_opposite, annotatedIs,
      TCPReassembler.closed_noted]
    exact oppositeOpen (otherOpen isClosing)

/-! ## Runs of turns -/

/-- The data turns leave `gap_bytes` and `overlap_conflicts` as they were. -/
def KeepsCounters (limits : TcpLimits) : List Turn → TCPReassembler → Prop
  | [], _ => True
  | turn :: rest, reassembler =>
      let after := (turn.play limits reassembler).state
      (match turn with
        | .data _ _ _ =>
            after.counters.gapBytes = reassembler.counters.gapBytes ∧
              after.counters.overlapConflicts =
                reassembler.counters.overlapConflicts
        | .reply _ _ => True) ∧
        KeepsCounters limits rest after

/-- Some turn brings the position. -/
def BroughtBy (base : Int) (turns : List Turn) (position : Int) : Prop :=
  ∃ turn ∈ turns, turn.Brings base position

theorem Fed.congr
    {closing : Bool}
    {epoch : Nat}
    {key : FlowId}
    {direction : Direction}
    {stream : Bytes}
    {base offset : Int}
    {received others : Int → Prop}
    {reassembler : TCPReassembler}
    (fed :
      Fed closing epoch key direction stream base received offset
        reassembler)
    (same : ∀ {position}, others position ↔ received position) :
    Fed closing epoch key direction stream base others offset
      reassembler := by
  obtain ⟨known, found, inOrder, identity⟩ := fed.exists_state
  exact ⟨fed.wf, known, found, inOrder.congr same, identity⟩

/-- A run of consistent turns moves the stream forward without a gap. -/
theorem Fed.playAll
    {limits : TcpLimits}
    {closing : Bool}
    {epoch : Nat}
    {key : FlowId}
    {direction : Direction}
    {stream : Bytes}
    {base offset : Int}
    {received : Int → Prop}
    {reassembler : TCPReassembler}
    {turns : List Turn}
    (fed :
      Fed closing epoch key direction stream base received offset
        reassembler)
    (conversation :
      Conversation limits key direction stream base turns reassembler)
    (finAllowed :
      ∀ turn ∈ turns, turn.packet.fin = true → closing = true)
    (finsAtFront : FinsAtFront base received turns) :
    ∃ reached,
      Fed closing epoch key direction stream base
          (fun position => received position ∨ BroughtBy base turns position)
          reached (PacketAudit.playAll limits turns reassembler).state ∧
        Transfers stream offset reached
          (sentChunks direction
            (PacketAudit.playAll limits turns reassembler).events) ∧
        (∀ chunk ∈
            sentChunks direction
              (PacketAudit.playAll limits turns reassembler).events,
          chunk.connectionEpoch = epoch) ∧
        KeepsCounters limits turns reassembler := by
  induction turns generalizing received offset reassembler with
  | nil =>
      refine ⟨offset, ?_, rfl, by simp [PacketAudit.playAll, sentChunks],
        trivial⟩
      exact fed.congr (by simp [BroughtBy])
  | cons turn rest inductionHypothesis =>
      obtain ⟨consistent, near, within, later⟩ := conversation
      obtain ⟨noHole, laterFront⟩ := finsAtFront
      have laterAllowed :
          ∀ turn ∈ rest, turn.packet.fin = true → closing = true :=
        fun other member => finAllowed other (List.mem_cons_of_mem _ member)
      have combine
          {position : Int} :
          (received position ∨ BroughtBy base (turn :: rest) position) ↔
            ((received position ∨ turn.Brings base position) ∨
              BroughtBy base rest position) := by
        simp [BroughtBy, or_assoc]
      have playIs :
          PacketAudit.playAll limits (turn :: rest) reassembler =
            (turn.play limits reassembler).andThen
              (PacketAudit.playAll limits rest) := rfl
      rw [playIs]
      simp only [Outcome.state_andThen, Outcome.events_andThen,
        sentChunks_append]
      cases turn with
      | data clock packet segmentOffset =>
          obtain ⟨middle, fedAfter, transfers, own, gaps, conflicts⟩ :=
            fed.data consistent near within fun fin =>
              ⟨finAllowed _ List.mem_cons_self fin, noHole fin⟩
          obtain ⟨reached, fedLast, laterTransfers, laterOwn, laterKept⟩ :=
            inductionHypothesis fedAfter later laterAllowed laterFront
          have sent :
              sentChunks direction
                  ((Turn.data clock packet segmentOffset).play limits
                    reassembler).events =
                chunks
                  ((Turn.data clock packet segmentOffset).play limits
                    reassembler).events :=
            sentChunks_of_own fun chunk member => (own chunk member).2
          refine ⟨reached, fedLast.congr combine, ?_, ?_,
            ⟨gaps, conflicts⟩, laterKept⟩
          · rw [sent]
            exact transfers.append laterTransfers
          · intro chunk member
            rcases List.mem_append.mp member with now | then_
            · rw [sent] at now
              exact (own chunk now).1
            · exact laterOwn chunk then_
      | reply clock packet =>
          obtain ⟨fedAfter, other⟩ := fed.reply consistent within
          have sameReceived
              {position : Int} :
              (received position ∨
                  (Turn.reply clock packet).Brings base position) ↔
                received position := by
            simp [Turn.Brings]
          obtain ⟨reached, fedLast, laterTransfers, laterOwn, laterKept⟩ :=
            inductionHypothesis (fedAfter.congr sameReceived) later
              laterAllowed laterFront
          have silent :
              sentChunks direction
                  ((Turn.reply clock packet).play limits
                    reassembler).events = [] :=
            sentChunks_of_opposite other
          rw [silent, List.nil_append]
          exact ⟨reached, fedLast.congr combine, laterTransfers, laterOwn,
            trivial, laterKept⟩

/-- When everything was brought, everything was delivered. -/
theorem Fed.offset_eq
    {closing : Bool}
    {epoch : Nat}
    {key : FlowId}
    {direction : Direction}
    {stream : Bytes}
    {base offset : Int}
    {received : Int → Prop}
    {reassembler : TCPReassembler}
    (fed :
      Fed closing epoch key direction stream base received offset
        reassembler)
    (covered :
      ∀ index : Nat, index < stream.length → received (base + index)) :
    offset = stream.length := by
  obtain ⟨known, found, inOrder, -, rfl, -⟩ := fed.exists_state
  have nonnegative := inOrder.nonnegative
  by_contra different
  have short :
      (known.directions direction).streamOffset < stream.length :=
    lt_of_le_of_ne inOrder.within different
  have index :
      (((known.directions direction).streamOffset.toNat : Nat) : Int) =
        (known.directions direction).streamOffset := by
    omega
  have isReceived :=
    covered (known.directions direction).streamOffset.toNat (by omega)
  rw [index, inOrder.receivedIff (by omega)] at isReceived
  rcases isReceived with already | ⟨segment, member, inside⟩
  · exact lt_irrefl _ already
  · exact absurd inside.1 (not_le.mpr (inOrder.blocked segment member))

/-- Without a FIN there is no FIN to overtake a byte. -/
theorem finsAtFront_of_noFin
    {base : Int}
    {received : Int → Prop}
    {turns : List Turn}
    (noFin : ∀ turn ∈ turns, turn.packet.fin = false) :
    FinsAtFront base received turns := by
  induction turns generalizing received with
  | nil => trivial
  | cons turn rest inductionHypothesis =>
      refine ⟨?_, inductionHypothesis fun other member =>
        noFin other (List.mem_cons_of_mem _ member)⟩
      intro fin
      rw [noFin turn List.mem_cons_self] at fin
      cases fin

/-! ## Whole transfers -/

/-- The turns bring every byte of the stream. -/
def CoversStream
    (stream : Bytes)
    (base : Int)
    (turns : List Turn) : Prop :=
  ∀ index < stream.length, BroughtBy base turns (base + (index : Nat))

instance
    (stream : Bytes)
    (base : Int)
    (turns : List Turn) :
    Decidable (CoversStream stream base turns) :=
  inferInstanceAs
    (Decidable
      (∀ index < stream.length,
        ∃ turn ∈ turns, turn.Brings base (base + (index : Nat))))

/-- The chunks are the stream, in order, in one epoch and all complete. -/
structure DeliversStream
    (stream : Bytes)
    (sent : List StreamChunk) : Prop where
  bytes : (sent.map StreamChunk.data).flatten = stream
  transfers : Transfers stream 0 stream.length sent
  oneEpoch : ∃ epoch, ∀ chunk ∈ sent, chunk.connectionEpoch = epoch

/-- A covering family of turns delivers the stream after its SYN. -/
theorem OpensStream.delivers
    {limits : TcpLimits}
    {reassembler : TCPReassembler}
    {syn : ParsedPacket}
    {stream : Bytes}
    {turns : List Turn}
    (wf : reassembler.Wf)
    (opens : OpensStream reassembler syn)
    (clock : Int)
    (conversation :
      Conversation limits syn.flowId syn.flow.2 stream syn.rawPayloadSequence
        turns (reassembler.process limits clock syn).state)
    (finAllowed :
      (∀ turn ∈ turns, turn.packet.fin = false) ∨
        OtherSideOpen reassembler syn)
    (finsAtFront :
      FinsAtFront syn.rawPayloadSequence (fun _ => False) turns)
    (covers : CoversStream stream syn.rawPayloadSequence turns) :
    DeliversStream stream
        (sentChunks syn.flow.2
          (playAll limits turns
            (reassembler.process limits clock syn).state).events) ∧
      KeepsCounters limits turns
        (reassembler.process limits clock syn).state := by
  by_cases closes : ∃ turn ∈ turns, turn.packet.fin = true
  · have otherOpen : OtherSideOpen reassembler syn := by
      obtain ⟨turn, member, fin⟩ := closes
      refine finAllowed.resolve_left fun noFin => ?_
      rw [noFin turn member] at fin
      cases fin
    obtain ⟨epoch, fed⟩ :=
      opens.fed wf true (fun _ => otherOpen) clock stream
    obtain ⟨reached, fedLast, transfers, own, kept⟩ :=
      fed.playAll conversation (fun _ _ _ => rfl) finsAtFront
    obtain rfl :=
      fedLast.offset_eq fun index inside => .inr (covers index inside)
    exact ⟨{
      bytes := by
        rw [transfers.flatten_data (le_refl _), slice_all stream rfl]
      transfers := transfers
      oneEpoch := ⟨epoch, own⟩
    }, kept⟩
  · obtain ⟨epoch, fed⟩ := opens.fed wf false (by simp) clock stream
    obtain ⟨reached, fedLast, transfers, own, kept⟩ :=
      fed.playAll conversation
        (fun turn member fin => (closes ⟨turn, member, fin⟩).elim)
        finsAtFront
    obtain rfl :=
      fedLast.offset_eq fun index inside => .inr (covers index inside)
    exact ⟨{
      bytes := by
        rw [transfers.flatten_data (le_refl _), slice_all stream rfl]
      transfers := transfers
      oneEpoch := ⟨epoch, own⟩
    }, kept⟩

/--
Segments that cover the stream deliver it after the SYN, in any order, with
any repetition and overlap, and without touching the diagnostic counters.
-/
theorem transfer_complete
    (limits : TcpLimits)
    (reassembler : TCPReassembler)
    (reachable : reassembler.Reachable limits)
    (clock : Int)
    (syn : ParsedPacket)
    (opens : OpensStream reassembler syn)
    (stream : Bytes)
    (turns : List Turn)
    (conversation :
      Conversation limits syn.flowId syn.flow.2 stream syn.rawPayloadSequence
        turns (reassembler.process limits clock syn).state)
    (noFin : ∀ turn ∈ turns, turn.packet.fin = false)
    (covers : CoversStream stream syn.rawPayloadSequence turns) :
    let opened := (reassembler.process limits clock syn).state
    DeliversStream stream
        (sentChunks syn.flow.2 (playAll limits turns opened).events) ∧
      KeepsCounters limits turns opened :=
  opens.delivers reachable.wf clock conversation (.inl noFin)
    (finsAtFront_of_noFin noFin) covers

/-- Two bytes, the second one first, the first one twice. -/
def reorderedTurns : List Turn :=
  [.data 0 (sampleSegment 2 101 0x18 [66]) 1,
    .data 0 (sampleSegment 3 100 0x18 [65]) 0,
    .data 0 (sampleSegment 4 100 0x18 [65, 66]) 0]

theorem reorderedTurns_complete :
    let opened :=
      ((TCPReassembler.new 0).process .default 0
        (sampleSegment 1 99 0x02 [])).state
    DeliversStream [65, 66]
        (sentChunks .aToB (playAll .default reorderedTurns opened).events) ∧
      KeepsCounters .default reorderedTurns opened := by
  exact
    transfer_complete .default (.new 0) ⟨0, [], rfl⟩ 0
      (sampleSegment 1 99 0x02 []) (by decide) [65, 66] reorderedTurns
      (by decide) (by decide) (by decide)

/-! ## Transfers that end with a FIN -/

/--
With FINs the stream is still delivered in its one epoch, provided that no FIN
is processed while a byte in front of the received ones is missing.
-/
theorem transfer_complete_with_fin
    (limits : TcpLimits)
    (reassembler : TCPReassembler)
    (reachable : reassembler.Reachable limits)
    (clock : Int)
    (syn : ParsedPacket)
    (opens : OpensStream reassembler syn)
    (otherOpen : OtherSideOpen reassembler syn)
    (stream : Bytes)
    (turns : List Turn)
    (conversation :
      Conversation limits syn.flowId syn.flow.2 stream syn.rawPayloadSequence
        turns (reassembler.process limits clock syn).state)
    (finsAtFront :
      FinsAtFront syn.rawPayloadSequence (fun _ => False) turns)
    (covers : CoversStream stream syn.rawPayloadSequence turns) :
    let opened := (reassembler.process limits clock syn).state
    DeliversStream stream
        (sentChunks syn.flow.2 (playAll limits turns opened).events) ∧
      KeepsCounters limits turns opened :=
  opens.delivers reachable.wf clock conversation (.inr otherOpen)
    finsAtFront covers

/-- Two bytes in order, the second one with a FIN, then the first again. -/
def orderlyClose : List Turn :=
  [.data 0 (sampleSegment 2 100 0x18 [65]) 0,
    .data 0 (sampleSegment 3 101 0x11 [66]) 1,
    .data 0 (sampleSegment 4 100 0x18 [65]) 0]

theorem orderlyClose_complete :
    let opened :=
      ((TCPReassembler.new 0).process .default 0
        (sampleSegment 1 99 0x02 [])).state
    DeliversStream [65, 66]
        (sentChunks .aToB (playAll .default orderlyClose opened).events) ∧
      KeepsCounters .default orderlyClose opened := by
  refine
    transfer_complete_with_fin .default (.new 0) ⟨0, [], rfl⟩ 0
      (sampleSegment 1 99 0x02 []) (by decide) (by decide) [65, 66]
      orderlyClose (by decide) ?_ (by decide)
  have base :
      (sampleSegment 1 99 0x02 []).rawPayloadSequence = 100 := by
    decide
  rw [base]
  refine ⟨fun fin => absurd fin (by decide), fun _ => ?_,
    fun fin => absurd fin (by decide), trivial⟩
  intro first second fromBase before received
  simp only [Turn.Brings, sampleSegment, List.length_singleton, false_or]
    at received ⊢
  omega

/-- The FIN segment with the second byte overtakes the first byte. -/
def overtakingFin : List Turn :=
  [.data 0 (sampleSegment 2 101 0x11 [66]) 1,
    .data 0 (sampleSegment 3 100 0x18 [65]) 0]

/-- The FIN flushes across the hole, and the byte that fills it is lost. -/
theorem overtakingFin_loses_byte :
    let fresh := TCPReassembler.new 0
    let syn := sampleSegment 1 99 0x02 []
    let opened := (fresh.process .default 0 syn).state
    let outcome := playAll .default overtakingFin opened
    OpensStream fresh syn ∧ OtherSideOpen fresh syn ∧
      Conversation .default syn.flowId syn.flow.2 [65, 66]
        syn.rawPayloadSequence overtakingFin opened ∧
      CoversStream [65, 66] syn.rawPayloadSequence overtakingFin ∧
      (sentChunks syn.flow.2 outcome.events).map
          (fun chunk =>
            (chunk.streamOffset, chunk.data, chunk.completeness)) =
        [(1, [66], .gapped)] ∧
      opened.counters.gapBytes = 0 ∧
      outcome.state.counters.gapBytes = 1 := by
  decide

end PacketAudit
