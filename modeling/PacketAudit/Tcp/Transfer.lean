import PacketAudit.Tcp.Delivery

namespace PacketAudit

/-!
# Transfers of one direction

One direction of a connection is fed segments of a byte string in any order,
the other direction arbitrary segments.  Each call is shown once to keep the
in-order invariant of the fed direction; the transfer of the whole string
follows by induction over the calls.
-/

open Library

namespace TCPReassembler

/-! ## The limits a call runs into -/

/-- The direction on which `process` checks the per-direction limits. -/
def checkedDirection
    (limits : TcpLimits)
    (packet : ParsedPacket)
    (view : DirectionView) : DirectionState :=
  match view.direction.nextSeq with
  | none => view.direction
  | some next =>
      let start := payloadStart packet next
      (drain limits packet.flow.1 packet.flow.2 false
        (insertPayload packet.contributingIds packet.timestampNs start next
          packet.transportPayload
          (countConsumedConflict start next packet.transportPayload
            view))).state.direction

/-- A call with a payload to store finds no configured limit exceeded. -/
structure WithinLimits
    (limits : TcpLimits)
    (packet : ParsedPacket)
    (prepared : TCPReassembler) : Prop where
  direction :
    ∀ state ∈ prepared.flows.get? packet.flowId,
      exceedsDirectionLimits limits
          (checkedDirection limits packet
            ⟨state.directions packet.flow.2, prepared.counters⟩) =
        false
  budget :
    (prepared.onDirection packet.flowId packet.flow.2
      (acceptPayload limits packet)).state.overBudget limits = false

instance
    (limits : TcpLimits)
    (packet : ParsedPacket)
    (prepared : TCPReassembler) :
    Decidable (WithinLimits limits packet prepared) :=
  decidable_of_iff (_ ∧ _)
    ⟨fun both => ⟨both.1, both.2⟩, fun within =>
      ⟨within.direction, within.budget⟩⟩

/-! ## Stages that leave a known flow alone -/

variable {limits : TcpLimits} {reassembler : TCPReassembler}

theorem closed_setDirection
    {state : FlowState}
    {direction : Direction}
    {next : DirectionState}
    (same : next.closed = (state.directions direction).closed)
    (other : Direction) :
    ((state.setDirection direction next).directions other).closed =
      (state.directions other).closed := by
  rcases direction.eq_or_eq_opposite other with isSame | isOpposite
  · subst isSame
    rw [FlowState.directions_setDirection_self]
    exact same
  · subst isOpposite
    rw [FlowState.directions_setDirection_opposite]

theorem closed_noted
    (clock : Int)
    (packet : ParsedPacket)
    (state : FlowState)
    (direction : Direction) :
    ((acknowledged packet
        (touched clock packet state)).directions direction).closed =
      (state.directions direction).closed := by
  have own :
      ({ state.directions packet.flow.2 with
        lastSeenNs :=
          max (state.directions packet.flow.2).lastSeenNs
            packet.timestampNs } : DirectionState).closed =
        (state.directions packet.flow.2).closed := rfl
  have seen :
      ((touched clock packet state).directions direction).closed =
        (state.directions direction).closed :=
    closed_setDirection own direction
  rw [← seen]
  unfold acknowledged
  simp only
  split
  case h_1 =>
    split
    case isTrue =>
      refine closed_setDirection ?_ direction
      rfl
    case isFalse => rfl
  case h_2 => rfl

theorem closed_startSequence
    (packet : ParsedPacket)
    (view : DirectionView) :
    (startSequence packet view).state.direction.closed =
      view.direction.closed := by
  cases starts :
      view.direction.nextSeq.isNone &&
        (packet.syn || !packet.transportPayload.isEmpty) with
  | true =>
      obtain ⟨synSeq, started⟩ := startSequence_of_starts view starts
      rw [started]
  | false =>
      obtain ⟨-, -, -, sameClosed⟩ :=
        startSequence_of_not_starts view starts
      exact sameClosed

/-- What the stages before the payload do to a flow they find. -/
structure Prepared
    (packet : ParsedPacket)
    (reassembler : TCPReassembler)
    (known noted : FlowState)
    (outcome : Outcome TCPReassembler TcpEvent) : Prop where
  found : outcome.state.flows.get? packet.flowId = some noted
  counters : outcome.state.counters = reassembler.counters
  silent : chunks outcome.events = []
  sameStream :
    ∀ {direction},
      direction ≠ packet.flow.2 ∨
        (known.directions direction).nextSeq.isSome →
      (known.directions direction).SameStream (noted.directions direction)
  sameClosed :
    ∀ direction,
      (noted.directions direction).closed =
        (known.directions direction).closed

/-- A packet without SYN only annotates the flow it belongs to. -/
theorem prepare_known
    {packet : ParsedPacket}
    {known : FlowState}
    (clock : Int)
    (found : reassembler.flows.get? packet.flowId = some known)
    (noSyn : packet.syn = false) :
    ∃ noted,
      Prepared packet reassembler known noted
        (reassembler.prepare limits clock packet) := by
  have restarts : reassembler.restart limits packet = .quiet reassembler := by
    simp [restart, TCPReassembler.restarts, found, noSyn]
  have enters :
      reassembler.enter limits clock packet =
        .quiet { reassembler with
          flows := reassembler.flows.moveToEnd packet.flowId } := by
    simp [enter, found]
  set annotated := acknowledged packet (touched clock packet known)
    with annotatedIs
  have same : known.SameStreams annotated :=
    (touched_sameStreams clock packet known).trans
      (acknowledged_sameStreams packet _)
  have revises :
      ({ reassembler with
        flows := reassembler.flows.moveToEnd packet.flowId } :
          TCPReassembler).reviseFlow packet.flowId
            (fun state => acknowledged packet (touched clock packet state)) =
        { reassembler with
          flows :=
            (reassembler.flows.moveToEnd packet.flowId).set packet.flowId
              annotated } := by
    simp [reviseFlow, found, annotatedIs]
  have prepared :
      reassembler.prepare limits clock packet =
        ({ reassembler with
          flows :=
            (reassembler.flows.moveToEnd packet.flowId).set packet.flowId
              annotated } : TCPReassembler).onDirection packet.flowId
                packet.flow.2 (startSequence packet) := by
    unfold prepare
    rw [restarts, Outcome.quiet_andThen, enters, Outcome.quiet_andThen,
      revises, Outcome.quiet_andThen]
  have annotatedFound :
      (({ reassembler with
        flows :=
          (reassembler.flows.moveToEnd packet.flowId).set packet.flowId
            annotated } : TCPReassembler).flows.get? packet.flowId) =
        some annotated :=
    OrderedTable.get?_set_self _ _ _
  rw [prepared, onDirection_of_get?_eq_some _ _ annotatedFound]
  refine ⟨_, {
    found := get?_putDirection_self _ _ _ _ _
    counters := rfl
    silent := ?_
    sameStream := ?_
    sameClosed := ?_
  }⟩
  · simp only [startSequence]
    split <;> simp
  · intro direction excluded
    rcases packet.flow.2.eq_or_eq_opposite direction with isOwn | isOpposite
    · subst isOwn
      rw [FlowState.directions_setDirection_self]
      have runs : (annotated.directions packet.flow.2).nextSeq.isSome := by
        rw [same.directions packet.flow.2]
        exact excluded.resolve_left (fun different => different rfl)
      obtain ⟨-, -, started, -⟩ :=
        @startSequence_of_not_starts packet
          ⟨annotated.directions packet.flow.2, reassembler.counters⟩
          (by simp [Option.isNone_iff_eq_none, Option.isSome_iff_ne_none.mp runs])
      exact (same.directions packet.flow.2).trans started
    · subst isOpposite
      rw [FlowState.directions_setDirection_opposite]
      exact same.directions _
  · intro direction
    rw [← closed_noted clock packet known direction, ← annotatedIs]
    exact closed_setDirection (closed_startSequence packet _) direction

/-- Within the budget nothing is evicted. -/
theorem enforceBudget_of_within
    (within : reassembler.overBudget limits = false) :
    reassembler.enforceBudget limits = .quiet reassembler := by
  unfold enforceBudget
  cases reassembler.flows.size with
  | zero => rfl
  | succ fuel => simp [evictWhile, within]

/-- Without FIN and RST a flow that is not closed stays as it is. -/
theorem finish_of_open
    {packet : ParsedPacket}
    {state : FlowState}
    (found : reassembler.flows.get? packet.flowId = some state)
    (live : state.allClosed = false)
    (noFin : packet.fin = false)
    (noRst : packet.rst = false) :
    reassembler.finish limits packet = .quiet reassembler := by
  simp [finish, noFin, noRst, endsConnection, found, live]

/-- A FIN with nothing pending only marks its direction closed. -/
theorem finish_of_fin
    {packet : ParsedPacket}
    {state : FlowState}
    (found : reassembler.flows.get? packet.flowId = some state)
    (flushed : (state.directions packet.flow.2).pending = [])
    (oppositeOpen :
      (state.directions packet.flow.2.opposite).closed = false)
    (fin : packet.fin = true)
    (noRst : packet.rst = false) :
    reassembler.finish limits packet =
      .quiet
        (reassembler.reviseFlow packet.flowId
          (markClosed packet.flow.2)) := by
  have flushQuiet :
      reassembler.onDirection packet.flowId packet.flow.2
          (flushDirection limits packet.flow.1 packet.flow.2) =
        .quiet reassembler := by
    apply onDirection_of_quiet found
    simp [flushDirection, flushLoop, flushed]
  have stays : (markClosed packet.flow.2 state).allClosed = false := by
    unfold markClosed FlowState.allClosed
    cases side : packet.flow.2 with
    | aToB =>
        rw [side] at oppositeOpen
        rw [FlowState.directions_setDirection_of_ne _ _
          (show Direction.bToA ≠ .aToB by decide)]
        exact Bool.and_eq_false_iff.mpr (.inr oppositeOpen)
    | bToA =>
        rw [side] at oppositeOpen
        rw [FlowState.directions_setDirection_of_ne _ _
          (show Direction.aToB ≠ .bToA by decide)]
        exact Bool.and_eq_false_iff.mpr (.inl oppositeOpen)
  have marked :
      (reassembler.reviseFlow packet.flowId
          (markClosed packet.flow.2)).flows.get? packet.flowId =
        some (markClosed packet.flow.2 state) := by
    simp [reviseFlow, found]
  unfold finish
  simp only [fin, Bool.true_or, ↓reduceIte, flushQuiet,
    Outcome.quiet_andThen]
  simp [endsConnection, marked, noRst, stays]

/-! ## The payload of the fed direction -/

/-- Not exceeding the limits, the limit loop of a direction does nothing. -/
theorem enforceDirectionLimits_of_within
    {flow : FlowKey}
    {direction : Direction}
    {view : DirectionView}
    (within : exceedsDirectionLimits limits view.direction = false)
    (fuel : Nat) :
    enforceDirectionLimits limits flow direction fuel view = .quiet view := by
  cases fuel with
  | zero => rfl
  | succ fuel => simp [enforceDirectionLimits, within]

/-- A consistent payload within the limits keeps the delivery in order. -/
theorem acceptPayload_progress
    {stream : Bytes}
    {base start : Int}
    {received : Int → Prop}
    {packet : ParsedPacket}
    {view : DirectionView}
    (inOrder : InOrder stream base received view.direction)
    (wf : view.direction.Wf)
    (starts :
      payloadStart packet (base + view.direction.streamOffset) = start)
    (agrees : Agrees stream base start packet.transportPayload)
    (within :
      packet.transportPayload ≠ [] →
      base + view.direction.streamOffset <
          start + packet.transportPayload.length →
      exceedsDirectionLimits limits (checkedDirection limits packet view) =
        false) :
    InOrder.Progress stream base
      (fun position =>
        received position ∨
          (start ≤ position ∧
            position < start + packet.transportPayload.length))
      view (acceptPayload limits packet view) := by
  have behindProgress
      {outcome : Outcome DirectionView TcpEvent}
      (behind :
        start + (packet.transportPayload.length : Int) ≤
          base + view.direction.streamOffset)
      (sameDirection : outcome.state.direction = view.direction)
      (sameGaps :
        outcome.state.counters.gapBytes = view.counters.gapBytes)
      (sameConflicts :
        outcome.state.counters.overlapConflicts =
          view.counters.overlapConflicts)
      (silent : chunks outcome.events = []) :
      InOrder.Progress stream base
        (fun position =>
          received position ∨
            (start ≤ position ∧
              position < start + packet.transportPayload.length))
        view outcome := {
    inOrder := sameDirection ▸ inOrder.receiveBehind behind
    transfers := by
      rw [silent, sameDirection]
      rfl
    gapBytes := sameGaps
    overlapConflicts := sameConflicts
  }
  by_cases empty : packet.transportPayload.isEmpty
  · have nothing : packet.transportPayload = [] := by simpa using empty
    simp only [acceptPayload, inOrder.expects, empty, ↓reduceIte]
    exact {
      inOrder := inOrder.congr (by
        intro position
        rw [nothing]
        simp only [List.length_nil, Nat.cast_zero, add_zero]
        constructor
        · rintro (old | ⟨lower, upper⟩)
          · exact old
          · omega
        · exact .inl)
      transfers := rfl
      gapBytes := rfl
      overlapConflicts := rfl
    }
  · simp only [acceptPayload, inOrder.expects, empty, Bool.false_eq_true,
      ↓reduceIte]
    split
    case isTrue keepalive =>
      apply behindProgress _ rfl rfl rfl (by simp)
      rw [← starts]
      exact le_of_eq (stop_le_of_isKeepalive keepalive).2
    case isFalse =>
      have sameCounted :
          countConsumedConflict start
              (base + view.direction.streamOffset)
              packet.transportPayload view = view :=
        inOrder.countConsumedConflict_eq agrees
      simp only [arrivalOf, starts, Outcome.andThen]
      by_cases behind :
          start + (packet.transportPayload.length : Int) ≤
            base + view.direction.streamOffset
      · simp only [receivePayload, sameCounted, behind, ↓reduceIte]
        exact behindProgress behind rfl rfl rfl (by simp)
      · simp only [receivePayload, sameCounted, behind, ↓reduceIte]
        have ahead :
            base + view.direction.streamOffset <
              start + packet.transportPayload.length := by
          omega
        have stores :=
          insertPayload_stored packet.contributingIds packet.timestampNs
            ahead view
        rw [sameCounted] at stores
        have storedExpects :
            (insertPayload packet.contributingIds packet.timestampNs start
              (base + view.direction.streamOffset) packet.transportPayload
              view).direction.nextSeq =
              some (base + view.direction.streamOffset) := by
          obtain ⟨additions, -, storedIs, -⟩ := stores.exists_additions
          rw [storedIs]
          exact inOrder.expects
        obtain ⟨ready, blocked, drained⟩ :=
          drain_spec limits packet.flow.1 packet.flow.2 false
            (stores.wf inOrder.expects wf) storedExpects
        have progress :=
          inOrder.store wf agrees stores
            (inOrder.overlapConflicts_insertPayload agrees _ _) drained
        have checks := within (by simpa using empty) ahead
        simp only [checkedDirection, inOrder.expects, starts, sameCounted]
          at checks
        simp only [Outcome.andThen,
          enforceDirectionLimits_of_within checks, Outcome.state_quiet,
          Outcome.events_quiet, List.append_nil]
        exact {
          inOrder := progress.inOrder
          transfers := progress.transfers
          gapBytes := progress.gapBytes
          overlapConflicts := progress.overlapConflicts
        }

end TCPReassembler

/-! ## The turns of a transfer -/

/-- A segment of one direction: the packet's bytes lie at a stream offset. -/
structure CarriesStream
    (stream : Bytes)
    (base : Int)
    (packet : ParsedPacket)
    (offset : Nat) : Prop where
  within : offset + packet.transportPayload.length ≤ stream.length
  bytes :
    packet.transportPayload =
      (stream.drop offset).take packet.transportPayload.length
  sequence : (packet.tcpSeq : Int) = (base + offset) % seqModulus

/-- A packet of the connection, in one direction and without SYN or RST. -/
structure Continues
    (key : FlowId)
    (direction : Direction)
    (packet : ParsedPacket) : Prop where
  flowId : packet.flowId = key
  side : packet.flow.2 = direction
  noSyn : packet.syn = false
  noRst : packet.rst = false

instance
    (stream : Bytes)
    (base : Int)
    (packet : ParsedPacket)
    (offset : Nat) :
    Decidable (CarriesStream stream base packet offset) :=
  decidable_of_iff (_ ∧ _ ∧ _)
    ⟨fun all => ⟨all.1, all.2.1, all.2.2⟩, fun carries =>
      ⟨carries.within, carries.bytes, carries.sequence⟩⟩

instance
    (key : FlowId)
    (direction : Direction)
    (packet : ParsedPacket) :
    Decidable (Continues key direction packet) :=
  decidable_of_iff (_ ∧ _ ∧ _ ∧ _)
    ⟨fun all => ⟨all.1, all.2.1, all.2.2.1, all.2.2.2⟩, fun continues =>
      ⟨continues.flowId, continues.side, continues.noSyn, continues.noRst⟩⟩

/-- One packet of a transfer. -/
inductive Turn where
  | data (clock : Int) (packet : ParsedPacket) (offset : Nat)
  | reply (clock : Int) (packet : ParsedPacket)

namespace Turn

/-- The packet of a turn. -/
def packet : Turn → ParsedPacket
  | data _ packet _ => packet
  | reply _ packet => packet

/-- The clock reading of a turn. -/
def clock : Turn → Int
  | data clock _ _ => clock
  | reply clock _ => clock

/-- Process the packet of a turn. -/
def play
    (limits : TcpLimits)
    (turn : Turn)
    (reassembler : TCPReassembler) : Outcome TCPReassembler TcpEvent :=
  reassembler.process limits turn.clock turn.packet

/-- The positions of the fed direction that a turn brings. -/
def Brings (base : Int) : Turn → Int → Prop
  | data _ packet offset, position =>
      base + offset ≤ position ∧
        position < base + offset + packet.transportPayload.length
  | reply _ _, _ => False

/--
The turn is a segment of the fed direction that agrees with the stream, or a
packet of the other direction without FIN.
-/
def Consistent
    (key : FlowId)
    (direction : Direction)
    (stream : Bytes)
    (base : Int) : Turn → Prop
  | data _ packet offset =>
      Continues key direction packet ∧
        TCPReassembler.accepts packet = true ∧
        CarriesStream stream base packet offset
  | reply _ packet =>
      Continues key direction.opposite packet ∧ packet.fin = false

/-- The segment's true start is near the `next_seq` it finds. -/
def Near
    (key : FlowId)
    (direction : Direction)
    (base : Int)
    (reassembler : TCPReassembler) : Turn → Prop
  | data _ _ offset =>
      ∀ state ∈ reassembler.flows.get? key,
        ∀ next ∈ (state.directions direction).nextSeq,
          next - seqHalf < base + offset ∧ base + offset < next + seqHalf
  | reply _ _ => True

/-- No configured limit is exceeded in the turn. -/
def WithinLimits
    (limits : TcpLimits)
    (reassembler : TCPReassembler)
    (turn : Turn) : Prop :=
  let prepared :=
    (reassembler.prepare limits turn.clock turn.packet).state
  prepared.storesPayload turn.packet = true →
    TCPReassembler.WithinLimits limits turn.packet prepared

instance
    (base : Int)
    (turn : Turn)
    (position : Int) : Decidable (turn.Brings base position) :=
  match turn with
  | data _ _ _ => inferInstanceAs (Decidable (_ ∧ _))
  | reply _ _ => inferInstanceAs (Decidable False)

instance
    (key : FlowId)
    (direction : Direction)
    (stream : Bytes)
    (base : Int)
    (turn : Turn) :
    Decidable (turn.Consistent key direction stream base) :=
  match turn with
  | data _ _ _ => inferInstanceAs (Decidable (_ ∧ _ ∧ _))
  | reply _ _ => inferInstanceAs (Decidable (_ ∧ _))

instance
    (key : FlowId)
    (direction : Direction)
    (base : Int)
    (reassembler : TCPReassembler)
    (turn : Turn) :
    Decidable (turn.Near key direction base reassembler) :=
  match turn with
  | data _ _ offset =>
      inferInstanceAs
        (Decidable
          (∀ state ∈ reassembler.flows.get? key,
            ∀ next ∈ (state.directions direction).nextSeq,
              next - seqHalf < base + offset ∧
                base + offset < next + seqHalf))
  | reply _ _ => inferInstanceAs (Decidable True)

instance
    (limits : TcpLimits)
    (reassembler : TCPReassembler)
    (turn : Turn) :
    Decidable (turn.WithinLimits limits reassembler) :=
  inferInstanceAs (Decidable (_ → _))

end Turn

/-- Play a list of turns. -/
def playAll
    (limits : TcpLimits)
    (turns : List Turn)
    (reassembler : TCPReassembler) : Outcome TCPReassembler TcpEvent :=
  runAll (Turn.play limits) turns reassembler

/-- Every turn of a transfer is consistent, near and within the limits. -/
def Conversation
    (limits : TcpLimits)
    (key : FlowId)
    (direction : Direction)
    (stream : Bytes)
    (base : Int) :
    List Turn → TCPReassembler → Prop
  | [], _ => True
  | turn :: rest, reassembler =>
      turn.Consistent key direction stream base ∧
        turn.Near key direction base reassembler ∧
        turn.WithinLimits limits reassembler ∧
        Conversation limits key direction stream base rest
          (turn.play limits reassembler).state

instance decidableConversation
    (limits : TcpLimits)
    (key : FlowId)
    (direction : Direction)
    (stream : Bytes)
    (base : Int) :
    (turns : List Turn) →
    (reassembler : TCPReassembler) →
    Decidable
      (Conversation limits key direction stream base turns reassembler)
  | [], _ => inferInstanceAs (Decidable True)
  | turn :: rest, reassembler =>
      have := decidableConversation limits key direction stream base rest
        (turn.play limits reassembler).state
      inferInstanceAs (Decidable (_ ∧ _ ∧ _ ∧ _))

/-- Nothing is missing in front of a position that was received. -/
def NoHole (base : Int) (received : Int → Prop) : Prop :=
  ∀ first second,
    base ≤ first → first ≤ second → received second → received first

/-- Whenever a FIN is processed, the bytes received so far have no hole. -/
def FinsAtFront (base : Int) : (Int → Prop) → List Turn → Prop
  | _, [] => True
  | received, turn :: rest =>
      let after := fun position => received position ∨ turn.Brings base position
      (turn.packet.fin = true → NoHole base after) ∧
        FinsAtFront base after rest

/-- The chunks emitted for one direction. -/
def sentChunks
    (direction : Direction)
    (events : List TcpEvent) : List StreamChunk :=
  (chunks events).filter fun chunk => chunk.direction = direction

@[simp] theorem sentChunks_append
    (direction : Direction)
    (first second : List TcpEvent) :
    sentChunks direction (first ++ second) =
      sentChunks direction first ++ sentChunks direction second := by
  simp [sentChunks]

theorem sentChunks_of_own
    {direction : Direction}
    {events : List TcpEvent}
    (own : ∀ chunk ∈ chunks events, chunk.direction = direction) :
    sentChunks direction events = chunks events :=
  List.filter_eq_self.mpr fun chunk member => by
    simpa using own chunk member

theorem sentChunks_of_opposite
    {direction : Direction}
    {events : List TcpEvent}
    (other : ∀ chunk ∈ chunks events, chunk.direction = direction.opposite) :
    sentChunks direction events = [] := by
  rw [sentChunks, List.filter_eq_nil_iff]
  intro chunk member
  simp [other chunk member]

/-- A segment of the stream agrees with it wherever it lies. -/
theorem CarriesStream.agrees
    {stream : Bytes}
    {base : Int}
    {packet : ParsedPacket}
    {offset : Nat}
    (carries : CarriesStream stream base packet offset) :
    Agrees stream base (base + offset) packet.transportPayload := by
  intro position byte held
  rw [carries.bytes] at held
  unfold valueAt at held ⊢
  split at held
  case isTrue fromStart =>
    have fromBase : base ≤ position := by omega
    have index :
        offset + (position - (base + (offset : Int))).toNat =
          (position - base).toNat := by
      omega
    obtain ⟨inside, -⟩ := List.getElem?_eq_some_iff.mp held
    rw [List.length_take] at inside
    rw [List.getElem?_take_of_lt (by omega), List.getElem?_drop, index]
      at held
    rw [if_pos fromBase]
    exact held
  case isFalse => cases held

/-- A near segment is unwrapped to its true start. -/
theorem CarriesStream.payloadStart_eq
    {stream : Bytes}
    {base next : Int}
    {packet : ParsedPacket}
    {offset : Nat}
    (carries : CarriesStream stream base packet offset)
    (noSyn : packet.syn = false)
    (lower : next - seqHalf < base + offset)
    (upper : base + offset < next + seqHalf) :
    TCPReassembler.payloadStart packet next = base + offset := by
  have raw :
      packet.rawPayloadSequence = (base + offset) % seqModulus := by
    unfold ParsedPacket.rawPayloadSequence
    rw [noSyn, carries.sequence]
    simp
  rw [TCPReassembler.payloadStart, raw]
  exact unwrapSequence_of_near lower upper

/-! ## What one turn does -/

/-- A recognised keepalive carries neither FIN nor RST. -/
theorem flags_of_returnsEarly
    {packet : ParsedPacket}
    {reassembler : TCPReassembler}
    (early : reassembler.returnsEarly packet = true) :
    packet.fin = false ∧ packet.rst = false := by
  unfold TCPReassembler.returnsEarly at early
  split at early
  · cases early
  · split at early
    · cases early
    · simp only [TCPReassembler.arrivalOf, TCPReassembler.isKeepalive,
        Bool.and_eq_true, Bool.not_eq_true'] at early
      exact ⟨early.2.1.1.1.2, early.2.1.1.2⟩

/-- Within the limits a call only accepts the payload and handles the flags. -/
theorem process_within
    {limits : TcpLimits}
    {reassembler : TCPReassembler}
    {packet : ParsedPacket}
    {known : FlowState}
    (wf : reassembler.Wf)
    (clock : Int)
    (found : reassembler.flows.get? packet.flowId = some known)
    (noSyn : packet.syn = false)
    (accepts : TCPReassembler.accepts packet = true)
    (within :
      (reassembler.prepare limits clock packet).state.storesPayload packet =
          true →
        TCPReassembler.WithinLimits limits packet
          (reassembler.prepare limits clock packet).state) :
    reassembler.process limits clock packet =
      (reassembler.prepare limits clock packet).andThen fun prepared =>
        (prepared.onDirection packet.flowId packet.flow.2
          (TCPReassembler.acceptPayload limits packet)).andThen
            (TCPReassembler.finish limits packet) := by
  obtain ⟨noted, prepared⟩ :
      ∃ noted,
        TCPReassembler.Prepared packet reassembler known noted
          (reassembler.prepare limits clock packet) :=
    TCPReassembler.prepare_known clock found noSyn
  have preparedWf : (reassembler.prepare limits clock packet).state.Wf :=
    (TCPReassembler.prepare_performs wf clock packet).wf wf
  unfold TCPReassembler.process TCPReassembler.processTcp
  rw [if_pos accepts]
  apply Outcome.andThen_congr
  set state := (reassembler.prepare limits clock packet).state
  have acceptedWf :
      (state.onDirection packet.flowId packet.flow.2
        (TCPReassembler.acceptPayload limits packet)).state.Wf :=
    TCPReassembler.wf_acceptPayload preparedWf packet
  simp only
  split
  case isTrue early =>
    obtain ⟨noFin, noRst⟩ := flags_of_returnsEarly early
    have acceptedFound :
        ∃ accepted,
          (state.onDirection packet.flowId packet.flow.2
            (TCPReassembler.acceptPayload limits
              packet)).state.flows.get? packet.flowId = some accepted := by
      rw [TCPReassembler.onDirection_of_get?_eq_some _ _ prepared.found]
      exact ⟨_, TCPReassembler.get?_putDirection_self _ _ _ _ _⟩
    obtain ⟨accepted, acceptedIs⟩ := acceptedFound
    simp [Outcome.andThen,
      TCPReassembler.finish_of_open acceptedIs (acceptedWf.live acceptedIs)
        noFin noRst]
  case isFalse =>
    split
    case isTrue stores =>
      rw [Outcome.andThen_assoc]
      apply Outcome.andThen_congr
      rw [TCPReassembler.enforceBudget_of_within (within stores).budget,
        Outcome.quiet_andThen]
    case isFalse => rfl

/-- The fed direction of a flow is in order up to an offset in its epoch. -/
structure Fed
    (closing : Bool)
    (epoch : Nat)
    (key : FlowId)
    (direction : Direction)
    (stream : Bytes)
    (base : Int)
    (received : Int → Prop)
    (offset : Int)
    (reassembler : TCPReassembler) : Prop where
  wf : reassembler.Wf
  exists_state :
    ∃ known,
      reassembler.flows.get? key = some known ∧
        InOrder stream base received (known.directions direction) ∧
        (known.directions direction).connectionEpoch = epoch ∧
        (known.directions direction).streamOffset = offset ∧
        (closing = true →
          (known.directions direction.opposite).closed = false)

section Turns

variable
  {limits : TcpLimits}
  {closing : Bool}
  {epoch : Nat}
  {key : FlowId}
  {direction : Direction}
  {stream : Bytes}
  {base offset : Int}
  {received : Int → Prop}
  {reassembler : TCPReassembler}

/-- With no hole in what was received, nothing is pending. -/
theorem InOrder.pending_eq_nil
    {state : DirectionState}
    (inOrder : InOrder stream base received state)
    (wf : state.Wf)
    (noHole : NoHole base received) :
    state.pending = [] := by
  cases pendingIs : state.pending with
  | nil => rfl
  | cons first rest =>
      exfalso
      have member : first ∈ state.pending := by simp [pendingIs]
      have behind := inOrder.blocked first member
      have forward := Segment.start_lt_stop (wf.solid first member)
      have fromBase : base ≤ base + state.streamOffset := by
        have := inOrder.nonnegative
        omega
      have firstReceived : received first.start :=
        (inOrder.receivedIff (by omega)).mpr
          (.inr ⟨first, member, le_refl _, forward⟩)
      have hole :=
        (inOrder.receivedIff fromBase).mp
          (noHole _ _ fromBase behind.le firstReceived)
      rcases hole with already | ⟨segment, segmentMember, inside⟩
      · exact lt_irrefl _ already
      · have := inOrder.blocked segment segmentMember
        exact absurd inside.1 (not_le.mpr this)

/-- A segment of the stream takes the fed direction forward. -/
theorem Fed.data
    {clock : Int}
    {packet : ParsedPacket}
    {segmentOffset : Nat}
    (fed :
      Fed closing epoch key direction stream base received offset reassembler)
    (consistent :
      (Turn.data clock packet segmentOffset).Consistent key direction stream
        base)
    (near :
      (Turn.data clock packet segmentOffset).Near key direction base
        reassembler)
    (within :
      (Turn.data clock packet segmentOffset).WithinLimits limits reassembler)
    (finAllowed :
      packet.fin = true →
        closing = true ∧
          NoHole base fun position =>
            received position ∨
              (Turn.data clock packet segmentOffset).Brings base position) :
    ∃ reached,
      Fed closing epoch key direction stream base
          (fun position =>
            received position ∨
              (Turn.data clock packet segmentOffset).Brings base position)
          reached (reassembler.process limits clock packet).state ∧
        Transfers stream offset reached
          (chunks (reassembler.process limits clock packet).events) ∧
        (∀ chunk ∈
            chunks (reassembler.process limits clock packet).events,
          chunk.connectionEpoch = epoch ∧ chunk.direction = direction) ∧
        (reassembler.process limits clock packet).state.counters.gapBytes =
          reassembler.counters.gapBytes ∧
        (reassembler.process limits
            clock packet).state.counters.overlapConflicts =
          reassembler.counters.overlapConflicts := by
  obtain ⟨continues, accepts, carries⟩ := consistent
  obtain ⟨known, found, inOrder, epochIs, offsetIs, oppositeOpen⟩ :=
    fed.exists_state
  obtain ⟨rfl, rfl, noSyn, noRst⟩ := continues
  obtain ⟨noted, prepared⟩ :
      ∃ noted,
        TCPReassembler.Prepared packet reassembler known noted
          (reassembler.prepare limits clock packet) :=
    TCPReassembler.prepare_known clock found noSyn
  have processIs :=
    process_within fed.wf clock found noSyn accepts within
  have preparedWf : (reassembler.prepare limits clock packet).state.Wf :=
    (TCPReassembler.prepare_performs fed.wf clock packet).wf fed.wf
  have runs : (known.directions packet.flow.2).nextSeq.isSome := by
    rw [inOrder.expects]
    rfl
  have sameStream := prepared.sameStream (.inr runs)
  have notedInOrder := inOrder.sameStream sameStream
  have notedOffset :
      (noted.directions packet.flow.2).streamOffset = offset := by
    rw [sameStream]
    exact offsetIs
  have starts :
      TCPReassembler.payloadStart packet
          (base + (noted.directions packet.flow.2).streamOffset) =
        base + segmentOffset := by
    obtain ⟨lower, upper⟩ := near known found _ inOrder.expects
    rw [notedOffset, ← offsetIs]
    exact carries.payloadStart_eq noSyn lower upper
  set state := (reassembler.prepare limits clock packet).state with stateIs
  have notedFound : state.flows.get? packet.flowId = some noted :=
    prepared.found
  have stores
      (nonempty : packet.transportPayload ≠ [])
      (ahead :
        base + (noted.directions packet.flow.2).streamOffset <
          base + segmentOffset + packet.transportPayload.length) :
      state.storesPayload packet = true := by
    simp [TCPReassembler.storesPayload, notedFound, notedInOrder.expects,
      starts, nonempty, ahead]
  set result :=
    TCPReassembler.acceptPayload limits packet
      ⟨noted.directions packet.flow.2, state.counters⟩ with resultIs
  have progress :
      InOrder.Progress stream base _
        ⟨noted.directions packet.flow.2, state.counters⟩ result :=
    TCPReassembler.acceptPayload_progress notedInOrder
      (preparedWf.directions notedFound packet.flow.2) starts carries.agrees
      (fun nonempty ahead =>
        (within (stores nonempty ahead)).direction noted notedFound)
  have acceptedIs :=
    TCPReassembler.onDirection_of_get?_eq_some packet.flow.2
      (TCPReassembler.acceptPayload limits packet) notedFound
  rw [← resultIs] at acceptedIs
  have acceptedWf :=
    @TCPReassembler.wf_acceptPayload limits _ preparedWf packet
  rw [acceptedIs] at acceptedWf
  have notedWf := preparedWf.directions notedFound packet.flow.2
  have resultFollows :
      result.FollowsFrom (DirectionStep limits packet.flow.1 packet.flow.2)
        ⟨noted.directions packet.flow.2, state.counters⟩ :=
    TCPReassembler.acceptPayload_follows packet notedWf
  have notedEpoch :
      (noted.directions packet.flow.2).connectionEpoch = epoch := by
    rw [sameStream]
    exact epochIs
  have resultEpoch :
      result.state.direction.connectionEpoch = epoch :=
    (facts_of_follows resultFollows notedWf).epoch.trans notedEpoch
  have ownChunks :
      ∀ chunk ∈ chunks result.events,
        chunk.connectionEpoch = epoch ∧ chunk.direction = packet.flow.2 := by
    rw [← notedEpoch]
    exact fun chunk member =>
      (ownChunks_of_follows resultFollows notedWf chunk member).2
  set accepted :=
    state.putDirection packet.flowId noted packet.flow.2 result.state
    with acceptedStateIs
  have acceptedFound :
      accepted.flows.get? packet.flowId =
        some (noted.setDirection packet.flow.2 result.state.direction) :=
    TCPReassembler.get?_putDirection_self _ _ _ _ _
  have oppositeSame :
      ((noted.setDirection packet.flow.2
          result.state.direction).directions packet.flow.2.opposite).closed =
        (known.directions packet.flow.2.opposite).closed := by
    rw [FlowState.directions_setDirection_opposite, prepared.sameClosed]
  have ownIs :
      (noted.setDirection packet.flow.2
          result.state.direction).directions packet.flow.2 =
        result.state.direction :=
    FlowState.directions_setDirection_self _ _ _
  have eventsAre :
      chunks (reassembler.process limits clock packet).events =
        chunks result.events ++
          chunks (accepted.finish limits packet).events := by
    rw [processIs]
    simp only [Outcome.events_andThen, chunks_append, prepared.silent,
      List.nil_append, ← stateIs, acceptedIs]
  have stateAfter :
      (reassembler.process limits clock packet).state =
        (accepted.finish limits packet).state := by
    rw [processIs]
    simp only [Outcome.state_andThen, ← stateIs, acceptedIs]
  have gapsKept :
      accepted.counters.gapBytes = reassembler.counters.gapBytes := by
    rw [← prepared.counters]
    exact progress.gapBytes
  have conflictsKept :
      accepted.counters.overlapConflicts =
        reassembler.counters.overlapConflicts := by
    rw [← prepared.counters]
    exact progress.overlapConflicts
  have transfers := progress.transfers
  simp only [notedOffset] at transfers
  have processWf :
      (reassembler.process limits clock packet).state.Wf :=
    (TCPReassembler.process_performs fed.wf clock packet).wf fed.wf
  refine ⟨result.state.direction.streamOffset, ?_⟩
  rw [eventsAre, stateAfter]
  cases fin : packet.fin with
  | false =>
      rw [TCPReassembler.finish_of_open acceptedFound
        (acceptedWf.live acceptedFound) fin noRst]
      refine ⟨{
        wf := acceptedWf
        exists_state := ⟨_, acceptedFound, ?_, ?_, ?_, ?_⟩
      }, ?_, ?_, gapsKept, conflictsKept⟩
      · rw [ownIs]
        exact progress.inOrder
      · rw [ownIs]
        exact resultEpoch
      · rw [ownIs]
      · rw [oppositeSame]
        exact oppositeOpen
      · simpa using transfers
      · simpa using ownChunks
  | true =>
      obtain ⟨isClosing, noHole⟩ := finAllowed fin
      have flushed :
          ((noted.setDirection packet.flow.2
            result.state.direction).directions packet.flow.2).pending =
            [] := by
        have ownWf := acceptedWf.directions acceptedFound packet.flow.2
        rw [ownIs] at ownWf ⊢
        exact progress.inOrder.pending_eq_nil ownWf noHole
      rw [TCPReassembler.finish_of_fin acceptedFound flushed
        (oppositeSame.trans (oppositeOpen isClosing)) fin noRst]
      have marked :
          (accepted.reviseFlow packet.flowId
              (TCPReassembler.markClosed packet.flow.2)).flows.get?
            packet.flowId =
            some
              (TCPReassembler.markClosed packet.flow.2
                (noted.setDirection packet.flow.2
                  result.state.direction)) := by
        simp [TCPReassembler.reviseFlow, acceptedFound]
      have markedStreams :
          (noted.setDirection packet.flow.2 result.state.direction).SameStreams
            (TCPReassembler.markClosed packet.flow.2
              (noted.setDirection packet.flow.2 result.state.direction)) :=
        TCPReassembler.markClosed_sameStreams packet.flow.2 _
      have markedOwn := markedStreams.directions packet.flow.2
      rw [ownIs] at markedOwn
      have markedCounters :
          (accepted.reviseFlow packet.flowId
            (TCPReassembler.markClosed packet.flow.2)).counters =
            accepted.counters := by
        simp [TCPReassembler.reviseFlow, acceptedFound]
      rw [stateAfter, TCPReassembler.finish_of_fin acceptedFound flushed
        (oppositeSame.trans (oppositeOpen isClosing)) fin noRst] at processWf
      simp only [Outcome.state_quiet, Outcome.events_quiet, chunks_nil,
        List.append_nil, markedCounters]
      refine ⟨{
        wf := processWf
        exists_state := ⟨_, marked, ?_, ?_, ?_, ?_⟩
      }, transfers, ownChunks, gapsKept, conflictsKept⟩
      · exact progress.inOrder.sameStream markedOwn
      · rw [markedOwn]
        exact resultEpoch
      · rw [markedOwn]
      · intro _
        unfold TCPReassembler.markClosed
        rw [FlowState.directions_setDirection_opposite, oppositeSame]
        exact oppositeOpen isClosing

/-- A packet of the other direction leaves the fed direction alone. -/
theorem Fed.reply
    {clock : Int}
    {packet : ParsedPacket}
    (fed :
      Fed closing epoch key direction stream base received offset reassembler)
    (consistent :
      (Turn.reply clock packet).Consistent key direction stream base)
    (within : (Turn.reply clock packet).WithinLimits limits reassembler) :
    Fed closing epoch key direction stream base received offset
        (reassembler.process limits clock packet).state ∧
      ∀ chunk ∈ chunks (reassembler.process limits clock packet).events,
        chunk.direction = direction.opposite := by
  obtain ⟨⟨rfl, side, noSyn, noRst⟩, noFin⟩ := consistent
  obtain ⟨known, found, inOrder, epochIs, offsetIs, oppositeOpen⟩ :=
    fed.exists_state
  have processWf :
      (reassembler.process limits clock packet).state.Wf :=
    (TCPReassembler.process_performs fed.wf clock packet).wf fed.wf
  by_cases accepts : TCPReassembler.accepts packet = true
  · obtain ⟨noted, prepared⟩ :
        ∃ noted,
          TCPReassembler.Prepared packet reassembler known noted
            (reassembler.prepare limits clock packet) :=
      TCPReassembler.prepare_known clock found noSyn
    have processIs :=
      process_within fed.wf clock found noSyn accepts within
    have preparedWf :
        (reassembler.prepare limits clock packet).state.Wf :=
      (TCPReassembler.prepare_performs fed.wf clock packet).wf fed.wf
    set state := (reassembler.prepare limits clock packet).state with stateIs
    have notedFound : state.flows.get? packet.flowId = some noted :=
      prepared.found
    have different : direction ≠ packet.flow.2 := by
      rw [side]
      exact direction.ne_opposite
    have sameStream := prepared.sameStream (.inl different)
    set result :=
      TCPReassembler.acceptPayload limits packet
        ⟨noted.directions packet.flow.2, state.counters⟩ with resultIs
    have acceptedIs :=
      TCPReassembler.onDirection_of_get?_eq_some packet.flow.2
        (TCPReassembler.acceptPayload limits packet) notedFound
    rw [← resultIs] at acceptedIs
    have acceptFollows :
        result.FollowsFrom
          (DirectionStep limits packet.flow.1 packet.flow.2)
          ⟨noted.directions packet.flow.2, state.counters⟩ :=
      TCPReassembler.acceptPayload_follows packet
        (preparedWf.directions notedFound packet.flow.2)
    have acceptedFound :
        (state.putDirection packet.flowId noted packet.flow.2
          result.state).flows.get? packet.flowId =
          some (noted.setDirection packet.flow.2 result.state.direction) :=
      TCPReassembler.get?_putDirection_self _ _ _ _ _
    have acceptedWf :
        (state.putDirection packet.flowId noted packet.flow.2
          result.state).Wf := by
      have reached :=
        @TCPReassembler.wf_acceptPayload limits _ preparedWf packet
      rwa [acceptedIs] at reached
    have finishIs :
        (state.putDirection packet.flowId noted packet.flow.2
          result.state).finish limits packet =
          .quiet
            (state.putDirection packet.flowId noted packet.flow.2
              result.state) :=
      TCPReassembler.finish_of_open acceptedFound
        (acceptedWf.live acceptedFound) noFin noRst
    have stateAfter :
        (reassembler.process limits clock packet).state =
          state.putDirection packet.flowId noted packet.flow.2
            result.state := by
      rw [processIs]
      simp only [Outcome.state_andThen, ← stateIs, acceptedIs, finishIs,
        Outcome.state_quiet]
    have eventsAre :
        chunks (reassembler.process limits clock packet).events =
          chunks result.events := by
      rw [processIs]
      simp only [Outcome.events_andThen, chunks_append, prepared.silent,
        List.nil_append, ← stateIs, acceptedIs, finishIs,
        Outcome.events_quiet, List.append_nil]
    have ownIs :
        (noted.setDirection packet.flow.2
            result.state.direction).directions direction =
          noted.directions direction :=
      FlowState.directions_setDirection_of_ne _ _ different
    refine ⟨{
      wf := processWf
      exists_state := ?_
    }, ?_⟩
    · rw [stateAfter]
      refine ⟨_, acceptedFound, ?_, ?_, ?_, ?_⟩
      · rw [ownIs]
        exact inOrder.sameStream sameStream
      · rw [ownIs, sameStream]
        exact epochIs
      · rw [ownIs, sameStream]
        exact offsetIs
      · intro isClosing
        rw [← side, FlowState.directions_setDirection_self,
          (facts_of_follows acceptFollows
            (preparedWf.directions notedFound packet.flow.2)).closed]
        rw [prepared.sameClosed, side]
        exact oppositeOpen isClosing
    · rw [eventsAre, ← side]
      intro chunk member
      exact
        (ownChunks_of_follows acceptFollows
          (preparedWf.directions notedFound packet.flow.2) chunk member).2.2
  · have ignored :
        reassembler.process limits clock packet = .quiet reassembler := by
      simp [TCPReassembler.process, accepts]
    rw [ignored]
    exact ⟨fed, by simp⟩

end Turns

end PacketAudit
