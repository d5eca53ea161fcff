import PacketAudit.Tcp.Outputs

namespace PacketAudit

/-!
# Conservation of bytes

Every accepted payload byte is in exactly one of three accounts: emitted,
buffered or counted as retransmitted.  One balance for the steps of a
direction gives the balance of every run.
-/

open Library

/-- The bytes of a payload that is not a recognised keepalive. -/
def Arrival.acceptedBytes (arrival : Arrival) : Int :=
  if arrival.keepalive then 0 else arrival.data.length

/-- The bytes of all payloads received that are not keepalives. -/
def arrivedBytes (events : List TcpEvent) : Int :=
  ((arrivals events).map Arrival.acceptedBytes).sum

@[simp] theorem arrivedBytes_append (first second : List TcpEvent) :
    arrivedBytes (first ++ second) =
      arrivedBytes first + arrivedBytes second := by
  simp [arrivedBytes]

@[simp] theorem arrivedBytes_nil : arrivedBytes [] = 0 := rfl

@[simp] theorem arrivedBytes_singleton (event : TcpEvent) :
    arrivedBytes [event] =
      (event.arrival?.map Arrival.acceptedBytes).getD 0 := by
  cases event <;> simp [arrivedBytes]

/-! ## The balance of one step -/

/-- What enters the accounts of a direction and what leaves them. -/
structure Balanced
    (before after : DirectionView)
    (events : List TcpEvent) : Prop where
  bytes :
    after.counters.bufferedBytes + after.counters.retransmittedBytes +
        emittedBytes events =
      before.counters.bufferedBytes + before.counters.retransmittedBytes +
        arrivedBytes events
  gaps :
    after.counters.gapBytes =
      before.counters.gapBytes + skippedBytes events
  offset :
    after.direction.streamOffset =
      before.direction.streamOffset + emittedBytes events +
        skippedBytes events

theorem countConsumedConflict_balance
    (start next : Int)
    (payload : Bytes)
    (view : DirectionView) :
    let counted := (countConsumedConflict start next payload view).counters
    counted.bufferedBytes = view.counters.bufferedBytes ∧
      counted.retransmittedBytes = view.counters.retransmittedBytes ∧
      counted.gapBytes = view.counters.gapBytes := by
  unfold countConsumedConflict
  split <;> exact ⟨rfl, rfl, rfl⟩

/-- Every step of a direction is balanced. -/
theorem DirectionStep.balanced
    {limits : TcpLimits}
    {flow : FlowKey}
    {direction : Direction}
    {before after : DirectionView}
    {events : List TcpEvent}
    (step : DirectionStep limits flow direction before events after)
    (wf : before.direction.Wf) :
    Balanced before after events := by
  cases step with
  | start sequence midstream synSeq idle lower upper =>
      exact {
        bytes := by simp
        gaps := by simp
        offset := by simp
      }
  | probe arrival arrives keepalive behind =>
      exact {
        bytes := by simp [Arrival.acceptedBytes, keepalive]
        gaps := by simp
        offset := by simp
      }
  | repetition arrival arrives notKeepalive behind =>
      obtain ⟨buffered, retransmitted, gaps⟩ :=
        countConsumedConflict_balance arrival.start arrival.nextSeq
          arrival.data before
      refine {
        bytes := ?_
        gaps := ?_
        offset := ?_
      }
      · simp [countRetransmission, buffered, retransmitted,
          Arrival.acceptedBytes, notKeepalive]
        ring
      · simp [countRetransmission, gaps]
      · simp [countRetransmission]
  | store arrival timestampNs arrives notKeepalive reaches =>
      have stored :=
        insertPayload_stored arrival.packetIds timestampNs reaches before
      obtain ⟨additions, -, directionIs, buffered, -, retransmitted⟩ :=
        stored.exists_additions
      refine {
        bytes := ?_
        gaps := ?_
        offset := ?_
      }
      · rw [buffered, retransmitted]
        simp [Arrival.acceptedBytes, notKeepalive]
        ring
      · rw [stored.gapBytes]
        simp
      · rw [directionIs]
        simp
  | drain forcedGap label =>
      cases expects : before.direction.nextSeq with
      | none =>
          rw [drain_idle limits flow direction forcedGap expects]
          exact {
            bytes := by simp
            gaps := by simp
            offset := by simp
          }
      | some next =>
          obtain ⟨ready, blocked, drained⟩ :=
            drain_spec limits flow direction forcedGap wf expects
          have emitted :
              emittedBytes
                  ((PacketAudit.drain limits flow direction forcedGap
                    before).events.map (TcpEvent.relabel label)) =
                totalLength ready ∧
              arrivedBytes
                  ((PacketAudit.drain limits flow direction forcedGap
                    before).events.map (TcpEvent.relabel label)) = 0 ∧
              skippedBytes
                  ((PacketAudit.drain limits flow direction forcedGap
                    before).events.map (TcpEvent.relabel label)) = 0 := by
            by_cases noneReady : ready = []
            · rw [drained.silent noneReady, noneReady]
              exact ⟨rfl, rfl, rfl⟩
            · obtain ⟨chunk, eventsAre, -, -, -, -, dataIs, -⟩ :=
                drained.emits noneReady
              have lengthIs : chunk.data.length = totalLength ready := by
                rw [dataIs, length_flatten_data]
              rw [eventsAre]
              refine ⟨?_, rfl, rfl⟩
              simp [TcpEvent.relabel, lengthIs]
          obtain ⟨emitted, arrived, skipped⟩ := emitted
          refine {
            bytes := ?_
            gaps := ?_
            offset := ?_
          }
          · rw [emitted, arrived, drained.countersAfter]
            simp only
            ring
          · rw [skipped, drained.countersAfter]
            simp
          · rw [emitted, skipped, drained.directionAfter]
            simp
  | gap expects pending hole =>
      exact {
        bytes := by simp [skipGap]
        gaps := by simp [skipGap]
        offset := by simp [skipGap]
      }

/-! ## The balance of every direction -/

/-- The stream offset accounts for what was emitted and skipped. -/
def OffsetAccounted
    (_ : FlowKey)
    (_ : Direction)
    (log : List TcpEvent)
    (state : DirectionState) : Prop :=
  state.streamOffset = emittedBytes log + skippedBytes log

theorem offsetAccounted_invariant (limits : TcpLimits) :
    DirectionInvariant limits OffsetAccounted where
  fresh _ _ _ := rfl
  same same invariant := by
    unfold OffsetAccounted at *
    rw [same]
    exact invariant
  step step wf invariant := by
    have balance := (step.balanced wf).offset
    unfold OffsetAccounted at *
    rw [balance, invariant]
    simp
    ring

/-! ## The balance of the reassembler -/

/-- The log and the counters agree. -/
structure Conserved
    (log : List TcpEvent)
    (reassembler : TCPReassembler) : Prop where
  wf : reassembler.Wf
  bytes :
    arrivedBytes log =
      emittedBytes log + reassembler.counters.bufferedBytes +
        reassembler.counters.retransmittedBytes
  gaps : reassembler.counters.gapBytes = skippedBytes log

/-- Every step of the reassembler keeps log and counters in agreement. -/
theorem Conserved.step
    {limits : TcpLimits}
    {log events : List TcpEvent}
    {before after : TCPReassembler}
    (conserved : Conserved log before)
    (step : TcpStep limits before events after) :
    Conserved (log ++ events) after := by
  have afterWf := step.wf conserved.wf
  cases step with
  | @onDirection key state direction events view found step =>
      have balance := step.balanced (conserved.wf.directions found direction)
      have bytes := conserved.bytes
      have stepBytes := balance.bytes
      refine {
        wf := afterWf
        bytes := ?_
        gaps := ?_
      }
      · simp only [arrivedBytes_append, emittedBytes_append,
          TCPReassembler.putDirection]
        simp only at stepBytes
        linarith
      · simp only [skippedBytes_append, TCPReassembler.putDirection]
        rw [balance.gaps, conserved.gaps]
  | revise found same alive =>
      simpa using { conserved with wf := afterWf }
  | reorder key =>
      rw [List.append_nil]
      exact ⟨afterWf, conserved.bytes, conserved.gaps⟩
  | create clock absent =>
      rw [List.append_nil]
      exact ⟨afterWf, conserved.bytes, conserved.gaps⟩
  | @remove key state found flushed =>
      have nothing :
          (state.sumDirections fun direction => direction.pendingBytes) =
            0 := by
        have zero (direction : Direction) :
            (state.directions direction).pendingBytes = 0 := by
          rw [(conserved.wf.directions found direction).bytes,
            flushed direction]
          rfl
        simp [FlowState.sumDirections, zero]
      rw [List.append_nil]
      refine {
        wf := afterWf
        bytes := ?_
        gaps := ?_
      }
      · simp only [TCPReassembler.removeFlow, found]
        rw [nothing, sub_zero]
        exact conserved.bytes
      · simp only [TCPReassembler.removeFlow, found]
        exact conserved.gaps
  | count evicted budgetEvicted expired =>
      rw [List.append_nil]
      exact ⟨afterWf, conserved.bytes, conserved.gaps⟩

theorem Conserved.new (epochNamespace : Nat) :
    Conserved [] (TCPReassembler.new epochNamespace) where
  wf := .new epochNamespace
  bytes := rfl
  gaps := rfl

/-- In every run log and counters agree. -/
theorem conserved_run
    (limits : TcpLimits)
    (epochNamespace : Nat)
    (operations : List TcpOperation) :
    Conserved
      ((TCPReassembler.new epochNamespace).run limits operations).events
      ((TCPReassembler.new epochNamespace).run limits operations).state := by
  have follows : TCPReassembler.Follows limits _ _ :=
    TCPReassembler.run_follows
      (TCPReassembler.Wf.new epochNamespace) operations
  have conserved :=
    Steps.invariant (motive := Conserved)
      (fun conserved step => conserved.step step) follows
      (Conserved.new epochNamespace)
  simpa using conserved

/-! ## The payloads a call receives -/

namespace TCPReassembler

section Flows

variable
  (limits : TcpLimits)
  (reassembler : TCPReassembler)

theorem arrivals_startSequence
    (packet : ParsedPacket)
    (view : DirectionView) :
    arrivals (startSequence packet view).events = [] := by
  simp only [startSequence]
  split <;> simp

theorem arrivals_prepare (clock : Int) (packet : ParsedPacket) :
    arrivals (reassembler.prepare limits clock packet).events = [] := by
  have started (state : TCPReassembler) :
      arrivals
        (state.onDirection packet.flowId packet.flow.2
          (startSequence packet)).events = [] := by
    unfold onDirection
    split
    · rfl
    · exact arrivals_startSequence packet _
  simp [prepare, started, arrivals_of_inputs (inputs_restart limits _ _),
    arrivals_of_inputs (inputs_enter limits _ _ _)]

theorem arrivals_relabel
    (completeness : Option Completeness)
    (events : List TcpEvent) :
    arrivals (events.map (TcpEvent.relabel completeness)) =
      arrivals events := by
  unfold arrivals
  rw [List.filterMap_map]
  congr 1
  funext event
  cases event <;> rfl

/-! ## The packet's own payload -/

/-- After `prepare` the packet's flow is there, ready for a payload. -/
theorem prepare_found (clock : Int) (packet : ParsedPacket) :
    ∃ state,
      (reassembler.prepare limits clock packet).state.flows.get?
          packet.flowId = some state ∧
        (packet.transportPayload ≠ [] →
          (state.directions packet.flow.2).nextSeq.isSome) := by
  have entered (state : TCPReassembler) :
      ∃ flow,
        (state.enter limits clock packet).state.flows.get? packet.flowId =
          some flow := by
    unfold enter
    split
    case h_1 flow found => exact ⟨flow, by simpa using found⟩
    case h_2 => exact ⟨_, OrderedTable.get?_set_self _ _ _⟩
  obtain ⟨flow, found⟩ :=
    entered (reassembler.restart limits packet).state
  have revised :
      ((((reassembler.restart limits packet).andThen
          (enter limits clock packet)).state.reviseFlow packet.flowId
            fun state =>
              acknowledged packet (touched clock packet state)).flows.get?
        packet.flowId) =
        some (acknowledged packet (touched clock packet flow)) := by
    simp [reviseFlow, found]
  unfold prepare
  simp only [Outcome.state_andThen, Outcome.state_quiet] at revised ⊢
  rw [onDirection_of_get?_eq_some _ _ revised, get?_putDirection_self]
  refine ⟨_, rfl, ?_⟩
  intro nonempty
  rw [FlowState.directions_setDirection_self]
  set directional :=
    (acknowledged packet (touched clock packet flow)).directions
      packet.flow.2
  cases starts :
      directional.nextSeq.isNone &&
        (packet.syn || !packet.transportPayload.isEmpty) with
  | true =>
      obtain ⟨synSeq, started⟩ :=
        startSequence_of_starts ⟨directional, _⟩ starts
      rw [started]
      rfl
  | false =>
      obtain ⟨-, -, same, -⟩ :=
        startSequence_of_not_starts ⟨directional, _⟩ starts
      rw [same]
      simpa [nonempty, Option.isSome_iff_ne_none] using starts

/-- The payload of a call that reassembly accepts. -/
def acceptedPayload : TcpOperation → Nat
  | .process clock packet =>
      if accepts packet &&
          !(reassembler.prepare limits clock packet).state.returnsEarly
            packet then
        packet.transportPayload.length
      else
        0
  | _ => 0

theorem arrivedBytes_of_arrivals_eq_nil
    {events : List TcpEvent}
    (silent : arrivals events = []) :
    arrivedBytes events = 0 := by
  simp [arrivedBytes, silent]

/-- A payload in a direction that expects bytes is received once. -/
theorem arrivals_acceptPayload
    (packet : ParsedPacket)
    (view : DirectionView)
    {next : Int}
    (expects : view.direction.nextSeq = some next)
    (nonempty : packet.transportPayload ≠ []) :
    arrivals (acceptPayload limits packet view).events =
      [arrivalOf packet next view.direction] := by
  have hasPayload : packet.transportPayload.isEmpty = false := by
    simpa using nonempty
  simp only [acceptPayload, expects, hasPayload, Bool.false_eq_true,
    ↓reduceIte]
  split
  · simp
  · unfold receivePayload
    simp only [Outcome.events_andThen, arrivals_append,
      arrivals_singleton, TcpEvent.arrival?, Option.toList_some]
    split
    · simp
    · simp [arrivals_of_inputs (inputs_drain _ _ _ _ _),
        arrivals_of_inputs (inputs_enforceDirectionLimits _ _ _ _ _)]

/-- The bytes received of a packet, unless it is a recognised keepalive. -/
theorem arrivedBytes_acceptPayload (clock : Int) (packet : ParsedPacket) :
    arrivedBytes
        ((reassembler.prepare limits clock packet).state.onDirection
          packet.flowId packet.flow.2 (acceptPayload limits packet)).events =
      ((if !(reassembler.prepare limits clock packet).state.returnsEarly
          packet then packet.transportPayload.length else 0 : Nat) : Int) := by
  obtain ⟨state, found, ready⟩ :=
    prepare_found limits reassembler clock packet
  rw [onDirection_of_get?_eq_some _ _ found]
  simp only [returnsEarly, found]
  by_cases empty : packet.transportPayload = []
  · cases known : (state.directions packet.flow.2).nextSeq with
    | none => simp [acceptPayload, known, empty]
    | some next => simp [acceptPayload, known, empty]
  · obtain ⟨next, known⟩ := Option.isSome_iff_exists.mp (ready empty)
    have received :=
      arrivals_acceptPayload limits packet
        ⟨state.directions packet.flow.2,
          (reassembler.prepare limits clock packet).state.counters⟩
        known empty
    simp only [known, arrivedBytes, received, List.map_cons, List.map_nil,
      List.sum_cons, List.sum_nil, add_zero, Arrival.acceptedBytes]
    cases keepalive :
        (arrivalOf packet next (state.directions packet.flow.2)).keepalive
    · simp [arrivalOf]
    · simp [empty]

/-- The bytes a call receives are those of its accepted payload. -/
theorem arrivedBytes_apply (operation : TcpOperation) :
    arrivedBytes (operation.apply limits reassembler).events =
      reassembler.acceptedPayload limits operation := by
  cases operation with
  | expire now clock =>
      apply arrivedBytes_of_arrivals_eq_nil
      simp [TcpOperation.apply, expire,
        arrivals_of_inputs (inputs_closeFlows limits _ _)]
  | flushAll completeness =>
      apply arrivedBytes_of_arrivals_eq_nil
      simp [TcpOperation.apply, flushAll, arrivals_relabel,
        arrivals_of_inputs (inputs_closeFlows limits _ _)]
  | process clock packet =>
      simp only [TcpOperation.apply, process, acceptedPayload]
      by_cases accepted : accepts packet
      · simp only [accepted, ↓reduceIte, Bool.true_and, processTcp,
          Outcome.events_andThen, arrivedBytes_append,
          arrivedBytes_of_arrivals_eq_nil
            (arrivals_prepare limits reassembler clock packet), zero_add]
        rw [← arrivedBytes_acceptPayload]
        split
        case isTrue => rfl
        case isFalse =>
          split
          case isTrue =>
            simp [arrivedBytes_of_arrivals_eq_nil, enforceBudget,
              arrivals_of_inputs (inputs_finish limits _ _),
              arrivals_of_inputs (inputs_evictWhile limits _ _ _ _)]
          case isFalse =>
            simp [arrivedBytes_of_arrivals_eq_nil,
              arrivals_of_inputs (inputs_finish limits _ _)]
      · simp [accepted]

/-- The payload bytes a run accepts. -/
def acceptedBytes : List TcpOperation → TCPReassembler → Nat
  | [], _ => 0
  | operation :: rest, reassembler =>
      reassembler.acceptedPayload limits operation +
        acceptedBytes rest (operation.apply limits reassembler).state

theorem arrivedBytes_run (operations : List TcpOperation) :
    arrivedBytes (reassembler.run limits operations).events =
      acceptedBytes limits operations reassembler := by
  induction operations generalizing reassembler with
  | nil =>
      rfl
  | cons operation rest inductionHypothesis =>
      have restIs :=
        inductionHypothesis (operation.apply limits reassembler).state
      simp only [run] at restIs ⊢
      simp only [runAll, Outcome.events_andThen, arrivedBytes_append,
        arrivedBytes_apply, acceptedBytes, restIs]
      push_cast
      rfl

/-! ## Flushing everything -/

/-- Closing a list of flows drops exactly these. -/
theorem get?_closeFlows (keys : List FlowId) (other : FlowId) :
    (reassembler.closeFlows limits keys).state.flows.get? other =
      if other ∈ keys then none else reassembler.flows.get? other := by
  induction keys generalizing reassembler with
  | nil =>
      simp [closeFlows]
  | cons key rest inductionHypothesis =>
      unfold closeFlows
      split
      case h_1 absent =>
        rw [inductionHypothesis]
        by_cases same : other = key
        · subst same
          simp [absent]
        · simp [same]
      case h_2 =>
        rw [Outcome.state_andThen, inductionHypothesis, get?_closeFlow]
        by_cases same : other = key
        · simp [same]
        · simp [same]

/-- After `flush_all` no flow is left. -/
theorem flushAll_flows (completeness : Option Completeness) :
    (reassembler.flushAll limits completeness).state.flows.entries = [] := by
  apply OrderedTable.entries_eq_nil
  intro key
  simp only [flushAll]
  rw [get?_closeFlows]
  split
  case isTrue => rfl
  case isFalse unknown => exact OrderedTable.get?_eq_none.mpr unknown

/-- After `flush_all` nothing is buffered. -/
theorem flushAll_buffers
    (wf : reassembler.Wf)
    (completeness : Option Completeness) :
    (reassembler.flushAll limits
        completeness).state.counters.bufferedBytes = 0 ∧
      (reassembler.flushAll limits
        completeness).state.counters.bufferedSegments = 0 := by
  have flushedWf : (reassembler.flushAll limits completeness).state.Wf :=
    (flushAll_follows wf completeness).wf wf
  rw [flushedWf.bufferedBytes, flushedWf.bufferedSegments]
  unfold OrderedTable.sum
  rw [flushAll_flows]
  exact ⟨rfl, rfl⟩

end Flows

end TCPReassembler

/-! ## The balance of every run -/

/--
In every run the accepted payload bytes are emitted, buffered or counted as
retransmitted; every stream offset and `gap_bytes` account for the bytes
skipped; and a flush leaves nothing buffered.
-/
theorem run_conserves_bytes
    (limits : TcpLimits)
    (epochNamespace : Nat)
    (operations : List TcpOperation) :
    let initial := TCPReassembler.new epochNamespace
    let final := (initial.run limits operations).state
    let log := (initial.run limits operations).events
    (TCPReassembler.acceptedBytes limits operations initial : Int) =
        emittedBytes log + final.counters.bufferedBytes +
          final.counters.retransmittedBytes ∧
      (∀ key state direction,
        final.flows.get? key = some state →
        (state.directions direction).streamOffset =
          emittedBytes (history state.connectionEpoch direction log) +
            skippedBytes (history state.connectionEpoch direction log)) ∧
      final.counters.gapBytes = skippedBytes log ∧
      ∀ completeness,
        let flushed := (final.flushAll limits completeness).state.counters
        flushed.bufferedBytes = 0 ∧ flushed.bufferedSegments = 0 := by
  intro initial final log
  have conserved := conserved_run limits epochNamespace operations
  have recorded :=
    recorded_run (offsetAccounted_invariant limits) epochNamespace operations
  refine ⟨?_, ?_, conserved.gaps, ?_⟩
  · rw [← TCPReassembler.arrivedBytes_run]
    exact conserved.bytes
  · intro key state direction found
    exact recorded.live found direction
  · intro completeness
    exact TCPReassembler.flushAll_buffers limits final conserved.wf
      completeness

end PacketAudit
