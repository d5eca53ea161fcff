import PacketAudit.Tcp.Settling

namespace PacketAudit

/-!
# The stages of a call

A call of the reassembler is a sequence of stages, each of which runs one of
the three direction functions to its end or changes only the table.  What
holds between the direction functions, though not within them, is an invariant
of stages; the stages of a well-formed reassembler are made of `TcpStep`s.
-/

open Library

namespace TCPReassembler

/-! ## Which flows a stage can touch -/

theorem get?_onDirection_of_ne
    {reassembler : TCPReassembler}
    {key other : FlowId}
    {direction : Direction}
    {apply : DirectionView → Outcome DirectionView TcpEvent}
    (different : other ≠ key) :
    (reassembler.onDirection key direction apply).state.flows.get? other =
      reassembler.flows.get? other := by
  unfold onDirection
  split
  · rfl
  · exact OrderedTable.get?_set_of_ne _ _ different

theorem onDirection_of_get?_eq_some
    {reassembler : TCPReassembler}
    {key : FlowId}
    {state : FlowState}
    (direction : Direction)
    (apply : DirectionView → Outcome DirectionView TcpEvent)
    (found : reassembler.flows.get? key = some state) :
    reassembler.onDirection key direction apply = {
      state :=
        reassembler.putDirection key state direction
          (apply ⟨state.directions direction, reassembler.counters⟩).state
      events :=
        (apply ⟨state.directions direction, reassembler.counters⟩).events
    } := by
  simp [onDirection, found, putDirection]

theorem onDirection_of_get?_eq_none
    {reassembler : TCPReassembler}
    {key : FlowId}
    (direction : Direction)
    (apply : DirectionView → Outcome DirectionView TcpEvent)
    (absent : reassembler.flows.get? key = none) :
    reassembler.onDirection key direction apply = .quiet reassembler := by
  simp [onDirection, absent]

@[simp] theorem get?_putDirection_self
    (reassembler : TCPReassembler)
    (key : FlowId)
    (state : FlowState)
    (direction : Direction)
    (view : DirectionView) :
    (reassembler.putDirection key state direction view).flows.get? key =
      some (state.setDirection direction view.direction) :=
  OrderedTable.get?_set_self _ _ _

/-- A direction function that does nothing leaves the flow alone. -/
theorem onDirection_of_quiet
    {reassembler : TCPReassembler}
    {key : FlowId}
    {state : FlowState}
    {direction : Direction}
    {apply : DirectionView → Outcome DirectionView TcpEvent}
    (found : reassembler.flows.get? key = some state)
    (quiet :
      apply ⟨state.directions direction, reassembler.counters⟩ =
        .quiet ⟨state.directions direction, reassembler.counters⟩) :
    reassembler.onDirection key direction apply = .quiet reassembler := by
  rw [onDirection_of_get?_eq_some direction apply found, quiet]
  simp [putDirection, OrderedTable.set_stored found, Outcome.quiet]

theorem get?_removeFlow
    (reassembler : TCPReassembler)
    (key other : FlowId) :
    (reassembler.removeFlow key).flows.get? other =
      if other = key then none else reassembler.flows.get? other := by
  unfold removeFlow
  split
  case h_1 absent =>
    split
    case isTrue same => exact same ▸ absent
    case isFalse => rfl
  case h_2 =>
    split
    case isTrue same =>
      subst same
      exact OrderedTable.get?_erase_self _ _
    case isFalse different => exact OrderedTable.get?_erase_of_ne _ different

/-- Changing only bookkeeping fields of one direction keeps the streams. -/
theorem setDirection_sameStreams
    {state : FlowState}
    {direction : Direction}
    {next : DirectionState}
    (same : (state.directions direction).SameStream next) :
    state.SameStreams (state.setDirection direction next) where
  flow := rfl
  epoch := rfl
  directions other := by
    rcases direction.eq_or_eq_opposite other with isSame | isOpposite
    · subst isSame
      rw [FlowState.directions_setDirection_self]
      exact same
    · subst isOpposite
      rw [FlowState.directions_setDirection_opposite]
      exact .rfl

theorem touched_sameStreams
    (clock : Int)
    (packet : ParsedPacket)
    (state : FlowState) :
    state.SameStreams (touched clock packet state) := by
  have seen :
      (state.directions packet.flow.2).SameStream
        { state.directions packet.flow.2 with
          lastSeenNs :=
            max (state.directions packet.flow.2).lastSeenNs
              packet.timestampNs } := rfl
  exact {
    flow := rfl
    epoch := rfl
    directions := (setDirection_sameStreams seen).directions
  }

@[simp] theorem allClosed_touched
    (clock : Int)
    (packet : ParsedPacket)
    (state : FlowState) :
    (touched clock packet state).allClosed = state.allClosed :=
  state.allClosed_setDirection rfl

@[simp] theorem allClosed_acknowledged
    (packet : ParsedPacket)
    (state : FlowState) :
    (acknowledged packet state).allClosed = state.allClosed := by
  unfold acknowledged
  simp only
  split
  case h_1 =>
    split
    case isTrue => exact state.allClosed_setDirection rfl
    case isFalse => rfl
  case h_2 => rfl

theorem acknowledged_sameStreams
    (packet : ParsedPacket)
    (state : FlowState) :
    state.SameStreams (acknowledged packet state) := by
  have unchanged : state.SameStreams state := {
    flow := rfl
    epoch := rfl
    directions := fun _ => .rfl
  }
  unfold acknowledged
  simp only
  split
  case h_1 =>
    split
    case isTrue => exact setDirection_sameStreams rfl
    case isFalse => exact unchanged
  case h_2 => exact unchanged

theorem markClosed_sameStreams
    (direction : Direction)
    (state : FlowState) :
    state.SameStreams (markClosed direction state) :=
  setDirection_sameStreams rfl

/-- The raw payload sequence is a 32-bit number. -/
theorem rawPayloadSequence_bounds (packet : ParsedPacket) :
    0 ≤ packet.rawPayloadSequence ∧
      packet.rawPayloadSequence < seqModulus := by
  unfold ParsedPacket.rawPayloadSequence seqModulus
  omega

/-- A direction whose sequence already runs only has its SYN number noted. -/
theorem startSequence_of_not_starts
    {packet : ParsedPacket}
    (view : DirectionView)
    (runs :
      (view.direction.nextSeq.isNone &&
        (packet.syn || !packet.transportPayload.isEmpty)) = false) :
    (startSequence packet view).events = [] ∧
      (startSequence packet view).state.counters = view.counters ∧
      view.direction.SameStream
        (startSequence packet view).state.direction ∧
      (startSequence packet view).state.direction.closed =
        view.direction.closed := by
  simp only [startSequence, runs, Bool.false_eq_true, ↓reduceIte, true_and]
  split
  · exact ⟨rfl, rfl⟩
  · exact ⟨.rfl, rfl⟩

/-- A sequence start is the `start` step of the direction. -/
theorem startSequence_of_starts
    {packet : ParsedPacket}
    (view : DirectionView)
    (starts :
      (view.direction.nextSeq.isNone &&
        (packet.syn || !packet.transportPayload.isEmpty)) = true) :
    ∃ synSeq,
      startSequence packet view = {
        state := { view with
          direction := {
            view.direction with
            nextSeq := some packet.rawPayloadSequence
            midstream := !packet.syn
            synSeq := synSeq
          } }
        events :=
          [.opened view.direction.connectionEpoch packet.flow.2
            packet.rawPayloadSequence (!packet.syn)]
      } := by
  simp only [startSequence, starts, ↓reduceIte]
  by_cases syn : packet.syn
  · exact ⟨some packet.tcpSeq, by simp [syn]⟩
  · exact ⟨view.direction.synSeq, by simp [syn]⟩

end TCPReassembler

/--
A direction function a call runs; only an accepting stage may take a payload.
-/
inductive DirectionStage (limits : TcpLimits) :
    Bool → FlowKey → Direction →
    (DirectionView → Outcome DirectionView TcpEvent) → Prop where
  | start
      {accepting : Bool}
      (packet : ParsedPacket) :
      DirectionStage limits accepting packet.flow.1 packet.flow.2
        (TCPReassembler.startSequence packet)
  | accept
      (packet : ParsedPacket) :
      DirectionStage limits true packet.flow.1 packet.flow.2
        (TCPReassembler.acceptPayload limits packet)
  | flush
      {accepting : Bool}
      (flow : FlowKey)
      (direction : Direction) :
      DirectionStage limits accepting flow direction
        (flushDirection limits flow direction)

/-- One stage of a call. -/
inductive TcpStage (limits : TcpLimits) (accepting : Bool) :
    TCPReassembler → List TcpEvent → TCPReassembler → Prop where
  | perform
      {reassembler : TCPReassembler}
      {key : FlowId}
      {state : FlowState}
      {direction : Direction}
      {operation : DirectionView → Outcome DirectionView TcpEvent}
      (found : reassembler.flows.get? key = some state)
      (stage : DirectionStage limits accepting key.2 direction operation) :
      TcpStage limits accepting reassembler
        (operation
          ⟨state.directions direction, reassembler.counters⟩).events
        (reassembler.putDirection key state direction
          (operation
            ⟨state.directions direction, reassembler.counters⟩).state)
  | revise
      {reassembler : TCPReassembler}
      {key : FlowId}
      {state revised : FlowState}
      (found : reassembler.flows.get? key = some state)
      (same : state.SameStreams revised)
      (alive : revised.allClosed = false) :
      TcpStage limits accepting reassembler []
        { reassembler with flows := reassembler.flows.set key revised }
  | reorder
      {reassembler : TCPReassembler}
      (key : FlowId) :
      TcpStage limits accepting reassembler []
        { reassembler with flows := reassembler.flows.moveToEnd key }
  | create
      {reassembler : TCPReassembler}
      {packet : ParsedPacket}
      (clock : Int)
      (absent : reassembler.flows.get? packet.flowId = none)
      (room : reassembler.flows.size < limits.maxFlows) :
      TcpStage limits accepting reassembler []
        (reassembler.createFlow clock packet)
  | remove
      {reassembler : TCPReassembler}
      {key : FlowId}
      {state : FlowState}
      (found : reassembler.flows.get? key = some state)
      (flushed :
        ∀ direction, (state.directions direction).pending = []) :
      TcpStage limits accepting reassembler []
        (reassembler.removeFlow key)
  | count
      {reassembler : TCPReassembler}
      (evicted budgetEvicted expired : Int) :
      TcpStage limits accepting reassembler []
        { reassembler with
          counters := {
            reassembler.counters with
            evictedFlows := evicted
            budgetEvictedFlows := budgetEvicted
            expiredFlows := expired
          } }

/-- A change of the reassembler whose chunks are labelled truthfully. -/
inductive LabelledTcpStep (limits : TcpLimits) :
    TCPReassembler → List TcpEvent → TCPReassembler → Prop where
  | onDirection
      {reassembler : TCPReassembler}
      {key : FlowId}
      {state : FlowState}
      {direction : Direction}
      {events : List TcpEvent}
      {view : DirectionView}
      (found : reassembler.flows.get? key = some state)
      (labelled :
        LabelledStep limits key.2 direction
          ⟨state.directions direction, reassembler.counters⟩ events view) :
      LabelledTcpStep limits reassembler events
        (reassembler.putDirection key state direction view)
  | silent
      {before after : TCPReassembler}
      (step : TcpStep limits before [] after) :
      LabelledTcpStep limits before [] after

/-- A labelled change is a change of the reassembler. -/
theorem LabelledTcpStep.step
    {limits : TcpLimits}
    {before after : TCPReassembler}
    {events : List TcpEvent}
    (labelled : LabelledTcpStep limits before events after) :
    TcpStep limits before events after := by
  cases labelled with
  | onDirection found labelled => exact .onDirection found labelled.step
  | silent step => exact step

/-- Labelled steps of a direction are such steps of its reassembler. -/
theorem labelled_putDirection
    {limits : TcpLimits}
    {reassembler : TCPReassembler}
    {key : FlowId}
    {state : FlowState}
    {direction : Direction}
    {events : List TcpEvent}
    {view : DirectionView}
    (found : reassembler.flows.get? key = some state)
    (steps :
      Steps (LabelledStep limits key.2 direction)
        ⟨state.directions direction, reassembler.counters⟩ events view) :
    Steps (LabelledTcpStep limits) reassembler events
      (reassembler.putDirection key state direction view) := by
  induction steps with
  | refl =>
      have unchanged :
          reassembler.putDirection key state direction
              ⟨state.directions direction, reassembler.counters⟩ =
            reassembler := by
        simp [TCPReassembler.putDirection, OrderedTable.set_stored found]
      rw [unchanged]
      exact .refl reassembler
  | @tail middle final earlier events before last inductionHypothesis =>
      have middleFound :=
        reassembler.get?_putDirection_self key state direction middle
      have sameView :
          (⟨(state.setDirection direction middle.direction).directions
              direction,
            (reassembler.putDirection key state direction
              middle).counters⟩ : DirectionView) =
            middle := by
        simp [TCPReassembler.putDirection]
      have step : LabelledTcpStep limits _ events _ :=
        .onDirection middleFound (sameView.symm ▸ last)
      have merged :
          (reassembler.putDirection key state direction
              middle).putDirection key
                (state.setDirection direction middle.direction) direction
                final =
            reassembler.putDirection key state direction final := by
        simp [TCPReassembler.putDirection, OrderedTable.set_set]
      rw [merged] at step
      exact inductionHypothesis.tail step

/-- Starting a sequence is a step, or a change of bookkeeping fields. -/
theorem labelled_startSequence
    {limits : TcpLimits}
    {reassembler : TCPReassembler}
    (wf : reassembler.Wf)
    {key : FlowId}
    {state : FlowState}
    (found : reassembler.flows.get? key = some state)
    (packet : ParsedPacket) :
    let outcome :=
      TCPReassembler.startSequence packet
        ⟨state.directions packet.flow.2, reassembler.counters⟩
    Steps (LabelledTcpStep limits) reassembler outcome.events
      (reassembler.putDirection key state packet.flow.2 outcome.state) := by
  intro outcome
  cases starts :
      (state.directions packet.flow.2).nextSeq.isNone &&
        (packet.syn || !packet.transportPayload.isEmpty) with
  | true =>
      obtain ⟨synSeq, started⟩ :=
        TCPReassembler.startSequence_of_starts
          ⟨state.directions packet.flow.2, reassembler.counters⟩ starts
      simp only [outcome, started]
      apply labelled_putDirection found
      refine Steps.single (LabelledStep.silent (.start _ _ synSeq ?_ ?_ ?_) rfl)
      · simpa using (Bool.and_eq_true_iff.mp starts).1
      · exact (TCPReassembler.rawPayloadSequence_bounds packet).1
      · exact (TCPReassembler.rawPayloadSequence_bounds packet).2
  | false =>
      obtain ⟨silent, sameCounters, same, sameClosed⟩ :=
        TCPReassembler.startSequence_of_not_starts
          ⟨state.directions packet.flow.2, reassembler.counters⟩ starts
      rw [silent]
      unfold TCPReassembler.putDirection
      rw [sameCounters]
      refine Steps.single (.silent
        (.revise found (TCPReassembler.setDirection_sameStreams same) ?_))
      rw [FlowState.allClosed_setDirection state sameClosed]
      exact wf.live found

/-- A stage of a well-formed reassembler is made of labelled steps. -/
theorem TcpStage.labelled
    {limits : TcpLimits}
    {accepting : Bool}
    {before after : TCPReassembler}
    {events : List TcpEvent}
    (stage : TcpStage limits accepting before events after)
    (wf : before.Wf) :
    Steps (LabelledTcpStep limits) before events after := by
  cases stage with
  | @perform key state direction operation found stage =>
      have directionWf := wf.directions found direction
      cases key with
      | mk session flow =>
          cases stage with
          | start packet => exact labelled_startSequence wf found packet
          | accept packet =>
              exact labelled_putDirection found
                (TCPReassembler.acceptPayload_labelled packet directionWf)
          | flush =>
              exact labelled_putDirection found
                (flushDirection_labelled directionWf)
  | revise found same alive =>
      exact .single (.silent (.revise found same alive))
  | reorder key => exact .single (.silent (.reorder key))
  | create clock absent room => exact .single (.silent (.create clock absent))
  | remove found flushed =>
      exact .single (.silent (.remove found flushed))
  | count evicted budgetEvicted expired =>
      exact .single (.silent (.count evicted budgetEvicted expired))

theorem TcpStage.wf
    {limits : TcpLimits}
    {accepting : Bool}
    {before after : TCPReassembler}
    {events : List TcpEvent}
    (stage : TcpStage limits accepting before events after)
    (wf : before.Wf) :
    after.Wf :=
  Steps.stateInvariant (motive := TCPReassembler.Wf)
    (fun wfBefore labelled => labelled.step.wf wfBefore)
    (stage.labelled wf) wf

/-- A stage that takes no payload may stand where a payload may be taken. -/
theorem TcpStage.accepting
    {limits : TcpLimits}
    {before after : TCPReassembler}
    {events : List TcpEvent}
    (stage : TcpStage limits false before events after) :
    TcpStage limits true before events after := by
  cases stage with
  | @perform key state direction operation found stage =>
      cases key with
      | mk session flow =>
          cases stage with
          | start packet => exact .perform found (.start packet)
          | flush => exact .perform found (.flush _ _)
  | revise found same alive => exact .revise found same alive
  | reorder key => exact .reorder key
  | create clock absent room => exact .create clock absent room
  | remove found flushed => exact .remove found flushed
  | count evicted budgetEvicted expired =>
      exact .count evicted budgetEvicted expired

end PacketAudit
