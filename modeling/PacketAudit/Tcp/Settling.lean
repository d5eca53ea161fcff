import PacketAudit.Tcp.Steps

namespace PacketAudit

/-!
# Settled directions

Between two calls of the direction functions the pending segments lie strictly
past `next_seq`: whatever continues the stream was drained.  A gap is therefore
skipped only where there is one, and every emitted chunk carries the label that
the state of its direction calls for.
-/

open Library

/-- Every pending segment starts strictly past `next_seq`. -/
def DirectionState.Settled (state : DirectionState) : Prop :=
  ∀ next segment,
    state.nextSeq = some next →
    segment ∈ state.pending →
    next < segment.start

theorem DirectionState.settled_of_pending
    {state : DirectionState}
    (empty : state.pending = []) :
    state.Settled := by
  intro next segment _ member
  rw [empty] at member
  cases member

/-- A step whose chunks are labelled as the state of the direction says. -/
structure LabelledStep
    (limits : TcpLimits)
    (flow : FlowKey)
    (direction : Direction)
    (before : DirectionView)
    (events : List TcpEvent)
    (after : DirectionView) : Prop where
  step : DirectionStep limits flow direction before events after
  labels :
    ∀ chunk ∈ chunks events,
      chunk.completeness = completenessOf before.direction false

section

variable
  {limits : TcpLimits}
  {flow : FlowKey}
  {direction : Direction}
  {view : DirectionView}

/-- Labelled steps are steps of the direction. -/
theorem follows_of_labelled
    {outcome : Outcome DirectionView TcpEvent}
    (labelled :
      outcome.FollowsFrom (LabelledStep limits flow direction) view) :
    outcome.FollowsFrom (DirectionStep limits flow direction) view :=
  Steps.mono (fun step => step.step) labelled

theorem wf_of_labelled
    {outcome : Outcome DirectionView TcpEvent}
    (labelled :
      outcome.FollowsFrom (LabelledStep limits flow direction) view)
    (wf : view.direction.Wf) :
    outcome.state.direction.Wf :=
  wf_of_follows (follows_of_labelled labelled) wf

/-- A step that emits nothing carries no label. -/
theorem LabelledStep.silent
    {after : DirectionView}
    {events : List TcpEvent}
    (step : DirectionStep limits flow direction view events after)
    (noChunks : chunks events = []) :
    LabelledStep limits flow direction view events after where
  step := step
  labels chunk member := by
    rw [noChunks] at member
    cases member

/-- A forced label changes nothing once a gap was skipped. -/
theorem completenessOf_forced
    {state : DirectionState}
    {forcedGap : Bool}
    (gapped : forcedGap = true → state.hadGap = true) :
    completenessOf state forcedGap = completenessOf state false := by
  cases forcedGap with
  | false => rfl
  | true => simp [completenessOf, gapped rfl]

theorem drain_labelled
    {forcedGap : Bool}
    (wf : view.direction.Wf)
    (gapped : forcedGap = true → view.direction.hadGap = true) :
    (drain limits flow direction forcedGap view).FollowsFrom
      (LabelledStep limits flow direction) view := by
  refine Steps.single {
    step := ?_
    labels := ?_
  }
  · have step : DirectionStep limits flow direction view _ _ :=
      .drain forcedGap none
    rw [map_relabel_none] at step
    exact step
  · intro chunk member
    cases expects : view.direction.nextSeq with
    | none =>
        rw [drain_idle limits flow direction forcedGap expects] at member
        cases member
    | some next =>
        obtain ⟨ready, blocked, drained⟩ :=
          drain_spec limits flow direction forcedGap wf expects
        by_cases noneReady : ready = []
        · rw [drained.silent noneReady] at member
          cases member
        · obtain ⟨only, eventsAre, -, -, -, -, -, label, -⟩ :=
            drained.emits noneReady
          rw [eventsAre] at member
          obtain rfl := List.mem_singleton.mp member
          exact label.trans (completenessOf_forced gapped)

/-- A drain leaves only segments that do not continue the stream. -/
theorem settled_drain
    {forcedGap : Bool}
    (wf : view.direction.Wf) :
    (drain limits flow direction forcedGap
      view).state.direction.Settled := by
  cases expects : view.direction.nextSeq with
  | none =>
      rw [drain_idle limits flow direction forcedGap expects]
      exact DirectionState.settled_of_pending (wf.idle expects).1
  | some next =>
      obtain ⟨ready, blocked, drained⟩ :=
        drain_spec limits flow direction forcedGap wf expects
      rw [drained.directionAfter]
      intro expected segment isExpected member
      cases isExpected
      exact drained.stopped segment member

/-- On a settled direction the gap to the next segment is a real one. -/
theorem skipToNextSegment_labelled
    (wf : view.direction.Wf)
    (settled : view.direction.Settled) :
    (skipToNextSegment limits flow direction view).FollowsFrom
      (LabelledStep limits flow direction) view := by
  unfold skipToNextSegment
  split
  case h_1 next first rest expects pending =>
    have hole : next < first.start :=
      settled next first expects (pending ▸ List.mem_cons_self)
    rw [if_pos hole]
    have skip : DirectionStep limits flow direction view _ _ :=
      .gap expects pending hole
    exact Outcome.FollowsFrom.andThen (.single (.silent skip rfl))
      (drain_labelled (skip.facts wf).wf fun _ => rfl)
  case h_2 => exact .quiet view

theorem settled_skipToNextSegment
    (wf : view.direction.Wf)
    (settled : view.direction.Settled) :
    (skipToNextSegment limits flow
      direction view).state.direction.Settled := by
  unfold skipToNextSegment
  split
  case h_1 next first rest expects pending =>
    have hole : next < first.start :=
      settled next first expects (pending ▸ List.mem_cons_self)
    rw [if_pos hole]
    have skip : DirectionStep limits flow direction view _ _ :=
      .gap expects pending hole
    exact settled_drain (skip.facts wf).wf
  case h_2 => exact settled

theorem flushDirection_labelled
    (wf : view.direction.Wf) :
    (flushDirection limits flow direction view).FollowsFrom
      (LabelledStep limits flow direction) view := by
  unfold flushDirection
  induction view.direction.pending.length generalizing view with
  | zero =>
      exact .quiet view
  | succ fuel inductionHypothesis =>
      unfold flushLoop
      split
      case isTrue => exact .quiet view
      case isFalse =>
        have drains :
            (drain limits flow direction false view).FollowsFrom
              (LabelledStep limits flow direction) view :=
          drain_labelled wf (by simp)
        have drainedWf := wf_of_labelled drains wf
        have round :
            ((drain limits flow direction false view).andThen fun drained =>
              if !drained.direction.pending.isEmpty ∧
                  drained.direction.pending.length =
                    view.direction.pending.length then
                skipToNextSegment limits flow direction drained
              else
                .quiet drained).FollowsFrom
              (LabelledStep limits flow direction) view := by
          refine drains.andThen ?_
          split
          · exact skipToNextSegment_labelled drainedWf (settled_drain wf)
          · exact .quiet _
        exact round.andThen
          (inductionHypothesis (wf_of_labelled round wf))

theorem enforceDirectionLimits_labelled
    (fuel : Nat)
    (wf : view.direction.Wf)
    (settled : view.direction.Settled) :
    (enforceDirectionLimits limits flow direction fuel view).FollowsFrom
        (LabelledStep limits flow direction) view ∧
      (enforceDirectionLimits limits flow direction fuel
        view).state.direction.Settled := by
  induction fuel generalizing view with
  | zero =>
      exact ⟨.quiet view, settled⟩
  | succ fuel inductionHypothesis =>
      have skips :
          (skipToNextSegment limits flow direction view).FollowsFrom
            (LabelledStep limits flow direction) view :=
        skipToNextSegment_labelled wf settled
      have skippedSettled :
          (skipToNextSegment limits flow
            direction view).state.direction.Settled :=
        settled_skipToNextSegment wf settled
      unfold enforceDirectionLimits
      split
      case isTrue =>
        simp only
        split
        case isTrue => exact ⟨skips, skippedSettled⟩
        case isFalse =>
          obtain ⟨later, laterSettled⟩ :=
            inductionHypothesis (wf_of_labelled skips wf)
              skippedSettled
          exact ⟨skips.andThen later, laterSettled⟩
      case isFalse => exact ⟨.quiet view, settled⟩

/-- Storing a payload, draining and enforcing the limits, as labelled steps. -/
theorem receivePayload_labelled
    {arrival : Arrival}
    (timestampNs : Int)
    (arrives : Arrives flow direction view arrival)
    (notKeepalive : arrival.keepalive = false)
    (wf : view.direction.Wf) :
    ((Outcome.mk view [.arrived arrival]).andThen
      (receivePayload limits flow direction arrival.packetIds timestampNs
        arrival.start arrival.nextSeq arrival.data)).FollowsFrom
      (LabelledStep limits flow direction) view := by
  unfold receivePayload Outcome.FollowsFrom
  simp only [Outcome.events_andThen, Outcome.state_andThen]
  split
  case isTrue behind =>
    have repeats : DirectionStep limits flow direction view _ _ :=
      .repetition arrival arrives notKeepalive behind
    simp only [Outcome.events_quiet, Outcome.state_quiet, List.append_nil]
    exact .single (.silent repeats rfl)
  case isFalse reaches =>
    have stores : DirectionStep limits flow direction view _ _ :=
      .store arrival timestampNs arrives notKeepalive (not_le.mp reaches)
    have storedWf := (stores.facts wf).wf
    have drains :
        (drain limits flow direction false _).FollowsFrom
          (LabelledStep limits flow direction) _ :=
      drain_labelled storedWf (by simp)
    have drainedWf := wf_of_labelled drains storedWf
    refine Steps.trans (.single (.silent stores rfl))
      (drains.andThen ?_)
    exact
      (enforceDirectionLimits_labelled _ drainedWf
        (settled_drain storedWf)).1

theorem settled_receivePayload
    {packetIds : List Nat}
    {timestampNs start next : Int}
    {payload : Bytes}
    (expects : view.direction.nextSeq = some next)
    (wf : view.direction.Wf)
    (settled : view.direction.Settled) :
    (receivePayload limits flow direction packetIds timestampNs start next
      payload view).state.direction.Settled := by
  unfold receivePayload
  simp only
  split
  case isTrue =>
    simpa [countRetransmission] using settled
  case isFalse reaches =>
    have stored :=
      insertPayload_stored packetIds timestampNs (not_le.mp reaches) view
    have storedWf := stored.wf expects wf
    have drains :
        (drain limits flow direction false _).FollowsFrom
          (LabelledStep limits flow direction) _ :=
      drain_labelled storedWf (by simp)
    exact
      (enforceDirectionLimits_labelled _ (wf_of_labelled drains storedWf)
        (settled_drain storedWf)).2

end

namespace TCPReassembler

variable
  {limits : TcpLimits}
  {view : DirectionView}

/-- A payload arrives in a direction that expects bytes. -/
theorem arrives_arrivalOf
    {packet : ParsedPacket}
    {next : Int}
    (expects : view.direction.nextSeq = some next)
    (nonempty : ¬ packet.transportPayload.isEmpty = true) :
    Arrives packet.flow.1 packet.flow.2 view
      (arrivalOf packet next view.direction) where
  expects := expects
  sameFlow := rfl
  epoch := rfl
  side := rfl
  nonempty := by simpa [arrivalOf] using nonempty

theorem acceptPayload_labelled
    (packet : ParsedPacket)
    (wf : view.direction.Wf) :
    (acceptPayload limits packet view).FollowsFrom
      (LabelledStep limits packet.flow.1 packet.flow.2) view := by
  unfold acceptPayload
  split
  case h_1 => exact .quiet view
  case h_2 next expects =>
    split
    case isTrue => exact .quiet view
    case isFalse nonempty =>
      have arrives := arrives_arrivalOf expects nonempty
      simp only
      split
      case isTrue keepalive =>
        have probes :
            DirectionStep limits packet.flow.1 packet.flow.2 view _ _ :=
          .probe _ arrives keepalive
            (le_of_eq (stop_le_of_isKeepalive keepalive).2)
        exact .single (.silent probes rfl)
      case isFalse notKeepalive =>
        exact receivePayload_labelled packet.timestampNs arrives
          (by simpa using notKeepalive) wf

theorem acceptPayload_follows
    (packet : ParsedPacket)
    (wf : view.direction.Wf) :
    (acceptPayload limits packet view).FollowsFrom
      (DirectionStep limits packet.flow.1 packet.flow.2) view :=
  follows_of_labelled (acceptPayload_labelled packet wf)

end TCPReassembler

end PacketAudit
