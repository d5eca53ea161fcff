import PacketAudit.Tcp.Reassembler

namespace PacketAudit

/-!
# Connection epochs do not matter to a direction

The direction functions copy the connection epoch into the events they log and
add to the shared counters, but decide nothing by either.  Run under another
epoch and over other counters they do the same under that epoch.
-/

open Library

/-- The direction under another epoch, over other counters. -/
def DirectionView.rebased
    (epoch : Nat)
    (counters : TcpCounters)
    (view : DirectionView) : DirectionView where
  direction := { view.direction with connectionEpoch := epoch }
  counters := counters

/-- The chunk under another epoch. -/
def StreamChunk.withEpoch (epoch : Nat) (chunk : StreamChunk) : StreamChunk :=
  { chunk with connectionEpoch := epoch }

/-- The event under another epoch. -/
def TcpEvent.withEpoch (epoch : Nat) : TcpEvent → TcpEvent
  | .opened _ direction nextSeq midstream =>
      .opened epoch direction nextSeq midstream
  | .arrived arrival => .arrived { arrival with connectionEpoch := epoch }
  | .skipped _ direction gap => .skipped epoch direction gap
  | .emitted chunk => .emitted (chunk.withEpoch epoch)

/-- The chunks of events under another epoch. -/
theorem chunks_map_withEpoch
    (epoch : Nat)
    (events : List TcpEvent) :
    chunks (events.map (TcpEvent.withEpoch epoch)) =
      (chunks events).map (StreamChunk.withEpoch epoch) := by
  unfold chunks
  rw [List.filterMap_map, List.map_filterMap]
  congr 1
  funext event
  cases event <;> rfl

/-- An outcome is another one under an epoch, whatever the counters. -/
def RebasedTo
    (epoch : Nat)
    (outcome rebased : Outcome DirectionView TcpEvent) : Prop :=
  ∃ counters,
    rebased = {
      state := outcome.state.rebased epoch counters
      events := outcome.events.map (TcpEvent.withEpoch epoch)
    }

/-- A direction function commutes with a change of epoch and counters. -/
def Rebases
    (operation : DirectionView → Outcome DirectionView TcpEvent) : Prop :=
  ∀ view epoch counters,
    RebasedTo epoch (operation view)
      (operation (view.rebased epoch counters))

namespace RebasedTo

variable {epoch : Nat}

theorem quiet
    (view : DirectionView)
    (counters : TcpCounters) :
    RebasedTo epoch (.quiet view) (.quiet (view.rebased epoch counters)) :=
  ⟨counters, rfl⟩

/-- Rebased outcomes continue alike. -/
theorem andThen
    {outcome rebased : Outcome DirectionView TcpEvent}
    {continuation other : DirectionView → Outcome DirectionView TcpEvent}
    (first : RebasedTo epoch outcome rebased)
    (second :
      ∀ counters,
        RebasedTo epoch (continuation outcome.state)
          (other (outcome.state.rebased epoch counters))) :
    RebasedTo epoch (outcome.andThen continuation)
      (rebased.andThen other) := by
  obtain ⟨counters, rfl⟩ := first
  obtain ⟨after, sameAfter⟩ := second counters
  refine ⟨after, ?_⟩
  simp [Outcome.andThen, sameAfter]

end RebasedTo

/-! ## The drain -/

/-- A drain under way, under another epoch. -/
def DrainState.rebased
    (epoch : Nat)
    (counters : TcpCounters)
    (drained : DrainState) : DrainState :=
  { drained with view := drained.view.rebased epoch counters }

theorem rememberConsumed_rebased
    (limits : TcpLimits)
    (state : DirectionState)
    (epoch : Nat)
    (start : Int)
    (data : Bytes) :
    rememberConsumed limits { state with connectionEpoch := epoch } start
        data =
      { rememberConsumed limits state start data with
        connectionEpoch := epoch } := by
  unfold rememberConsumed
  split <;> rfl

theorem drainLoop_rebased
    (limits : TcpLimits)
    (epoch : Nat)
    (pending : List TcpSegment)
    (next : Int)
    (drained : DrainState)
    (counters : TcpCounters) :
    ∃ after,
      drainLoop limits pending next (drained.rebased epoch counters) =
        (drainLoop limits pending next drained).rebased epoch after := by
  induction pending generalizing next drained counters with
  | nil =>
      exact ⟨counters, rfl⟩
  | cons segment rest inductionHypothesis =>
      have popped
          (repeated : Int) :
          (drained.rebased epoch counters).pop segment rest repeated =
            (drained.pop segment rest repeated).rebased epoch
              ((drained.rebased epoch counters).pop segment rest
                repeated).view.counters := rfl
      have consumed
          (start : DrainState)
          (others : TcpCounters)
          (data : Bytes) :
          (start.rebased epoch others).consume limits segment next data =
            (start.consume limits segment next data).rebased epoch
              others := by
        simp only [DrainState.consume, DrainState.rebased,
          DirectionView.rebased, rememberConsumed_rebased]
      unfold drainLoop
      split
      case isTrue =>
        rw [popped]
        exact inductionHypothesis next _ _
      case isFalse =>
        split
        case isTrue => exact ⟨counters, rfl⟩
        case isFalse =>
          simp only
          split
          case isTrue =>
            rw [popped]
            exact inductionHypothesis next _ _
          case isFalse =>
            rw [popped, consumed]
            exact inductionHypothesis _ _ _

theorem drain_rebases
    (limits : TcpLimits)
    (flow : FlowKey)
    (direction : Direction)
    (forcedGap : Bool) :
    Rebases (drain limits flow direction forcedGap) := by
  intro view epoch counters
  cases expects : view.direction.nextSeq with
  | none =>
      refine ⟨counters, ?_⟩
      simp [drain, DirectionView.rebased, expects, Outcome.quiet]
  | some next =>
      obtain ⟨after, same⟩ :=
        drainLoop_rebased limits epoch view.direction.pending next
          { view := view } counters
      refine ⟨after, ?_⟩
      have loop :
          drainLoop limits view.direction.pending next
              { view := view.rebased epoch counters } =
            (drainLoop limits view.direction.pending next
              { view := view }).rebased epoch after := same
      have sameNext :
          (view.rebased epoch counters).direction.nextSeq = some next :=
        expects
      unfold drain
      rw [sameNext, expects]
      simp only
      rw [show (view.rebased epoch counters).direction.pending =
        view.direction.pending from rfl, loop]
      refine congrArg₂ Outcome.mk rfl ?_
      by_cases empty :
          (drainLoop limits view.direction.pending next
            { view := view }).parts.isEmpty = true
      · simp [DrainState.rebased, empty]
      · simp only [DrainState.rebased, empty, Bool.false_eq_true, ↓reduceIte]
        rfl

theorem skipToNextSegment_rebases
    (limits : TcpLimits)
    (flow : FlowKey)
    (direction : Direction) :
    Rebases (skipToNextSegment limits flow direction) := by
  intro view epoch counters
  have expects :
      (view.rebased epoch counters).direction.nextSeq =
        view.direction.nextSeq := rfl
  have pending :
      (view.rebased epoch counters).direction.pending =
        view.direction.pending := rfl
  unfold skipToNextSegment
  rw [expects, pending]
  split
  case h_1 next first rest _ _ =>
    split
    case isTrue =>
      apply RebasedTo.andThen
      · exact ⟨_, rfl⟩
      · exact fun others =>
          drain_rebases limits flow direction true _ epoch others
    case isFalse => exact drain_rebases limits flow direction true _ _ _
  case h_2 => exact .quiet view counters

theorem flushLoop_rebases
    (limits : TcpLimits)
    (flow : FlowKey)
    (direction : Direction)
    (fuel : Nat) :
    Rebases (flushLoop limits flow direction fuel) := by
  induction fuel with
  | zero =>
      intro view epoch counters
      exact .quiet view counters
  | succ fuel inductionHypothesis =>
      intro view epoch counters
      have pending
          (others : TcpCounters)
          (state : DirectionView) :
          (state.rebased epoch others).direction.pending =
            state.direction.pending := rfl
      unfold flushLoop
      simp only [pending]
      split
      case isTrue => exact .quiet view counters
      case isFalse =>
        apply RebasedTo.andThen
        · apply RebasedTo.andThen
          · exact drain_rebases limits flow direction false view epoch counters
          · intro others
            simp only [pending]
            split
            case isTrue =>
              exact skipToNextSegment_rebases limits flow direction _ _ _
            case isFalse => exact .quiet _ others
        · exact fun others => inductionHypothesis _ epoch others

theorem flushDirection_rebases
    (limits : TcpLimits)
    (flow : FlowKey)
    (direction : Direction) :
    Rebases (flushDirection limits flow direction) :=
  fun view =>
    flushLoop_rebases limits flow direction view.direction.pending.length view

/-! ## A payload -/

/-- Whether a forced skip emitted anything does not depend on the epoch. -/
theorem chunks_isEmpty_map_withEpoch
    (epoch : Nat)
    (events : List TcpEvent) :
    (chunks (events.map (TcpEvent.withEpoch epoch))).isEmpty =
      (chunks events).isEmpty := by
  rw [chunks_map_withEpoch, List.isEmpty_map]

theorem enforceDirectionLimits_rebases
    (limits : TcpLimits)
    (flow : FlowKey)
    (direction : Direction)
    (fuel : Nat) :
    Rebases (enforceDirectionLimits limits flow direction fuel) := by
  induction fuel with
  | zero =>
      intro view epoch counters
      exact .quiet view counters
  | succ fuel inductionHypothesis =>
      intro view epoch counters
      have sameLimits :
          exceedsDirectionLimits limits
              (view.rebased epoch counters).direction =
            exceedsDirectionLimits limits view.direction := rfl
      have skipped :=
        skipToNextSegment_rebases limits flow direction view epoch counters
      unfold enforceDirectionLimits
      rw [sameLimits]
      split
      case isTrue =>
        obtain ⟨others, same⟩ := id skipped
        have sameChunks :
            (chunks (skipToNextSegment limits flow direction
                (view.rebased epoch counters)).events).isEmpty =
              (chunks (skipToNextSegment limits flow direction
                view).events).isEmpty := by
          rw [same, chunks_isEmpty_map_withEpoch]
        simp only [sameChunks]
        split
        case isTrue => exact skipped
        case isFalse =>
          exact skipped.andThen fun others =>
            inductionHypothesis _ epoch others
      case isFalse => exact .quiet view counters

theorem receivePayload_rebases
    (limits : TcpLimits)
    (flow : FlowKey)
    (direction : Direction)
    (packetIds : List Nat)
    (timestampNs start next : Int)
    (payload : Bytes) :
    Rebases
      (receivePayload limits flow direction packetIds timestampNs start next
        payload) := by
  intro view epoch counters
  have counted :
      ∃ others,
        countConsumedConflict start next payload
            (view.rebased epoch counters) =
          (countConsumedConflict start next payload view).rebased epoch
            others := by
    have sameConflict :
        conflictsWithConsumed (view.rebased epoch counters).direction start
            payload =
          conflictsWithConsumed view.direction start payload := rfl
    unfold countConsumedConflict
    rw [sameConflict]
    split
    · exact ⟨_, rfl⟩
    · exact ⟨counters, rfl⟩
  obtain ⟨others, counted⟩ := counted
  unfold receivePayload
  simp only [counted]
  split
  case isTrue => exact ⟨_, rfl⟩
  case isFalse =>
    apply RebasedTo.andThen
    · exact drain_rebases limits flow direction false
        (insertPayload packetIds timestampNs start next payload
          (countConsumedConflict start next payload view)) epoch _
    · intro remaining
      exact enforceDirectionLimits_rebases limits flow direction _ _ epoch
        remaining

theorem acceptPayload_rebases
    (limits : TcpLimits)
    (packet : ParsedPacket) :
    Rebases (TCPReassembler.acceptPayload limits packet) := by
  intro view epoch counters
  have expects :
      (view.rebased epoch counters).direction.nextSeq =
        view.direction.nextSeq := rfl
  have sameArrival
      (next : Int) :
      TCPReassembler.arrivalOf packet next
          (view.rebased epoch counters).direction =
        { TCPReassembler.arrivalOf packet next view.direction with
          connectionEpoch := epoch } := rfl
  unfold TCPReassembler.acceptPayload
  rw [expects]
  split
  case h_1 => exact .quiet view counters
  case h_2 next _ =>
    simp only [sameArrival]
    split
    case isTrue => exact .quiet view counters
    case isFalse =>
      split
      case isTrue => exact ⟨counters, rfl⟩
      case isFalse =>
        apply RebasedTo.andThen
        · exact ⟨counters, rfl⟩
        · intro others
          exact receivePayload_rebases limits _ _ _ _ _ _ _ _ epoch others

theorem startSequence_rebases (packet : ParsedPacket) :
    Rebases (TCPReassembler.startSequence packet) := by
  intro view epoch counters
  refine ⟨counters, ?_⟩
  cases expects : view.direction.nextSeq <;>
    cases number : view.direction.synSeq <;>
    by_cases syn : packet.syn = true <;>
    by_cases empty : packet.transportPayload = [] <;>
    simp [TCPReassembler.startSequence, DirectionView.rebased, expects,
      number, syn, empty, TcpEvent.withEpoch]

end PacketAudit
