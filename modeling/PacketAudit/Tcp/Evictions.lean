import PacketAudit.Tcp.Methods

namespace PacketAudit

/-!
# What `evicted_flows` counts

The counter of evicted flows moves only where the limits of the flow table or
of the buffers force a flow out.  A call that leaves it unchanged therefore
met both limits without an eviction.
-/

open Library

/-- A direction function does not count evictions. -/
def CountsNoEviction
    (operation : DirectionView → Outcome DirectionView TcpEvent) : Prop :=
  ∀ view,
    (operation view).state.counters.evictedFlows = view.counters.evictedFlows

variable (limits : TcpLimits) (flow : FlowKey) (direction : Direction)

theorem evictedFlows_drainLoop
    (pending : List TcpSegment)
    (next : Int)
    (drained : DrainState) :
    (drainLoop limits pending next drained).view.counters.evictedFlows =
      drained.view.counters.evictedFlows := by
  induction pending generalizing next drained with
  | nil =>
      rfl
  | cons segment rest inductionHypothesis =>
      unfold drainLoop
      split
      case isTrue => exact inductionHypothesis _ _
      case isFalse =>
        split
        case isTrue => rfl
        case isFalse =>
          simp only
          split
          case isTrue => exact inductionHypothesis _ _
          case isFalse => exact inductionHypothesis _ _

theorem drain_countsNoEviction (forcedGap : Bool) :
    CountsNoEviction (drain limits flow direction forcedGap) := by
  intro view
  unfold drain
  split
  · rfl
  · exact evictedFlows_drainLoop limits _ _ _

theorem skipToNextSegment_countsNoEviction :
    CountsNoEviction (skipToNextSegment limits flow direction) := by
  intro view
  unfold skipToNextSegment
  split
  case h_1 =>
    split
    case isTrue =>
      rw [Outcome.state_andThen,
        drain_countsNoEviction limits flow direction true]
      rfl
    case isFalse => exact drain_countsNoEviction limits flow direction true view
  case h_2 => rfl

theorem flushDirection_countsNoEviction :
    CountsNoEviction (flushDirection limits flow direction) := by
  intro view
  unfold flushDirection
  generalize view.direction.pending.length = fuel
  induction fuel generalizing view with
  | zero =>
      rfl
  | succ fuel inductionHypothesis =>
      have drained := drain_countsNoEviction limits flow direction false view
      unfold flushLoop
      split
      case isTrue => rfl
      case isFalse =>
        simp only [Outcome.state_andThen]
        rw [inductionHypothesis]
        split
        case isTrue =>
          rw [skipToNextSegment_countsNoEviction limits flow direction, drained]
        case isFalse => exact drained

theorem enforceDirectionLimits_countsNoEviction (fuel : Nat) :
    CountsNoEviction (enforceDirectionLimits limits flow direction fuel) := by
  intro view
  induction fuel generalizing view with
  | zero =>
      rfl
  | succ fuel inductionHypothesis =>
      have skipped :=
        skipToNextSegment_countsNoEviction limits flow direction view
      unfold enforceDirectionLimits
      split
      case isTrue =>
        simp only
        split
        case isTrue => exact skipped
        case isFalse =>
          rw [Outcome.state_andThen, inductionHypothesis, skipped]
      case isFalse => rfl

theorem evictedFlows_countConsumedConflict
    (start next : Int)
    (payload : Bytes)
    (view : DirectionView) :
    (countConsumedConflict start next payload
        view).counters.evictedFlows =
      view.counters.evictedFlows := by
  unfold countConsumedConflict
  split <;> rfl

theorem acceptPayload_countsNoEviction (packet : ParsedPacket) :
    CountsNoEviction (TCPReassembler.acceptPayload limits packet) := by
  intro view
  unfold TCPReassembler.acceptPayload
  split
  case h_1 => rfl
  case h_2 next _ =>
    split
    case isTrue => rfl
    case isFalse =>
      simp only
      split
      case isTrue => rfl
      case isFalse =>
        have counted :=
          evictedFlows_countConsumedConflict
            (TCPReassembler.arrivalOf packet next view.direction).start next
            packet.transportPayload view
        rw [Outcome.state_andThen]
        unfold receivePayload
        simp only
        split
        case isTrue => exact counted
        case isFalse =>
          rw [Outcome.state_andThen,
            enforceDirectionLimits_countsNoEviction,
            drain_countsNoEviction]
          exact counted

theorem startSequence_countsNoEviction (packet : ParsedPacket) :
    CountsNoEviction (TCPReassembler.startSequence packet) :=
  fun _ => rfl

namespace TCPReassembler

/-- The number of flows the limits forced out. -/
def evictions (reassembler : TCPReassembler) : Int :=
  reassembler.counters.evictedFlows

variable {reassembler : TCPReassembler}

theorem evictions_onDirection
    {key : FlowId}
    {side : Direction}
    {operation : DirectionView → Outcome DirectionView TcpEvent}
    (counts : CountsNoEviction operation) :
    (reassembler.onDirection key side operation).state.evictions =
      reassembler.evictions := by
  unfold onDirection
  split
  · rfl
  · exact counts _

theorem evictions_removeFlow (key : FlowId) :
    (reassembler.removeFlow key).evictions = reassembler.evictions := by
  unfold removeFlow
  split <;> rfl

theorem evictions_reviseFlow
    (key : FlowId)
    (revise : FlowState → FlowState) :
    (reassembler.reviseFlow key revise).evictions =
      reassembler.evictions := by
  unfold reviseFlow
  split <;> rfl

theorem evictions_closeFlow (key : FlowId) :
    (reassembler.closeFlow limits key flow).state.evictions =
      reassembler.evictions := by
  unfold closeFlow
  simp only [Outcome.state_andThen, Outcome.state_quiet]
  rw [evictions_removeFlow,
    evictions_onDirection (flushDirection_countsNoEviction limits flow .bToA),
    evictions_onDirection (flushDirection_countsNoEviction limits flow .aToB)]

/-- Evicting from a table that is not empty is counted. -/
theorem evictions_evictOldest
    (budget : Bool)
    (nonempty : 0 < reassembler.flows.size) :
    (reassembler.evictOldest limits budget).state.evictions =
      reassembler.evictions + 1 := by
  obtain ⟨key, state, isOldest, found⟩ := OrderedTable.oldest?_of_pos nonempty
  have closed :
      (reassembler.closeFlow limits key state.flow).state.evictions =
        reassembler.evictions :=
    evictions_closeFlow limits state.flow key
  simp only [evictOldest, isOldest, found, Outcome.state_andThen,
    Outcome.state_quiet]
  exact congrArg (· + 1) closed

theorem evictions_le_evictWhile
    {condition : TCPReassembler → Bool}
    (needsFlow :
      ∀ {state : TCPReassembler},
        condition state = true → 0 < state.flows.size)
    (budget : Bool)
    (fuel : Nat)
    (reassembler : TCPReassembler) :
    reassembler.evictions ≤
      (reassembler.evictWhile limits budget condition fuel).state.evictions := by
  induction fuel generalizing reassembler with
  | zero =>
      exact le_refl _
  | succ fuel inductionHypothesis =>
      unfold evictWhile
      split
      case isTrue wanted =>
        have evicted :=
          evictions_evictOldest limits budget (needsFlow wanted)
        have later :=
          inductionHypothesis (reassembler.evictOldest limits budget).state
        rw [Outcome.state_andThen]
        omega
      case isFalse => exact le_refl _

/-- Where nothing was counted, no eviction was wanted. -/
theorem unwanted_of_evictions_evictWhile
    {condition : TCPReassembler → Bool}
    (needsFlow :
      ∀ {state : TCPReassembler},
        condition state = true → 0 < state.flows.size)
    {budget : Bool}
    (unchanged :
      (reassembler.evictWhile limits budget condition
        reassembler.flows.size).state.evictions ≤ reassembler.evictions) :
    condition reassembler = false := by
  cases wanted : condition reassembler with
  | false => rfl
  | true =>
      obtain ⟨fuel, rounds⟩ :=
        Nat.exists_eq_add_of_lt (needsFlow wanted)
      have evicted := evictions_evictOldest limits budget (needsFlow wanted)
      have later :=
        @evictions_le_evictWhile limits condition needsFlow budget fuel
          (reassembler.evictOldest limits budget).state
      rw [show reassembler.flows.size = fuel + 1 by omega] at unchanged
      unfold evictWhile at unchanged
      rw [if_pos wanted, Outcome.state_andThen] at unchanged
      omega

theorem evictWhile_of_unwanted
    {condition : TCPReassembler → Bool}
    (budget : Bool)
    (fuel : Nat)
    (unwanted : condition reassembler = false) :
    reassembler.evictWhile limits budget condition fuel =
      .quiet reassembler := by
  cases fuel with
  | zero => rfl
  | succ fuel => simp [evictWhile, unwanted]

variable (packet : ParsedPacket) (clock : Int)

theorem evictions_restart :
    (reassembler.restart limits packet).state.evictions =
      reassembler.evictions := by
  unfold restart
  split
  · exact evictions_closeFlow limits packet.flow.1 packet.flowId
  · rfl

/-- Entering a flow evicts nothing, or counts what it evicts. -/
theorem evictions_enter :
    reassembler.evictions ≤
        (reassembler.enter limits clock packet).state.evictions ∧
      ((reassembler.enter limits clock packet).state.evictions ≤
          reassembler.evictions →
        reassembler.flows.get? packet.flowId = none →
        reassembler.flowTableFull limits = false) := by
  unfold enter
  split
  case h_1 present =>
    refine ⟨le_refl _, ?_⟩
    intro _ absent
    rw [present] at absent
    cases absent
  case h_2 =>
    refine ⟨?_, ?_⟩
    · exact evictions_le_evictWhile limits size_pos_of_flowTableFull false _ _
    · intro unchanged _
      exact unwanted_of_evictions_evictWhile limits size_pos_of_flowTableFull
        unchanged

theorem evictions_finish :
    (reassembler.finish limits packet).state.evictions =
      reassembler.evictions := by
  have flushed
      (before : TCPReassembler)
      (side : Direction) :
      (before.onDirection packet.flowId side
          (flushDirection limits packet.flow.1 side)).state.evictions =
        before.evictions :=
    evictions_onDirection
      (flushDirection_countsNoEviction limits packet.flow.1 side)
  have closing
      (before : TCPReassembler) :
      (if before.endsConnection packet then
          (before.onDirection packet.flowId packet.flow.2.opposite
            (flushDirection limits packet.flow.1
              packet.flow.2.opposite)).andThen
            fun flushed => .quiet (flushed.removeFlow packet.flowId)
        else
          .quiet before).state.evictions =
        before.evictions := by
    split
    · simp only [Outcome.state_andThen, Outcome.state_quiet,
        evictions_removeFlow, flushed]
    · rfl
  unfold finish
  simp only [Outcome.state_andThen, closing]
  split
  · simp only [Outcome.state_andThen, Outcome.state_quiet,
      evictions_reviseFlow, flushed]
  · rfl

/-- What a call without an eviction did not need. -/
structure Roomy (limits : TcpLimits) (packet : ParsedPacket)
    (clock : Int) (reassembler : TCPReassembler) : Prop where
  table :
    let restarted := (reassembler.restart limits packet).state
    restarted.flows.get? packet.flowId = none →
    restarted.flowTableFull limits = false
  buffers :
    let prepared := (reassembler.prepare limits clock packet).state
    prepared.returnsEarly packet = false →
    prepared.storesPayload packet = true →
    (prepared.onDirection packet.flowId packet.flow.2
      (acceptPayload limits packet)).state.overBudget limits = false

theorem evictions_prepare :
    (reassembler.prepare limits clock packet).state.evictions =
      (((reassembler.restart limits packet).andThen
        (enter limits clock packet)).state.evictions) := by
  unfold prepare
  simp only [Outcome.state_andThen, Outcome.state_quiet]
  rw [evictions_onDirection (startSequence_countsNoEviction packet),
    evictions_reviseFlow]

/-- A call counts its evictions, and without any it needed none. -/
theorem evictions_processTcp :
    reassembler.evictions ≤
        (reassembler.processTcp limits clock packet).state.evictions ∧
      ((reassembler.processTcp limits clock packet).state.evictions ≤
          reassembler.evictions →
        Roomy limits packet clock reassembler) := by
  have restarted :
      (reassembler.restart limits packet).state.evictions =
        reassembler.evictions :=
    evictions_restart limits packet
  obtain ⟨entered, roomEntered⟩ :=
    @evictions_enter limits (reassembler.restart limits packet).state packet
      clock
  have prepared :
      (reassembler.prepare limits clock packet).state.evictions =
        (((reassembler.restart limits packet).andThen
          (enter limits clock packet)).state.evictions) :=
    evictions_prepare limits packet clock
  rw [Outcome.state_andThen] at prepared
  generalize preparedIs :
    (reassembler.prepare limits clock packet).state = after at prepared
  have accepted :
      (after.onDirection packet.flowId packet.flow.2
          (acceptPayload limits packet)).state.evictions =
        after.evictions :=
    evictions_onDirection (acceptPayload_countsNoEviction limits packet)
  generalize acceptedIs :
    (after.onDirection packet.flowId packet.flow.2
      (acceptPayload limits packet)).state = held at accepted
  have kept :
      held.evictions ≤ (held.enforceBudget limits).state.evictions :=
    evictions_le_evictWhile limits size_pos_of_overBudget true _ _
  have finished
      (before : TCPReassembler) :
      (before.finish limits packet).state.evictions = before.evictions :=
    evictions_finish limits packet
  unfold processTcp
  rw [Outcome.state_andThen, preparedIs]
  simp only
  split
  case isTrue early =>
    rw [acceptedIs]
    refine ⟨by omega, ?_⟩
    intro unchanged
    refine { table := ?_, buffers := ?_ }
    · exact fun absent => roomEntered (by omega) absent
    · intro state notEarly
      rw [show state = after from preparedIs, early] at notEarly
      cases notEarly
  case isFalse =>
    split
    case isTrue =>
      simp only [Outcome.state_andThen, finished, acceptedIs]
      refine ⟨by omega, ?_⟩
      intro unchanged
      refine { table := ?_, buffers := ?_ }
      · exact fun absent => roomEntered (by omega) absent
      · intro state _ _
        rw [show state = after from preparedIs, acceptedIs]
        exact unwanted_of_evictions_evictWhile limits size_pos_of_overBudget
          (show (held.enforceBudget limits).state.evictions ≤ _ by omega)
    case isFalse silent =>
      simp only [Outcome.state_andThen, finished, acceptedIs]
      refine ⟨by omega, ?_⟩
      intro unchanged
      refine { table := ?_, buffers := ?_ }
      · exact fun absent => roomEntered (by omega) absent
      · intro state _ stores
        rw [show state = after from preparedIs] at stores
        exact (silent stores).elim

end TCPReassembler

end PacketAudit
