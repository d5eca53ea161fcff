import PacketAudit.Tcp.Methods

namespace PacketAudit

/-!
# The buffers stay within their limits

Between two calls the pending segments of every direction are sorted, disjoint
and strictly ahead of `next_seq`, the counters are their exact sums, and no
limit is exceeded.  The loops that establish this end on their own, whatever
state of a call they start in.
-/

open Library

section

variable
  {limits : TcpLimits}
  {flow : FlowKey}
  {direction : Direction}
  {view : DirectionView}

/-- Exceeding a limit takes a pending segment. -/
theorem pending_ne_nil_of_exceeds
    (wf : view.direction.Wf)
    (exceeds : exceedsDirectionLimits limits view.direction = true) :
    view.direction.pending ≠ [] := by
  intro empty
  have bytes := wf.bytes
  simp [empty] at bytes
  simp [exceedsDirectionLimits, empty, bytes] at exceeds
  omega

/-- Skipping to a pending segment emits it. -/
theorem chunks_skipToNextSegment
    (wf : view.direction.Wf)
    (nonempty : view.direction.pending ≠ []) :
    chunks (skipToNextSegment limits flow direction view).events ≠ [] := by
  obtain ⟨first, rest, pending⟩ := List.exists_cons_of_ne_nil nonempty
  obtain ⟨resumed, resumedWf, expects, same, -, eventsAre⟩ :=
    skipToNextSegment_drains limits flow direction wf pending
  obtain ⟨ready, blocked, drained⟩ :=
    drain_spec limits flow direction true resumedWf expects
  obtain ⟨chunk, emitted, -⟩ := drained.emits (drained.ready_ne_nil same rfl)
  rw [eventsAre, emitted]
  simp [chunks]

/--
With a round for every pending segment the limit loop ends where no limit is
exceeded, and further rounds change nothing.
-/
theorem enforceDirectionLimits_ends
    {fuel : Nat}
    (extra : Nat)
    (wf : view.direction.Wf)
    (enough : view.direction.pending.length ≤ fuel) :
    enforceDirectionLimits limits flow direction (fuel + extra) view =
        enforceDirectionLimits limits flow direction fuel view ∧
      exceedsDirectionLimits limits
        (enforceDirectionLimits limits flow direction fuel
          view).state.direction = false := by
  induction fuel generalizing view with
  | zero =>
      have empty : view.direction.pending = [] := by simpa using enough
      have within : exceedsDirectionLimits limits view.direction = false := by
        by_contra exceeds
        exact pending_ne_nil_of_exceeds wf (by simpa using exceeds) empty
      cases extra with
      | zero => exact ⟨rfl, within⟩
      | succ extra => simp [enforceDirectionLimits, within]
  | succ fuel inductionHypothesis =>
      rw [Nat.add_right_comm]
      unfold enforceDirectionLimits
      split
      case isTrue exceeds =>
        have nonempty := pending_ne_nil_of_exceeds wf exceeds
        have emits :
            chunks (skipToNextSegment limits flow direction view).events ≠
              [] :=
          chunks_skipToNextSegment wf nonempty
        have shorter :=
          skipToNextSegment_length limits flow direction wf nonempty
        have skippedWf :=
          wf_of_follows (skipToNextSegment_follows limits flow direction) wf
        obtain ⟨same, within⟩ :=
          inductionHypothesis skippedWf (by omega)
        rw [← List.isEmpty_eq_false_iff] at emits
        simp only [emits, Bool.false_eq_true, ↓reduceIte]
        exact ⟨Outcome.andThen_congr same, within⟩
      case isFalse within => exact ⟨rfl, by simpa using within⟩

/-- Further rounds of a flush find nothing pending. -/
theorem flushLoop_ends
    {fuel : Nat}
    (extra : Nat)
    (wf : view.direction.Wf)
    (enough : view.direction.pending.length ≤ fuel) :
    flushLoop limits flow direction (fuel + extra) view =
      flushLoop limits flow direction fuel view := by
  induction fuel generalizing view with
  | zero =>
      have empty : view.direction.pending = [] := by simpa using enough
      cases extra with
      | zero => rfl
      | succ extra => simp [flushLoop, empty]
  | succ fuel inductionHypothesis =>
      rw [Nat.add_right_comm]
      unfold flushLoop
      split
      case isTrue => rfl
      case isFalse nonempty =>
        apply Outcome.andThen_congr
        have round :=
          flushRound_progress limits flow direction wf
            (by simpa using nonempty)
        exact inductionHypothesis round.1 (by omega)

/-! ## What holds between the stages of a call -/

theorem exceeds_of_sameStream
    {first second : DirectionState}
    (same : first.SameStream second) :
    exceedsDirectionLimits limits second =
      exceedsDirectionLimits limits first := by
  unfold exceedsDirectionLimits
  rw [same.pendingBytes, same.pending]

theorem DirectionState.SameStream.settled
    {first second : DirectionState}
    (same : first.SameStream second)
    (settled : first.Settled) :
    second.Settled := by
  rw [same]
  exact settled

/-- A direction without pending segments is within the limits. -/
theorem exceeds_of_pending
    {state : DirectionState}
    (wf : state.Wf)
    (empty : state.pending = []) :
    exceedsDirectionLimits limits state = false := by
  by_contra exceeds
  exact
    @pending_ne_nil_of_exceeds limits ⟨state, {}⟩ wf
      (by simpa using exceeds) empty

/-- Between two stages a direction is settled and within its limits. -/
structure DirectionState.Tidy
    (limits : TcpLimits)
    (state : DirectionState) : Prop where
  settled : state.Settled
  within : exceedsDirectionLimits limits state = false

theorem DirectionState.SameStream.tidy
    {first second : DirectionState}
    (same : first.SameStream second)
    (tidy : first.Tidy limits) :
    second.Tidy limits where
  settled := same.settled tidy.settled
  within := (exceeds_of_sameStream same).trans tidy.within

theorem DirectionState.tidy_of_pending
    {state : DirectionState}
    (wf : state.Wf)
    (empty : state.pending = []) :
    state.Tidy limits where
  settled := settled_of_pending empty
  within := exceeds_of_pending wf empty

theorem tidy_receivePayload
    {packetIds : List Nat}
    {timestampNs start next : Int}
    {payload : Bytes}
    (expects : view.direction.nextSeq = some next)
    (wf : view.direction.Wf)
    (tidy : view.direction.Tidy limits) :
    (receivePayload limits flow direction packetIds timestampNs start next
      payload view).state.direction.Tidy limits where
  settled := settled_receivePayload expects wf tidy.settled
  within := by
    unfold receivePayload
    simp only
    split
    case isTrue => simpa [countRetransmission] using tidy.within
    case isFalse reaches =>
      have stored :=
        insertPayload_stored packetIds timestampNs (not_le.mp reaches) view
      have storedWf := stored.wf expects wf
      have drainedWf :=
        wf_of_follows (drain_follows limits flow direction false) storedWf
      exact (enforceDirectionLimits_ends 0 drainedWf (le_refl _)).2

/-- Every direction function leaves its direction tidy. -/
theorem DirectionStage.tidy
    {accepting : Bool}
    {operation : DirectionView → Outcome DirectionView TcpEvent}
    (stage : DirectionStage limits accepting flow direction operation)
    (wf : view.direction.Wf)
    (tidy : view.direction.Tidy limits) :
    (operation view).state.direction.Tidy limits := by
  cases stage with
  | start packet =>
      cases starts :
          view.direction.nextSeq.isNone &&
            (packet.syn || !packet.transportPayload.isEmpty) with
      | true =>
          obtain ⟨synSeq, started⟩ :=
            TCPReassembler.startSequence_of_starts view starts
          have idle : view.direction.nextSeq = none := by
            simpa using (Bool.and_eq_true_iff.mp starts).1
          have noPending := (wf.idle idle).1
          rw [started]
          exact {
            settled := DirectionState.settled_of_pending noPending
            within := tidy.within
          }
      | false =>
          obtain ⟨-, -, same, -⟩ :=
            TCPReassembler.startSequence_of_not_starts view starts
          exact same.tidy tidy
  | accept packet =>
      unfold TCPReassembler.acceptPayload
      split
      case h_1 => exact tidy
      case h_2 next expects =>
        split
        case isTrue => exact tidy
        case isFalse =>
          simp only
          split
          case isTrue => exact tidy
          case isFalse => exact tidy_receivePayload expects wf tidy
  | flush =>
      have flushes :
          (flushDirection limits flow direction view).FollowsFrom
            (LabelledStep limits flow direction) view :=
        flushDirection_labelled wf
      have flushedWf := wf_of_labelled flushes wf
      exact DirectionState.tidy_of_pending flushedWf
        (flushDirection_pending limits flow direction wf)

/-- Two flow states with the same streams are tidy alike. -/
theorem FlowState.SameStreams.tidy
    {first second : FlowState}
    (same : first.SameStreams second)
    (tidy : ∀ side, (first.directions side).Tidy limits) :
    ∀ side, (second.directions side).Tidy limits :=
  fun side => (same.directions side).tidy (tidy side)

end

namespace TCPReassembler

variable {limits : TcpLimits}

/-- Every direction of every flow is tidy, and the table is not too large. -/
structure Tidy
    (limits : TcpLimits)
    (reassembler : TCPReassembler) : Prop where
  directions :
    ∀ {key state},
      reassembler.flows.get? key = some state →
      ∀ side, (state.directions side).Tidy limits
  table : reassembler.flows.size ≤ limits.maxFlows

/-- A table with one entry replaced by a tidy one is tidy. -/
theorem Tidy.replace
    {reassembler : TCPReassembler}
    (tidy : reassembler.Tidy limits)
    {key : FlowId}
    {state next : FlowState}
    (found : reassembler.flows.get? key = some state)
    (nextTidy : ∀ side, (next.directions side).Tidy limits)
    (counters : TcpCounters) :
    Tidy limits {
      flows := reassembler.flows.set key next
      nextConnectionEpoch := reassembler.nextConnectionEpoch
      counters := counters
    } where
  directions := by
    intro other otherState otherFound side
    simp only [OrderedTable.get?_set] at otherFound
    split at otherFound
    case isTrue =>
      cases otherFound
      exact nextTidy side
    case isFalse => exact tidy.directions otherFound side
  table := by
    rw [OrderedTable.size_set_of_some found]
    exact tidy.table

/-- Every stage leaves the reassembler tidy. -/
theorem Tidy.stage
    {accepting : Bool}
    {before after : TCPReassembler}
    {events : List TcpEvent}
    (stage : TcpStage limits accepting before events after)
    (wf : before.Wf)
    (tidy : before.Tidy limits) :
    after.Tidy limits := by
  cases stage with
  | @perform key state direction operation found stage =>
      refine tidy.replace found ?_ _
      intro side
      rcases direction.eq_or_eq_opposite side with isSame | isOpposite
      · subst isSame
        rw [FlowState.directions_setDirection_self]
        exact stage.tidy (wf.directions found side)
          (tidy.directions found side)
      · subst isOpposite
        rw [FlowState.directions_setDirection_opposite]
        exact tidy.directions found _
  | revise found same alive =>
      exact tidy.replace found (same.tidy (tidy.directions found)) _
  | reorder key =>
      exact {
        directions := fun found => tidy.directions (by simpa using found)
        table := by simpa using tidy.table
      }
  | @create packet clock absent room =>
      refine {
        directions := ?_
        table := ?_
      }
      · intro other otherState otherFound side
        simp only [createFlow, OrderedTable.get?_set] at otherFound
        split at otherFound
        case isTrue =>
          cases otherFound
          exact DirectionState.tidy_of_pending
            (DirectionState.wf_fresh _) rfl
        case isFalse => exact tidy.directions otherFound side
      · simp only [createFlow]
        rw [OrderedTable.size_set_of_none absent]
        exact room
  | @remove key state found flushed =>
      refine {
        directions := ?_
        table := ?_
      }
      · intro other otherState otherFound
        rw [get?_removeFlow] at otherFound
        split at otherFound
        case isTrue => cases otherFound
        case isFalse => exact tidy.directions otherFound
      · have sizes := OrderedTable.size_eq_erase_add_one found
        have room := tidy.table
        simp only [removeFlow, found]
        omega
  | count evicted budgetEvicted expired =>
      exact {
        directions := tidy.directions
        table := tidy.table
      }

/-- A new reassembler is tidy. -/
theorem Tidy.new (epochNamespace : Nat) :
    (TCPReassembler.new epochNamespace).Tidy limits where
  directions := by simp [TCPReassembler.new]
  table := Nat.zero_le _

/-! ## The shared budgets -/

/-- The totals of the buffered bytes and segments are within the limits. -/
structure WithinBudget
    (limits : TcpLimits)
    (counters : TcpCounters) : Prop where
  bytes : counters.bufferedBytes ≤ limits.maxBufferedBytes
  segments : counters.bufferedSegments ≤ limits.maxBufferedSegments

/-- No more is buffered than before. -/
structure Releases (before after : TcpCounters) : Prop where
  bytes : after.bufferedBytes ≤ before.bufferedBytes
  segments : after.bufferedSegments ≤ before.bufferedSegments

theorem Releases.within
    {before after : TcpCounters}
    (releases : Releases before after)
    (within : WithinBudget limits before) :
    WithinBudget limits after where
  bytes := releases.bytes.trans within.bytes
  segments := releases.segments.trans within.segments

theorem Releases.refl (counters : TcpCounters) :
    Releases counters counters where
  bytes := le_refl _
  segments := le_refl _

theorem Releases.trans
    {first second third : TcpCounters}
    (earlier : Releases first second)
    (later : Releases second third) :
    Releases first third where
  bytes := later.bytes.trans earlier.bytes
  segments := later.segments.trans earlier.segments

/-- Sequence starts and flushes release buffers. -/
theorem releases_of_directionStage
    {flow : FlowKey}
    {direction : Direction}
    {operation : DirectionView → Outcome DirectionView TcpEvent}
    {view : DirectionView}
    (stage : DirectionStage limits false flow direction operation)
    (wf : view.direction.Wf) :
    Releases view.counters (operation view).state.counters := by
  cases stage with
  | start packet => exact .refl _
  | flush =>
      have flushes :
          (flushDirection limits flow direction view).FollowsFrom
            (LabelledStep limits flow direction) view :=
        flushDirection_labelled wf
      have facts := facts_of_follows (follows_of_labelled flushes) wf
      have empty := flushDirection_pending limits flow direction wf
      have noBytes := facts.wf.bytes
      have bytes := facts.bufferedBytes
      have segments := facts.bufferedSegments
      have held := wf.bytes
      rw [empty] at noBytes segments
      simp only [totalLength_nil, Nat.cast_zero, List.length_nil]
        at noBytes segments
      exact {
        bytes := by omega
        segments := by omega
      }

/-- Only the acceptance of a payload can fill the buffers. -/
theorem releases_of_stage
    {before after : TCPReassembler}
    {events : List TcpEvent}
    (stage : TcpStage limits false before events after)
    (wf : before.Wf) :
    Releases before.counters after.counters := by
  cases stage with
  | @perform key state direction operation found stage =>
      have releases :=
        @releases_of_directionStage limits _ _ _
          ⟨state.directions direction, before.counters⟩ stage
          (wf.directions found direction)
      exact releases
  | revise found same alive => exact .refl _
  | reorder key => exact .refl _
  | create clock absent room => exact .refl _
  | @remove key state found flushed =>
      have noBytes (direction : Direction) :
          (state.directions direction).pendingBytes = 0 := by
        rw [(wf.directions found direction).bytes, flushed direction]
        rfl
      simp only [removeFlow, found]
      exact {
        bytes := by simp [FlowState.sumDirections, noBytes]
        segments := by simp [FlowState.sumDirections, flushed]
      }
  | count evicted budgetEvicted expired => exact ⟨le_refl _, le_refl _⟩

theorem releases_of_performs
    {reassembler : TCPReassembler}
    {outcome : Outcome TCPReassembler TcpEvent}
    (performs : Performs limits false reassembler outcome)
    (wf : reassembler.Wf) :
    Releases reassembler.counters outcome.state.counters :=
  (Steps.stateInvariant
    (motive := fun reached =>
      reached.Wf ∧ Releases reassembler.counters reached.counters)
    (fun both stage =>
      ⟨stage.wf both.1, both.2.trans (releases_of_stage stage both.1)⟩)
    performs ⟨wf, .refl _⟩).2

/-- After the budget eviction the budgets are met. -/
theorem within_enforceBudget
    {reassembler : TCPReassembler}
    (wf : reassembler.Wf) :
    WithinBudget limits
      (reassembler.enforceBudget limits).state.counters := by
  have endsWf := (@enforceBudget_performs limits _ wf).wf wf
  have met :
      overBudget limits (reassembler.enforceBudget limits).state = false :=
    condition_evictWhile size_pos_of_overBudget (le_refl _)
  set final := (reassembler.enforceBudget limits).state
  by_cases empty : final.flows.size = 0
  · have noEntries : final.flows.entries = [] :=
      List.length_eq_zero_iff.mp empty
    have bytes := endsWf.bufferedBytes
    have segments := endsWf.bufferedSegments
    simp only [OrderedTable.sum, noEntries, List.map_nil, List.sum_nil]
      at bytes segments
    exact {
      bytes := by omega
      segments := by omega
    }
  · have someFlow : 0 < final.flows.size := by omega
    simp only [overBudget, someFlow, decide_true, Bool.and_true,
      Bool.or_eq_false_iff, decide_eq_false_iff_not, not_lt] at met
    exact ⟨met.1, met.2⟩

/-- A payload that stores nothing changes no buffer. -/
theorem acceptPayload_of_not_stores
    {reassembler : TCPReassembler}
    {packet : ParsedPacket}
    (storesNothing :
      reassembler.returnsEarly packet = true ∨
        reassembler.storesPayload packet = false) :
    Releases reassembler.counters
      (reassembler.onDirection packet.flowId packet.flow.2
        (acceptPayload limits packet)).state.counters := by
  cases found : reassembler.flows.get? packet.flowId with
  | none =>
      rw [onDirection_of_get?_eq_none _ _ found]
      exact .refl _
  | some state =>
      rw [onDirection_of_get?_eq_some _ _ found]
      simp only [putDirection, acceptPayload]
      simp only [returnsEarly, storesPayload, found] at storesNothing
      cases expects : (state.directions packet.flow.2).nextSeq with
      | none => exact .refl _
      | some next =>
          simp only [expects] at storesNothing ⊢
          split
          case isTrue => exact .refl _
          case isFalse nonempty =>
            split
            case isTrue => exact .refl _
            case isFalse notKeepalive =>
              simp only [nonempty, notKeepalive, Bool.not_false,
                Bool.true_and, Bool.false_eq_true, false_or,
                decide_eq_false_iff_not, not_lt] at storesNothing
              have behind :
                  (arrivalOf packet next
                      (state.directions packet.flow.2)).start +
                    packet.transportPayload.length ≤ next :=
                storesNothing
              simp only [Outcome.state_andThen, receivePayload, behind,
                ↓reduceIte]
              simp only [Outcome.state_quiet, countRetransmission,
                countConsumedConflict]
              split
              · exact ⟨le_refl _, le_refl _⟩
              · exact ⟨le_refl _, le_refl _⟩

/-- Every call leaves the budgets met. -/
theorem WithinBudget.apply
    {reassembler : TCPReassembler}
    (within : WithinBudget limits reassembler.counters)
    (wf : reassembler.Wf)
    (operation : TcpOperation) :
    WithinBudget limits
      (operation.apply limits reassembler).state.counters := by
  cases operation with
  | process clock packet =>
      simp only [TcpOperation.apply, process]
      split
      case isFalse => exact within
      case isTrue =>
        have prepares := @prepare_performs limits _ wf clock packet
        have preparedWf := prepares.wf wf
        have preparedWithin :=
          (releases_of_performs prepares wf).within within
        have acceptedWf := @wf_acceptPayload limits _ preparedWf packet
        have finishes
            {state : TCPReassembler}
            (stateWf : state.Wf)
            (stateWithin : WithinBudget limits state.counters) :
            WithinBudget limits
              (state.finish limits packet).state.counters := by
          have performs := @finish_performs limits _ stateWf packet
          exact (releases_of_performs performs stateWf).within stateWithin
        simp only [processTcp, Outcome.state_andThen]
        split
        case isTrue early =>
          exact (acceptPayload_of_not_stores (.inl early)).within
            preparedWithin
        case isFalse =>
          split
          case isTrue =>
            have enforces := @enforceBudget_performs limits _ acceptedWf
            simp only [Outcome.state_andThen]
            exact finishes (enforces.wf acceptedWf)
              (within_enforceBudget acceptedWf)
          case isFalse storesNothing =>
            simp only [Outcome.state_andThen]
            exact finishes acceptedWf
              ((acceptPayload_of_not_stores
                (.inr (by simpa using storesNothing))).within preparedWithin)
  | expire now clock =>
      have performs := @expire_performs limits _ wf now clock
      exact (releases_of_performs performs wf).within within
  | flushAll completeness =>
      have performs :=
        @closeFlows_performs limits _ wf
          (reassembler.flows.entries.map Prod.fst)
      exact (releases_of_performs performs wf).within within

theorem within_run
    (epochNamespace : Nat)
    (operations : List TcpOperation) :
    WithinBudget limits
      ((TCPReassembler.new epochNamespace).run
        limits operations).state.counters := by
  have initially :
      WithinBudget limits (TCPReassembler.new epochNamespace).counters :=
    ⟨Int.natCast_nonneg _, Int.natCast_nonneg _⟩
  have initialWf := TCPReassembler.Wf.new epochNamespace
  generalize TCPReassembler.new epochNamespace = reassembler
    at initially initialWf
  induction operations generalizing reassembler with
  | nil =>
      exact initially
  | cons operation rest inductionHypothesis =>
      have applies := @TcpOperation.apply_follows limits _ initialWf operation
      exact inductionHypothesis _ (initially.apply initialWf operation)
        (applies.wf initialWf)

end TCPReassembler

/-! ## The bounds of every run -/

/-- The pending segments of one direction are in order and bounded. -/
structure DirectionState.PendingBounded
    (limits : TcpLimits)
    (state : DirectionState) : Prop where
  sorted :
    state.pending.Pairwise fun first second => first.start ≤ second.start
  disjoint :
    state.pending.Pairwise fun first second =>
      ∀ position, first.Contains position → ¬ second.Contains position
  nonempty : ∀ segment ∈ state.pending, segment.data ≠ []
  ahead :
    ∀ next segment,
      state.nextSeq = some next →
      segment ∈ state.pending →
      next < segment.start
  idle : state.nextSeq = none → state.pending = []
  exactBytes :
    state.pendingBytes =
      (state.pending.map fun segment => (segment.data.length : Int)).sum
  bytes :
    state.pendingBytes ≤
      min limits.maxOutOfOrder limits.maxStreamBytesPerDirection
  segments : state.pending.length ≤ limits.maxSegmentsPerDirection

theorem DirectionState.Tidy.pendingBounded
    {limits : TcpLimits}
    {state : DirectionState}
    (tidy : state.Tidy limits)
    (wf : state.Wf) :
    state.PendingBounded limits := by
  obtain ⟨bytes, segments⟩ := Bool.or_eq_false_iff.mp tidy.within
  simp only [decide_eq_false_iff_not, not_lt] at bytes segments
  refine {
    sorted := ?_
    disjoint := ?_
    nonempty := wf.solid
    ahead := tidy.settled
    idle := fun idle => (wf.idle idle).1
    exactBytes := ?_
    bytes := bytes
    segments := segments
  }
  · refine wf.ordered.imp ?_
    intro first second before
    exact first.start_le_stop.trans before
  · refine wf.ordered.imp ?_
    rintro first second before position ⟨-, inFirst⟩ ⟨inSecond, -⟩
    omega
  · rw [wf.bytes]
    unfold totalLength
    rw [Nat.cast_list_sum, List.map_map]
    rfl

namespace TCPReassembler

variable {limits : TcpLimits}

/-- The buffers of a reassembler are exactly counted and bounded. -/
structure BuffersBounded
    (limits : TcpLimits)
    (reassembler : TCPReassembler) : Prop where
  directions :
    ∀ key state side,
      reassembler.flows.get? key = some state →
      (state.directions side).PendingBounded limits
  exactBytes :
    reassembler.counters.bufferedBytes =
      reassembler.flows.sum fun state =>
        state.sumDirections fun direction => direction.pendingBytes
  exactSegments :
    reassembler.counters.bufferedSegments =
      reassembler.flows.sum fun state =>
        state.sumDirections fun direction =>
          (direction.pending.length : Int)
  bytes : reassembler.counters.bufferedBytes ≤ limits.maxBufferedBytes
  segments :
    reassembler.counters.bufferedSegments ≤ limits.maxBufferedSegments
  table : reassembler.flows.size ≤ limits.maxFlows

/-- The collected timestamps are those of the collected parts. -/
theorem length_timestamps_drainLoop
    (pending : List TcpSegment)
    (next : Int)
    (drained : DrainState) :
    ((drainLoop limits pending next drained).timestamps.length : Int) -
        (drainLoop limits pending next drained).parts.length =
      drained.timestamps.length - drained.parts.length := by
  induction pending generalizing next drained with
  | nil =>
      rfl
  | cons segment rest inductionHypothesis =>
      unfold drainLoop
      split
      case isTrue => exact inductionHypothesis _ _
      case isFalse =>
        split
        case isTrue => rfl
        case isFalse =>
          simp only
          split
          case isTrue => exact inductionHypothesis _ _
          case isFalse =>
            rw [inductionHypothesis]
            simp [DrainState.consume, DrainState.pop]

/--
The loops that a call may start in this state end on their own, each with what
it asks for, and take the first entry only of what has one.
-/
structure LoopsEnd
    (limits : TcpLimits)
    (reassembler : TCPReassembler) : Prop where
  flush :
    ∀ key state side flow extra,
      reassembler.flows.get? key = some state →
      let view : DirectionView :=
        ⟨state.directions side, reassembler.counters⟩
      flushLoop limits flow side (view.direction.pending.length + extra)
          view =
        flushDirection limits flow side view ∧
        (flushDirection limits flow side view).state.direction.pending = []
  limit :
    ∀ key state side flow packetIds timestampNs start next payload extra,
      reassembler.flows.get? key = some state →
      (state.directions side).nextSeq = some next →
      next < start + (payload.length : Int) →
      let view : DirectionView :=
        ⟨state.directions side, reassembler.counters⟩
      let stored :=
        insertPayload packetIds timestampNs start next payload
          (countConsumedConflict start next payload view)
      let drained := (drain limits flow side false stored).state
      let rounds := drained.direction.pending.length
      enforceDirectionLimits limits flow side (rounds + extra) drained =
          enforceDirectionLimits limits flow side rounds drained ∧
        exceedsDirectionLimits limits
          (enforceDirectionLimits limits flow side rounds
            drained).state.direction = false ∧
        ∀ events round,
          Steps (DirectionStep limits flow side) drained events round →
          exceedsDirectionLimits limits round.direction = true →
          round.direction.pending ≠ [] ∧
            chunks (skipToNextSegment limits flow side round).events ≠ []
  evict :
    ∀ budget condition extra,
      condition = flowTableFull limits ∨ condition = overBudget limits →
      let rounds := reassembler.flows.size
      reassembler.evictWhile limits budget condition (rounds + extra) =
          reassembler.evictWhile limits budget condition rounds ∧
        condition
          (reassembler.evictWhile limits budget condition
            rounds).state = false ∧
        (condition reassembler = true →
          ∃ key state,
            reassembler.flows.oldest? = some key ∧
              reassembler.flows.get? key = some state)
  stamped :
    ∀ key state side next,
      reassembler.flows.get? key = some state →
      let view : DirectionView :=
        ⟨state.directions side, reassembler.counters⟩
      let drained :=
        drainLoop limits view.direction.pending next { view := view }
      drained.timestamps.length = drained.parts.length

/-- Further rounds of an eviction find nothing to evict. -/
theorem evictWhile_ends
    {budget : Bool}
    {condition : TCPReassembler → Bool}
    (needsFlow :
      ∀ {state : TCPReassembler},
        condition state = true → 0 < state.flows.size)
    {fuel : Nat}
    (extra : Nat)
    {reassembler : TCPReassembler}
    (enough : reassembler.flows.size ≤ fuel) :
    reassembler.evictWhile limits budget condition (fuel + extra) =
      reassembler.evictWhile limits budget condition fuel := by
  induction fuel generalizing reassembler with
  | zero =>
      have unwanted : condition reassembler = false := by
        by_contra wanted
        have := needsFlow (by simpa using wanted)
        omega
      cases extra with
      | zero => rfl
      | succ extra => simp [evictWhile, unwanted]
  | succ fuel inductionHypothesis =>
      rw [Nat.add_right_comm]
      unfold evictWhile
      split
      case isTrue wanted =>
        have sizes := @size_evictOldest limits budget _ (needsFlow wanted)
        exact Outcome.andThen_congr (inductionHypothesis (by omega))
      case isFalse => rfl

/-- The loops end in every well-formed state. -/
theorem Wf.loopsEnd
    {reassembler : TCPReassembler}
    (wf : reassembler.Wf) :
    reassembler.LoopsEnd limits where
  flush := by
    intro key state side flow extra found view
    have viewWf : view.direction.Wf := wf.directions found side
    exact ⟨flushLoop_ends extra viewWf (le_refl _),
      flushDirection_pending limits flow side viewWf⟩
  limit := by
    intro key state side flow packetIds timestampNs start next payload extra
      found expects reaches view stored drained rounds
    have storedWf : stored.direction.Wf :=
      (insertPayload_stored packetIds timestampNs reaches view).wf expects
        (wf.directions found side)
    have drainedWf : drained.direction.Wf :=
      (facts_of_follows (drain_follows limits flow side false) storedWf).wf
    obtain ⟨same, within⟩ :=
      @enforceDirectionLimits_ends limits flow side _ _ extra drainedWf
        (le_refl _)
    refine ⟨same, within, ?_⟩
    intro events round steps exceeds
    have roundWf : round.direction.Wf :=
      Steps.stateInvariant (motive := fun reached => reached.direction.Wf)
        (fun before step => (step.facts before).wf) steps drainedWf
    have nonempty := pending_ne_nil_of_exceeds roundWf exceeds
    exact ⟨nonempty, chunks_skipToNextSegment roundWf nonempty⟩
  evict := by
    intro budget condition extra isCondition rounds
    have needsFlow
        {state : TCPReassembler}
        (wanted : condition state = true) :
        0 < state.flows.size := by
      rcases isCondition with rfl | rfl
      · exact size_pos_of_flowTableFull wanted
      · exact size_pos_of_overBudget wanted
    refine ⟨evictWhile_ends needsFlow extra (le_refl _),
      condition_evictWhile needsFlow (le_refl _), ?_⟩
    intro wanted
    exact OrderedTable.oldest?_of_pos (needsFlow wanted)
  stamped := by
    intro key state side next found view drained
    have lengths :
        (drained.timestamps.length : Int) - drained.parts.length = 0 :=
      length_timestamps_drainLoop view.direction.pending next _
    omega

/-- A call is a sequence of stages, apart from the labels it overwrites. -/
theorem apply_stages
    {reassembler : TCPReassembler}
    (wf : reassembler.Wf)
    (operation : TcpOperation) :
    ∃ events,
      Steps (TcpStage limits true) reassembler events
        (operation.apply limits reassembler).state := by
  cases operation with
  | process clock packet =>
      exact ⟨_, process_performs wf clock packet⟩
  | expire now clock =>
      exact ⟨_, (expire_performs wf now clock).accept⟩
  | flushAll completeness =>
      exact ⟨_, (closeFlows_performs wf _).accept⟩

end TCPReassembler

/--
After every run the pending segments are in order and the buffers exactly
counted and bounded; whatever stages of a further call follow, the loops
started there end.
-/
theorem run_buffersBounded
    (limits : TcpLimits)
    (epochNamespace : Nat)
    (operations : List TcpOperation) :
    let final :=
      ((TCPReassembler.new epochNamespace).run limits operations).state
    final.BuffersBounded limits ∧
      (∀ events reached,
        Steps (TcpStage limits true) final events reached →
        reached.LoopsEnd limits) ∧
      ∀ operation : TcpOperation,
        ∃ events,
          Steps (TcpStage limits true) final events
            (operation.apply limits final).state := by
  intro final
  have initialWf := TCPReassembler.Wf.new epochNamespace
  have finalWf : final.Wf :=
    (TCPReassembler.run_follows initialWf operations).wf initialWf
  have tidy : final.Tidy limits :=
    TCPReassembler.stageInvariant_run
      (fun wf stage tidy => tidy.stage stage wf) initialWf operations
      (.new epochNamespace)
  have within : TCPReassembler.WithinBudget limits final.counters :=
    TCPReassembler.within_run epochNamespace operations
  refine ⟨?_, ?_, TCPReassembler.apply_stages finalWf⟩
  · exact {
      directions := fun key state side found =>
        (tidy.directions found side).pendingBounded
          (finalWf.directions found side)
      exactBytes := finalWf.bufferedBytes
      exactSegments := finalWf.bufferedSegments
      bytes := within.bytes
      segments := within.segments
      table := tidy.table
    }
  · intro events reached stages
    have reachedWf : reached.Wf :=
      Steps.stateInvariant (motive := TCPReassembler.Wf)
        (fun before stage => stage.wf before) stages finalWf
    exact reachedWf.loopsEnd

end PacketAudit
