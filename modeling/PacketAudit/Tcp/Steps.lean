import PacketAudit.Tcp.DirectionSteps

namespace PacketAudit

/-!
# The steps of the reassembler

`TcpStep` lists everything that `process`, `expire` and `flush_all` can do to
the flow table, and `TCPReassembler.Wf` is the representation invariant that
every step keeps.  Each method is shown once to be a finite sequence of steps;
the properties of whole runs follow from the steps alone.
-/

open Library

/-- Two direction states differ at most in their bookkeeping fields. -/
def DirectionState.SameStream (first second : DirectionState) : Prop :=
  second =
    { first with
      synSeq := second.synSeq
      peerAckedSeq := second.peerAckedSeq
      lastSeenNs := second.lastSeenNs
      closed := second.closed }

theorem DirectionState.SameStream.rfl
    {state : DirectionState} : state.SameStream state := by
  cases state
  constructor

theorem DirectionState.SameStream.trans
    {first second third : DirectionState}
    (firstSame : first.SameStream second)
    (secondSame : second.SameStream third) :
    first.SameStream third := by
  unfold DirectionState.SameStream at *
  rw [secondSame, firstSame]

/-- Two flow states differ at most in their bookkeeping fields. -/
structure FlowState.SameStreams (first second : FlowState) : Prop where
  flow : second.flow = first.flow
  epoch : second.connectionEpoch = first.connectionEpoch
  directions :
    ∀ direction,
      (first.directions direction).SameStream (second.directions direction)

theorem FlowState.SameStreams.trans
    {first second third : FlowState}
    (firstSame : first.SameStreams second)
    (secondSame : second.SameStreams third) :
    first.SameStreams third where
  flow := secondSame.flow.trans firstSame.flow
  epoch := secondSame.epoch.trans firstSame.epoch
  directions direction :=
    (firstSame.directions direction).trans (secondSame.directions direction)

namespace TCPReassembler

/-- Put the state of one direction and the shared counters back. -/
def putDirection
    (reassembler : TCPReassembler)
    (key : FlowId)
    (state : FlowState)
    (direction : Direction)
    (view : DirectionView) : TCPReassembler where
  flows :=
    reassembler.flows.set key (state.setDirection direction view.direction)
  nextConnectionEpoch := reassembler.nextConnectionEpoch
  counters := view.counters

end TCPReassembler

/-- One change of the reassembler. -/
inductive TcpStep (limits : TcpLimits) :
    TCPReassembler → List TcpEvent → TCPReassembler → Prop where
  | onDirection
      {reassembler : TCPReassembler}
      {key : FlowId}
      {state : FlowState}
      {direction : Direction}
      {events : List TcpEvent}
      {view : DirectionView}
      (found : reassembler.flows.get? key = some state)
      (step :
        DirectionStep limits key.2 direction
          ⟨state.directions direction, reassembler.counters⟩ events view) :
      TcpStep limits reassembler events
        (reassembler.putDirection key state direction view)
  | revise
      {reassembler : TCPReassembler}
      {key : FlowId}
      {state revised : FlowState}
      (found : reassembler.flows.get? key = some state)
      (same : state.SameStreams revised)
      (alive : revised.allClosed = false) :
      TcpStep limits reassembler []
        { reassembler with flows := reassembler.flows.set key revised }
  | reorder
      {reassembler : TCPReassembler}
      (key : FlowId) :
      TcpStep limits reassembler []
        { reassembler with flows := reassembler.flows.moveToEnd key }
  | create
      {reassembler : TCPReassembler}
      {packet : ParsedPacket}
      (clock : Int)
      (absent : reassembler.flows.get? packet.flowId = none) :
      TcpStep limits reassembler [] (reassembler.createFlow clock packet)
  | remove
      {reassembler : TCPReassembler}
      {key : FlowId}
      {state : FlowState}
      (found : reassembler.flows.get? key = some state)
      (flushed :
        ∀ direction, (state.directions direction).pending = []) :
      TcpStep limits reassembler [] (reassembler.removeFlow key)
  | count
      {reassembler : TCPReassembler}
      (evicted budgetEvicted expired : Int) :
      TcpStep limits reassembler []
        { reassembler with
          counters := {
            reassembler.counters with
            evictedFlows := evicted
            budgetEvictedFlows := budgetEvicted
            expiredFlows := expired
          } }

/-- The representation invariant of the reassembler. -/
structure TCPReassembler.Wf (reassembler : TCPReassembler) : Prop where
  flowOf :
    ∀ {key state},
      reassembler.flows.get? key = some state → state.flow = key.2
  epochUsed :
    ∀ {key state},
      reassembler.flows.get? key = some state →
      state.connectionEpoch < reassembler.nextConnectionEpoch
  epochOf :
    ∀ {key state},
      reassembler.flows.get? key = some state →
      ∀ direction,
        (state.directions direction).connectionEpoch = state.connectionEpoch
  epochsDistinct :
    ∀ {key other state otherState},
      reassembler.flows.get? key = some state →
      reassembler.flows.get? other = some otherState →
      state.connectionEpoch = otherState.connectionEpoch →
      key = other
  directions :
    ∀ {key state},
      reassembler.flows.get? key = some state →
      ∀ direction, (state.directions direction).Wf
  live :
    ∀ {key state},
      reassembler.flows.get? key = some state → state.allClosed = false
  bufferedBytes :
    reassembler.counters.bufferedBytes =
      reassembler.flows.sum fun state =>
        state.sumDirections fun direction => direction.pendingBytes
  bufferedSegments :
    reassembler.counters.bufferedSegments =
      reassembler.flows.sum fun state =>
        state.sumDirections fun direction =>
          (direction.pending.length : Int)

namespace FlowState

@[simp] theorem directions_setDirection_self
    (state : FlowState)
    (direction : Direction)
    (next : DirectionState) :
    (state.setDirection direction next).directions direction = next := by
  simp [setDirection]

theorem directions_setDirection_of_ne
    (state : FlowState)
    {direction other : Direction}
    (next : DirectionState)
    (different : other ≠ direction) :
    (state.setDirection direction next).directions other =
      state.directions other := by
  simp [setDirection, different]

@[simp] theorem directions_setDirection_opposite
    (state : FlowState)
    (direction : Direction)
    (next : DirectionState) :
    (state.setDirection direction next).directions direction.opposite =
      state.directions direction.opposite :=
  state.directions_setDirection_of_ne next direction.opposite_ne

@[simp] theorem setDirection_setDirection
    (state : FlowState)
    (direction : Direction)
    (first second : DirectionState) :
    (state.setDirection direction first).setDirection direction second =
      state.setDirection direction second := by
  simp [setDirection]

@[simp] theorem setDirection_stored
    (state : FlowState)
    (direction : Direction) :
    state.setDirection direction (state.directions direction) = state := by
  simp [setDirection]

/-- Replacing one direction shifts a sum by the difference there. -/
theorem sumDirections_setDirection
    (state : FlowState)
    (direction : Direction)
    (next : DirectionState)
    (measure : DirectionState → Int) :
    (state.setDirection direction next).sumDirections measure =
      state.sumDirections measure - measure (state.directions direction) +
        measure next := by
  cases direction
  · simp only [sumDirections, directions_setDirection_self]
    rw [directions_setDirection_of_ne state next (by decide)]
    ring
  · simp only [sumDirections, directions_setDirection_self]
    rw [directions_setDirection_of_ne state next (by decide)]
    ring

/-- A direction replaced by one as closed as before closes no flow. -/
theorem allClosed_setDirection
    (state : FlowState)
    {direction : Direction}
    {next : DirectionState}
    (same : next.closed = (state.directions direction).closed) :
    (state.setDirection direction next).allClosed = state.allClosed := by
  cases direction
  · simp only [allClosed, directions_setDirection_self, same]
    rw [directions_setDirection_of_ne state next (by decide)]
  · simp only [allClosed, directions_setDirection_self, same]
    rw [directions_setDirection_of_ne state next (by decide)]

/-- Equal stream states have equal stream measures. -/
theorem SameStreams.sumDirections_eq
    {first second : FlowState}
    (same : first.SameStreams second)
    (measure : DirectionState → Int)
    (insensitive :
      ∀ {one other : DirectionState},
        one.SameStream other → measure other = measure one) :
    second.sumDirections measure = first.sumDirections measure := by
  unfold FlowState.sumDirections
  rw [insensitive (same.directions .aToB), insensitive (same.directions .bToA)]

end FlowState

theorem DirectionState.SameStream.wf
    {first second : DirectionState}
    (same : first.SameStream second)
    (wf : first.Wf) :
    second.Wf := by
  rw [same]
  exact {
    idle := wf.idle
    solid := wf.solid
    ordered := wf.ordered
    ahead := wf.ahead
    bytes := wf.bytes
  }

theorem DirectionState.SameStream.pendingBytes
    {first second : DirectionState}
    (same : first.SameStream second) :
    second.pendingBytes = first.pendingBytes := by
  rw [same]

theorem DirectionState.SameStream.pending
    {first second : DirectionState}
    (same : first.SameStream second) :
    second.pending = first.pending := by
  rw [same]

theorem DirectionState.SameStream.connectionEpoch
    {first second : DirectionState}
    (same : first.SameStream second) :
    second.connectionEpoch = first.connectionEpoch := by
  rw [same]

/-- A fresh direction is in its usual shape. -/
theorem DirectionState.wf_fresh (connectionEpoch : Nat) :
    DirectionState.Wf { connectionEpoch := connectionEpoch } where
  idle _ := ⟨rfl, rfl, rfl, rfl⟩
  solid := by simp [Solid]
  ordered := List.Pairwise.nil
  ahead := by simp
  bytes := rfl

namespace TCPReassembler.Wf

/-- A table entry replaced by one of the same identity keeps the invariant. -/
theorem replace
    {reassembler : TCPReassembler}
    (wf : reassembler.Wf)
    {key : FlowId}
    {state next : FlowState}
    (found : reassembler.flows.get? key = some state)
    (flow : next.flow = state.flow)
    (epoch : next.connectionEpoch = state.connectionEpoch)
    (epochOf :
      ∀ direction,
        (next.directions direction).connectionEpoch = next.connectionEpoch)
    (directions : ∀ direction, (next.directions direction).Wf)
    (live : next.allClosed = false)
    {counters : TcpCounters}
    (bufferedBytes :
      counters.bufferedBytes =
        reassembler.counters.bufferedBytes +
          (next.sumDirections (fun direction => direction.pendingBytes) -
            state.sumDirections fun direction => direction.pendingBytes))
    (bufferedSegments :
      counters.bufferedSegments =
        reassembler.counters.bufferedSegments +
          (next.sumDirections
              (fun direction => (direction.pending.length : Int)) -
            state.sumDirections fun direction =>
              (direction.pending.length : Int))) :
    TCPReassembler.Wf {
      flows := reassembler.flows.set key next
      nextConnectionEpoch := reassembler.nextConnectionEpoch
      counters := counters
    } := by
  have lookup
      {other : FlowId}
      {otherState : FlowState}
      (otherFound :
        (reassembler.flows.set key next).get? other = some otherState) :
      ∃ previous,
        reassembler.flows.get? other = some previous ∧
          otherState.flow = previous.flow ∧
          otherState.connectionEpoch = previous.connectionEpoch := by
    rw [OrderedTable.get?_set] at otherFound
    split at otherFound
    case isTrue same =>
      cases otherFound
      exact ⟨state, same ▸ found, flow, epoch⟩
    case isFalse => exact ⟨otherState, otherFound, rfl, rfl⟩
  refine {
    flowOf := ?_
    epochUsed := ?_
    epochOf := ?_
    epochsDistinct := ?_
    directions := ?_
    live := ?_
    bufferedBytes := ?_
    bufferedSegments := ?_
  }
  · intro other otherState otherFound
    obtain ⟨previous, previousFound, sameFlow, -⟩ := lookup otherFound
    exact sameFlow.trans (wf.flowOf previousFound)
  · intro other otherState otherFound
    obtain ⟨previous, previousFound, -, sameEpoch⟩ := lookup otherFound
    exact sameEpoch ▸ wf.epochUsed previousFound
  · intro other otherState otherFound direction
    simp only [OrderedTable.get?_set] at otherFound
    split at otherFound
    case isTrue =>
      cases otherFound
      exact epochOf direction
    case isFalse => exact wf.epochOf otherFound direction
  · intro first second firstState secondState firstFound secondFound same
    obtain ⟨firstPrevious, firstBefore, -, firstEpoch⟩ := lookup firstFound
    obtain ⟨secondPrevious, secondBefore, -, secondEpoch⟩ :=
      lookup secondFound
    exact wf.epochsDistinct firstBefore secondBefore
      (firstEpoch.symm.trans (same.trans secondEpoch))
  · intro other otherState otherFound direction
    simp only [OrderedTable.get?_set] at otherFound
    split at otherFound
    case isTrue =>
      cases otherFound
      exact directions direction
    case isFalse => exact wf.directions otherFound direction
  · intro other otherState otherFound
    simp only [OrderedTable.get?_set] at otherFound
    split at otherFound
    case isTrue =>
      cases otherFound
      exact live
    case isFalse => exact wf.live otherFound
  · simp only
    rw [bufferedBytes, wf.bufferedBytes, OrderedTable.sum_set,
      OrderedTable.sum_eq_add_erase found]
    ring
  · simp only
    rw [bufferedSegments, wf.bufferedSegments, OrderedTable.sum_set,
      OrderedTable.sum_eq_add_erase found]
    ring

/-- A new reassembler satisfies the invariant. -/
theorem new (epochNamespace : Nat) :
    (TCPReassembler.new epochNamespace).Wf where
  flowOf := by simp [TCPReassembler.new]
  epochUsed := by simp [TCPReassembler.new]
  epochOf := by simp [TCPReassembler.new]
  epochsDistinct := by simp [TCPReassembler.new]
  directions := by simp [TCPReassembler.new]
  live := by simp [TCPReassembler.new]
  bufferedBytes := rfl
  bufferedSegments := rfl

end TCPReassembler.Wf

/-- Every step keeps the representation invariant. -/
theorem TcpStep.wf
    {limits : TcpLimits}
    {before after : TCPReassembler}
    {events : List TcpEvent}
    (step : TcpStep limits before events after)
    (wf : before.Wf) :
    after.Wf := by
  cases step with
  | @onDirection key state direction events view found step =>
      have facts := step.facts (wf.directions found direction)
      show TCPReassembler.Wf {
        flows :=
          before.flows.set key (state.setDirection direction view.direction)
        nextConnectionEpoch := before.nextConnectionEpoch
        counters := view.counters
      }
      refine TCPReassembler.Wf.replace wf found ?_ ?_ ?_ ?_ ?_ ?_ ?_
      · rfl
      · rfl
      · intro other
        rcases direction.eq_or_eq_opposite other with same | opposite
        · subst same
          rw [FlowState.directions_setDirection_self, facts.epoch]
          exact wf.epochOf found other
        · subst opposite
          rw [FlowState.directions_setDirection_opposite]
          exact wf.epochOf found _
      · intro other
        rcases direction.eq_or_eq_opposite other with same | opposite
        · subst same
          rw [FlowState.directions_setDirection_self]
          exact facts.wf
        · subst opposite
          rw [FlowState.directions_setDirection_opposite]
          exact wf.directions found _
      · rw [FlowState.allClosed_setDirection state facts.closed]
        exact wf.live found
      · rw [FlowState.sumDirections_setDirection]
        have := facts.bufferedBytes
        simp only at this
        linarith
      · rw [FlowState.sumDirections_setDirection]
        have := facts.bufferedSegments
        simp only at this
        linarith
  | @revise key state revised found same alive =>
      apply wf.replace found same.flow same.epoch
      · intro direction
        rw [(same.directions direction).connectionEpoch, same.epoch]
        exact wf.epochOf found direction
      · intro direction
        exact (same.directions direction).wf (wf.directions found direction)
      · exact alive
      · rw [same.sumDirections_eq _ fun sameStream =>
          sameStream.pendingBytes]
        ring
      · rw [same.sumDirections_eq _ fun sameStream =>
          congrArg (fun pending => (List.length pending : Int))
            sameStream.pending]
        ring
  | reorder key =>
      have before
          {other : FlowId}
          {state : FlowState}
          (found :
            (before.flows.moveToEnd key).get? other = some state) :
          before.flows.get? other = some state := by
        simpa using found
      exact {
        flowOf := fun found => wf.flowOf (before found)
        epochUsed := fun found => wf.epochUsed (before found)
        epochOf := fun found => wf.epochOf (before found)
        epochsDistinct := fun first second =>
          wf.epochsDistinct (before first) (before second)
        directions := fun found => wf.directions (before found)
        live := fun found => wf.live (before found)
        bufferedBytes := by simpa using wf.bufferedBytes
        bufferedSegments := by simpa using wf.bufferedSegments
      }
  | @create packet clock absent =>
      have lookup
          {key : FlowId}
          {state : FlowState}
          (found :
            (before.createFlow clock packet).flows.get? key = some state) :
          (key = packet.flowId ∧
              state =
                TCPReassembler.freshFlow packet.flow.1
                  before.nextConnectionEpoch packet.timestampNs clock) ∨
            before.flows.get? key = some state := by
        simp only [TCPReassembler.createFlow, OrderedTable.get?_set] at found
        split at found
        case isTrue same =>
          cases found
          exact .inl ⟨same, rfl⟩
        case isFalse => exact .inr found
      refine {
        flowOf := ?_
        epochUsed := ?_
        epochOf := ?_
        epochsDistinct := ?_
        directions := ?_
        live := ?_
        bufferedBytes := ?_
        bufferedSegments := ?_
      }
      · intro key state found
        rcases lookup found with ⟨rfl, rfl⟩ | old
        · rfl
        · exact wf.flowOf old
      · intro key state found
        rcases lookup found with ⟨rfl, rfl⟩ | old
        · exact Nat.lt_succ_self _
        · exact (wf.epochUsed old).trans (Nat.lt_succ_self _)
      · intro key state found direction
        rcases lookup found with ⟨rfl, rfl⟩ | old
        · rfl
        · exact wf.epochOf old direction
      · intro key other state otherState found otherFound same
        rcases lookup found with ⟨rfl, rfl⟩ | old
        · rcases lookup otherFound with ⟨rfl, rfl⟩ | otherOld
          · rfl
          · have used := wf.epochUsed otherOld
            rw [← same] at used
            exact (Nat.lt_irrefl _ used).elim
        · rcases lookup otherFound with ⟨rfl, rfl⟩ | otherOld
          · have used := wf.epochUsed old
            rw [same] at used
            exact (Nat.lt_irrefl _ used).elim
          · exact wf.epochsDistinct old otherOld same
      · intro key state found direction
        rcases lookup found with ⟨rfl, rfl⟩ | old
        · exact DirectionState.wf_fresh _
        · exact wf.directions old direction
      · intro key state found
        rcases lookup found with ⟨rfl, rfl⟩ | old
        · rfl
        · exact wf.live old
      · simp only [TCPReassembler.createFlow]
        rw [OrderedTable.sum_set, OrderedTable.erase_of_get?_eq_none absent,
          wf.bufferedBytes]
        simp [TCPReassembler.freshFlow, FlowState.sumDirections]
      · simp only [TCPReassembler.createFlow]
        rw [OrderedTable.sum_set, OrderedTable.erase_of_get?_eq_none absent,
          wf.bufferedSegments]
        simp [TCPReassembler.freshFlow, FlowState.sumDirections]
  | @remove key state found flushed =>
      have survives
          {other : FlowId}
          {otherState : FlowState}
          (otherFound :
            (before.flows.erase key).get? other = some otherState) :
          before.flows.get? other = some otherState := by
        by_cases same : other = key
        · subst same
          simp at otherFound
        · rwa [OrderedTable.get?_erase_of_ne _ same] at otherFound
      simp only [TCPReassembler.removeFlow, found]
      exact {
        flowOf := fun otherFound => wf.flowOf (survives otherFound)
        epochUsed := fun otherFound => wf.epochUsed (survives otherFound)
        epochOf := fun otherFound => wf.epochOf (survives otherFound)
        epochsDistinct := fun firstFound secondFound =>
          wf.epochsDistinct (survives firstFound) (survives secondFound)
        directions := fun otherFound => wf.directions (survives otherFound)
        live := fun otherFound => wf.live (survives otherFound)
        bufferedBytes := by
          simp only
          rw [wf.bufferedBytes, OrderedTable.sum_eq_add_erase found]
          ring
        bufferedSegments := by
          simp only
          rw [wf.bufferedSegments, OrderedTable.sum_eq_add_erase found]
          ring
      }
  | count evicted budgetEvicted expired =>
      exact {
        flowOf := wf.flowOf
        epochUsed := wf.epochUsed
        epochOf := wf.epochOf
        epochsDistinct := wf.epochsDistinct
        directions := wf.directions
        live := wf.live
        bufferedBytes := wf.bufferedBytes
        bufferedSegments := wf.bufferedSegments
      }

/-- Relabelling the chunks of a step gives a step. -/
theorem TcpStep.relabel
    {limits : TcpLimits}
    {before after : TCPReassembler}
    {events : List TcpEvent}
    (completeness : Option Completeness)
    (step : TcpStep limits before events after) :
    TcpStep limits before (events.map (TcpEvent.relabel completeness))
      after := by
  cases step with
  | onDirection found step =>
      exact .onDirection found (step.relabel completeness)
  | revise found same alive => exact .revise found same alive
  | reorder key => exact .reorder key
  | create clock absent => exact .create clock absent
  | remove found flushed => exact .remove found flushed
  | count evicted budgetEvicted expired =>
      exact .count evicted budgetEvicted expired

/-- A sequence of steps keeps the representation invariant. -/
theorem TCPReassembler.wf_of_follows
    {limits : TcpLimits}
    {reassembler : TCPReassembler}
    {outcome : Outcome TCPReassembler TcpEvent}
    (follows : outcome.FollowsFrom (TcpStep limits) reassembler)
    (wf : reassembler.Wf) :
    outcome.state.Wf :=
  Steps.stateInvariant (motive := TCPReassembler.Wf)
    (fun wfBefore step => step.wf wfBefore) follows wf

end PacketAudit
