import PacketAudit.Fragments.Datagram
import PacketAudit.Fragments.Expiry
import PacketAudit.Tcp.Methods

namespace PacketAudit

/-!
# Expiry of flows by the monotonic clock

As for fragments: every call that touches a flow moves it behind all others,
so the table is sorted by last activity while the clock does not run
backwards, and `expire` may stop at the first flow in use.
-/

open Library OrderedTable

/-- The monotonic clock reading of a call, if it makes one. -/
def TcpOperation.clock? : TcpOperation → Option Int
  | .process clock _ => some clock
  | .expire none clock => some clock
  | .expire (some _) _ => none
  | .flushAll _ => none

namespace TCPReassembler

/-- The table's keys with their last activity. -/
def stamps (reassembler : TCPReassembler) : List (FlowId × Int) :=
  reassembler.flows.stamps FlowState.activityNs

/-- Idle flows, found by a scan of the whole table. -/
def idleFlows
    (limits : TcpLimits)
    (clock : Int)
    (reassembler : TCPReassembler) : List FlowId :=
  (reassembler.flows.entries.filter
    (isIdle FlowState.activityNs limits.idleNs clock)).map Prod.fst

variable {limits : TcpLimits} {reassembler : TCPReassembler}

/-! ## Stages that touch no flow -/

theorem stamps_onDirection
    (key : FlowId)
    (direction : Direction)
    (operation : DirectionView → Outcome DirectionView TcpEvent)
    (reassembler : TCPReassembler) :
    (reassembler.onDirection key direction operation).state.stamps =
      reassembler.stamps := by
  cases found : reassembler.flows.get? key with
  | none =>
      rw [onDirection_of_get?_eq_none _ _ found]
      rfl
  | some state =>
      rw [onDirection_of_get?_eq_some _ _ found]
      exact stamps_set found rfl

theorem stamps_reviseFlow
    (key : FlowId)
    (revise : FlowState → FlowState)
    (same : ∀ state, (revise state).activityNs = state.activityNs)
    (reassembler : TCPReassembler) :
    (reassembler.reviseFlow key revise).stamps = reassembler.stamps := by
  unfold reviseFlow
  split
  case _ => rfl
  case _ state found => exact stamps_set found (same state)

theorem stamps_removeFlow
    (key : FlowId)
    (reassembler : TCPReassembler) :
    (reassembler.removeFlow key).stamps.Sublist reassembler.stamps := by
  unfold removeFlow
  split
  · exact List.Sublist.refl _
  · exact stamps_erase key

theorem stamps_closeFlow
    (key : FlowId)
    (flow : FlowKey)
    (reassembler : TCPReassembler) :
    (reassembler.closeFlow limits key flow).state.stamps.Sublist
      reassembler.stamps := by
  unfold stamps
  rw [flows_closeFlow]
  exact stamps_erase key

theorem stamps_evictWhile
    (budget : Bool)
    (condition : TCPReassembler → Bool)
    (fuel : Nat)
    (reassembler : TCPReassembler) :
    (reassembler.evictWhile limits budget condition fuel).state.stamps.Sublist
      reassembler.stamps := by
  induction fuel generalizing reassembler with
  | zero =>
      exact List.Sublist.refl _
  | succ fuel inductionHypothesis =>
      have evicted :
          (reassembler.evictOldest limits budget).state.stamps.Sublist
            reassembler.stamps := by
        unfold evictOldest
        split
        · exact List.Sublist.refl _
        split
        · exact List.Sublist.refl _
        · exact stamps_closeFlow _ _ _
      unfold evictWhile
      split
      · exact (inductionHypothesis _).trans evicted
      · exact List.Sublist.refl _

theorem stamps_restart
    (packet : ParsedPacket)
    (reassembler : TCPReassembler) :
    (reassembler.restart limits packet).state.stamps.Sublist
      reassembler.stamps := by
  unfold restart
  split
  · exact stamps_closeFlow _ _ _
  · exact List.Sublist.refl _

theorem stamps_finish
    (packet : ParsedPacket)
    (reassembler : TCPReassembler) :
    (reassembler.finish limits packet).state.stamps.Sublist
      reassembler.stamps := by
  have ending
      (closed : TCPReassembler) :
      (if closed.endsConnection packet then
          (closed.onDirection packet.flowId packet.flow.2.opposite
            (flushDirection limits packet.flow.1
              packet.flow.2.opposite)).andThen
            fun flushed => .quiet (flushed.removeFlow packet.flowId)
        else
          .quiet closed).state.stamps.Sublist closed.stamps := by
    split
    · refine (stamps_removeFlow _ _).trans ?_
      rw [stamps_onDirection]
    · exact List.Sublist.refl _
  unfold finish
  refine (ending _).trans ?_
  split
  · simp only [Outcome.state_andThen, Outcome.state_quiet]
    rw [stamps_reviseFlow _ (markClosed packet.flow.2) (fun _ => rfl),
      stamps_onDirection]
  · exact List.Sublist.refl _

/-! ## The stage that touches a flow -/

theorem activityNs_acknowledged
    (packet : ParsedPacket)
    (state : FlowState) :
    (acknowledged packet state).activityNs = state.activityNs := by
  unfold acknowledged
  dsimp only
  split
  · split
    · rfl
    · rfl
  · rfl

/-- The flow of a packet is entered as the last one. -/
theorem entries_enter
    (limits : TcpLimits)
    (clock : Int)
    (packet : ParsedPacket)
    (reassembler : TCPReassembler) :
    ∃ front state,
      (reassembler.enter limits clock packet).state.flows.entries =
          front ++ [(packet.flowId, state)] ∧
        (front.map fun entry => (entry.1, entry.2.activityNs)).Sublist
          reassembler.stamps := by
  unfold enter
  split
  case _ state found =>
    refine ⟨_, state, entries_moveToEnd found, stamps_erase _⟩
  case _ absent =>
    have evicted :
        (reassembler.evictWhile limits false (flowTableFull limits)
          reassembler.flows.size).state.stamps.Sublist
          reassembler.stamps :=
      stamps_evictWhile false _ _ reassembler
    exact ⟨_, _, entries_set_of_none (get?_evictWhile_of_none absent) _,
      evicted⟩

/-- Entering a flow and noting the packet stamps it at the end. -/
theorem stamps_prepare
    (limits : TcpLimits)
    (clock : Int)
    (packet : ParsedPacket)
    (reassembler : TCPReassembler) :
    (reassembler.prepare limits clock packet).state.stamps.Sublist
      (reassembler.stamps ++ [(packet.flowId, clock)]) := by
  unfold prepare
  simp only [Outcome.state_andThen, Outcome.state_quiet]
  rw [stamps_onDirection]
  obtain ⟨front, state, entered, fewer⟩ :=
    entries_enter limits clock packet
      (reassembler.restart limits packet).state
  generalize
    ((reassembler.restart limits packet).state.enter limits clock
      packet).state = after at entered
  have found : after.flows.get? packet.flowId = some state := by
    rw [get?_eq_some, entered]
    simp
  unfold reviseFlow
  rw [found]
  unfold stamps OrderedTable.stamps
  simp only
  rw [entries_set_last entered, List.map_append, List.map_singleton,
    activityNs_acknowledged]
  exact (fewer.trans (stamps_restart packet reassembler)).append_right _

/-- A call leaves flows out and may stamp one at the end. -/
theorem stamps_process
    (clock : Int)
    (packet : ParsedPacket)
    (reassembler : TCPReassembler) :
    (reassembler.process limits clock packet).state.stamps.Sublist
      (reassembler.stamps ++ [(packet.flowId, clock)]) := by
  have prepared :=
    stamps_prepare limits clock packet reassembler
  have accepted :
      ((reassembler.prepare limits clock packet).state.onDirection
        packet.flowId packet.flow.2
        (acceptPayload limits packet)).state.stamps.Sublist
        (reassembler.stamps ++ [(packet.flowId, clock)]) := by
    rw [stamps_onDirection]
    exact prepared
  unfold process
  split
  case isTrue =>
    unfold processTcp
    simp only [Outcome.state_andThen]
    split
    · exact accepted
    split
    · simp only [Outcome.state_andThen]
      exact (stamps_finish packet _).trans
        ((stamps_evictWhile _ _ _ _).trans accepted)
    · exact (stamps_finish packet _).trans accepted
  case isFalse =>
    exact List.sublist_append_left _ _

/-! ## Closing flows -/

theorem entries_closeFlows
    (limits : TcpLimits)
    (keys : List FlowId)
    (reassembler : TCPReassembler) :
    (reassembler.closeFlows limits keys).state.flows.entries =
      reassembler.flows.entries.filter fun entry => entry.1 ∉ keys := by
  induction keys generalizing reassembler with
  | nil =>
      simp [closeFlows]
  | cons key rest inductionHypothesis =>
      have both :
          (reassembler.closeFlows limits (key :: rest)).state.flows.entries =
            (reassembler.flows.erase key).entries.filter fun entry =>
              entry.1 ∉ rest := by
        unfold closeFlows
        split
        case _ absent =>
          rw [inductionHypothesis, erase_of_get?_eq_none absent]
        case _ state found =>
          rw [Outcome.state_andThen, inductionHypothesis, flows_closeFlow]
      rw [both, entries_erase, List.filter_filter]
      apply List.filter_congr
      intro entry _
      simp [Bool.and_comm]

theorem stamps_closeFlows
    (keys : List FlowId)
    (reassembler : TCPReassembler) :
    (reassembler.closeFlows limits keys).state.stamps.Sublist
      reassembler.stamps := by
  unfold stamps OrderedTable.stamps
  rw [entries_closeFlows]
  exact List.filter_sublist.map _

/-! ## Runs -/

/-- The table is sorted by activity that is over at the given time. -/
def StampsInOrder (clock : Int) (reassembler : TCPReassembler) : Prop :=
  reassembler.flows.InActivityOrder FlowState.activityNs clock

theorem StampsInOrder.new (clock : Int) (epochNamespace : Nat) :
    (TCPReassembler.new epochNamespace).StampsInOrder clock :=
  InActivityOrder.empty clock

variable {clock : Int}

/-- A call at a later time keeps the order. -/
theorem StampsInOrder.apply
    (ordered : reassembler.StampsInOrder clock)
    {operation : TcpOperation}
    {now : Int}
    (onward : clock ≤ now)
    (reads : ∀ reading, operation.clock? = some reading → reading = now) :
    (operation.apply limits reassembler).state.StampsInOrder now := by
  have later : reassembler.StampsInOrder now := ordered.later onward
  cases operation with
  | process reading packet =>
      obtain rfl := reads reading rfl
      exact later.use (stamps_process reading packet reassembler)
  | expire capture reading =>
      exact later.shrink (stamps_closeFlows _ reassembler)
  | flushAll completeness =>
      exact later.shrink (stamps_closeFlows _ reassembler)

/-- The readings of a run that end at the given time at the latest. -/
theorem StampsInOrder.run
    {operations : List TcpOperation}
    (ordered : reassembler.StampsInOrder clock)
    {now : Int}
    (readings :
      (clock :: operations.filterMap TcpOperation.clock? ++
        [now]).Pairwise (· ≤ ·)) :
    (reassembler.run limits operations).state.StampsInOrder now := by
  induction operations generalizing reassembler clock with
  | nil =>
      apply ordered.later
      simpa using readings
  | cons operation rest inductionHypothesis =>
      cases read : operation.clock? with
      | none =>
          rw [List.filterMap_cons_none read] at readings
          exact inductionHypothesis
            (ordered.apply (le_refl clock) (by simp [read])) readings
      | some reading =>
          rw [List.filterMap_cons_some read] at readings
          obtain ⟨first, later⟩ := List.pairwise_cons.mp readings
          refine @inductionHypothesis _ reading ?_ later
          refine ordered.apply (first reading (by simp)) ?_
          intro other isOther
          rw [read] at isOther
          exact (Option.some.inj isOther).symm

/-- In a table in order, stopping early finds what a full scan finds. -/
theorem StampsInOrder.staleFlows
    (ordered : reassembler.StampsInOrder clock)
    (now : Int) :
    reassembler.staleFlows limits none now =
      reassembler.idleFlows limits now :=
  congrArg (List.map Prod.fst) (ordered.takeWhile_isIdle limits.idleNs now)

/-- Expiry of a table in order leaves exactly the flows in use. -/
theorem StampsInOrder.expire
    (ordered : reassembler.StampsInOrder clock)
    (now : Int) :
    (reassembler.expire limits none now).state.flows.entries =
      reassembler.flows.entries.filter fun entry =>
        !isIdle FlowState.activityNs limits.idleNs now entry := by
  have closed :=
    entries_closeFlows limits
      (reassembler.staleFlows limits none now) reassembler
  rw [ordered.staleFlows] at closed
  unfold TCPReassembler.expire
  simp only [Outcome.state_andThen, Outcome.state_quiet]
  rw [ordered.staleFlows, closed]
  convert filter_not_mem_keys reassembler.flows
    (isIdle FlowState.activityNs limits.idleNs now)
  rfl

end TCPReassembler

/-- What expiry by the monotonic clock does to a table in order. -/
structure FragmentReassembler.ExpiresAsFullScan
    (limits : FragmentLimits)
    (clock : Int)
    (reassembler : FragmentReassembler) : Prop where
  sorted :
    (reassembler.states.entries.map fun entry =>
      entry.2.activityNs).Pairwise (· ≤ ·)
  stale :
    reassembler.staleDatagrams limits none clock =
      reassembler.idleDatagrams limits clock
  removed :
    (reassembler.expire limits none clock).states.entries =
      reassembler.states.entries.filter fun entry =>
        decide (clock - entry.2.activityNs < limits.idleNs)

/-- What expiry by the monotonic clock does to a table in order. -/
structure TCPReassembler.ExpiresAsFullScan
    (limits : TcpLimits)
    (clock : Int)
    (reassembler : TCPReassembler) : Prop where
  sorted :
    (reassembler.flows.entries.map fun entry =>
      entry.2.activityNs).Pairwise (· ≤ ·)
  stale :
    reassembler.staleFlows limits none clock =
      reassembler.idleFlows limits clock
  removed :
    (reassembler.expire limits none clock).state.flows.entries =
      reassembler.flows.entries.filter fun entry =>
        decide (clock - entry.2.activityNs < limits.idleNs)

/-- Not idle is in use. -/
theorem filter_not_isIdle
    {κ ν : Type}
    (activity : ν → Int)
    (limit clock : Int)
    (entries : List (κ × ν)) :
    (entries.filter fun entry => !isIdle activity limit clock entry) =
      entries.filter fun entry =>
        decide (clock - activity entry.2 < limit) := by
  apply List.filter_congr
  intro entry _
  simp only [isIdle, ← decide_not, not_le]

/--
In every run of either reassembler whose clock readings never decrease, the
table is sorted by last activity, and `expire` without a capture clock removes
exactly the entries that have been idle for the limit, as a full scan would.
-/
theorem expire_stops_early_soundly :
    (∀ (limits : FragmentLimits) (operations : List FragmentOperation)
        (clock : Int),
      (operations.filterMap FragmentOperation.clock? ++
        [clock]).Pairwise (· ≤ ·) →
      (FragmentReassembler.run limits operations {}).state.ExpiresAsFullScan
        limits clock) ∧
    ∀ (limits : TcpLimits) (epochNamespace : Nat)
        (operations : List TcpOperation) (clock : Int),
      (operations.filterMap TcpOperation.clock? ++
        [clock]).Pairwise (· ≤ ·) →
      ((TCPReassembler.new epochNamespace).run limits
        operations).state.ExpiresAsFullScan limits clock := by
  -- The readings are preceded by one that is not later than any of them.
  have preceded
      {readings : List Int}
      {clock : Int}
      (sorted : (readings ++ [clock]).Pairwise (· ≤ ·)) :
      ∃ start, (start :: readings ++ [clock]).Pairwise (· ≤ ·) := by
    cases readings with
    | nil => exact ⟨clock, by simp⟩
    | cons first rest =>
        refine ⟨first, List.pairwise_cons.mpr ⟨?_, sorted⟩⟩
        intro reading member
        rcases List.mem_cons.mp member with isFirst | later
        · exact isFirst ▸ le_refl _
        · exact (List.pairwise_cons.mp sorted).1 reading later
  constructor
  · intro limits operations clock sorted
    obtain ⟨start, readings⟩ := preceded sorted
    have ordered :
        (FragmentReassembler.run limits operations {}).state.StampsInOrder clock :=
      (FragmentReassembler.StampsInOrder.initial start).run readings
    exact {
      sorted := ordered.activities
      stale := ordered.staleDatagrams clock
      removed := by rw [ordered.expire, filter_not_isIdle] }
  · intro limits epochNamespace operations clock sorted
    obtain ⟨start, readings⟩ := preceded sorted
    have ordered :
        ((TCPReassembler.new epochNamespace).run limits
          operations).state.StampsInOrder clock :=
      (TCPReassembler.StampsInOrder.new start epochNamespace).run readings
    exact {
      sorted := ordered.activities
      stale := ordered.staleFlows clock
      removed := by rw [ordered.expire, filter_not_isIdle] }

/-- A datagram that got a fragment, and a connection that was used again. -/
theorem usedEntries_expire :
    (FragmentReassembler.run .default
      [.process 0 (sampleFragment 1 0 true sampleHeader),
        .expire none 5] {}).state.ExpiresAsFullScan .default 7 ∧
    ((TCPReassembler.new 0).run .default
      [.process 0 (sampleSegment 1 99 0x02 []),
        .process 3 (sampleSegment 2 100 0x18 [0x41]),
        .expire none 5]).state.ExpiresAsFullScan .default 7 :=
  ⟨expire_stops_early_soundly.1 _ _ _ (by decide),
    expire_stops_early_soundly.2 _ _ _ _ (by decide)⟩

end PacketAudit
