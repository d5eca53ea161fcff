import PacketAudit.Tcp.Stages

namespace PacketAudit

/-!
# The methods as sequences of stages

`process`, `expire` and `flush_all` on a well-formed reassembler are finite
sequences of stages, and so of `TcpStep`s.
-/

open Library

namespace TCPReassembler

/-- Closing a flow drops its entry and no other one. -/
theorem get?_closeFlow
    (limits : TcpLimits)
    (key other : FlowId)
    (flow : FlowKey)
    (reassembler : TCPReassembler) :
    (reassembler.closeFlow limits key flow).state.flows.get? other =
      if other = key then none else reassembler.flows.get? other := by
  unfold closeFlow
  simp only [Outcome.state_andThen, Outcome.state_quiet, get?_removeFlow]
  split
  · rfl
  · rename_i different
    rw [get?_onDirection_of_ne different, get?_onDirection_of_ne different]

/-- Evicting flows adds no entry. -/
theorem get?_evictOldest_of_none
    {limits : TcpLimits}
    {budget : Bool}
    {key : FlowId}
    {reassembler : TCPReassembler}
    (absent : reassembler.flows.get? key = none) :
    (reassembler.evictOldest limits budget).state.flows.get? key = none := by
  unfold evictOldest
  split
  · exact absent
  · split
    · exact absent
    · simp only [Outcome.state_andThen, Outcome.state_quiet, get?_closeFlow]
      split
      · rfl
      · exact absent

theorem get?_evictWhile_of_none
    {limits : TcpLimits}
    {budget : Bool}
    {condition : TCPReassembler → Bool}
    {fuel : Nat}
    {key : FlowId}
    {reassembler : TCPReassembler}
    (absent : reassembler.flows.get? key = none) :
    (reassembler.evictWhile limits budget condition
      fuel).state.flows.get? key = none := by
  induction fuel generalizing reassembler with
  | zero =>
      exact absent
  | succ fuel inductionHypothesis =>
      unfold evictWhile
      split
      · exact inductionHypothesis (get?_evictOldest_of_none absent)
      · exact absent

/-- Closing a flow drops its entry from the table. -/
theorem flows_closeFlow
    (limits : TcpLimits)
    (key : FlowId)
    (flow : FlowKey)
    (reassembler : TCPReassembler) :
    (reassembler.closeFlow limits key flow).state.flows =
      reassembler.flows.erase key := by
  unfold closeFlow
  simp only [Outcome.state_andThen, Outcome.state_quiet]
  cases found : reassembler.flows.get? key with
  | none =>
      simp [onDirection_of_get?_eq_none, found, removeFlow,
        OrderedTable.erase_of_get?_eq_none found]
  | some state =>
      rw [onDirection_of_get?_eq_some _ _ found]
      simp only
      rw [onDirection_of_get?_eq_some _ _ (get?_putDirection_self _ _ _ _ _)]
      simp only [removeFlow, get?_putDirection_self]
      simp only [putDirection, OrderedTable.erase_set]

/-- Evicting from a table that is not empty drops one flow. -/
theorem size_evictOldest
    {limits : TcpLimits}
    {budget : Bool}
    {reassembler : TCPReassembler}
    (nonempty : 0 < reassembler.flows.size) :
    (reassembler.evictOldest limits budget).state.flows.size + 1 =
      reassembler.flows.size := by
  obtain ⟨key, state, isOldest, found⟩ := OrderedTable.oldest?_of_pos nonempty
  simp only [evictOldest, isOldest, found, Outcome.state_andThen,
    Outcome.state_quiet, flows_closeFlow]
  exact (OrderedTable.size_eq_erase_add_one found).symm

/-- With a round for every flow, eviction ends where it is not wanted. -/
theorem condition_evictWhile
    {limits : TcpLimits}
    {budget : Bool}
    {condition : TCPReassembler → Bool}
    (needsFlow :
      ∀ {state : TCPReassembler},
        condition state = true → 0 < state.flows.size)
    {fuel : Nat}
    {reassembler : TCPReassembler}
    (enough : reassembler.flows.size ≤ fuel) :
    condition
      (reassembler.evictWhile limits budget condition fuel).state =
      false := by
  induction fuel generalizing reassembler with
  | zero =>
      cases wanted : condition reassembler with
      | false => exact wanted
      | true =>
          have := needsFlow wanted
          omega
  | succ fuel inductionHypothesis =>
      unfold evictWhile
      split
      case isTrue wanted =>
        have sizes := @size_evictOldest limits budget _ (needsFlow wanted)
        exact inductionHypothesis (by omega)
      case isFalse unwanted => simpa using unwanted

/-- A full table has a flow to evict. -/
theorem size_pos_of_flowTableFull
    {limits : TcpLimits}
    {reassembler : TCPReassembler}
    (full : reassembler.flowTableFull limits = true) :
    0 < reassembler.flows.size := by
  have atLeast := limits.maxFlows_pos
  simp only [flowTableFull, decide_eq_true_eq] at full
  omega

/-- The budget is only exceeded by flows in the table. -/
theorem size_pos_of_overBudget
    {limits : TcpLimits}
    {reassembler : TCPReassembler}
    (exceeded : reassembler.overBudget limits = true) :
    0 < reassembler.flows.size := by
  simp only [overBudget, Bool.and_eq_true, decide_eq_true_eq] at exceeded
  exact exceeded.2

/-! ## Calls as sequences of stages -/

/-- An outcome is reached by a finite sequence of stages. -/
def Performs
    (limits : TcpLimits)
    (accepting : Bool)
    (reassembler : TCPReassembler)
    (outcome : Outcome TCPReassembler TcpEvent) : Prop :=
  outcome.FollowsFrom (TcpStage limits accepting) reassembler

/-- An outcome is reached by a finite sequence of steps. -/
def Follows
    (limits : TcpLimits)
    (reassembler : TCPReassembler)
    (outcome : Outcome TCPReassembler TcpEvent) : Prop :=
  outcome.FollowsFrom (TcpStep limits) reassembler

namespace Performs

variable
  {limits : TcpLimits}
  {accepting : Bool}
  {reassembler : TCPReassembler}
  {outcome : Outcome TCPReassembler TcpEvent}

theorem quiet :
    Performs limits accepting reassembler (.quiet reassembler) :=
  .refl reassembler

theorem ofStage
    {next : TCPReassembler}
    (stage : TcpStage limits accepting reassembler [] next) :
    Performs limits accepting reassembler (.quiet next) :=
  .single stage

/-- The stages of a well-formed reassembler are made of labelled steps. -/
theorem labelled
    (performs : Performs limits accepting reassembler outcome)
    (wf : reassembler.Wf) :
    outcome.FollowsFrom (LabelledTcpStep limits) reassembler :=
  Steps.refine (motive := TCPReassembler.Wf)
    (fun wfBefore stage => stage.wf wfBefore)
    (fun wfBefore stage => stage.labelled wfBefore) performs wf

theorem follows
    (performs : Performs limits accepting reassembler outcome)
    (wf : reassembler.Wf) :
    Follows limits reassembler outcome :=
  Steps.mono (fun labelled => labelled.step) (performs.labelled wf)

theorem wf
    (performs : Performs limits accepting reassembler outcome)
    (wf : reassembler.Wf) :
    outcome.state.Wf :=
  wf_of_follows (performs.follows wf) wf

/-- Stages compose, each on a well-formed state. -/
theorem andThen
    {continuation : TCPReassembler → Outcome TCPReassembler TcpEvent}
    (first : Performs limits accepting reassembler outcome)
    (wf : reassembler.Wf)
    (second :
      outcome.state.Wf →
      Performs limits accepting outcome.state
        (continuation outcome.state)) :
    Performs limits accepting reassembler (outcome.andThen continuation) :=
  Outcome.FollowsFrom.andThen first (second (first.wf wf))

/-- Stages that take no payload are stages of any call. -/
theorem accept
    (performs : Performs limits false reassembler outcome) :
    Performs limits true reassembler outcome :=
  Steps.mono (fun stage => stage.accepting) performs

end Performs

theorem Follows.wf
    {limits : TcpLimits}
    {reassembler : TCPReassembler}
    {outcome : Outcome TCPReassembler TcpEvent}
    (follows : Follows limits reassembler outcome)
    (wf : reassembler.Wf) :
    outcome.state.Wf :=
  wf_of_follows follows wf

variable {limits : TcpLimits} {reassembler : TCPReassembler}

/-- Running a direction function on a flow is a stage. -/
theorem onDirection_performs
    {accepting : Bool}
    {key : FlowId}
    {direction : Direction}
    {apply : DirectionView → Outcome DirectionView TcpEvent}
    (stage : DirectionStage limits accepting key.2 direction apply) :
    Performs limits accepting reassembler
      (reassembler.onDirection key direction apply) := by
  cases found : reassembler.flows.get? key with
  | none =>
      rw [onDirection_of_get?_eq_none direction apply found]
      exact .quiet
  | some state =>
      rw [onDirection_of_get?_eq_some direction apply found]
      exact Steps.single (.perform found stage)

/-- Accepting a payload keeps the representation invariant. -/
theorem wf_acceptPayload
    (wf : reassembler.Wf)
    (packet : ParsedPacket) :
    (reassembler.onDirection packet.flowId packet.flow.2
      (acceptPayload limits packet)).state.Wf := by
  have performs :
      Performs limits true reassembler
        (reassembler.onDirection packet.flowId packet.flow.2
          (acceptPayload limits packet)) :=
    onDirection_performs (.accept packet)
  exact performs.wf wf

theorem reviseFlow_performs
    (key : FlowId)
    {revise : FlowState → FlowState}
    (same :
      ∀ {state},
        reassembler.flows.get? key = some state →
        state.SameStreams (revise state))
    (alive :
      ∀ {state},
        reassembler.flows.get? key = some state →
        (revise state).allClosed = false) :
    Performs limits false reassembler
      (.quiet (reassembler.reviseFlow key revise)) := by
  unfold reviseFlow
  split
  case h_1 => exact .quiet
  case h_2 state found =>
    exact .ofStage (.revise found (same found) (alive found))

/-- After flushing both directions of a flow nothing of it is pending. -/
theorem flushed_closeFlow
    (wf : reassembler.Wf)
    {key : FlowId}
    {state : FlowState}
    (found : reassembler.flows.get? key = some state)
    {flow : FlowKey}
    {first second : Direction}
    (different : first ≠ second)
    {flushed : FlowState}
    (after :
      ((reassembler.onDirection key first
          (flushDirection limits flow first)).andThen
        (onDirection key second
          (flushDirection limits flow second))).state.flows.get? key =
        some flushed) :
    ∀ direction, (flushed.directions direction).pending = [] := by
  rw [onDirection_of_get?_eq_some first _ found] at after
  simp only [Outcome.state_andThen] at after
  rw [onDirection_of_get?_eq_some second _
    (reassembler.get?_putDirection_self key state first _)] at after
  rw [get?_putDirection_self] at after
  cases after
  have secondIs : second = first.opposite := by
    rcases first.eq_or_eq_opposite second with same | opposite
    · exact (different same.symm).elim
    · exact opposite
  subst secondIs
  intro direction
  rcases first.eq_or_eq_opposite direction with same | opposite
  · subst same
    rw [FlowState.directions_setDirection_of_ne _ _
        direction.ne_opposite,
      FlowState.directions_setDirection_self]
    exact flushDirection_pending limits flow direction
      (wf.directions found direction)
  · subst opposite
    rw [FlowState.directions_setDirection_self]
    apply flushDirection_pending
    simpa using wf.directions found first.opposite

theorem closeFlow_performs
    (wf : reassembler.Wf)
    (key : FlowId) :
    Performs limits false reassembler
      (reassembler.closeFlow limits key key.2) := by
  cases found : reassembler.flows.get? key with
  | none =>
      simp [closeFlow, onDirection, removeFlow, found, Outcome.andThen]
      exact .quiet
  | some state =>
      unfold closeFlow
      refine Performs.andThen (Performs.andThen
        (onDirection_performs
          (.flush _ _)) wf ?_) wf ?_
      · intro _
        exact onDirection_performs
          (.flush _ _)
      · intro _
        cases after :
            ((reassembler.onDirection key .aToB
                (flushDirection limits key.2 .aToB)).andThen
              (onDirection key .bToA
                (flushDirection limits key.2
                  .bToA))).state.flows.get? key with
        | none =>
            simp only [removeFlow, after]
            exact .quiet
        | some flushed =>
            exact .ofStage
              (.remove after
                (flushed_closeFlow wf found (by decide) after))

theorem evictOldest_performs
    (wf : reassembler.Wf)
    (budget : Bool) :
    Performs limits false reassembler (reassembler.evictOldest limits budget) := by
  unfold evictOldest
  split
  case h_1 => exact .quiet
  case h_2 key _ =>
    split
    case h_1 => exact .quiet
    case h_2 state found =>
      rw [wf.flowOf found]
      exact Performs.andThen (closeFlow_performs wf key) wf fun _ =>
        .ofStage (.count _ _ _)

theorem evictWhile_performs
    (wf : reassembler.Wf)
    (budget : Bool)
    (condition : TCPReassembler → Bool)
    (fuel : Nat) :
    Performs limits false reassembler
      (reassembler.evictWhile limits budget condition fuel) := by
  induction fuel generalizing reassembler with
  | zero =>
      exact .quiet
  | succ fuel inductionHypothesis =>
      unfold evictWhile
      split
      · exact Performs.andThen (evictOldest_performs wf budget) wf
          inductionHypothesis
      · exact .quiet

theorem restart_performs
    (wf : reassembler.Wf)
    (packet : ParsedPacket) :
    Performs limits false reassembler (reassembler.restart limits packet) := by
  unfold restart
  split
  · exact closeFlow_performs wf packet.flowId
  · exact .quiet

theorem enter_performs
    (wf : reassembler.Wf)
    (clock : Int)
    (packet : ParsedPacket) :
    Performs limits false reassembler (reassembler.enter limits clock packet) := by
  unfold enter
  split
  case h_1 => exact .ofStage (.reorder _)
  case h_2 absent =>
    refine Performs.andThen (evictWhile_performs wf _ _ _) wf fun _ => ?_
    have notFull :
        flowTableFull limits
          (reassembler.evictWhile limits false (flowTableFull limits)
            reassembler.flows.size).state = false :=
      condition_evictWhile size_pos_of_flowTableFull (le_refl _)
    refine .ofStage (.create clock (get?_evictWhile_of_none absent) ?_)
    simpa [flowTableFull] using notFull

theorem prepare_performs
    (wf : reassembler.Wf)
    (clock : Int)
    (packet : ParsedPacket) :
    Performs limits false reassembler
      (reassembler.prepare limits clock packet) := by
  unfold prepare
  refine Performs.andThen (Performs.andThen (Performs.andThen
    (restart_performs wf packet) wf ?_) wf ?_) wf ?_
  · intro restarted
    exact enter_performs restarted clock packet
  · intro entered
    apply reviseFlow_performs packet.flowId
    · intro state _
      exact (touched_sameStreams clock packet state).trans
        (acknowledged_sameStreams packet _)
    · intro state found
      simpa using entered.live found
  · intro noted
    exact onDirection_performs (.start packet)

theorem enforceBudget_performs (wf : reassembler.Wf) :
    Performs limits false reassembler (reassembler.enforceBudget limits) :=
  evictWhile_performs wf _ _ _

/-- A change of bookkeeping fields just before a removal is lost. -/
theorem removeFlow_reviseFlow
    {key : FlowId}
    {state : FlowState}
    {revise : FlowState → FlowState}
    (direction : Direction)
    (apply : DirectionView → Outcome DirectionView TcpEvent)
    (found : reassembler.flows.get? key = some state)
    (sameDirection :
      (revise state).directions direction = state.directions direction)
    (same : state.SameStreams (revise state)) :
    (((reassembler.reviseFlow key revise).onDirection key direction
        apply).andThen fun flushed => .quiet (flushed.removeFlow key)) =
      ((reassembler.onDirection key direction apply).andThen
        fun flushed => .quiet (flushed.removeFlow key)) := by
  have revised :
      (reassembler.reviseFlow key revise) =
        { reassembler with flows := reassembler.flows.set key (revise state) }
      := by
    simp [reviseFlow, found]
  have revisedFound :
      (reassembler.reviseFlow key revise).flows.get? key =
        some (revise state) := by
    rw [revised]
    exact OrderedTable.get?_set_self _ _ _
  rw [onDirection_of_get?_eq_some direction apply revisedFound,
    onDirection_of_get?_eq_some direction apply found, sameDirection, revised]
  simp only [Outcome.andThen, Outcome.state_quiet, Outcome.events_quiet,
    List.append_nil, Outcome.mk.injEq, and_true]
  have sameSum
      (measure : DirectionState → Int)
      (next : DirectionState)
      (insensitive :
        ∀ {one other : DirectionState},
          one.SameStream other → measure other = measure one) :
      ((revise state).setDirection direction next).sumDirections measure =
        (state.setDirection direction next).sumDirections measure := by
    rw [FlowState.sumDirections_setDirection,
      FlowState.sumDirections_setDirection, sameDirection,
      same.sumDirections_eq measure insensitive]
  simp only [removeFlow, putDirection, OrderedTable.get?_set_self,
    OrderedTable.erase_set]
  rw [sameSum _ _ fun sameStream => sameStream.pendingBytes,
    sameSum _ _ fun sameStream =>
      congrArg (fun pending => (List.length pending : Int))
        sameStream.pending]

/-- Flushing the two directions in either order and dropping the flow. -/
theorem flushBoth_performs
    (wf : reassembler.Wf)
    {key : FlowId}
    {state : FlowState}
    (found : reassembler.flows.get? key = some state)
    (direction : Direction) :
    Performs limits false reassembler
      ((reassembler.onDirection key direction
        (flushDirection limits key.2 direction)).andThen fun flushed =>
          (flushed.onDirection key direction.opposite
            (flushDirection limits key.2 direction.opposite)).andThen
              fun emptied => .quiet (emptied.removeFlow key)) := by
  refine Performs.andThen
    (onDirection_performs
      (.flush _ _)) wf ?_
  intro flushedWf
  refine Performs.andThen
    (onDirection_performs
      (.flush _ _)) flushedWf ?_
  intro _
  cases after :
      (((reassembler.onDirection key direction
        (flushDirection limits key.2 direction)).andThen
          (onDirection key direction.opposite
            (flushDirection limits key.2
              direction.opposite))).state.flows.get? key) with
  | none =>
      rw [Outcome.state_andThen] at after
      simp only [removeFlow, after]
      exact .quiet
  | some emptied =>
      exact .ofStage
        (.remove after
          (flushed_closeFlow wf found direction.ne_opposite after))

theorem finish_performs
    (wf : reassembler.Wf)
    (packet : ParsedPacket) :
    Performs limits false reassembler (reassembler.finish limits packet) := by
  cases found : reassembler.flows.get? packet.flowId with
  | none =>
      have quiet :
          reassembler.finish limits packet = .quiet reassembler := by
        simp [finish, onDirection, reviseFlow, endsConnection, found]
      rw [quiet]
      exact .quiet
  | some state =>
      unfold finish
      simp only
      split
      case isFalse stays =>
        have continues : reassembler.endsConnection packet = false := by
          simp only [Bool.or_eq_true, not_or, Bool.not_eq_true] at stays
          simp [endsConnection, found, stays.2, wf.live found]
        simp only [Outcome.quiet_andThen, continues]
        exact .quiet
      case isTrue closes =>
        have flushes :
            Performs limits false reassembler
              (reassembler.onDirection packet.flowId packet.flow.2
                (flushDirection limits packet.flow.1 packet.flow.2)) :=
          onDirection_performs
            (.flush _ _)
        obtain ⟨flushed, flushedFound⟩ :
            ∃ flushed,
              (reassembler.onDirection packet.flowId packet.flow.2
                (flushDirection limits packet.flow.1
                  packet.flow.2)).state.flows.get? packet.flowId =
                some flushed := by
          rw [onDirection_of_get?_eq_some _ _ found]
          exact ⟨_, get?_putDirection_self _ _ _ _ _⟩
        have marked := markClosed_sameStreams packet.flow.2 flushed
        rw [Outcome.andThen_assoc]
        simp only [Outcome.quiet_andThen]
        by_cases ends :
            packet.rst || (markClosed packet.flow.2 flushed).allClosed
        · have drops :=
            removeFlow_reviseFlow packet.flow.2.opposite
              (flushDirection limits packet.flow.1 packet.flow.2.opposite)
              flushedFound
              (FlowState.directions_setDirection_opposite _ _ _) marked
          refine Eq.subst (motive := Performs limits false reassembler)
            (Outcome.andThen_congr ?_)
            (flushBoth_performs wf found packet.flow.2)
          have removes :
              ((reassembler.onDirection packet.flowId packet.flow.2
                (flushDirection limits packet.flow.1
                  packet.flow.2)).state.reviseFlow packet.flowId
                (markClosed packet.flow.2)).endsConnection packet =
                true := by
            simpa [endsConnection, reviseFlow, flushedFound] using ends
          rw [removes, if_pos rfl]
          exact drops.symm
        · refine Performs.andThen flushes wf fun flushedWf => ?_
          have continues :
              ((reassembler.onDirection packet.flowId packet.flow.2
                (flushDirection limits packet.flow.1
                  packet.flow.2)).state.reviseFlow packet.flowId
                (markClosed packet.flow.2)).endsConnection packet =
                false := by
            simpa [endsConnection, reviseFlow, flushedFound] using ends
          rw [continues]
          apply reviseFlow_performs packet.flowId
          · intro current _
            exact markClosed_sameStreams packet.flow.2 current
          · intro current isCurrent
            obtain rfl := Option.some.inj (isCurrent.symm.trans flushedFound)
            simp only [Bool.or_eq_true, not_or, Bool.not_eq_true] at ends
            exact ends.2

theorem processTcp_performs
    (wf : reassembler.Wf)
    (clock : Int)
    (packet : ParsedPacket) :
    Performs limits true reassembler
      (reassembler.processTcp limits clock packet) := by
  unfold processTcp
  refine Performs.andThen (prepare_performs wf clock packet).accept wf ?_
  intro preparedWf
  have accepts :
      Performs limits true (reassembler.prepare limits clock packet).state
        ((reassembler.prepare limits clock packet).state.onDirection
          packet.flowId packet.flow.2 (acceptPayload limits packet)) :=
    onDirection_performs (.accept packet)
  split
  · exact accepts
  · split
    · refine Performs.andThen (Performs.andThen accepts preparedWf ?_)
        preparedWf ?_
      · intro acceptedWf
        exact (enforceBudget_performs acceptedWf).accept
      · intro withinWf
        exact (finish_performs withinWf packet).accept
    · refine Performs.andThen accepts preparedWf ?_
      intro acceptedWf
      exact (finish_performs acceptedWf packet).accept

theorem process_performs
    (wf : reassembler.Wf)
    (clock : Int)
    (packet : ParsedPacket) :
    Performs limits true reassembler
      (reassembler.process limits clock packet) := by
  unfold process
  split
  · exact processTcp_performs wf clock packet
  · exact .quiet

theorem closeFlows_performs
    (wf : reassembler.Wf)
    (keys : List FlowId) :
    Performs limits false reassembler
      (reassembler.closeFlows limits keys) := by
  induction keys generalizing reassembler with
  | nil =>
      exact .quiet
  | cons key rest inductionHypothesis =>
      unfold closeFlows
      split
      case h_1 => exact inductionHypothesis wf
      case h_2 state found =>
        rw [wf.flowOf found]
        exact Performs.andThen (closeFlow_performs wf key) wf
          inductionHypothesis

theorem expire_performs
    (wf : reassembler.Wf)
    (now : Option Int)
    (clock : Int) :
    Performs limits false reassembler
      (reassembler.expire limits now clock) := by
  unfold expire
  refine Performs.andThen (closeFlows_performs wf _) wf ?_
  intro _
  exact .ofStage (.count _ _ _)

/-- Relabelling the chunks of a sequence of steps gives such a sequence. -/
theorem follows_relabel
    {outcome : Outcome TCPReassembler TcpEvent}
    (completeness : Option Completeness)
    (follows : Follows limits reassembler outcome) :
    Follows limits reassembler {
      state := outcome.state
      events := outcome.events.map (TcpEvent.relabel completeness)
    } :=
  Steps.mapEvents (fun step => step.relabel completeness) follows

theorem flushAll_follows
    (wf : reassembler.Wf)
    (completeness : Option Completeness) :
    Follows limits reassembler
      (reassembler.flushAll limits completeness) :=
  follows_relabel completeness ((closeFlows_performs wf _).follows wf)

end TCPReassembler

/-- Every call is a finite sequence of steps. -/
theorem TcpOperation.apply_follows
    {limits : TcpLimits}
    {reassembler : TCPReassembler}
    (wf : reassembler.Wf)
    (operation : TcpOperation) :
    TCPReassembler.Follows limits reassembler
      (operation.apply limits reassembler) := by
  cases operation with
  | process clock packet =>
      exact (TCPReassembler.process_performs wf clock packet).follows wf
  | expire now clock =>
      exact (TCPReassembler.expire_performs wf now clock).follows wf
  | flushAll completeness =>
      exact TCPReassembler.flushAll_follows wf completeness

/-- Every run is a finite sequence of steps. -/
theorem TCPReassembler.run_follows
    {limits : TcpLimits}
    {reassembler : TCPReassembler}
    (wf : reassembler.Wf)
    (operations : List TcpOperation) :
    Follows limits reassembler (reassembler.run limits operations) := by
  induction operations generalizing reassembler with
  | nil =>
      exact .refl reassembler
  | cons operation rest inductionHypothesis =>
      have first : Follows limits reassembler _ :=
        operation.apply_follows wf
      exact Outcome.FollowsFrom.andThen first
        (inductionHypothesis (first.wf wf))

/-- A stage invariant holds after every run that started with it. -/
theorem TCPReassembler.stageInvariant_run
    {limits : TcpLimits}
    {holds : TCPReassembler → Prop}
    (preserved :
      ∀ {before events after},
        before.Wf →
        TcpStage limits true before events after →
        holds before →
        holds after)
    {reassembler : TCPReassembler}
    (wf : reassembler.Wf)
    (operations : List TcpOperation)
    (initially : holds reassembler) :
    holds (reassembler.run limits operations).state := by
  have kept
      {state : TCPReassembler}
      {outcome : Outcome TCPReassembler TcpEvent}
      (performs : Performs limits true state outcome)
      (stateWf : state.Wf)
      (before : holds state) :
      holds outcome.state :=
    (Steps.stateInvariant
      (motive := fun reached => reached.Wf ∧ holds reached)
      (fun both stage =>
        ⟨stage.wf both.1, preserved both.1 stage both.2⟩)
      performs ⟨stateWf, before⟩).2
  induction operations generalizing reassembler with
  | nil =>
      exact initially
  | cons operation rest inductionHypothesis =>
      have first : Follows limits reassembler _ :=
        operation.apply_follows wf
      have nextWf := first.wf wf
      refine inductionHypothesis nextWf ?_
      cases operation with
      | process clock packet =>
          exact kept (process_performs wf clock packet) wf initially
      | expire now clock =>
          exact kept (expire_performs wf now clock).accept wf initially
      | flushAll completeness =>
          have performs : Performs limits false reassembler _ :=
            closeFlows_performs wf (reassembler.flows.entries.map Prod.fst)
          have flushed := kept performs.accept wf initially
          exact flushed

/-- The state a run of a new reassembler leaves. -/
def TCPReassembler.Reachable
    (limits : TcpLimits)
    (reassembler : TCPReassembler) : Prop :=
  ∃ epochNamespace operations,
    reassembler =
      ((TCPReassembler.new epochNamespace).run limits operations).state

theorem TCPReassembler.Reachable.wf
    {limits : TcpLimits}
    {reassembler : TCPReassembler}
    (reachable : reassembler.Reachable limits) :
    reassembler.Wf := by
  obtain ⟨epochNamespace, operations, rfl⟩ := reachable
  exact (TCPReassembler.run_follows (.new epochNamespace) operations).wf
    (.new epochNamespace)

end PacketAudit
