import PacketAudit.Tcp.Methods

namespace PacketAudit

/-!
# Histories of one direction

The log of a run is split by connection epoch and direction.  A property of a
direction's history and state that every `DirectionStep` keeps holds, in every
run, of every epoch and direction.
-/

open Library

namespace TcpEvent

/-- The connection epoch an event belongs to. -/
def connectionEpoch : TcpEvent → Nat
  | .opened epoch _ _ _ => epoch
  | .arrived arrival => arrival.connectionEpoch
  | .skipped epoch _ _ => epoch
  | .emitted chunk => chunk.connectionEpoch

/-- The direction an event belongs to. -/
def direction : TcpEvent → Direction
  | .opened _ direction _ _ => direction
  | .arrived arrival => arrival.direction
  | .skipped _ direction _ => direction
  | .emitted chunk => chunk.direction

/-- The event belongs to this epoch and direction. -/
def belongsTo
    (epoch : Nat)
    (direction : Direction)
    (event : TcpEvent) : Bool :=
  decide (event.connectionEpoch = epoch) &&
    decide (event.direction = direction)

/-- The `next_seq` a direction was opened with. -/
@[simp] def opened? : TcpEvent → Option Int
  | .opened _ _ nextSeq _ => some nextSeq
  | _ => none

/-- The length of a skipped gap. -/
@[simp] def gap? : TcpEvent → Option Int
  | .skipped _ _ gap => some gap
  | _ => none

end TcpEvent

/-- The events of one epoch and direction, in order. -/
def history
    (epoch : Nat)
    (direction : Direction)
    (log : List TcpEvent) : List TcpEvent :=
  log.filter (TcpEvent.belongsTo epoch direction)

/-- The first value `next_seq` takes in a history. -/
def firstNextSeq (events : List TcpEvent) : Option Int :=
  events.findSome? TcpEvent.opened?

/-- The sum of the gaps skipped. -/
def skippedBytes (events : List TcpEvent) : Int :=
  (events.filterMap TcpEvent.gap?).sum

/-- The number of bytes emitted in chunks. -/
def emittedBytes (events : List TcpEvent) : Int :=
  ((chunks events).map fun chunk => (chunk.data.length : Int)).sum

/-! ## Projections of concatenated logs -/

@[simp] theorem chunks_nil : chunks [] = [] := rfl

@[simp] theorem arrivals_nil : arrivals [] = [] := rfl

@[simp] theorem chunks_singleton (event : TcpEvent) :
    chunks [event] = event.chunk?.toList := by
  cases event <;> rfl

@[simp] theorem arrivals_singleton (event : TcpEvent) :
    arrivals [event] = event.arrival?.toList := by
  cases event <;> rfl

@[simp] theorem skippedBytes_nil : skippedBytes [] = 0 := rfl

@[simp] theorem skippedBytes_singleton (event : TcpEvent) :
    skippedBytes [event] = event.gap?.getD 0 := by
  cases event <;> simp [skippedBytes, TcpEvent.gap?, List.filterMap_cons]

@[simp] theorem emittedBytes_nil : emittedBytes [] = 0 := rfl

@[simp] theorem emittedBytes_singleton (event : TcpEvent) :
    emittedBytes [event] =
      (event.chunk?.map fun chunk => (chunk.data.length : Int)).getD 0 := by
  cases event <;> simp [emittedBytes, TcpEvent.chunk?]

@[simp] theorem chunks_append (first second : List TcpEvent) :
    chunks (first ++ second) = chunks first ++ chunks second :=
  List.filterMap_append

@[simp] theorem arrivals_append (first second : List TcpEvent) :
    arrivals (first ++ second) = arrivals first ++ arrivals second :=
  List.filterMap_append

@[simp] theorem skippedBytes_append (first second : List TcpEvent) :
    skippedBytes (first ++ second) =
      skippedBytes first + skippedBytes second := by
  simp [skippedBytes, List.filterMap_append]

@[simp] theorem emittedBytes_append (first second : List TcpEvent) :
    emittedBytes (first ++ second) =
      emittedBytes first + emittedBytes second := by
  simp [emittedBytes]

@[simp] theorem history_append
    (epoch : Nat)
    (direction : Direction)
    (first second : List TcpEvent) :
    history epoch direction (first ++ second) =
      history epoch direction first ++ history epoch direction second :=
  List.filter_append ..

theorem firstNextSeq_append_of_some
    {first : List TcpEvent}
    {base : Int}
    (known : firstNextSeq first = some base)
    (second : List TcpEvent) :
    firstNextSeq (first ++ second) = some base := by
  unfold firstNextSeq at *
  rw [List.findSome?_append, known]
  rfl

/-! ## The events of one step -/

section Events

variable
  {limits : TcpLimits}
  {flow : FlowKey}
  {direction : Direction}
  {before after : DirectionView}
  {events : List TcpEvent}

/-- A step of a direction logs events of its own epoch and direction only. -/
theorem DirectionStep.belongsTo
    (step : DirectionStep limits flow direction before events after)
    (wf : before.direction.Wf) :
    ∀ event ∈ events,
      event.belongsTo before.direction.connectionEpoch direction = true := by
  have both
      {event : TcpEvent}
      (epoch : event.connectionEpoch = before.direction.connectionEpoch)
      (side : event.direction = direction) :
      event.belongsTo before.direction.connectionEpoch direction = true := by
    simp [TcpEvent.belongsTo, epoch, side]
  intro event member
  cases step with
  | start sequence midstream synSeq idle lower upper =>
      obtain rfl := List.mem_singleton.mp member
      exact both rfl rfl
  | probe arrival arrives keepalive behind =>
      obtain rfl := List.mem_singleton.mp member
      exact both arrives.epoch arrives.side
  | repetition arrival arrives notKeepalive behind =>
      obtain rfl := List.mem_singleton.mp member
      exact both arrives.epoch arrives.side
  | store arrival timestampNs arrives notKeepalive reaches =>
      obtain rfl := List.mem_singleton.mp member
      exact both arrives.epoch arrives.side
  | drain forcedGap label =>
      obtain ⟨original, originalMember, rfl⟩ := List.mem_map.mp member
      cases expects : before.direction.nextSeq with
      | none =>
          rw [drain_idle limits flow direction forcedGap expects]
            at originalMember
          cases originalMember
      | some next =>
          obtain ⟨ready, blocked, drained⟩ :=
            drain_spec limits flow direction forcedGap wf expects
          by_cases noneReady : ready = []
          · rw [drained.silent noneReady] at originalMember
            cases originalMember
          · obtain ⟨chunk, eventsAre, -, side, epoch, -⟩ :=
              drained.emits noneReady
            rw [eventsAre] at originalMember
            obtain rfl := List.mem_singleton.mp originalMember
            exact both epoch side
  | gap expects pending hole =>
      obtain rfl := List.mem_singleton.mp member
      exact both rfl rfl

end Events

/-- The chunks of a log are all of one flow, epoch and direction. -/
def OwnChunks
    (flow : FlowKey)
    (epoch : Nat)
    (direction : Direction)
    (log : List TcpEvent) : Prop :=
  ∀ chunk ∈ chunks log,
    chunk.flow = flow ∧ chunk.connectionEpoch = epoch ∧
      chunk.direction = direction

/-- A step emits chunks of its own flow, epoch and direction only. -/
theorem DirectionStep.ownChunks
    {limits : TcpLimits}
    {flow : FlowKey}
    {direction : Direction}
    {before after : DirectionView}
    {events : List TcpEvent}
    (step : DirectionStep limits flow direction before events after)
    (wf : before.direction.Wf) :
    OwnChunks flow before.direction.connectionEpoch direction events := by
  intro chunk member
  cases step with
  | start => simp [chunks] at member
  | probe => simp [chunks] at member
  | repetition => simp [chunks] at member
  | store => simp [chunks] at member
  | drain forcedGap label =>
      cases expects : before.direction.nextSeq with
      | none =>
          rw [drain_idle limits flow direction forcedGap expects] at member
          simp [chunks] at member
      | some next =>
          obtain ⟨ready, blocked, drained⟩ :=
            drain_spec limits flow direction forcedGap wf expects
          by_cases noneReady : ready = []
          · rw [drained.silent noneReady] at member
            simp [chunks] at member
          · obtain ⟨original, eventsAre, sameFlow, side, epoch, -⟩ :=
              drained.emits noneReady
            rw [eventsAre] at member
            simp only [List.map_cons, List.map_nil, TcpEvent.relabel,
              chunks_singleton, TcpEvent.chunk?, Option.toList_some,
              List.mem_singleton] at member
            subst member
            exact ⟨sameFlow, epoch, side⟩
  | gap => simp [chunks, skipGap] at member

/-- Steps emit chunks of their own flow, epoch and direction only. -/
theorem ownChunks_of_follows
    {limits : TcpLimits}
    {flow : FlowKey}
    {direction : Direction}
    {view : DirectionView}
    {outcome : Outcome DirectionView TcpEvent}
    (follows :
      outcome.FollowsFrom (DirectionStep limits flow direction) view)
    (wf : view.direction.Wf) :
    OwnChunks flow view.direction.connectionEpoch direction
      outcome.events := by
  have preserved
      {log events : List TcpEvent}
      {before after : DirectionView}
      (holds :
        StepFacts view before ∧
          OwnChunks flow view.direction.connectionEpoch direction log)
      (step : DirectionStep limits flow direction before events after) :
      StepFacts view after ∧
        OwnChunks flow view.direction.connectionEpoch direction
          (log ++ events) := by
    obtain ⟨facts, own⟩ := holds
    refine ⟨facts.trans (step.facts facts.wf), ?_⟩
    intro chunk member
    rw [chunks_append] at member
    rcases List.mem_append.mp member with old | new
    · exact own chunk old
    · rw [← facts.epoch]
      exact step.ownChunks facts.wf chunk new
  have nothing :
      OwnChunks flow view.direction.connectionEpoch direction [] := by
    simp [OwnChunks]
  have kept :=
    Steps.invariant
      (motive := fun log reached =>
        StepFacts view reached ∧
          OwnChunks flow view.direction.connectionEpoch direction log)
      preserved follows ⟨.refl wf, nothing⟩
  exact kept.2

/-! ## Properties of every history -/

/--
A property of the history and the stream state of one direction that a fresh
direction has and every step keeps.
-/
structure DirectionInvariant
    (limits : TcpLimits)
    (holds :
      FlowKey → Direction → List TcpEvent → DirectionState → Prop) :
    Prop where
  fresh :
    ∀ flow direction epoch,
      holds flow direction [] { connectionEpoch := epoch }
  same :
    ∀ {flow direction log first second},
      DirectionState.SameStream first second →
      holds flow direction log first →
      holds flow direction log second
  step :
    ∀ {flow direction log before events after},
      DirectionStep limits flow direction before events after →
      before.direction.Wf →
      holds flow direction log before.direction →
      holds flow direction (log ++ events) after.direction

/--
The histories in a log satisfy a property: those of live flows together with
their present state, the others together with some last state in which
nothing was pending.
-/
structure Recorded
    (holds :
      FlowKey → Direction → List TcpEvent → DirectionState → Prop)
    (log : List TcpEvent)
    (reassembler : TCPReassembler) : Prop where
  wf : reassembler.Wf
  live :
    ∀ {key state},
      reassembler.flows.get? key = some state →
      ∀ direction,
        holds key.2 direction
          (history state.connectionEpoch direction log)
          (state.directions direction)
  past :
    ∀ epoch direction,
      (∃ key state,
        reassembler.flows.get? key = some state ∧
          state.connectionEpoch = epoch) ∨
      ∃ flow state,
        holds flow direction (history epoch direction log) state ∧
          state.pending = []
  future :
    ∀ {epoch},
      reassembler.nextConnectionEpoch ≤ epoch →
      ∀ direction, history epoch direction log = []

/-- Events of one direction extend its own history only. -/
theorem history_of_belongsTo
    {epoch other : Nat}
    {direction side : Direction}
    {events : List TcpEvent}
    (own :
      ∀ event ∈ events, event.belongsTo epoch direction = true) :
    history other side events =
      if other = epoch ∧ side = direction then events else [] := by
  unfold history
  split
  case isTrue same =>
    obtain ⟨rfl, rfl⟩ := same
    exact List.filter_eq_self.mpr own
  case isFalse different =>
    rw [List.filter_eq_nil_iff]
    intro event member
    have labels := own event member
    simp only [TcpEvent.belongsTo, Bool.and_eq_true, decide_eq_true_eq]
      at labels ⊢
    rintro ⟨epochIs, sideIs⟩
    exact different
      ⟨epochIs.symm.trans labels.1, sideIs.symm.trans labels.2⟩

section Recorded

variable
  {limits : TcpLimits}
  {holds : FlowKey → Direction → List TcpEvent → DirectionState → Prop}

theorem Recorded.new
    (invariant : DirectionInvariant limits holds)
    (epochNamespace : Nat) :
    Recorded holds [] (TCPReassembler.new epochNamespace) where
  wf := .new epochNamespace
  live := by simp [TCPReassembler.new]
  past epoch direction :=
    .inr ⟨⟨0, ⟨"", 0⟩, ⟨"", 0⟩, "", []⟩, { connectionEpoch := epoch },
      invariant.fresh _ direction epoch, rfl⟩
  future _ _ := rfl

/-- One step keeps every history's property. -/
theorem Recorded.step
    (invariant : DirectionInvariant limits holds)
    {log events : List TcpEvent}
    {before after : TCPReassembler}
    (recorded : Recorded holds log before)
    (step : TcpStep limits before events after) :
    Recorded holds (log ++ events) after := by
  have afterWf := step.wf recorded.wf
  cases step with
  | @onDirection key state direction events view found step =>
      have own := step.belongsTo (recorded.wf.directions found direction)
      rw [recorded.wf.epochOf found direction] at own
      have kept :=
        invariant.step step (recorded.wf.directions found direction)
          (recorded.live found direction)
      refine {
        wf := afterWf
        live := ?_
        past := ?_
        future := ?_
      }
      · intro other otherState otherFound side
        simp only [TCPReassembler.putDirection, OrderedTable.get?_set]
          at otherFound
        rw [history_append, history_of_belongsTo own]
        split at otherFound
        case isTrue same =>
          subst same
          cases otherFound
          rcases direction.eq_or_eq_opposite side with isSame | isOpposite
          · subst isSame
            rw [FlowState.directions_setDirection_self, if_pos ⟨rfl, rfl⟩]
            exact kept
          · subst isOpposite
            rw [FlowState.directions_setDirection_opposite,
              if_neg (by simp), List.append_nil]
            exact recorded.live found _
        case isFalse different =>
          rw [if_neg, List.append_nil]
          · exact recorded.live otherFound side
          · rintro ⟨sameEpoch, -⟩
            exact different
              (recorded.wf.epochsDistinct otherFound found sameEpoch)
      · intro epoch side
        by_cases same : epoch = state.connectionEpoch
        · exact .inl
            ⟨key, _, before.get?_putDirection_self key state direction view, same.symm⟩
        · rw [history_append, history_of_belongsTo own,
            if_neg (fun both => same both.1), List.append_nil]
          refine (recorded.past epoch side).imp ?_ id
          rintro ⟨other, otherState, otherFound, isEpoch⟩
          refine ⟨other, otherState, ?_, isEpoch⟩
          simp only [TCPReassembler.putDirection]
          rw [OrderedTable.get?_set_of_ne _ _ ?_]
          · exact otherFound
          · rintro rfl
            obtain rfl := Option.some.inj (otherFound.symm.trans found)
            exact same isEpoch.symm
      · intro epoch unused side
        have used := recorded.wf.epochUsed found
        rw [history_append, history_of_belongsTo own, if_neg,
          List.append_nil]
        · exact recorded.future unused side
        · rintro ⟨rfl, -⟩
          exact absurd used (not_lt.mpr unused)
  | @revise key state revised found same alive =>
      rw [List.append_nil]
      refine {
        wf := afterWf
        live := ?_
        past := ?_
        future := recorded.future
      }
      · intro other otherState otherFound side
        simp only [OrderedTable.get?_set] at otherFound
        split at otherFound
        case isTrue isKey =>
          subst isKey
          cases otherFound
          rw [same.epoch]
          exact invariant.same (same.directions side)
            (recorded.live found side)
        case isFalse => exact recorded.live otherFound side
      · intro epoch side
        refine (recorded.past epoch side).imp ?_ id
        rintro ⟨other, otherState, otherFound, isEpoch⟩
        by_cases isKey : other = key
        · subst isKey
          obtain rfl := Option.some.inj (otherFound.symm.trans found)
          exact ⟨other, revised, OrderedTable.get?_set_self _ _ _,
            same.epoch.trans isEpoch⟩
        · exact ⟨other, otherState,
            (OrderedTable.get?_set_of_ne _ _ isKey).trans otherFound,
            isEpoch⟩
  | reorder key =>
      rw [List.append_nil]
      exact {
        wf := afterWf
        live := fun found => recorded.live (by simpa using found)
        past := by simpa using recorded.past
        future := recorded.future
      }
  | @create packet clock absent =>
      rw [List.append_nil]
      refine {
        wf := afterWf
        live := ?_
        past := ?_
        future := fun unused =>
          recorded.future ((Nat.le_succ _).trans unused)
      }
      · intro other otherState otherFound side
        simp only [TCPReassembler.createFlow, OrderedTable.get?_set]
          at otherFound
        split at otherFound
        case isTrue =>
          cases otherFound
          simp only [TCPReassembler.freshFlow]
          rw [recorded.future (le_refl _)]
          exact invariant.fresh _ _ _
        case isFalse => exact recorded.live otherFound side
      · intro epoch side
        refine (recorded.past epoch side).imp ?_ id
        rintro ⟨other, otherState, otherFound, isEpoch⟩
        refine ⟨other, otherState, ?_, isEpoch⟩
        simp only [TCPReassembler.createFlow]
        rw [OrderedTable.get?_set_of_ne _ _ ?_]
        · exact otherFound
        · rintro rfl
          rw [absent] at otherFound
          cases otherFound
  | @remove key state found flushed =>
      rw [List.append_nil]
      refine {
        wf := afterWf
        live := ?_
        past := ?_
        future := ?_
      }
      · intro other otherState otherFound
        rw [TCPReassembler.get?_removeFlow] at otherFound
        split at otherFound
        case isTrue => cases otherFound
        case isFalse => exact recorded.live otherFound
      · intro epoch side
        rcases recorded.past epoch side with
          ⟨other, otherState, otherFound, isEpoch⟩ | gone
        · by_cases isKey : other = key
          · subst isKey
            obtain rfl := Option.some.inj (otherFound.symm.trans found)
            subst isEpoch
            exact .inr ⟨other.2, _, recorded.live found side, flushed side⟩
          · refine .inl ⟨other, otherState, ?_, isEpoch⟩
            rw [TCPReassembler.get?_removeFlow, if_neg isKey]
            exact otherFound
        · exact .inr gone
      · simp only [TCPReassembler.removeFlow, found]
        exact recorded.future
  | count evicted budgetEvicted expired =>
      rw [List.append_nil]
      exact {
        wf := afterWf
        live := recorded.live
        past := recorded.past
        future := recorded.future
      }

/-- Every history in a log satisfies the property with some state. -/
theorem Recorded.exists_state
    {log : List TcpEvent}
    {reassembler : TCPReassembler}
    (recorded : Recorded holds log reassembler)
    (epoch : Nat)
    (direction : Direction) :
    ∃ flow state, holds flow direction (history epoch direction log) state := by
  rcases recorded.past epoch direction with
    ⟨key, state, found, rfl⟩ | ⟨flow, state, kept, -⟩
  · exact ⟨key.2, _, recorded.live found direction⟩
  · exact ⟨flow, state, kept⟩

/-- Histories keep their property along every sequence of steps. -/
theorem Recorded.follows
    (invariant : DirectionInvariant limits holds)
    {log : List TcpEvent}
    {reassembler : TCPReassembler}
    {outcome : Outcome TCPReassembler TcpEvent}
    (recorded : Recorded holds log reassembler)
    (follows : TCPReassembler.Follows limits reassembler outcome) :
    Recorded holds (log ++ outcome.events) outcome.state :=
  Steps.invariant (motive := Recorded holds)
    (fun recorded step => recorded.step invariant step) follows recorded

/-- In every run, every history has every invariant property. -/
theorem recorded_run
    (invariant : DirectionInvariant limits holds)
    (epochNamespace : Nat)
    (operations : List TcpOperation) :
    Recorded holds
      ((TCPReassembler.new epochNamespace).run limits operations).events
      ((TCPReassembler.new epochNamespace).run limits operations).state := by
  have follows : TCPReassembler.Follows limits _ _ :=
    TCPReassembler.run_follows
      (TCPReassembler.Wf.new epochNamespace) operations
  simpa using (Recorded.new invariant epochNamespace).follows invariant follows

end Recorded

end PacketAudit
