import PacketAudit.Tcp.Evictions
import PacketAudit.Tcp.Histories
import PacketAudit.Tcp.Rebase

namespace PacketAudit

/-!
# One flow in two reassemblers

Two reassemblers mirror each other at a flow when they hold the same state of
it up to its connection epoch.  Every stage that concerns the flow keeps that
and returns the same chunks up to the epoch, whatever else the tables hold.
-/

open Library

/-! ## Renamed epochs -/

/-- An order-preserving renaming of the connection epochs used so far. -/
structure EpochNaming where
  name : Nat → Nat
  used : Set Nat
  increasing : StrictMonoOn name used

namespace EpochNaming

/-- Nothing is renamed yet. -/
def empty : EpochNaming where
  name := id
  used := ∅
  increasing := by simp [StrictMonoOn]

/-- The chunk under its renamed epoch. -/
def chunk (naming : EpochNaming) (chunk : StreamChunk) : StreamChunk :=
  chunk.withEpoch (naming.name chunk.connectionEpoch)

/-- A later naming agrees on the used epochs and adds none below a bound. -/
structure Extends (bound : Nat) (before after : EpochNaming) : Prop where
  used : before.used ⊆ after.used
  same : Set.EqOn after.name before.name before.used
  added : ∀ epoch ∈ after.used, epoch ∈ before.used ∨ bound ≤ epoch

namespace Extends

theorem refl (bound : Nat) (naming : EpochNaming) :
    Extends bound naming naming where
  used := Set.Subset.rfl
  same := fun _ _ => rfl
  added := fun _ used => .inl used

theorem trans
    {bound : Nat}
    {first second third : EpochNaming}
    (earlier : Extends bound first second)
    (later : Extends bound second third) :
    Extends bound first third where
  used := earlier.used.trans later.used
  same _ used :=
    (later.same (earlier.used used)).trans (earlier.same used)
  added _ used :=
    (later.added _ used).elim (earlier.added _) .inr

/-- Chunks of used epochs keep their new names. -/
theorem map_chunk
    {bound : Nat}
    {before after : EpochNaming}
    (later : Extends bound before after)
    {emitted : List StreamChunk}
    (used : ∀ chunk ∈ emitted, chunk.connectionEpoch ∈ before.used) :
    emitted.map after.chunk = emitted.map before.chunk := by
  apply List.map_congr_left
  intro chunk member
  unfold EpochNaming.chunk
  rw [later.same (used chunk member)]

end Extends

/-- Give a name to one more epoch, above all used ones. -/
def add
    (naming : EpochNaming)
    (epoch fresh : Nat)
    (above :
      ∀ used ∈ naming.used, used < epoch ∧ naming.name used < fresh) :
    EpochNaming where
  name := Function.update naming.name epoch fresh
  used := insert epoch naming.used
  increasing := by
    have renamed
        {used : Nat}
        (member : used ∈ naming.used) :
        Function.update naming.name epoch fresh used =
          naming.name used :=
      Function.update_of_ne (above used member).1.ne _ _
    rintro first (rfl | firstUsed) second (rfl | secondUsed) less
    · exact (less.false).elim
    · exact (less.asymm (above second secondUsed).1).elim
    · rw [renamed firstUsed, Function.update_self]
      exact (above first firstUsed).2
    · rw [renamed firstUsed, renamed secondUsed]
      exact naming.increasing firstUsed secondUsed less

theorem extends_add
    (naming : EpochNaming)
    {bound epoch fresh : Nat}
    (above :
      ∀ used ∈ naming.used, used < epoch ∧ naming.name used < fresh)
    (recent : bound ≤ epoch) :
    Extends bound naming (naming.add epoch fresh above) where
  used := Set.subset_insert _ _
  same used member :=
    Function.update_of_ne (above used member).1.ne _ _
  added := by
    rintro used (rfl | member)
    · exact .inr recent
    · exact .inl member

end EpochNaming

/-! ## Mirrored flows -/

/-- The flow under another epoch, last active at another clock reading. -/
def FlowState.rebased
    (epoch : Nat)
    (activityNs : Int)
    (state : FlowState) : FlowState where
  flow := state.flow
  connectionEpoch := epoch
  directions direction :=
    { state.directions direction with connectionEpoch := epoch }
  lastSeenNs := state.lastSeenNs
  activityNs := activityNs

/-- Both directions of a flow are in shape and carry its epoch. -/
structure FlowState.Sound (state : FlowState) : Prop where
  wf : ∀ direction, (state.directions direction).Wf
  epoch :
    ∀ direction,
      (state.directions direction).connectionEpoch = state.connectionEpoch

/-- Two reassemblers hold the same state of a flow up to its epoch. -/
structure Mirrors
    (key : FlowId)
    (bound : Nat)
    (naming : EpochNaming)
    (main other : TCPReassembler) : Prop where
  absent : main.flows.get? key = none → other.flows.get? key = none
  present :
    ∀ {state},
      main.flows.get? key = some state →
      state.Sound ∧ state.connectionEpoch ∈ naming.used ∧
        ∃ activityNs,
          other.flows.get? key =
            some (state.rebased (naming.name state.connectionEpoch)
              activityNs)
  below :
    ∀ epoch ∈ naming.used,
      epoch < main.nextConnectionEpoch ∧
        naming.name epoch < other.nextConnectionEpoch
  bounded : bound ≤ main.nextConnectionEpoch

/-- Two outcomes mirror each other and return the same chunks. -/
def MirrorsTo
    (key : FlowId)
    (bound : Nat)
    (before : EpochNaming)
    (main other : Outcome TCPReassembler TcpEvent) : Prop :=
  ∃ after : EpochNaming,
    EpochNaming.Extends bound before after ∧
      Mirrors key bound after main.state other.state ∧
      chunks other.events = (chunks main.events).map after.chunk ∧
      ∀ chunk ∈ chunks main.events,
        chunk.flow = key.2 ∧ chunk.connectionEpoch ∈ after.used

section Outcomes

variable
  {key : FlowId}
  {bound : Nat}
  {naming : EpochNaming}
  {main other : TCPReassembler}

theorem Mirrors.quiet
    (mirrors : Mirrors key bound naming main other) :
    MirrorsTo key bound naming (.quiet main) (.quiet other) :=
  ⟨naming, .refl bound naming, mirrors, rfl, by simp [Outcome.quiet]⟩

theorem MirrorsTo.andThen
    {mainOutcome otherOutcome : Outcome TCPReassembler TcpEvent}
    {mainNext otherNext :
      TCPReassembler → Outcome TCPReassembler TcpEvent}
    (first : MirrorsTo key bound naming mainOutcome otherOutcome)
    (second :
      ∀ {middle},
        Mirrors key bound middle mainOutcome.state otherOutcome.state →
        MirrorsTo key bound middle (mainNext mainOutcome.state)
          (otherNext otherOutcome.state)) :
    MirrorsTo key bound naming (mainOutcome.andThen mainNext)
      (otherOutcome.andThen otherNext) := by
  obtain ⟨middle, toMiddle, mirrors, sameFirst, ownFirst⟩ := first
  obtain ⟨after, toAfter, mirrorsAfter, sameSecond, ownSecond⟩ :=
    second mirrors
  refine ⟨after, toMiddle.trans toAfter, mirrorsAfter, ?_, ?_⟩
  · have kept :=
      toAfter.map_chunk fun chunk member => (ownFirst chunk member).2
    simp only [Outcome.andThen, chunks_append, List.map_append, sameFirst,
      sameSecond, kept]
  · intro chunk member
    simp only [Outcome.andThen, chunks_append, List.mem_append] at member
    rcases member with inFirst | inSecond
    · exact ⟨(ownFirst chunk inFirst).1,
        toAfter.used (ownFirst chunk inFirst).2⟩
    · exact ownSecond chunk inSecond

end Outcomes

/-! ## Direction functions -/

/-- A direction function that works on one direction of one flow only. -/
structure Confined
    (flow : FlowKey)
    (direction : Direction)
    (operation : DirectionView → Outcome DirectionView TcpEvent) : Prop where
  rebases : Rebases operation
  wf :
    ∀ {view},
      view.direction.Wf → (operation view).state.direction.Wf
  epoch :
    ∀ {view},
      view.direction.Wf →
      (operation view).state.direction.connectionEpoch =
        view.direction.connectionEpoch
  own :
    ∀ {view},
      view.direction.Wf →
      OwnChunks flow view.direction.connectionEpoch direction
        (operation view).events

/-- A function made of steps that does not look at the epoch is confined. -/
theorem confined_of_follows
    {limits : TcpLimits}
    {flow : FlowKey}
    {direction : Direction}
    {operation : DirectionView → Outcome DirectionView TcpEvent}
    (rebases : Rebases operation)
    (follows :
      ∀ {view},
        view.direction.Wf →
        (operation view).FollowsFrom (DirectionStep limits flow direction)
          view) :
    Confined flow direction operation where
  rebases := rebases
  wf wf := wf_of_follows (follows wf) wf
  epoch wf := (facts_of_follows (follows wf) wf).epoch
  own wf := ownChunks_of_follows (follows wf) wf

theorem flushDirection_confined
    (limits : TcpLimits)
    (flow : FlowKey)
    (direction : Direction) :
    Confined flow direction (flushDirection limits flow direction) :=
  confined_of_follows (flushDirection_rebases limits flow direction)
    fun wf => follows_of_labelled (flushDirection_labelled wf)

theorem acceptPayload_confined
    (limits : TcpLimits)
    (packet : ParsedPacket) :
    Confined packet.flow.1 packet.flow.2
      (TCPReassembler.acceptPayload limits packet) :=
  confined_of_follows (acceptPayload_rebases limits packet)
    fun wf => TCPReassembler.acceptPayload_follows packet wf

theorem startSequence_confined (packet : ParsedPacket) :
    Confined packet.flow.1 packet.flow.2
      (TCPReassembler.startSequence packet) where
  rebases := startSequence_rebases packet
  wf {view} wf := by
    cases starts :
        view.direction.nextSeq.isNone &&
          (packet.syn || !packet.transportPayload.isEmpty) with
    | true =>
        obtain ⟨synSeq, started⟩ :=
          TCPReassembler.startSequence_of_starts view starts
        have step :
            DirectionStep TcpLimits.default packet.flow.1 packet.flow.2 view
              _ _ :=
          .start packet.rawPayloadSequence (!packet.syn) synSeq
            (by simpa using (Bool.and_eq_true_iff.mp starts).1)
            (TCPReassembler.rawPayloadSequence_bounds packet).1
            (TCPReassembler.rawPayloadSequence_bounds packet).2
        rw [started]
        exact (step.facts wf).wf
    | false =>
        obtain ⟨-, -, same, -⟩ :=
          TCPReassembler.startSequence_of_not_starts view starts
        exact same.wf wf
  epoch {view} wf := by
    cases starts :
        view.direction.nextSeq.isNone &&
          (packet.syn || !packet.transportPayload.isEmpty) with
    | true =>
        obtain ⟨synSeq, started⟩ :=
          TCPReassembler.startSequence_of_starts view starts
        rw [started]
    | false =>
        obtain ⟨-, -, same, -⟩ :=
          TCPReassembler.startSequence_of_not_starts view starts
        exact same.connectionEpoch
  own {view} wf := by
    intro chunk member
    unfold TCPReassembler.startSequence at member
    simp only at member
    split at member
    · simp [chunks] at member
    · simp [chunks] at member

/-! ## Stages -/

namespace Mirrors

variable
  {key : FlowId}
  {bound : Nat}
  {naming : EpochNaming}
  {main other : TCPReassembler}

/-- What is decided by the state of the flow is the same in both. -/
theorem decides
    (mirrors : Mirrors key bound naming main other)
    {test : TCPReassembler → Bool}
    (unknown :
      other.flows.get? key = none → main.flows.get? key = none →
        test other = test main)
    (known :
      ∀ (state : FlowState) epoch activityNs,
        other.flows.get? key = some (state.rebased epoch activityNs) →
          main.flows.get? key = some state → test other = test main) :
    test other = test main := by
  cases found : main.flows.get? key with
  | none => exact unknown (mirrors.absent found) found
  | some state =>
      obtain ⟨-, -, activityNs, mirrored⟩ := mirrors.present found
      exact known state _ activityNs mirrored found

/-- Replacing the flow on both sides keeps the mirror. -/
theorem replace
    (mirrors : Mirrors key bound naming main other)
    {state next : FlowState}
    (found : main.flows.get? key = some state)
    (sound : next.Sound)
    (epoch : next.connectionEpoch = state.connectionEpoch)
    (activityNs : Int)
    (counters otherCounters : TcpCounters) :
    Mirrors key bound naming
      { main with
        flows := main.flows.set key next
        counters := counters }
      { other with
        flows :=
          other.flows.set key
            (next.rebased (naming.name state.connectionEpoch) activityNs)
        counters := otherCounters } where
  absent isAbsent := by simp at isAbsent
  present {stored} isStored := by
    simp only [OrderedTable.get?_set_self, Option.some.injEq] at isStored
    subst isStored
    refine ⟨sound, ?_, activityNs, ?_⟩
    · rw [epoch]
      exact (mirrors.present found).2.1
    · rw [epoch]
      exact OrderedTable.get?_set_self _ _ _
  below := mirrors.below
  bounded := mirrors.bounded

theorem setDirection_rebased
    (state : FlowState)
    (epoch : Nat)
    (activityNs : Int)
    (direction : Direction)
    (next : DirectionState) :
    (state.rebased epoch activityNs).setDirection direction
        { next with connectionEpoch := epoch } =
      (state.setDirection direction next).rebased epoch activityNs := by
  unfold FlowState.setDirection FlowState.rebased
  congr 1
  funext side
  by_cases same : side = direction
  · subst same
    simp
  · simp [same]

theorem onDirection
    (mirrors : Mirrors key bound naming main other)
    {direction : Direction}
    {operation : DirectionView → Outcome DirectionView TcpEvent}
    (confined : Confined key.2 direction operation) :
    MirrorsTo key bound naming
      (main.onDirection key direction operation)
      (other.onDirection key direction operation) := by
  cases found : main.flows.get? key with
  | none =>
      rw [TCPReassembler.onDirection_of_get?_eq_none _ _ found,
        TCPReassembler.onDirection_of_get?_eq_none _ _ (mirrors.absent found)]
      exact mirrors.quiet
  | some state =>
      obtain ⟨sound, used, activityNs, mirrored⟩ := mirrors.present found
      rw [TCPReassembler.onDirection_of_get?_eq_some _ _ found,
        TCPReassembler.onDirection_of_get?_eq_some _ _ mirrored]
      set view : DirectionView :=
        ⟨state.directions direction, main.counters⟩ with viewIs
      obtain ⟨counters, same⟩ :=
        confined.rebases view (naming.name state.connectionEpoch)
          other.counters
      have sameView :
          (⟨(state.rebased (naming.name state.connectionEpoch)
              activityNs).directions direction, other.counters⟩ :
              DirectionView) =
            view.rebased (naming.name state.connectionEpoch)
              other.counters := rfl
      have viewWf : view.direction.Wf := sound.wf direction
      have own := confined.own viewWf
      have nextSound :
          (state.setDirection direction
            (operation view).state.direction).Sound := by
        refine { wf := ?_, epoch := ?_ }
        · intro side
          by_cases isSide : side = direction
          · subst isSide
            simpa using confined.wf viewWf
          · rw [FlowState.directions_setDirection_of_ne _ _ isSide]
            exact sound.wf side
        · intro side
          by_cases isSide : side = direction
          · subst isSide
            rw [FlowState.directions_setDirection_self]
            exact (confined.epoch viewWf).trans (sound.epoch side)
          · rw [FlowState.directions_setDirection_of_ne _ _ isSide]
            exact sound.epoch side
      rw [sameView, same]
      refine ⟨naming, .refl bound naming, ?_, ?_, ?_⟩
      · have replaced :=
          mirrors.replace found nextSound rfl activityNs
            (operation view).state.counters counters
        rw [← setDirection_rebased] at replaced
        exact replaced
      · rw [chunks_map_withEpoch]
        apply List.map_congr_left
        intro chunk member
        unfold EpochNaming.chunk
        rw [(own chunk member).2.1, viewIs, sound.epoch direction]
      · intro chunk member
        refine ⟨(own chunk member).1, ?_⟩
        rw [(own chunk member).2.1, viewIs, sound.epoch direction]
        exact used

theorem removeFlow (mirrors : Mirrors key bound naming main other) :
    Mirrors key bound naming (main.removeFlow key) (other.removeFlow key) where
  absent _ := by simp [TCPReassembler.get?_removeFlow]
  present found := by simp [TCPReassembler.get?_removeFlow] at found
  below epoch used := by
    have kept
        (reassembler : TCPReassembler) :
        (reassembler.removeFlow key).nextConnectionEpoch =
          reassembler.nextConnectionEpoch := by
      unfold TCPReassembler.removeFlow
      split <;> rfl
    rw [kept, kept]
    exact mirrors.below epoch used
  bounded := by
    unfold TCPReassembler.removeFlow
    split <;> exact mirrors.bounded

theorem closeFlow
    (mirrors : Mirrors key bound naming main other)
    (limits : TcpLimits) :
    MirrorsTo key bound naming (main.closeFlow limits key key.2)
      (other.closeFlow limits key key.2) := by
  unfold TCPReassembler.closeFlow
  apply MirrorsTo.andThen
  · apply MirrorsTo.andThen
    · exact mirrors.onDirection (flushDirection_confined limits key.2 .aToB)
    · intro _ flushed
      exact flushed.onDirection (flushDirection_confined limits key.2 .bToA)
  · intro _ flushed
    exact flushed.removeFlow.quiet

/-- The same change of the flow, whatever its epoch, keeps the mirror. -/
theorem reviseFlow
    (mirrors : Mirrors key bound naming main other)
    {revise otherRevise : FlowState → FlowState}
    (same : ∀ state : FlowState, state.SameStreams (revise state))
    (alike :
      ∀ (state : FlowState) epoch activityNs,
        ∃ laterNs,
          otherRevise (state.rebased epoch activityNs) =
            (revise state).rebased epoch laterNs) :
    Mirrors key bound naming (main.reviseFlow key revise)
      (other.reviseFlow key otherRevise) := by
  cases found : main.flows.get? key with
  | none =>
      simpa only [TCPReassembler.reviseFlow, found, mirrors.absent found]
        using mirrors
  | some state =>
      obtain ⟨sound, -, activityNs, mirrored⟩ := mirrors.present found
      obtain ⟨laterNs, revised⟩ :=
        alike state (naming.name state.connectionEpoch) activityNs
      have streams := same state
      have revisedSound : (revise state).Sound := {
        wf := fun direction =>
          (streams.directions direction).wf (sound.wf direction)
        epoch := fun direction => by
          rw [(streams.directions direction).connectionEpoch, streams.epoch]
          exact sound.epoch direction
      }
      simp only [TCPReassembler.reviseFlow, found, mirrored, revised]
      exact mirrors.replace found revisedSound streams.epoch laterNs _ _

theorem moveToEnd (mirrors : Mirrors key bound naming main other) :
    Mirrors key bound naming
      { main with flows := main.flows.moveToEnd key }
      { other with flows := other.flows.moveToEnd key } where
  absent isAbsent := by
    rw [OrderedTable.get?_moveToEnd] at isAbsent ⊢
    exact mirrors.absent isAbsent
  present found := by
    rw [OrderedTable.get?_moveToEnd] at found ⊢
    exact mirrors.present found
  below := mirrors.below
  bounded := mirrors.bounded

end Mirrors

/-! ## The stages of `process` -/

section Process

variable
  {bound : Nat}
  {naming : EpochNaming}
  {main other : TCPReassembler}
  {packet : ParsedPacket}
  (limits : TcpLimits)
  (clock otherClock : Int)

/-- A fresh flow is named by the other reassembler's next epoch. -/
theorem Mirrors.createFlow
    (mirrors : Mirrors packet.flowId bound naming main other) :
    MirrorsTo packet.flowId bound naming
      (.quiet (main.createFlow clock packet))
      (.quiet (other.createFlow otherClock packet)) := by
  refine ⟨naming.add main.nextConnectionEpoch other.nextConnectionEpoch
    mirrors.below, naming.extends_add mirrors.below mirrors.bounded, ?_, rfl,
    by simp [Outcome.quiet]⟩
  refine { absent := ?_, present := ?_, below := ?_, bounded := ?_ }
  · intro absent
    simp [TCPReassembler.createFlow, Outcome.quiet] at absent
  · intro state found
    simp only [TCPReassembler.createFlow, Outcome.quiet,
      OrderedTable.get?_set_self, Option.some.injEq] at found ⊢
    subst found
    refine ⟨?_, Set.mem_insert _ _, otherClock, ?_⟩
    · exact {
        wf := fun _ => DirectionState.wf_fresh main.nextConnectionEpoch
        epoch := fun _ => rfl
      }
    · simp [TCPReassembler.freshFlow, FlowState.rebased, EpochNaming.add]
  · intro epoch used
    rcases used with isNew | member
    · subst isNew
      simp [TCPReassembler.createFlow, Outcome.quiet, EpochNaming.add]
    · have less := mirrors.below epoch member
      have renamed :
          (naming.add main.nextConnectionEpoch other.nextConnectionEpoch
            mirrors.below).name epoch = naming.name epoch :=
        Function.update_of_ne less.1.ne _ _
      rw [renamed]
      simp only [TCPReassembler.createFlow, Outcome.quiet]
      omega
  · exact mirrors.bounded.trans (Nat.le_succ _)

theorem Mirrors.restart
    (mirrors : Mirrors packet.flowId bound naming main other) :
    MirrorsTo packet.flowId bound naming (main.restart limits packet)
      (other.restart limits packet) := by
  have alike :
      other.restarts packet = main.restarts packet := by
    refine mirrors.decides (fun absent unknown => ?_)
      fun state epoch activityNs mirrored known => ?_
    · rw [TCPReassembler.restarts, TCPReassembler.restarts, absent, unknown]
    · rw [TCPReassembler.restarts, TCPReassembler.restarts, mirrored, known]
      rfl
  unfold TCPReassembler.restart
  rw [alike]
  split
  · exact mirrors.closeFlow limits
  · exact mirrors.quiet

/-- With room in both tables, entering a flow evicts nothing. -/
theorem Mirrors.enter
    (mirrors : Mirrors packet.flowId bound naming main other)
    (room :
      main.flows.get? packet.flowId = none →
      main.flowTableFull limits = false)
    (otherRoom :
      other.flows.get? packet.flowId = none →
      other.flowTableFull limits = false) :
    MirrorsTo packet.flowId bound naming (main.enter limits clock packet)
      (other.enter limits otherClock packet) := by
  unfold TCPReassembler.enter
  cases found : main.flows.get? packet.flowId with
  | none =>
      have absent := mirrors.absent found
      simp only [absent]
      rw [TCPReassembler.evictWhile_of_unwanted limits false _ (room found),
        TCPReassembler.evictWhile_of_unwanted limits false _
          (otherRoom absent)]
      exact mirrors.createFlow clock otherClock
  | some state =>
      obtain ⟨-, -, activityNs, mirrored⟩ := mirrors.present found
      simp only [mirrored]
      exact mirrors.moveToEnd.quiet

theorem acknowledged_touched_rebased
    (packet : ParsedPacket)
    (state : FlowState)
    (epoch : Nat)
    (activityNs : Int) :
    TCPReassembler.acknowledged packet
        (TCPReassembler.touched otherClock packet
          (state.rebased epoch activityNs)) =
      (TCPReassembler.acknowledged packet
        (TCPReassembler.touched clock packet state)).rebased epoch
          otherClock := by
  have touched :
      TCPReassembler.touched otherClock packet
          (state.rebased epoch activityNs) =
        (TCPReassembler.touched clock packet state).rebased epoch
          otherClock := by
    unfold TCPReassembler.touched
    simp only [FlowState.rebased, FlowState.setDirection,
      FlowState.mk.injEq, true_and, and_true]
    funext side
    by_cases same : side = packet.flow.2
    · subst same
      simp
    · simp [same]
  rw [touched]
  generalize TCPReassembler.touched clock packet state = noted
  have expects :
      ((noted.rebased epoch otherClock).directions
          packet.flow.2.opposite).nextSeq =
        (noted.directions packet.flow.2.opposite).nextSeq := rfl
  have acked :
      ((noted.rebased epoch otherClock).directions
          packet.flow.2.opposite).peerAckedSeq =
        (noted.directions packet.flow.2.opposite).peerAckedSeq := rfl
  unfold TCPReassembler.acknowledged
  simp only [expects, acked]
  split
  case h_1 =>
    split
    case isTrue =>
      exact Mirrors.setDirection_rebased noted epoch otherClock _
        { noted.directions packet.flow.2.opposite with
          peerAckedSeq := some _ }
    case isFalse => rfl
  case h_2 => rfl

theorem Mirrors.prepare
    (mirrors : Mirrors packet.flowId bound naming main other)
    (room :
      (main.restart limits packet).state.flows.get? packet.flowId = none →
      (main.restart limits packet).state.flowTableFull limits = false)
    (otherRoom :
      (other.restart limits packet).state.flows.get? packet.flowId = none →
      (other.restart limits packet).state.flowTableFull limits = false) :
    MirrorsTo packet.flowId bound naming (main.prepare limits clock packet)
      (other.prepare limits otherClock packet) := by
  unfold TCPReassembler.prepare
  apply MirrorsTo.andThen
  · apply MirrorsTo.andThen
    · apply MirrorsTo.andThen
      · exact mirrors.restart limits
      · intro _ restarted
        exact restarted.enter limits clock otherClock room otherRoom
    · intro _ entered
      apply Mirrors.quiet
      apply entered.reviseFlow
      · intro state
        exact (TCPReassembler.touched_sameStreams clock packet state).trans
          (TCPReassembler.acknowledged_sameStreams packet _)
      · intro state epoch activityNs
        exact ⟨otherClock,
          acknowledged_touched_rebased clock otherClock packet state epoch
            activityNs⟩
  · intro _ noted
    exact noted.onDirection (startSequence_confined packet)

theorem Mirrors.endsConnection
    (mirrors : Mirrors packet.flowId bound naming main other) :
    other.endsConnection packet = main.endsConnection packet := by
  refine mirrors.decides (fun absent unknown => ?_)
    fun state epoch activityNs mirrored known => ?_
  · rw [TCPReassembler.endsConnection, TCPReassembler.endsConnection,
      absent, unknown]
  · rw [TCPReassembler.endsConnection, TCPReassembler.endsConnection,
      mirrored, known]
    rfl

theorem Mirrors.finish
    (mirrors : Mirrors packet.flowId bound naming main other) :
    MirrorsTo packet.flowId bound naming (main.finish limits packet)
      (other.finish limits packet) := by
  have marked
      (state : FlowState)
      (epoch : Nat)
      (activityNs : Int) :
      TCPReassembler.markClosed packet.flow.2
          (state.rebased epoch activityNs) =
        (TCPReassembler.markClosed packet.flow.2 state).rebased epoch
          activityNs :=
    Mirrors.setDirection_rebased state epoch activityNs packet.flow.2
      { state.directions packet.flow.2 with closed := true }
  have ending
      {naming : EpochNaming}
      {main other : TCPReassembler}
      (closed : Mirrors packet.flowId bound naming main other) :
      MirrorsTo packet.flowId bound naming
        (if main.endsConnection packet then
          (main.onDirection packet.flowId packet.flow.2.opposite
            (flushDirection limits packet.flow.1
              packet.flow.2.opposite)).andThen
            fun flushed => .quiet (flushed.removeFlow packet.flowId)
        else
          .quiet main)
        (if other.endsConnection packet then
          (other.onDirection packet.flowId packet.flow.2.opposite
            (flushDirection limits packet.flow.1
              packet.flow.2.opposite)).andThen
            fun flushed => .quiet (flushed.removeFlow packet.flowId)
        else
          .quiet other) := by
    rw [closed.endsConnection]
    split
    · apply MirrorsTo.andThen
      · exact closed.onDirection
          (flushDirection_confined limits packet.flow.1
            packet.flow.2.opposite)
      · intro _ flushed
        exact flushed.removeFlow.quiet
    · exact closed.quiet
  unfold TCPReassembler.finish
  apply MirrorsTo.andThen
  · split
    · apply MirrorsTo.andThen
      · exact mirrors.onDirection
          (flushDirection_confined limits packet.flow.1 packet.flow.2)
      · intro _ flushed
        apply Mirrors.quiet
        apply flushed.reviseFlow
        · exact TCPReassembler.markClosed_sameStreams packet.flow.2
        · exact fun state epoch activityNs =>
            ⟨activityNs, marked state epoch activityNs⟩
    · exact mirrors.quiet
  · intro _ closed
    exact ending closed

theorem Mirrors.returnsEarly
    (mirrors : Mirrors packet.flowId bound naming main other) :
    other.returnsEarly packet = main.returnsEarly packet := by
  refine mirrors.decides (fun absent unknown => ?_)
    fun state epoch activityNs mirrored known => ?_
  · rw [TCPReassembler.returnsEarly, TCPReassembler.returnsEarly,
      absent, unknown]
  · rw [TCPReassembler.returnsEarly, TCPReassembler.returnsEarly,
      mirrored, known]
    rfl

theorem Mirrors.storesPayload
    (mirrors : Mirrors packet.flowId bound naming main other) :
    other.storesPayload packet = main.storesPayload packet := by
  refine mirrors.decides (fun absent unknown => ?_)
    fun state epoch activityNs mirrored known => ?_
  · rw [TCPReassembler.storesPayload, TCPReassembler.storesPayload,
      absent, unknown]
  · rw [TCPReassembler.storesPayload, TCPReassembler.storesPayload,
      mirrored, known]
    rfl

/-- Calls that evict nothing mirror each other. -/
theorem Mirrors.processTcp
    (mirrors : Mirrors packet.flowId bound naming main other)
    (roomy : TCPReassembler.Roomy limits packet clock main)
    (otherRoomy : TCPReassembler.Roomy limits packet otherClock other) :
    MirrorsTo packet.flowId bound naming
      (main.processTcp limits clock packet)
      (other.processTcp limits otherClock packet) := by
  unfold TCPReassembler.processTcp
  apply MirrorsTo.andThen
  · exact mirrors.prepare limits clock otherClock roomy.table otherRoomy.table
  · intro _ prepared
    have accepted :=
      prepared.onDirection (acceptPayload_confined limits packet)
    rw [prepared.returnsEarly, prepared.storesPayload]
    split
    case isTrue => exact accepted
    case isFalse notEarly =>
      split
      case isTrue storing =>
        have within := roomy.buffers (by simpa using notEarly) storing
        have otherWithin :=
          otherRoomy.buffers
            (by simpa [prepared.returnsEarly] using notEarly)
            (prepared.storesPayload.trans storing)
        apply MirrorsTo.andThen
        · apply MirrorsTo.andThen accepted
          intro _ held
          unfold TCPReassembler.enforceBudget
          rw [TCPReassembler.evictWhile_of_unwanted limits true _ within,
            TCPReassembler.evictWhile_of_unwanted limits true _ otherWithin]
          exact held.quiet
        · intro _ held
          exact held.finish limits
      case isFalse =>
        apply MirrorsTo.andThen accepted
        intro _ held
        exact held.finish limits

end Process

end PacketAudit
