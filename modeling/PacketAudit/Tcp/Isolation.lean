import PacketAudit.Tcp.Mirroring

namespace PacketAudit

/-!
# Flows do not interfere

While the limits force no flow out, the chunks returned for one flow do not
depend on the packets of the others: processed alone, its packets return the
same chunks up to an order-preserving renaming of the connection epochs.
-/

open Library

namespace TCPReassembler

/-! ## Calls on other flows -/

section OtherFlows

variable
  {limits : TcpLimits}
  {packet : ParsedPacket}
  {other : FlowId}
  (different : other ≠ packet.flowId)
  (clock : Int)
  (reassembler : TCPReassembler)
include different

theorem get?_reviseFlow_of_ne
    (revise : FlowState → FlowState) :
    (reassembler.reviseFlow packet.flowId revise).flows.get? other =
      reassembler.flows.get? other := by
  unfold reviseFlow
  split
  · rfl
  · exact OrderedTable.get?_set_of_ne _ _ different

theorem get?_restart_of_ne :
    (reassembler.restart limits packet).state.flows.get? other =
      reassembler.flows.get? other := by
  unfold restart
  split
  · rw [get?_closeFlow, if_neg different]
  · rfl

theorem get?_enter_of_ne
    (room :
      reassembler.flows.get? packet.flowId = none →
      reassembler.flowTableFull limits = false) :
    (reassembler.enter limits clock packet).state.flows.get? other =
      reassembler.flows.get? other := by
  unfold enter
  split
  case h_1 => exact OrderedTable.get?_moveToEnd _ _ _
  case h_2 absent =>
    rw [evictWhile_of_unwanted limits false _ (room absent)]
    exact OrderedTable.get?_set_of_ne _ _ different

theorem get?_prepare_of_ne
    (room :
      (reassembler.restart limits packet).state.flows.get? packet.flowId =
        none →
      (reassembler.restart limits packet).state.flowTableFull limits =
        false) :
    (reassembler.prepare limits clock packet).state.flows.get? other =
      reassembler.flows.get? other := by
  unfold prepare
  simp only [Outcome.state_andThen, Outcome.state_quiet]
  rw [get?_onDirection_of_ne different, get?_reviseFlow_of_ne different,
    get?_enter_of_ne different clock _ room, get?_restart_of_ne different]

theorem get?_finish_of_ne :
    (reassembler.finish limits packet).state.flows.get? other =
      reassembler.flows.get? other := by
  have ending
      (closed : TCPReassembler) :
      (if closed.endsConnection packet then
          (closed.onDirection packet.flowId packet.flow.2.opposite
            (flushDirection limits packet.flow.1
              packet.flow.2.opposite)).andThen
            fun flushed => .quiet (flushed.removeFlow packet.flowId)
        else
          .quiet closed).state.flows.get? other =
        closed.flows.get? other := by
    split
    · simp only [Outcome.state_andThen, Outcome.state_quiet]
      rw [get?_removeFlow, if_neg different,
        get?_onDirection_of_ne different]
    · rfl
  unfold finish
  simp only [Outcome.state_andThen, ending]
  split
  · simp only [Outcome.state_andThen, Outcome.state_quiet]
    rw [get?_reviseFlow_of_ne different, get?_onDirection_of_ne different]
  · rfl

/-- A call that evicts nothing leaves the other flows alone. -/
theorem get?_processTcp_of_ne
    (roomy : Roomy limits packet clock reassembler) :
    (reassembler.processTcp limits clock packet).state.flows.get? other =
      reassembler.flows.get? other := by
  have prepared :=
    get?_prepare_of_ne different clock reassembler roomy.table
  unfold processTcp
  simp only [Outcome.state_andThen]
  split
  case isTrue => rw [get?_onDirection_of_ne different, prepared]
  case isFalse notEarly =>
    split
    case isTrue stores =>
      simp only [Outcome.state_andThen]
      unfold enforceBudget
      rw [get?_finish_of_ne different,
        evictWhile_of_unwanted limits true _
          (roomy.buffers (by simpa using notEarly) stores),
        Outcome.state_quiet, get?_onDirection_of_ne different, prepared]
    case isFalse =>
      rw [Outcome.state_andThen, get?_finish_of_ne different,
        get?_onDirection_of_ne different, prepared]

end OtherFlows

/-- Epochs are only ever counted up. -/
theorem nextConnectionEpoch_le_of_follows
    {limits : TcpLimits}
    {reassembler : TCPReassembler}
    {outcome : Outcome TCPReassembler TcpEvent}
    (follows : Follows limits reassembler outcome) :
    reassembler.nextConnectionEpoch ≤ outcome.state.nextConnectionEpoch := by
  apply Steps.stateInvariant
    (motive := fun reached : TCPReassembler =>
      reassembler.nextConnectionEpoch ≤ reached.nextConnectionEpoch)
    _ follows (le_refl _)
  intro before after events reached step
  cases step with
  | onDirection => exact reached
  | revise => exact reached
  | reorder => exact reached
  | create => exact reached.trans (Nat.le_succ _)
  | remove found flushed =>
      unfold removeFlow
      split <;> exact reached
  | count => exact reached

/-! ## A flow alone -/

/-- A reassembler that holds at most the one flow. -/
def Alone (key : FlowId) (reassembler : TCPReassembler) : Prop :=
  ∀ other, other ≠ key → reassembler.flows.get? other = none

theorem sumDirections_nonneg
    (state : FlowState)
    {measure : DirectionState → Int}
    (nonneg : ∀ direction, 0 ≤ measure (state.directions direction)) :
    0 ≤ state.sumDirections measure :=
  Int.add_nonneg (nonneg .aToB) (nonneg .bToA)

/-- Alone, a flow buffers no more than next to others. -/
theorem counters_le_of_mirrors
    {key : FlowId}
    {bound : Nat}
    {naming : EpochNaming}
    {main solo : TCPReassembler}
    (mirrors : Mirrors key bound naming main solo)
    (mainWf : main.Wf)
    (soloWf : solo.Wf)
    (alone : solo.Alone key)
    (holds : 0 < solo.flows.size) :
    0 < main.flows.size ∧
      solo.counters.bufferedBytes ≤ main.counters.bufferedBytes ∧
      solo.counters.bufferedSegments ≤ main.counters.bufferedSegments := by
  obtain ⟨stored, value, -, storedFound⟩ := OrderedTable.oldest?_of_pos holds
  obtain rfl : stored = key := by
    by_contra different
    rw [alone stored different] at storedFound
    cases storedFound
  cases found : main.flows.get? stored with
  | none =>
      rw [mirrors.absent found] at storedFound
      cases storedFound
  | some state =>
      obtain ⟨-, -, activityNs, mirrored⟩ := mirrors.present found
      have sizes := OrderedTable.size_eq_erase_add_one found
      have bytesNonneg
          {other : FlowId}
          {held : FlowState}
          (isHeld : main.flows.get? other = some held) :
          0 ≤ held.sumDirections fun direction => direction.pendingBytes := by
        apply sumDirections_nonneg
        intro direction
        rw [(mainWf.directions isHeld direction).bytes]
        exact Int.natCast_nonneg _
      have segmentsNonneg
          {other : FlowId}
          {held : FlowState}
          (_ : main.flows.get? other = some held) :
          0 ≤ held.sumDirections fun direction =>
            (direction.pending.length : Int) :=
        sumDirections_nonneg held fun _ => Int.natCast_nonneg _
      refine ⟨by omega, ?_, ?_⟩
      · rw [soloWf.bufferedBytes, mainWf.bufferedBytes,
          OrderedTable.sum_of_alone mirrored alone]
        exact OrderedTable.le_sum found _ bytesNonneg
      · rw [soloWf.bufferedSegments, mainWf.bufferedSegments,
          OrderedTable.sum_of_alone mirrored alone]
        exact OrderedTable.le_sum found _ segmentsNonneg

theorem Alone.size_eq_zero
    {key : FlowId}
    {reassembler : TCPReassembler}
    (alone : reassembler.Alone key)
    (absent : reassembler.flows.get? key = none) :
    reassembler.flows.size = 0 := by
  have nothing : reassembler.flows.entries = [] := by
    apply OrderedTable.entries_eq_nil
    intro other
    by_cases same : other = key
    · rw [same]
      exact absent
    · exact alone other same
  simp [OrderedTable.size, nothing]

/-- Where the flow needs no eviction next to others, it needs none alone. -/
theorem roomy_of_mirrors
    {limits : TcpLimits}
    {packet : ParsedPacket}
    {bound : Nat}
    {naming : EpochNaming}
    {main solo : TCPReassembler}
    {clock : Int}
    (soloClock : Int)
    (mirrors : Mirrors packet.flowId bound naming main solo)
    (mainWf : main.Wf)
    (soloWf : solo.Wf)
    (alone : solo.Alone packet.flowId)
    (roomy : Roomy limits packet clock main) :
    Roomy limits packet soloClock solo := by
  have table :
      (solo.restart limits packet).state.flows.get? packet.flowId = none →
      (solo.restart limits packet).state.flowTableFull limits = false := by
    intro absent
    have restartedAlone :
        (solo.restart limits packet).state.Alone packet.flowId := by
      intro other different
      rw [get?_restart_of_ne different]
      exact alone other different
    have atLeast := limits.maxFlows_pos
    simp only [flowTableFull, restartedAlone.size_eq_zero absent,
      decide_eq_false_iff_not]
    omega
  refine { table := table, buffers := ?_ }
  intro prepared notEarly stores
  obtain ⟨after, -, mirroredPrepared, -, -⟩ :=
    mirrors.prepare limits clock soloClock roomy.table table
  obtain ⟨later, -, mirroredAccepted, -, -⟩ :=
    mirroredPrepared.onDirection (acceptPayload_confined limits packet)
  have acceptedAlone :
      (prepared.onDirection packet.flowId packet.flow.2
        (acceptPayload limits packet)).state.Alone packet.flowId := by
    intro other different
    rw [get?_onDirection_of_ne different,
      get?_prepare_of_ne different soloClock solo table]
    exact alone other different
  have preparedWf :
      (main.prepare limits clock packet).state.Wf :=
    (prepare_performs mainWf clock packet).wf mainWf
  have soloPreparedWf : prepared.Wf :=
    (prepare_performs soloWf soloClock packet).wf soloWf
  rw [mirroredPrepared.returnsEarly] at notEarly
  rw [mirroredPrepared.storesPayload] at stores
  have within := roomy.buffers notEarly stores
  cases exceeded :
      (prepared.onDirection packet.flowId packet.flow.2
        (acceptPayload limits packet)).state.overBudget limits with
  | false => rfl
  | true =>
      obtain ⟨mainHolds, bytes, segments⟩ :=
        counters_le_of_mirrors mirroredAccepted
          (wf_acceptPayload preparedWf packet)
          (wf_acceptPayload soloPreparedWf packet) acceptedAlone
          (size_pos_of_overBudget exceeded)
      simp only [prepared, overBudget, Bool.and_eq_true, Bool.or_eq_true,
        decide_eq_true_eq, Bool.and_eq_false_iff, Bool.or_eq_false_iff,
        decide_eq_false_iff_not] at exceeded within
      omega

end TCPReassembler

/-! ## Two runs -/

/-- A flow in a run with others, and in a run of its own. -/
structure Isolated
    (key : FlowId)
    (naming : EpochNaming)
    (main solo : TCPReassembler) : Prop where
  mainWf : main.Wf
  soloWf : solo.Wf
  alone : solo.Alone key
  mirrors : Mirrors key 0 naming main solo
  apart :
    ∀ {other state},
      other ≠ key →
      main.flows.get? other = some state →
      state.connectionEpoch ∉ naming.used

theorem Mirrors.weaken
    {key : FlowId}
    {bound lower : Nat}
    {naming : EpochNaming}
    {main solo : TCPReassembler}
    (mirrors : Mirrors key bound naming main solo)
    (recent : lower ≤ main.nextConnectionEpoch) :
    Mirrors key lower naming main solo where
  absent := mirrors.absent
  present := mirrors.present
  below := mirrors.below
  bounded := recent

theorem EpochNaming.Extends.weaken
    {bound lower : Nat}
    {before after : EpochNaming}
    (later : Extends bound before after)
    (less : lower ≤ bound) :
    Extends lower before after where
  used := later.used
  same := later.same
  added epoch used := (later.added epoch used).imp_right less.trans

/-- A well-formed reassembler mirrors itself at every flow. -/
theorem TCPReassembler.Wf.mirrors
    {main : TCPReassembler}
    (wf : main.Wf)
    (key : FlowId) :
    ∃ naming : EpochNaming,
      Mirrors key main.nextConnectionEpoch naming main main ∧
        ∀ epoch ∈ naming.used,
          ∃ state,
            main.flows.get? key = some state ∧
              state.connectionEpoch = epoch := by
  refine ⟨{
    name := id
    used := {epoch |
      ∃ state,
        main.flows.get? key = some state ∧ state.connectionEpoch = epoch}
    increasing := fun _ _ _ _ less => less
  }, ?_, fun epoch used => used⟩
  refine { absent := id, present := ?_, below := ?_, bounded := le_refl _ }
  · intro state found
    refine ⟨⟨wf.directions found, wf.epochOf found⟩, ⟨state, found, rfl⟩,
      state.activityNs, ?_⟩
    rw [found]
    congr 1
    have directions :
        (fun direction =>
            { state.directions direction with
              connectionEpoch := state.connectionEpoch }) =
          state.directions := by
      funext direction
      rw [← wf.epochOf found direction]
    unfold FlowState.rebased
    simp only [id_eq]
    rw [directions]
  · rintro epoch ⟨state, found, rfl⟩
    exact ⟨wf.epochUsed found, wf.epochUsed found⟩

/-- A call without an eviction returns chunks of its own flow only. -/
theorem TCPReassembler.Wf.ownEpochs
    {limits : TcpLimits}
    {packet : ParsedPacket}
    {clock : Int}
    {main : TCPReassembler}
    (wf : main.Wf)
    (roomy : TCPReassembler.Roomy limits packet clock main) :
    let outcome := main.processTcp limits clock packet
    let Recent := fun epoch : Nat =>
      (∃ state,
        main.flows.get? packet.flowId = some state ∧
          state.connectionEpoch = epoch) ∨
        main.nextConnectionEpoch ≤ epoch
    (∀ chunk ∈ chunks outcome.events,
      Recent chunk.connectionEpoch ∧
        chunk.connectionEpoch < outcome.state.nextConnectionEpoch) ∧
      ∀ {state},
        outcome.state.flows.get? packet.flowId = some state →
        Recent state.connectionEpoch := by
  intro outcome Recent
  obtain ⟨naming, mirrors, live⟩ := wf.mirrors packet.flowId
  obtain ⟨after, later, mirrorsAfter, -, own⟩ :=
    mirrors.processTcp limits clock clock roomy roomy
  have recent
      {epoch : Nat}
      (used : epoch ∈ after.used) :
      Recent epoch :=
    (later.added epoch used).imp_left (live epoch)
  refine ⟨?_, ?_⟩
  · intro chunk member
    have used := (own chunk member).2
    exact ⟨recent used, (mirrorsAfter.below _ used).1⟩
  · intro state found
    exact recent (mirrorsAfter.present found).2.1

namespace Isolated

variable
  {limits : TcpLimits}
  {key : FlowId}
  {naming : EpochNaming}
  {main solo : TCPReassembler}
  {packet : ParsedPacket}
  {clock : Int}

/-- A call on the flow itself is mirrored by the run of its own. -/
theorem own
    (isolated : Isolated packet.flowId naming main solo)
    (unevicted :
      (main.process limits clock packet).state.evictions ≤ main.evictions)
    (soloClock : Int) :
    let outcome := main.process limits clock packet
    let soloOutcome := solo.process limits soloClock packet
    ∃ after : EpochNaming,
      EpochNaming.Extends main.nextConnectionEpoch naming after ∧
        main.nextConnectionEpoch ≤ outcome.state.nextConnectionEpoch ∧
        Isolated packet.flowId after outcome.state soloOutcome.state ∧
        chunks soloOutcome.events =
          (chunks outcome.events).map after.chunk ∧
        ∀ chunk ∈ chunks outcome.events,
          chunk.flow = packet.flowId.2 ∧
            chunk.connectionEpoch ∈ after.used := by
  intro outcome soloOutcome
  cases accepted : TCPReassembler.accepts packet with
  | false =>
      have ignored
          (clock : Int)
          (reassembler : TCPReassembler) :
          reassembler.process limits clock packet = .quiet reassembler := by
        simp [TCPReassembler.process, accepted]
      simp only [outcome, soloOutcome, ignored]
      exact ⟨naming, .refl _ naming, le_refl _, isolated, rfl,
        by simp [Outcome.quiet]⟩
  | true =>
      have taken
          (clock : Int)
          (reassembler : TCPReassembler) :
          reassembler.process limits clock packet =
            reassembler.processTcp limits clock packet := by
        simp [TCPReassembler.process, accepted]
      rw [taken] at unevicted
      simp only [outcome, soloOutcome, taken]
      have roomy :=
        (TCPReassembler.evictions_processTcp limits packet clock).2 unevicted
      have soloRoomy :=
        TCPReassembler.roomy_of_mirrors soloClock isolated.mirrors
          isolated.mainWf isolated.soloWf isolated.alone roomy
      obtain ⟨after, later, mirrors, same, own⟩ :=
        (isolated.mirrors.weaken (le_refl _)).processTcp limits clock
          soloClock roomy soloRoomy
      refine ⟨after, later, mirrors.bounded, ?_, same, own⟩
      exact {
        mainWf :=
          (TCPReassembler.processTcp_performs isolated.mainWf clock
            packet).wf isolated.mainWf
        soloWf :=
          (TCPReassembler.processTcp_performs isolated.soloWf soloClock
            packet).wf isolated.soloWf
        alone := by
          intro other different
          rw [TCPReassembler.get?_processTcp_of_ne different soloClock solo
            soloRoomy]
          exact isolated.alone other different
        mirrors := mirrors.weaken (Nat.zero_le _)
        apart := by
          intro other state different found used
          rw [TCPReassembler.get?_processTcp_of_ne different clock main
            roomy] at found
          rcases later.added _ used with before | recent
          · exact isolated.apart different found before
          · have less := isolated.mainWf.epochUsed found
            omega
      }

/-- A call on another flow is not noticed. -/
theorem foreign
    (isolated : Isolated key naming main solo)
    (different : packet.flowId ≠ key)
    (unevicted :
      (main.process limits clock packet).state.evictions ≤ main.evictions) :
    let outcome := main.process limits clock packet
    Isolated key naming outcome.state solo ∧
      main.nextConnectionEpoch ≤ outcome.state.nextConnectionEpoch ∧
      ∀ chunk ∈ chunks outcome.events,
        chunk.connectionEpoch ∉ naming.used ∧
          chunk.connectionEpoch < outcome.state.nextConnectionEpoch := by
  intro outcome
  cases accepted : TCPReassembler.accepts packet with
  | false =>
      have ignored :
          main.process limits clock packet = .quiet main := by
        simp [TCPReassembler.process, accepted]
      simp only [outcome, ignored]
      exact ⟨isolated, le_refl _, by simp [Outcome.quiet]⟩
  | true =>
      have taken :
          main.process limits clock packet =
            main.processTcp limits clock packet := by
        simp [TCPReassembler.process, accepted]
      rw [taken] at unevicted
      simp only [outcome, taken]
      have roomy :=
        (TCPReassembler.evictions_processTcp limits packet clock).2 unevicted
      have performs :
          TCPReassembler.Performs limits true main
            (main.processTcp limits clock packet) :=
        TCPReassembler.processTcp_performs isolated.mainWf clock packet
      have more :=
        TCPReassembler.nextConnectionEpoch_le_of_follows
          (performs.follows isolated.mainWf)
      have kept :=
        TCPReassembler.get?_processTcp_of_ne different.symm clock main roomy
      obtain ⟨ownChunks, ownState⟩ := isolated.mainWf.ownEpochs roomy
      -- The other flow's epochs are its own or newer than every named one.
      have unnamed
          {epoch : Nat}
          (recent :
            (∃ state,
              main.flows.get? packet.flowId = some state ∧
                state.connectionEpoch = epoch) ∨
              main.nextConnectionEpoch ≤ epoch) :
          epoch ∉ naming.used := by
        intro used
        rcases recent with ⟨state, found, rfl⟩ | recent
        · exact isolated.apart different found used
        · have less := (isolated.mirrors.below epoch used).1
          omega
      refine ⟨?_, more, ?_⟩
      · exact {
          mainWf := performs.wf isolated.mainWf
          soloWf := isolated.soloWf
          alone := isolated.alone
          mirrors := {
            absent := fun absent =>
              isolated.mirrors.absent (kept ▸ absent)
            present := fun found =>
              isolated.mirrors.present (kept ▸ found)
            below := fun epoch used =>
              ⟨(isolated.mirrors.below epoch used).1.trans_le more,
                (isolated.mirrors.below epoch used).2⟩
            bounded := Nat.zero_le _
          }
          apart := by
            intro other state otherDifferent found
            by_cases same : other = packet.flowId
            · subst same
              exact unnamed (ownState found)
            · rw [TCPReassembler.get?_processTcp_of_ne same clock main roomy]
                at found
              exact isolated.apart otherDifferent found
        }
      · intro chunk member
        exact ⟨unnamed (ownChunks chunk member).1,
          (ownChunks chunk member).2⟩

end Isolated

/-- The calls that process packets, each at its clock reading. -/
def processAll (packets : List (Int × ParsedPacket)) : List TcpOperation :=
  packets.map fun timed => .process timed.1 timed.2

/-- The chunks the call on each packet returns, under the packet's flow. -/
def TCPReassembler.returned (limits : TcpLimits) :
    List (Int × ParsedPacket) →
    TCPReassembler →
    List (FlowId × List StreamChunk)
  | [], _ => []
  | (clock, packet) :: rest, reassembler =>
      let outcome := reassembler.process limits clock packet
      (packet.flowId, chunks outcome.events) ::
        outcome.state.returned limits rest

/-- The chunks returned for packets whose flow passes a test. -/
def returnedFor
    (test : FlowId → Bool)
    (calls : List (FlowId × List StreamChunk)) : List StreamChunk :=
  (calls.filter fun call => test call.1).flatMap Prod.snd

theorem returnedFor_cons
    (test : FlowId → Bool)
    (flow : FlowId)
    (emitted : List StreamChunk)
    (calls : List (FlowId × List StreamChunk)) :
    returnedFor test ((flow, emitted) :: calls) =
      if test flow then
        emitted ++ returnedFor test calls
      else
        returnedFor test calls := by
  unfold returnedFor
  rw [List.filter_cons]
  split <;> rfl

/-- The chunks of a run are those its calls return. -/
theorem chunks_run_processAll
    (limits : TcpLimits)
    (packets : List (Int × ParsedPacket))
    (reassembler : TCPReassembler) :
    chunks (reassembler.run limits (processAll packets)).events =
      (reassembler.returned limits packets).flatMap Prod.snd := by
  induction packets generalizing reassembler with
  | nil =>
      rfl
  | cons timed rest inductionHypothesis =>
      have later :=
        inductionHypothesis
          (reassembler.process limits timed.1 timed.2).state
      simp only [TCPReassembler.run, processAll, List.map_cons, runAll,
        TcpOperation.apply, Outcome.andThen, chunks_append,
        TCPReassembler.returned, List.flatMap_cons] at later ⊢
      rw [later]

namespace TCPReassembler

variable {limits : TcpLimits} {reassembler : TCPReassembler}

theorem evictions_le_process
    (clock : Int)
    (packet : ParsedPacket) :
    reassembler.evictions ≤
      (reassembler.process limits clock packet).state.evictions := by
  unfold process
  split
  · exact (evictions_processTcp limits packet clock).1
  · exact le_refl _

theorem evictions_le_run (packets : List (Int × ParsedPacket)) :
    reassembler.evictions ≤
      (reassembler.run limits (processAll packets)).state.evictions := by
  induction packets generalizing reassembler with
  | nil =>
      exact le_refl _
  | cons timed rest inductionHypothesis =>
      exact (evictions_le_process timed.1 timed.2).trans inductionHypothesis

end TCPReassembler

section Runs

variable {limits : TcpLimits} {key : FlowId}

/-- What a run of the flow's packets alone says of the run with others. -/
structure MirroredRun
    (limits : TcpLimits)
    (key : FlowId)
    (naming : EpochNaming)
    (packets soloPackets : List (Int × ParsedPacket))
    (main solo : TCPReassembler) : Prop where
  same :
    (solo.returned limits soloPackets).flatMap Prod.snd =
      (returnedFor (fun flow => flow = key)
        (main.returned limits packets)).map naming.chunk
  own :
    ∀ chunk ∈
        returnedFor (fun flow => flow = key) (main.returned limits packets),
      chunk.flow = key.2 ∧ chunk.connectionEpoch ∈ naming.used
  foreign :
    ∀ chunk ∈
        returnedFor (fun flow => flow ≠ key) (main.returned limits packets),
      chunk.connectionEpoch ∉ naming.used

/-- A run without evictions mirrors the run of the flow's packets alone. -/
theorem Isolated.run
    {naming : EpochNaming}
    {main solo : TCPReassembler}
    (isolated : Isolated key naming main solo)
    {packets soloPackets : List (Int × ParsedPacket)}
    (sameOrder :
      soloPackets.map Prod.snd =
        (packets.map Prod.snd).filter fun packet => packet.flowId = key)
    (noEviction :
      (main.run limits (processAll packets)).state.evictions ≤
        main.evictions) :
    ∃ after : EpochNaming,
      EpochNaming.Extends main.nextConnectionEpoch naming after ∧
        MirroredRun limits key after packets soloPackets main solo := by
  induction packets generalizing naming main solo soloPackets with
  | nil =>
      obtain rfl : soloPackets = [] := by simpa using sameOrder
      refine ⟨naming, .refl _ naming, ?_⟩
      exact {
        same := rfl
        own := by simp [returnedFor, TCPReassembler.returned]
        foreign := by simp [returnedFor, TCPReassembler.returned]
      }
  | cons timed rest inductionHypothesis =>
      obtain ⟨clock, packet⟩ := timed
      set outcome := main.process limits clock packet with outcomeIs
      have counted : main.evictions ≤ outcome.state.evictions :=
        TCPReassembler.evictions_le_process clock packet
      have countedLater :
          outcome.state.evictions ≤
            (outcome.state.run limits (processAll rest)).state.evictions :=
        TCPReassembler.evictions_le_run rest
      have ending :
          (outcome.state.run limits (processAll rest)).state.evictions ≤
            main.evictions := noEviction
      have unevicted : outcome.state.evictions ≤ main.evictions := by omega
      by_cases isOwn : packet.flowId = key
      · subst isOwn
        rw [List.map_cons, List.filter_cons_of_pos (by simp)] at sameOrder
        obtain ⟨⟨soloClock, soloPacket⟩, soloRest, rfl, rfl, sameRest⟩ :=
          List.map_eq_cons_iff.mp sameOrder
        obtain ⟨middle, toMiddle, more, isolatedMiddle, sameFirst, ownFirst⟩ :=
          isolated.own unevicted soloClock
        obtain ⟨after, toAfter, mirrored⟩ :=
          inductionHypothesis isolatedMiddle sameRest (ending.trans counted)
        refine ⟨after, toMiddle.trans (toAfter.weaken more), ?_⟩
        have kept :=
          toAfter.map_chunk fun chunk member => (ownFirst chunk member).2
        refine { same := ?_, own := ?_, foreign := ?_ }
        · simp only [TCPReassembler.returned, List.flatMap_cons,
            returnedFor_cons, decide_true, ↓reduceIte, List.map_append]
          rw [sameFirst, ← kept, mirrored.same]
        · intro chunk member
          simp only [TCPReassembler.returned, returnedFor_cons, decide_true,
            ↓reduceIte, List.mem_append] at member
          rcases member with inFirst | inRest
          · exact ⟨(ownFirst chunk inFirst).1,
              toAfter.used (ownFirst chunk inFirst).2⟩
          · exact mirrored.own chunk inRest
        · intro chunk member
          simp only [TCPReassembler.returned, returnedFor_cons, ne_eq,
            not_true_eq_false, decide_false, Bool.false_eq_true,
            ↓reduceIte] at member
          exact mirrored.foreign chunk member
      · rw [List.map_cons, List.filter_cons_of_neg (by simpa using isOwn)]
          at sameOrder
        obtain ⟨isolatedAfter, more, foreignFirst⟩ :=
          isolated.foreign isOwn unevicted
        obtain ⟨after, toAfter, mirrored⟩ :=
          inductionHypothesis isolatedAfter sameOrder (ending.trans counted)
        refine ⟨after, toAfter.weaken more, ?_⟩
        refine { same := ?_, own := ?_, foreign := ?_ }
        · simp only [TCPReassembler.returned, returnedFor_cons, isOwn,
            decide_false, Bool.false_eq_true, ↓reduceIte]
          exact mirrored.same
        · intro chunk member
          simp only [TCPReassembler.returned, returnedFor_cons, isOwn,
            decide_false, Bool.false_eq_true, ↓reduceIte] at member
          exact mirrored.own chunk member
        · intro chunk member
          simp only [TCPReassembler.returned, returnedFor_cons, isOwn, ne_eq,
            not_false_eq_true, decide_true, ↓reduceIte,
            List.mem_append] at member
          rcases member with inFirst | inRest
          · intro used
            rcases toAfter.added _ used with before | recent
            · exact (foreignFirst chunk inFirst).1 before
            · have less := (foreignFirst chunk inFirst).2
              omega
          · exact mirrored.foreign chunk inRest

end Runs

theorem Isolated.new
    (key : FlowId)
    (epochNamespace soloNamespace : Nat) :
    Isolated key .empty (.new epochNamespace) (.new soloNamespace) where
  mainWf := .new epochNamespace
  soloWf := .new soloNamespace
  alone _ _ := rfl
  mirrors := {
    absent := fun _ => rfl
    present := fun found => by simp [TCPReassembler.new] at found
    below := by simp [EpochNaming.empty]
    bounded := Nat.zero_le _
  }
  apart _ _ := by simp [EpochNaming.empty]

/--
While no flow is evicted, a flow's packets return the same chunks among the
packets of other flows as alone, up to an order-preserving renaming of the
connection epochs, which no chunk returned for another flow shares.
-/
theorem run_isolates_flows
    (limits : TcpLimits)
    (epochNamespace soloNamespace : Nat)
    (key : FlowId)
    (packets soloPackets : List (Int × ParsedPacket))
    (sameOrder :
      soloPackets.map Prod.snd =
        (packets.map Prod.snd).filter fun packet => packet.flowId = key)
    (noEviction :
      ((TCPReassembler.new epochNamespace).run limits
        (processAll packets)).state.counters.evictedFlows = 0) :
    let calls := (TCPReassembler.new epochNamespace).returned limits packets
    let own := returnedFor (fun flow => flow = key) calls
    let foreign := returnedFor (fun flow => flow ≠ key) calls
    ∃ rename : Nat → Nat,
      StrictMonoOn rename
          {epoch | ∃ chunk ∈ own, chunk.connectionEpoch = epoch} ∧
        chunks ((TCPReassembler.new soloNamespace).run limits
            (processAll soloPackets)).events =
          (own.map fun chunk =>
            chunk.withEpoch (rename chunk.connectionEpoch)) ∧
        (∀ chunk ∈ own, chunk.flow = key.2) ∧
        ∀ chunk ∈ foreign, ∀ ownChunk ∈ own,
          chunk.connectionEpoch ≠ ownChunk.connectionEpoch := by
  intro calls own foreign
  obtain ⟨after, -, mirrored⟩ :=
    (Isolated.new key epochNamespace soloNamespace).run sameOrder
      noEviction.le
  refine ⟨after.name, ?_, ?_, ?_, ?_⟩
  · apply after.increasing.mono
    rintro epoch ⟨chunk, member, rfl⟩
    exact (mirrored.own chunk member).2
  · rw [chunks_run_processAll]
    exact mirrored.same
  · exact fun chunk member => (mirrored.own chunk member).1
  · intro chunk member ownChunk ownMember sameEpoch
    apply mirrored.foreign chunk member
    rw [sameEpoch]
    exact (mirrored.own ownChunk ownMember).2

/-- Two clients of one server, their segments interleaved. -/
def interleavedClients : List (Int × ParsedPacket) :=
  let other (packet : ParsedPacket) := { packet with sport := 4321 }
  [(0, other (sampleSegment 1 500 0x02 [])),
    (1, sampleSegment 2 99 0x02 []),
    (2, other (sampleSegment 3 501 0x18 [67])),
    (3, sampleSegment 4 101 0x18 [66]),
    (4, sampleSegment 5 100 0x18 [65])]

theorem interleavedClients_isolated :
    let key := (sampleSegment 2 99 0x02 []).flowId
    let alone :=
      [(0, sampleSegment 2 99 0x02 []), (0, sampleSegment 4 101 0x18 [66]),
        (0, sampleSegment 5 100 0x18 [65])]
    let own :=
      returnedFor (fun flow => flow = key)
        ((TCPReassembler.new 0).returned .default interleavedClients)
    own.map StreamChunk.data = [[65, 66]] ∧
      ∃ rename : Nat → Nat,
        chunks ((TCPReassembler.new 7).run .default
            (processAll alone)).events =
          own.map fun chunk =>
            chunk.withEpoch (rename chunk.connectionEpoch) := by
  intro key alone own
  obtain ⟨rename, -, same, -, -⟩ :=
    run_isolates_flows .default 0 7 key interleavedClients alone (by decide)
      (by decide)
  exact ⟨by decide, rename, same⟩

end PacketAudit
