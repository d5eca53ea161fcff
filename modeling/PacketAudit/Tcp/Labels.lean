import PacketAudit.Tcp.Outputs

namespace PacketAudit

/-!
# What a completeness label promises

The history of a direction determines the label of every chunk: how the
direction was opened, and whether a gap was skipped before.  As long as none
was, the chunks follow one another from stream offset zero without a hole.
-/

open Library

/-- Chunks that follow one another from one stream offset to another. -/
def Follow : Int → Int → List StreamChunk → Prop
  | first, last, [] => first = last
  | first, last, chunk :: rest =>
      chunk.streamOffset = first ∧ Follow chunk.streamEnd last rest

theorem Follow.append
    {first middle last : Int}
    {earlier later : List StreamChunk}
    (front : Follow first middle earlier)
    (back : Follow middle last later) :
    Follow first last (earlier ++ later) := by
  induction earlier generalizing first with
  | nil =>
      have same : first = middle := front
      subst same
      exact back
  | cons chunk rest inductionHypothesis =>
      obtain ⟨starts, restFollows⟩ := front
      exact ⟨starts, inductionHypothesis restFollows⟩

/-- How a direction was opened: its first `next_seq` and the label flag. -/
@[simp] def TcpEvent.opening? : TcpEvent → Option (Int × Bool)
  | .opened _ _ nextSeq midstream => some (nextSeq, midstream)
  | _ => none

/-- The openings a list of events logs. -/
def openings (events : List TcpEvent) : List (Int × Bool) :=
  events.filterMap TcpEvent.opening?

@[simp] theorem openings_append (first second : List TcpEvent) :
    openings (first ++ second) = openings first ++ openings second :=
  List.filterMap_append

@[simp] theorem openings_singleton (event : TcpEvent) :
    openings [event] = event.opening?.toList := by
  cases event <;> rfl

/-- Events without inputs log no opening. -/
theorem openings_of_inputs
    {events : List TcpEvent}
    (outputsOnly : inputs events = []) :
    openings events = [] := by
  refine filterMap_of_inputs ?_ outputsOnly
  intro event isOutput
  cases event with
  | opened => cases isOutput
  | arrived arrival => rfl
  | skipped => rfl
  | emitted chunk => rfl

/-- Events that log no opening contain none. -/
theorem not_mem_of_openings
    {events : List TcpEvent}
    (noOpening : openings events = [])
    {epoch : Nat}
    {direction : Direction}
    {nextSeq : Int}
    {midstream : Bool} :
    .opened epoch direction nextSeq midstream ∉ events := by
  intro member
  have := List.filterMap_eq_nil_iff.mp noOpening _ member
  cases this

/-- A list of events logs a skipped gap. -/
def HasGap (events : List TcpEvent) : Prop :=
  ∃ event ∈ events, event.gap?.isSome

@[simp] theorem hasGap_append (first second : List TcpEvent) :
    HasGap (first ++ second) ↔ HasGap first ∨ HasGap second := by
  unfold HasGap
  constructor
  · rintro ⟨event, member, isGap⟩
    rcases List.mem_append.mp member with inFirst | inSecond
    · exact .inl ⟨event, inFirst, isGap⟩
    · exact .inr ⟨event, inSecond, isGap⟩
  · rintro (⟨event, member, isGap⟩ | ⟨event, member, isGap⟩)
    · exact ⟨event, List.mem_append_left _ member, isGap⟩
    · exact ⟨event, List.mem_append_right _ member, isGap⟩

@[simp] theorem hasGap_singleton (event : TcpEvent) :
    HasGap [event] ↔ event.gap?.isSome := by
  simp [HasGap]

/-- The history of a direction explains the fields its labels depend on. -/
structure Explained
    (log : List TcpEvent)
    (state : DirectionState) : Prop where
  gap : state.hadGap = true ↔ HasGap log
  idle : state.nextSeq = none → openings log = []
  opening :
    ∀ next,
      state.nextSeq = some next →
      ∃ base, openings log = [(base, state.midstream)]
  whole :
    state.hadGap = false →
      Follow 0 state.streamOffset (chunks log)

/-- A chunk emitted by a step is the whole step, at the state's offset. -/
theorem DirectionStep.emitted
    {limits : TcpLimits}
    {flow : FlowKey}
    {direction : Direction}
    {before after : DirectionView}
    {events : List TcpEvent}
    (step : DirectionStep limits flow direction before events after)
    (wf : before.direction.Wf)
    {chunk : StreamChunk}
    (member : .emitted chunk ∈ events) :
    events = [.emitted chunk] ∧
      chunk.streamOffset = before.direction.streamOffset ∧
      ∃ next, before.direction.nextSeq = some next := by
  cases step with
  | start sequence midstream synSeq idle lower upper => simp at member
  | probe arrival arrives keepalive behind => simp at member
  | repetition arrival arrives notKeepalive behind => simp at member
  | store arrival timestampNs arrives notKeepalive reaches =>
      simp at member
  | drain forcedGap label =>
      cases expects : before.direction.nextSeq with
      | none =>
          rw [drain_idle limits flow direction forcedGap expects] at member
          simp at member
      | some next =>
          obtain ⟨ready, blocked, drained⟩ :=
            drain_spec limits flow direction forcedGap wf expects
          by_cases noneReady : ready = []
          · rw [drained.silent noneReady] at member
            simp at member
          · obtain ⟨only, eventsAre, -, -, -, offset, -⟩ :=
              drained.emits noneReady
            rw [eventsAre] at member ⊢
            simp only [List.map_cons, List.map_nil, TcpEvent.relabel,
              List.mem_singleton, TcpEvent.emitted.injEq] at member ⊢
            subst member
            exact ⟨rfl, offset, next, rfl⟩
  | gap expects pending hole => simp [skipGap] at member

/-- Every step keeps the history an explanation of the state. -/
theorem explained_invariant (limits : TcpLimits) :
    DirectionInvariant limits fun _ _ log state => Explained log state where
  fresh flow direction epoch := {
    gap := by simp [HasGap]
    idle := fun _ => rfl
    opening := by simp
    whole := fun _ => rfl
  }
  same := by
    intro flow direction log first second same explained
    rw [same]
    exact {
      gap := explained.gap
      idle := explained.idle
      opening := explained.opening
      whole := explained.whole
    }
  step := by
    intro flow direction log before events after step wf explained
    cases step with
    | start sequence midstream synSeq idle lower upper =>
        exact {
          gap := by simpa using explained.gap
          idle := by simp
          opening := by
            intro next _
            exact ⟨sequence, by simp [explained.idle idle]⟩
          whole := by simpa using explained.whole
        }
    | probe arrival arrives keepalive behind =>
        exact {
          gap := by simpa using explained.gap
          idle := by simpa using explained.idle
          opening := by simpa using explained.opening
          whole := by simpa using explained.whole
        }
    | repetition arrival arrives notKeepalive behind =>
        exact {
          gap := by simpa [countRetransmission] using explained.gap
          idle := by
            simpa [countRetransmission] using explained.idle
          opening := by
            simpa [countRetransmission] using explained.opening
          whole := by simpa [countRetransmission] using explained.whole
        }
    | store arrival timestampNs arrives notKeepalive reaches =>
        obtain ⟨additions, -, directionIs, -⟩ :=
          (insertPayload_stored arrival.packetIds timestampNs reaches
            before).exists_additions
        rw [directionIs]
        exact {
          gap := by simpa using explained.gap
          idle := by simpa using explained.idle
          opening := by simpa using explained.opening
          whole := by simpa using explained.whole
        }
    | drain forcedGap label =>
        cases expects : before.direction.nextSeq with
        | none =>
            rw [drain_idle limits flow direction forcedGap expects]
            simpa using explained
        | some next =>
            obtain ⟨ready, blocked, drained⟩ :=
              drain_spec limits flow direction forcedGap wf expects
            rw [drained.directionAfter]
            by_cases noneReady : ready = []
            · rw [drained.silent noneReady, noneReady]
              exact {
                gap := by simpa using explained.gap
                idle := by simp
                opening := by
                  intro _ _
                  simpa using explained.opening next expects
                whole := by simpa using explained.whole
              }
            · obtain ⟨chunk, eventsAre, -, -, -, offset, data, -⟩ :=
                drained.emits noneReady
              rw [eventsAre]
              simp only [List.map_cons, List.map_nil, TcpEvent.relabel]
              refine {
                gap := by simpa using explained.gap
                idle := by simp
                opening := ?_
                whole := ?_
              }
              · intro _ _
                simpa using explained.opening next expects
              · intro noGap
                rw [chunks_append]
                have ends :
                    chunk.streamOffset + (chunk.data.length : Int) =
                      before.direction.streamOffset +
                        totalLength ready := by
                  rw [offset, data, length_flatten_data]
                exact (explained.whole noGap).append ⟨offset, ends⟩
    | gap expects pending hole =>
        refine {
          gap := by simp [skipGap]
          idle := by simp [skipGap]
          opening := ?_
          whole := by simp [skipGap]
        }
        intro _ _
        simpa [skipGap] using explained.opening _ expects

/-! ## Where a direction was opened -/

/--
Some call of a run opened the direction of an epoch; the packet of the call
carries a SYN unless the direction began midstream.
-/
def OpenedBy
    (limits : TcpLimits)
    (epochNamespace : Nat)
    (operations : List TcpOperation)
    (epoch : Nat)
    (direction : Direction)
    (midstream : Bool) : Prop :=
  ∃ prior clock packet rest,
    operations = prior ++ .process clock packet :: rest ∧
      packet.flow.2 = direction ∧
      packet.syn = !midstream ∧
      .opened epoch direction packet.rawPayloadSequence midstream ∈
        (((TCPReassembler.new epochNamespace).run limits prior).state.process
          limits clock packet).events

namespace TCPReassembler

variable
  {limits : TcpLimits}
  {reassembler : TCPReassembler}

/-- Accepting a payload opens nothing. -/
theorem openings_acceptPayload
    (packet : ParsedPacket)
    (view : DirectionView) :
    openings (acceptPayload limits packet view).events = [] := by
  unfold acceptPayload
  split
  case h_1 => rfl
  case h_2 =>
    split
    case isTrue => rfl
    case isFalse =>
      simp only
      split
      case isTrue => rfl
      case isFalse =>
        unfold receivePayload
        simp only [Outcome.events_andThen, openings_append]
        split
        case isTrue => rfl
        case isFalse =>
          simp [openings_of_inputs (inputs_drain _ _ _ _ _),
            openings_of_inputs (inputs_enforceDirectionLimits _ _ _ _ _)]

/-- An event a flow's direction function logs is one of the function. -/
theorem mem_events_onDirection
    {key : FlowId}
    {direction : Direction}
    {apply : DirectionView → Outcome DirectionView TcpEvent}
    {event : TcpEvent}
    (member :
      event ∈ (reassembler.onDirection key direction apply).events) :
    ∃ view, event ∈ (apply view).events := by
  unfold onDirection at member
  split at member
  case h_1 => cases member
  case h_2 => exact ⟨_, member⟩

/-- A call opens a direction only for its packet, and as the packet says. -/
theorem opened_of_process
    {clock : Int}
    {packet : ParsedPacket}
    {epoch : Nat}
    {direction : Direction}
    {nextSeq : Int}
    {midstream : Bool}
    (member :
      .opened epoch direction nextSeq midstream ∈
        (reassembler.process limits clock packet).events) :
    packet.flow.2 = direction ∧ packet.rawPayloadSequence = nextSeq ∧
      packet.syn = !midstream := by
  have starts
      {state : TCPReassembler}
      (member :
        .opened epoch direction nextSeq midstream ∈
          (state.prepare limits clock packet).events) :
      packet.flow.2 = direction ∧ packet.rawPayloadSequence = nextSeq ∧
        packet.syn = !midstream := by
    have notRestart :=
      @not_mem_of_openings _
        (openings_of_inputs (inputs_restart limits state packet)) epoch
        direction nextSeq midstream
    simp only [prepare, Outcome.events_andThen, Outcome.events_quiet,
      List.append_nil, List.mem_append, notRestart, false_or] at member
    rcases member with entered | started
    · exact
        (not_mem_of_openings
          (openings_of_inputs (inputs_enter limits _ clock packet))
          entered).elim
    · obtain ⟨view, isStart⟩ := mem_events_onDirection started
      simp only [startSequence] at isStart
      split at isStart
      case isTrue =>
        obtain ⟨-, rfl, rfl, rfl⟩ :=
          TcpEvent.opened.inj (List.mem_singleton.mp isStart)
        simp
      case isFalse => cases isStart
  have accepts
      {state : TCPReassembler} :
      .opened epoch direction nextSeq midstream ∉
        (state.onDirection packet.flowId packet.flow.2
          (acceptPayload limits packet)).events := by
    intro isAccept
    obtain ⟨view, inside⟩ := mem_events_onDirection isAccept
    exact not_mem_of_openings (openings_acceptPayload packet view) inside
  have finishes
      {state : TCPReassembler} :
      .opened epoch direction nextSeq midstream ∉
        (state.finish limits packet).events :=
    not_mem_of_openings
      (openings_of_inputs (inputs_finish limits state packet))
  have enforces
      {state : TCPReassembler} :
      .opened epoch direction nextSeq midstream ∉
        (state.enforceBudget limits).events :=
    not_mem_of_openings
      (openings_of_inputs (inputs_evictWhile limits state _ _ _))
  unfold process at member
  split at member
  case isFalse => cases member
  case isTrue =>
    simp only [processTcp, Outcome.events_andThen, List.mem_append]
      at member
    rcases member with prepared | later
    · exact starts prepared
    · split at later
      case isTrue => exact (accepts later).elim
      case isFalse =>
        split at later
        · simp [accepts, finishes, enforces] at later
        · simp [accepts, finishes] at later

end TCPReassembler

/-- An opening in the log of a run was logged by a call with its packet. -/
theorem openedBy_of_mem
    {limits : TcpLimits}
    {epochNamespace : Nat}
    {operations : List TcpOperation}
    {epoch : Nat}
    {direction : Direction}
    {nextSeq : Int}
    {midstream : Bool}
    (member :
      .opened epoch direction nextSeq midstream ∈
        ((TCPReassembler.new epochNamespace).run
          limits operations).events) :
    OpenedBy limits epochNamespace operations epoch direction midstream := by
  obtain ⟨prior, operation, rest, shape, logged⟩ :=
    mem_events_runAll member
  cases operation with
  | process clock packet =>
      obtain ⟨side, sequence, syn⟩ :=
        TCPReassembler.opened_of_process logged
      refine ⟨prior, clock, packet, rest, shape, side, syn, ?_⟩
      rw [sequence]
      exact logged
  | expire now clock =>
      simp only [TcpOperation.apply, TCPReassembler.expire,
        Outcome.events_andThen, Outcome.events_quiet, List.append_nil]
        at logged
      exact
        (not_mem_of_openings
          (openings_of_inputs (TCPReassembler.inputs_closeFlows limits _ _))
          logged).elim
  | flushAll completeness =>
      simp only [TcpOperation.apply, TCPReassembler.flushAll, List.mem_map]
        at logged
      obtain ⟨original, inside, isOpening⟩ := logged
      cases original with
      | opened =>
          exact
            (not_mem_of_openings
              (openings_of_inputs
                (TCPReassembler.inputs_closeFlows limits _ _))
              inside).elim
      | arrived => cases isOpening
      | skipped => cases isOpening
      | emitted => cases isOpening

/-! ## The promise of a label -/

/--
What the label of a chunk promises about the earlier events of its epoch and
direction, and about the call that opened the direction.
-/
structure TruthfulLabel
    (openedBy : Bool → Prop)
    (earlier : List TcpEvent)
    (chunk : StreamChunk) : Prop where
  complete :
    chunk.completeness = .complete →
      openedBy false ∧
        (∃ base, openings earlier = [(base, false)]) ∧
        Follow 0 chunk.streamEnd (chunks earlier ++ [chunk])
  midstream :
    chunk.completeness = .midstream →
      openedBy true ∧
        (∃ base, openings earlier = [(base, true)]) ∧
        Follow 0 chunk.streamEnd (chunks earlier ++ [chunk])
  gapped : chunk.completeness = .gapped ↔ HasGap earlier

/-- A state that the history before a chunk explains labels the chunk. -/
structure LabelledBy
    (earlier : List TcpEvent)
    (chunk : StreamChunk)
    (state : DirectionState) : Prop where
  explained : Explained earlier state
  opened : ∃ next, state.nextSeq = some next
  label : chunk.completeness = completenessOf state false
  offset : chunk.streamOffset = state.streamOffset

/-- A chunk labelled by a state its history explains is labelled truthfully. -/
theorem LabelledBy.truthful
    {earlier : List TcpEvent}
    {chunk : StreamChunk}
    {state : DirectionState}
    (labelled : LabelledBy earlier chunk state)
    {openedBy : Bool → Prop}
    (known :
      ∀ base midstream,
        openings earlier = [(base, midstream)] → openedBy midstream) :
    TruthfulLabel openedBy earlier chunk := by
  obtain ⟨explained, ⟨next, expects⟩, label, offset⟩ := labelled
  obtain ⟨base, opening⟩ := explained.opening next expects
  have opened := known base state.midstream opening
  have continues
      (noGap : state.hadGap = false) :
      Follow 0 chunk.streamEnd (chunks earlier ++ [chunk]) :=
    (explained.whole noGap).append ⟨offset, rfl⟩
  cases gapped : state.hadGap with
  | true =>
      have isGapped : chunk.completeness = .gapped := by
        simp [label, completenessOf, gapped]
      refine {
        complete := by simp [isGapped]
        midstream := by simp [isGapped]
        gapped := iff_of_true isGapped (explained.gap.mp gapped)
      }
  | false =>
      have noGap : ¬ HasGap earlier := by
        rw [← explained.gap, gapped]
        simp
      cases midstream : state.midstream with
      | true =>
          have isMidstream : chunk.completeness = .midstream := by
            simp [label, completenessOf, gapped, midstream]
          rw [midstream] at opening opened
          exact {
            complete := by simp [isMidstream]
            midstream := fun _ => ⟨opened, ⟨base, opening⟩, continues gapped⟩
            gapped := iff_of_false (by simp [isMidstream]) noGap
          }
      | false =>
          have isComplete : chunk.completeness = .complete := by
            simp [label, completenessOf, gapped, midstream]
          rw [midstream] at opening opened
          exact {
            complete := fun _ => ⟨opened, ⟨base, opening⟩, continues gapped⟩
            midstream := by simp [isComplete]
            gapped := iff_of_false (by simp [isComplete]) noGap
          }

/-- The chunk of a labelled step is labelled by the state it leaves. -/
theorem LabelledTcpStep.labelledBy
    {limits : TcpLimits}
    {log events : List TcpEvent}
    {before after : TCPReassembler}
    (step : LabelledTcpStep limits before events after)
    (recorded :
      Recorded (fun _ _ log state => Explained log state) log before)
    {chunk : StreamChunk}
    (member : .emitted chunk ∈ events) :
    events = [.emitted chunk] ∧
      ∃ state,
        LabelledBy (history chunk.connectionEpoch chunk.direction log) chunk
          state := by
  cases step with
  | silent => cases member
  | @onDirection key state direction _ view found labelled =>
      have directionWf := recorded.wf.directions found direction
      obtain ⟨whole, offset, opened⟩ :=
        labelled.step.emitted directionWf member
      obtain ⟨epochMatches, sideMatches⟩ :=
        Bool.and_eq_true_iff.mp
          (labelled.step.belongsTo directionWf _ member)
      have sameEpoch : chunk.connectionEpoch = state.connectionEpoch :=
        (of_decide_eq_true epochMatches).trans
          (recorded.wf.epochOf found direction)
      have sameSide : chunk.direction = direction :=
        of_decide_eq_true sideMatches
      refine ⟨whole, state.directions direction, {
        explained := ?_
        opened := opened
        label := ?_
        offset := offset
      }⟩
      · rw [sameEpoch, sameSide]
        exact recorded.live found direction
      · exact labelled.labels chunk
          (List.mem_filterMap.mpr ⟨_, member, rfl⟩)

/-- Every chunk among these events is labelled by a state explained there. -/
def AllLabelled (log events : List TcpEvent) : Prop :=
  ∀ before chunk after,
    events = before ++ .emitted chunk :: after →
    ∃ state,
      LabelledBy
        (history chunk.connectionEpoch chunk.direction (log ++ before))
        chunk state

/-- One more labelled step keeps all chunks labelled. -/
theorem AllLabelled.step
    {limits : TcpLimits}
    {log sofar events : List TcpEvent}
    {before after : TCPReassembler}
    (all : AllLabelled log sofar)
    (recorded :
      Recorded (fun _ _ log state => Explained log state) (log ++ sofar)
        before)
    (step : LabelledTcpStep limits before events after) :
    AllLabelled log (sofar ++ events) := by
  intro front chunk back shape
  have member
      {events : List TcpEvent}
      {front : List TcpEvent}
      (isThere : events = front ++ .emitted chunk :: back) :
      .emitted chunk ∈ events := by
    rw [isThere]
    simp
  rcases List.append_eq_append_iff.mp shape with
    ⟨between, frontIs, eventsAre⟩ | ⟨between, sofarIs, restIs⟩
  · obtain ⟨whole, labelled⟩ :=
      step.labelledBy recorded (member eventsAre)
    have nothing : between = [] := by
      rw [whole] at eventsAre
      rcases List.append_eq_singleton_iff.mp eventsAre.symm with
        ⟨isNil, -⟩ | ⟨-, isNil⟩
      · exact isNil
      · cases isNil
    rw [frontIs, nothing, List.append_nil]
    exact labelled
  · cases between with
    | nil =>
        rw [List.nil_append] at restIs
        rw [List.append_nil] at sofarIs
        rw [← sofarIs]
        exact (step.labelledBy recorded (@member _ [] restIs.symm)).2
    | cons first rest =>
        rw [List.cons_append, List.cons.injEq] at restIs
        obtain ⟨rfl, -⟩ := restIs
        exact all _ _ _ sofarIs

/-- The chunks of labelled steps are all labelled by explained states. -/
theorem allLabelled_of_follows
    {limits : TcpLimits}
    {log : List TcpEvent}
    {reassembler : TCPReassembler}
    {outcome : Outcome TCPReassembler TcpEvent}
    (recorded :
      Recorded (fun _ _ log state => Explained log state) log reassembler)
    (labelled :
      outcome.FollowsFrom (LabelledTcpStep limits) reassembler) :
    AllLabelled log outcome.events := by
  have kept :
      Recorded (fun _ _ log state => Explained log state)
          (log ++ ([] ++ outcome.events)) outcome.state ∧
        AllLabelled log ([] ++ outcome.events) := by
    apply Steps.invariant
      (motive := fun sofar state =>
        Recorded (fun _ _ log state => Explained log state) (log ++ sofar)
            state ∧
          AllLabelled log sofar) _ labelled
    · refine ⟨by simpa using recorded, ?_⟩
      intro before chunk after shape
      simp at shape
    · intro sofar initial events final holds step
      refine ⟨?_, AllLabelled.step holds.2 holds.1 step⟩
      rw [← List.append_assoc]
      exact holds.1.step (explained_invariant limits) step.step
  rw [List.nil_append] at kept
  exact kept.2

/-- The chunks one further call emits after a run are labelled truthfully. -/
def EmitsTruthfully
    (limits : TcpLimits)
    (epochNamespace : Nat)
    (operations : List TcpOperation)
    (operation : TcpOperation) : Prop :=
  let reached := (TCPReassembler.new epochNamespace).run limits operations
  ∀ before chunk after,
    (operation.apply limits reached.state).events =
      before ++ .emitted chunk :: after →
    TruthfulLabel
      (OpenedBy limits epochNamespace (operations ++ [operation])
        chunk.connectionEpoch chunk.direction)
      (history chunk.connectionEpoch chunk.direction
        (reached.events ++ before))
      chunk

/-- Labelled steps of a further call emit truthfully. -/
theorem emitsTruthfully_of_labelled
    {limits : TcpLimits}
    {epochNamespace : Nat}
    {operations : List TcpOperation}
    {operation : TcpOperation}
    (labelled :
      let reached := (TCPReassembler.new epochNamespace).run limits operations
      (operation.apply limits reached.state).FollowsFrom
        (LabelledTcpStep limits) reached.state) :
    EmitsTruthfully limits epochNamespace operations operation := by
  intro before chunk after shape
  have recorded :=
    recorded_run (explained_invariant limits) epochNamespace operations
  obtain ⟨state, labelledBy⟩ :=
    allLabelled_of_follows recorded labelled _ _ _ shape
  refine labelledBy.truthful ?_
  intro base midstream opening
  have logged :
      (base, midstream) ∈
        openings
          (history chunk.connectionEpoch chunk.direction
            (((TCPReassembler.new epochNamespace).run
              limits operations).events ++ before)) := by
    rw [opening]
    exact List.mem_singleton_self _
  obtain ⟨event, member, isOpening⟩ := List.mem_filterMap.mp logged
  obtain ⟨inLog, belongs⟩ := List.mem_filter.mp member
  obtain ⟨epochMatches, sideMatches⟩ := Bool.and_eq_true_iff.mp belongs
  cases event with
  | opened epoch side nextSeq flag =>
      obtain ⟨rfl, rfl⟩ := Prod.mk.inj (Option.some.inj isOpening)
      obtain rfl : epoch = chunk.connectionEpoch :=
        of_decide_eq_true epochMatches
      obtain rfl : side = chunk.direction := of_decide_eq_true sideMatches
      apply openedBy_of_mem
      unfold TCPReassembler.run
      rw [runAll_append, Outcome.events_andThen]
      rcases List.mem_append.mp inLog with inRun | inCall
      · exact List.mem_append_left _ inRun
      · refine List.mem_append_right _ ?_
        simp only [runAll, Outcome.events_andThen, Outcome.events_quiet,
          List.append_nil]
        exact shape ▸ List.mem_append_left _ inCall
  | arrived arrival => cases isOpening
  | skipped => cases isOpening
  | emitted chunk => cases isOpening

/--
In every run, every chunk that `process` or `expire` emits is labelled as the
history of its epoch and direction says.
-/
theorem run_labels_truthful
    (limits : TcpLimits)
    (epochNamespace : Nat)
    (operations : List TcpOperation) :
    (∀ clock packet,
      EmitsTruthfully limits epochNamespace operations
        (.process clock packet)) ∧
      ∀ now clock,
        EmitsTruthfully limits epochNamespace operations
          (.expire now clock) := by
  have reachedWf :
      ((TCPReassembler.new epochNamespace).run
        limits operations).state.Wf :=
    (TCPReassembler.run_follows (.new epochNamespace) operations).wf
      (.new epochNamespace)
  refine ⟨?_, ?_⟩
  · intro clock packet
    exact emitsTruthfully_of_labelled
      ((TCPReassembler.process_performs reachedWf clock packet).labelled
        reachedWf)
  · intro now clock
    exact emitsTruthfully_of_labelled
      ((TCPReassembler.expire_performs reachedWf now clock).labelled
        reachedWf)

end PacketAudit
