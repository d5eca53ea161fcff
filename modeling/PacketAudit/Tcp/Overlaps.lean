import PacketAudit.Tcp.Bounds
import PacketAudit.Tcp.Conservation
import PacketAudit.Tcp.FirstSeen

namespace PacketAudit

/-!
# Overlap conflicts

The consumed history of a direction is the end of what it emitted since its
last gap.  A payload is compared with every byte retained there or pending, so
`overlap_conflicts` counts exactly the contradictions among retained bytes.
-/

open Library

/-- Keeping the end of a list after the end of its front was kept. -/
theorem rtake_rtake_append
    {α : Type}
    (first second : List α)
    (count : Nat) :
    (first.rtake count ++ second).rtake count =
      (first ++ second).rtake count := by
  unfold List.rtake
  rw [List.length_append, List.length_append, List.length_drop,
    List.drop_append, List.drop_append, List.drop_drop]
  congr 2
  · omega
  · rw [List.length_drop]
    omega

/-! ## The consumed history -/

/-- The history a direction continues when bytes at `next` are consumed. -/
def DirectionState.continued (state : DirectionState) (next : Int) : Bytes :=
  if state.consumedHistoryStart.map
      (· + (state.consumedHistory.length : Int)) = some next then
    state.consumedHistory
  else
    []

/-- After consuming bytes the history ends with them. -/
structure Consumed
    (limits : TcpLimits)
    (before : DirectionState)
    (next : Int)
    (data : Bytes)
    (after : DirectionState) : Prop where
  ends :
    after.consumedHistoryStart.map
        (· + (after.consumedHistory.length : Int)) =
      some (next + data.length)
  holds :
    after.consumedHistory =
      (before.continued next ++ data).rtake limits.consumedHistoryBytes

/-- Consumed bytes become the new end of the history. -/
theorem rememberConsumed_consumed
    (limits : TcpLimits)
    (state : DirectionState)
    (next : Int)
    {data : Bytes}
    (nonempty : data ≠ []) :
    Consumed limits state next data
      (rememberConsumed limits state next data) := by
  have hasData : data.isEmpty = false := by simpa using nonempty
  unfold rememberConsumed
  simp only [hasData, Bool.false_eq_true, ↓reduceIte]
  by_cases continues :
      state.consumedHistoryStart.map
        (· + (state.consumedHistory.length : Int)) = some next
  · obtain ⟨first, isFirst, reaches⟩ := Option.map_eq_some_iff.mp continues
    simp only [continues, ↓reduceIte]
    refine {
      ends := ?_
      holds := ?_
    }
    · rw [isFirst]
      simp only [Option.map_some, Option.some.injEq, List.length_drop,
        List.length_append]
      omega
    · simp [DirectionState.continued, continues, List.rtake]
  · simp only [continues, ↓reduceIte]
    refine {
      ends := ?_
      holds := ?_
    }
    · simp only [Option.map_some, Option.some.injEq, List.nil_append,
        List.length_drop]
      omega
    · simp [DirectionState.continued, continues, List.rtake]

/-- Bytes consumed after one another are consumed together. -/
theorem Consumed.trans
    {limits : TcpLimits}
    {first second third : DirectionState}
    {next : Int}
    {data more : Bytes}
    (earlier : Consumed limits first next data second)
    (later :
      Consumed limits second (next + data.length) more third) :
    Consumed limits first next (data ++ more) third where
  ends := by
    rw [later.ends, List.length_append]
    push_cast
    rw [add_assoc]
  holds := by
    rw [later.holds, DirectionState.continued, if_pos earlier.ends,
      earlier.holds, rtake_rtake_append, List.append_assoc]

/-- Absorbing segments that continue the stream consumes their bytes. -/
theorem absorb_consumed
    (limits : TcpLimits)
    {blocked ready : List TcpSegment}
    {next : Int}
    (drained : DrainState)
    (solid : Solid ready)
    (someReady : ready ≠ []) :
    Consumed limits drained.view.direction next
      (ready.map Segment.data).flatten
      (absorb limits blocked ready next drained).view.direction := by
  induction ready generalizing next drained with
  | nil =>
      exact (someReady rfl).elim
  | cons segment rest inductionHypothesis =>
      have nonempty := solid segment List.mem_cons_self
      have restSolid : Solid rest := fun later member =>
        solid later (List.mem_cons_of_mem _ member)
      set popped := drained.pop segment (rest ++ blocked) 0
      have remembered :=
        rememberConsumed_consumed limits popped.view.direction next nonempty
      have first :
          Consumed limits drained.view.direction next segment.data
            (popped.consume limits segment next
              segment.data).view.direction :=
        ⟨remembered.ends, remembered.holds⟩
      simp only [absorb, List.map_cons, List.flatten_cons]
      cases rest with
      | nil =>
          simp only [List.map_nil, List.flatten_nil, List.append_nil, absorb]
          exact first
      | cons later others =>
          exact first.trans
            (inductionHypothesis _ restSolid (by simp))

/-- The bytes a drain emits are the ones it consumes. -/
theorem drain_consumed
    (limits : TcpLimits)
    (flow : FlowKey)
    (direction : Direction)
    (forcedGap : Bool)
    {view : DirectionView}
    (wf : view.direction.Wf)
    {next : Int}
    (expects : view.direction.nextSeq = some next) :
    let outcome := drain limits flow direction forcedGap view
    (outcome.events = [] ∧
        outcome.state.direction = view.direction) ∨
      ∃ chunk,
        outcome.events = [.emitted chunk] ∧
          chunk.data ≠ [] ∧
          outcome.state.direction.nextSeq =
            some (next + chunk.data.length) ∧
          Consumed limits view.direction next chunk.data
            outcome.state.direction := by
  obtain ⟨ready, blocked, split, -, -, absorbed⟩ :=
    drainLoop_eq_absorb limits wf.solid wf.ordered
      (fun segment member => wf.ahead expects member) { view := view }
  obtain ⟨directionIs, -⟩ :=
    absorb_view limits { view := view } split expects
  have parts := parts_absorb limits blocked ready next { view := view }
  have readySolid : Solid ready := fun segment member =>
    wf.solid segment (split ▸ List.mem_append_left _ member)
  unfold drain
  rw [expects]
  simp only [absorbed]
  by_cases noneReady : ready = []
  · subst noneReady
    exact .inl ⟨by simp [absorb], by simp [absorb]⟩
  · have consumed :=
      @absorb_consumed limits blocked ready next { view := view } readySolid
        noneReady
    have partsNonempty :
        (absorb limits blocked ready next { view := view }).parts.isEmpty =
          false := by
      simpa [parts] using noneReady
    have dataIs :
        (absorb limits blocked ready next
            { view := view }).parts.flatten =
          (ready.map Segment.data).flatten := by
      simp [parts]
    refine .inr ⟨_, by rw [partsNonempty]; rfl, ?_, ?_, ?_⟩
    · simp only [DrainState.toChunk]
      rw [dataIs]
      obtain ⟨first, rest, readyIs⟩ := List.exists_cons_of_ne_nil noneReady
      have nonempty := readySolid first (by simp [readyIs])
      simp [readyIs, nonempty]
    · simp only [DrainState.toChunk]
      rw [dataIs, length_flatten_data, directionIs]
    · simp only [DrainState.toChunk]
      rw [dataIs]
      exact consumed

/-! ## The bytes since the last gap -/

/-- The bytes emitted after one more event, starting over at a gap. -/
def afterEvent (sofar : Bytes) : TcpEvent → Bytes
  | .emitted chunk => sofar ++ chunk.data
  | .skipped .. => []
  | .opened .. => sofar
  | .arrived _ => sofar

/-- The bytes a history emitted since its last skipped gap. -/
def emittedSinceGap (log : List TcpEvent) : Bytes :=
  log.foldl afterEvent []

@[simp] theorem emittedSinceGap_concat
    (log : List TcpEvent)
    (event : TcpEvent) :
    emittedSinceGap (log ++ [event]) =
      afterEvent (emittedSinceGap log) event := by
  simp [emittedSinceGap]

/--
The history continues the bytes since the last gap and ends at `next_seq`.
Right after a gap it still holds the bytes before, until the segment at the
end of the gap is drained.
-/
structure Remembers
    (limits : TcpLimits)
    (log : List TcpEvent)
    (state : DirectionState) : Prop where
  idle : state.nextSeq = none → emittedSinceGap log = []
  behind :
    ∀ {start next},
      state.consumedHistoryStart = some start →
      state.nextSeq = some next →
      start + (state.consumedHistory.length : Int) ≤ next
  continues :
    ∀ {next},
      state.nextSeq = some next →
      state.continued next =
        (emittedSinceGap log).rtake limits.consumedHistoryBytes
  ends :
    ∀ {next},
      state.nextSeq = some next →
      emittedSinceGap log ≠ [] →
      state.consumedHistoryStart.map
          (· + (state.consumedHistory.length : Int)) =
        some next
  reset :
    emittedSinceGap log = [] →
      (state.consumedHistoryStart = none ∧ state.consumedHistory = []) ∨
        ∃ segment ∈ state.pending, state.nextSeq = some segment.start

namespace Remembers

variable
  {limits : TcpLimits}
  {log : List TcpEvent}

/-- Only the stream fields and the events since the gap matter. -/
theorem congr
    {log' : List TcpEvent}
    {state state' : DirectionState}
    (remembers : Remembers limits log state)
    (sameLog : emittedSinceGap log' = emittedSinceGap log)
    (sameNext : state'.nextSeq = state.nextSeq)
    (sameStart :
      state'.consumedHistoryStart = state.consumedHistoryStart)
    (sameHistory : state'.consumedHistory = state.consumedHistory)
    (kept : ∀ segment ∈ state.pending, segment ∈ state'.pending) :
    Remembers limits log' state' where
  idle := by
    rw [sameNext, sameLog]
    exact remembers.idle
  behind := by
    rw [sameNext, sameStart, sameHistory]
    exact remembers.behind
  continues := by
    unfold DirectionState.continued
    rw [sameNext, sameStart, sameHistory, sameLog]
    exact remembers.continues
  ends := by
    rw [sameNext, sameStart, sameHistory, sameLog]
    exact remembers.ends
  reset := by
    rw [sameNext, sameStart, sameHistory, sameLog]
    intro empty
    rcases remembers.reset empty with fresh | ⟨segment, member, isNext⟩
    · exact .inl fresh
    · exact .inr ⟨segment, kept segment member, isNext⟩

/-- A drain extends the history by what it emits. -/
theorem drained
    {before after : DirectionState}
    (remembers : Remembers limits log before)
    {next : Int}
    (expects : before.nextSeq = some next)
    {chunk : StreamChunk}
    (nonempty : chunk.data ≠ [])
    (nextAfter : after.nextSeq = some (next + chunk.data.length))
    (consumed : Consumed limits before next chunk.data after) :
    Remembers limits (log ++ [.emitted chunk]) after := by
  have someBytes :
      emittedSinceGap (log ++ [.emitted chunk]) ≠ [] := by
    simp [afterEvent, nonempty]
  refine {
    idle := by simp [nextAfter]
    behind := ?_
    continues := ?_
    ends := ?_
    reset := fun empty => (someBytes empty).elim
  }
  · intro start expected isStart isExpected
    have reaches := consumed.ends
    rw [isStart] at reaches
    rw [nextAfter] at isExpected
    cases isExpected
    exact le_of_eq (Option.some.inj reaches)
  · intro expected isExpected
    rw [nextAfter] at isExpected
    cases isExpected
    unfold DirectionState.continued
    rw [if_pos consumed.ends, consumed.holds, remembers.continues expects,
      rtake_rtake_append, emittedSinceGap_concat]
    rfl
  · intro expected isExpected _
    rw [nextAfter] at isExpected
    cases isExpected
    exact consumed.ends

/-- Skipping a gap leaves the history behind. -/
theorem skipped
    {direction : Direction}
    {view : DirectionView}
    (remembers : Remembers limits log view.direction)
    {next : Int}
    {first : TcpSegment}
    {rest : List TcpSegment}
    (expects : view.direction.nextSeq = some next)
    (pending : view.direction.pending = first :: rest)
    (hole : next < first.start) :
    Remembers limits (log ++ (skipGap direction next first view).events)
      (skipGap direction next first view).state.direction := by
  have noBytes :
      emittedSinceGap
          (log ++ (skipGap direction next first view).events) = [] := by
    simp [skipGap, afterEvent]
  refine {
    idle := by simp [skipGap]
    behind := ?_
    continues := ?_
    ends := fun _ someBytes => (someBytes noBytes).elim
    reset := ?_
  }
  · intro start expected isStart isExpected
    cases isExpected
    exact (remembers.behind isStart expects).trans hole.le
  · intro expected isExpected
    cases isExpected
    rw [noBytes]
    unfold DirectionState.continued
    rw [if_neg]
    · simp [List.rtake]
    · intro reaches
      obtain ⟨start, isStart, isEnd⟩ := Option.map_eq_some_iff.mp reaches
      have short := remembers.behind isStart expects
      simp only [skipGap] at isEnd
      omega
  · intro _
    exact .inr ⟨first, by simp [skipGap, pending], rfl⟩

end Remembers

/-- Every step keeps the history in line with what was emitted. -/
theorem remembers_invariant (limits : TcpLimits) :
    DirectionInvariant limits fun _ _ log state =>
      Remembers limits log state where
  fresh flow direction epoch := {
    idle := fun _ => rfl
    behind := by simp
    continues := by simp
    ends := by simp
    reset := fun _ => .inl ⟨rfl, rfl⟩
  }
  same := by
    intro flow direction log first second same remembers
    rw [same]
    exact remembers.congr rfl rfl rfl rfl fun _ member => member
  step := by
    intro flow direction log before events after step wf remembers
    cases step with
    | start sequence midstream synSeq idle lower upper =>
        obtain ⟨noPending, -, -, noHistory⟩ := wf.idle idle
        have noBytes := remembers.idle idle
        have same :
            emittedSinceGap
                (log ++ [.opened before.direction.connectionEpoch direction
                  sequence midstream]) = [] := by
          simp [afterEvent, noBytes]
        refine {
          idle := by simp
          behind := by simp [noHistory]
          continues := ?_
          ends := fun _ someBytes => (someBytes same).elim
          reset := ?_
        }
        · intro next _
          rw [same]
          simp [DirectionState.continued, noHistory, List.rtake]
        · intro _
          rcases remembers.reset noBytes with fresh | ⟨segment, member, -⟩
          · exact .inl fresh
          · rw [noPending] at member
            cases member
    | probe arrival arrives keepalive behind =>
        exact remembers.congr (by simp [afterEvent]) rfl rfl rfl
          fun _ member => member
    | repetition arrival arrives notKeepalive behind =>
        exact remembers.congr (by simp [afterEvent])
          (by simp [countRetransmission]) (by simp [countRetransmission])
          (by simp [countRetransmission])
          (by simp [countRetransmission])
    | store arrival timestampNs arrives notKeepalive reaches =>
        obtain ⟨additions, -, directionIs, -⟩ :=
          (insertPayload_stored arrival.packetIds timestampNs reaches
            before).exists_additions
        rw [directionIs]
        exact remembers.congr (by simp [afterEvent]) rfl rfl rfl
          fun _ member => mem_insertSorted.mpr (.inl member)
    | drain forcedGap label =>
        cases expects : before.direction.nextSeq with
        | none =>
            rw [drain_idle limits flow direction forcedGap expects]
            simpa using remembers
        | some next =>
            rcases
              drain_consumed limits flow direction forcedGap wf expects with
              ⟨silent, same⟩ |
              ⟨chunk, eventsAre, nonempty, nextAfter, consumed⟩
            · rw [silent, same]
              simpa using remembers
            · rw [eventsAre]
              simp only [List.map_cons, List.map_nil, TcpEvent.relabel]
              exact remembers.drained expects nonempty nextAfter consumed
    | gap expects pending hole =>
        exact remembers.skipped expects pending hole

/-! ## Contradictions -/

/-- A payload differs from a retained emitted byte at the same position. -/
def ContradictsRetained
    (state : DirectionState)
    (start : Int)
    (payload : Bytes) : Prop :=
  ∃ position byte retained,
    valueAt start payload position = some byte ∧
      state.Retains position retained ∧
      byte ≠ retained

/-- A payload differs from a pending segment at a shared position. -/
def ContradictsPending
    (start : Int)
    (payload : Bytes)
    (segment : TcpSegment) : Prop :=
  ∃ position byte held,
    valueAt start payload position = some byte ∧
      valueAt segment.start segment.data position = some held ∧
      byte ≠ held

instance (start : Int) (payload : Bytes) (segment : TcpSegment) :
    Decidable (ContradictsPending start payload segment) :=
  decidable_of_iff
    (overlapDiffers start payload segment.start segment.data = true)
    overlapDiffers_iff

theorem valueAt_nil
    {α : Type}
    (start position : Int) :
    valueAt start ([] : List α) position = none := by
  simp [valueAt]

theorem conflictsWithConsumed_iff
    {state : DirectionState}
    {start : Int}
    {payload : Bytes} :
    conflictsWithConsumed state start payload = true ↔
      ContradictsRetained state start payload := by
  unfold conflictsWithConsumed ContradictsRetained DirectionState.Retains
  split
  case h_1 unknown => simp [unknown]
  case h_2 historyStart known =>
    split
    case isTrue empty =>
      rw [Bool.or_eq_true, List.isEmpty_iff, List.isEmpty_iff] at empty
      rcases empty with noHistory | noPayload
      · simp [noHistory, valueAt_nil]
      · simp [noPayload, valueAt_nil]
    case isFalse =>
      rw [overlapDiffers_iff]
      simp [known]

instance (state : DirectionState) (start : Int) (payload : Bytes) :
    Decidable (ContradictsRetained state start payload) :=
  decidable_of_iff (conflictsWithConsumed state start payload = true)
    conflictsWithConsumed_iff

/--
The conflicts a payload makes in a direction: one if it contradicts retained
bytes, and one for each pending segment it contradicts.
-/
def payloadConflicts
    (state : DirectionState)
    (start : Int)
    (payload : Bytes) : Int :=
  (if ContradictsRetained state start payload then 1 else 0) +
    ((state.pending.filter fun segment =>
      ContradictsPending start payload segment).length : Int)

/-- The conflicts the payload of a packet makes in a prepared reassembler. -/
def TCPReassembler.packetConflicts
    (packet : ParsedPacket)
    (prepared : TCPReassembler) : Int :=
  match prepared.flows.get? packet.flowId with
  | none => 0
  | some state =>
      let direction := state.directions packet.flow.2
      match direction.nextSeq with
      | none => 0
      | some next =>
          let arrival := arrivalOf packet next direction
          if packet.transportPayload.isEmpty || arrival.keepalive then 0
          else payloadConflicts direction arrival.start arrival.data

/-- Without an arrival no conflict is counted. -/
theorem DirectionStep.overlapConflicts
    {limits : TcpLimits}
    {flow : FlowKey}
    {direction : Direction}
    {before after : DirectionView}
    {events : List TcpEvent}
    (step : DirectionStep limits flow direction before events after)
    (wf : before.direction.Wf)
    (silent : arrivals events = []) :
    after.counters.overlapConflicts =
      before.counters.overlapConflicts := by
  cases step with
  | start sequence midstream synSeq idle lower upper => rfl
  | probe arrival arrives keepalive behind => rfl
  | repetition arrival arrives notKeepalive behind => simp at silent
  | store arrival timestampNs arrives notKeepalive reaches =>
      simp at silent
  | drain forcedGap label =>
      cases expects : before.direction.nextSeq with
      | none => rw [drain_idle limits flow direction forcedGap expects]; rfl
      | some next =>
          obtain ⟨ready, blocked, drained⟩ :=
            drain_spec limits flow direction forcedGap wf expects
          rw [drained.countersAfter]
  | gap expects pending hole => rfl

theorem overlapConflicts_of_follows
    {limits : TcpLimits}
    {flow : FlowKey}
    {direction : Direction}
    {view : DirectionView}
    {outcome : Outcome DirectionView TcpEvent}
    (follows :
      outcome.FollowsFrom (DirectionStep limits flow direction) view)
    (wf : view.direction.Wf)
    (silent : arrivals outcome.events = []) :
    outcome.state.counters.overlapConflicts =
      view.counters.overlapConflicts := by
  have kept :
      outcome.state.direction.Wf ∧
        (arrivals ([] ++ outcome.events) = [] →
          outcome.state.counters.overlapConflicts =
            view.counters.overlapConflicts) := by
    apply Steps.invariant
      (motive := fun sofar reached =>
        reached.direction.Wf ∧
          (arrivals sofar = [] →
            reached.counters.overlapConflicts =
              view.counters.overlapConflicts)) _ follows
    · exact ⟨wf, fun _ => rfl⟩
    · intro sofar initial events final holds step
      refine ⟨(step.facts holds.1).wf, ?_⟩
      intro noArrivals
      rw [arrivals_append, List.append_eq_nil_iff] at noArrivals
      exact (step.overlapConflicts holds.1 noArrivals.2).trans
        (holds.2 noArrivals.1)
  exact kept.2 silent

/-- The trimmed payload contradicts the same pending segments. -/
theorem pendingConflicts_eq
    {view : DirectionView}
    (wf : view.direction.Wf)
    {next : Int}
    (expects : view.direction.nextSeq = some next)
    (start : Int)
    (payload : Bytes) :
    pendingConflicts (start + ((next - start).toNat : Int))
        (payload.drop (next - start).toNat) view.direction.pending =
      (view.direction.pending.filter fun segment =>
        ContradictsPending start payload segment).length := by
  unfold pendingConflicts
  congr 1
  apply List.filter_congr
  intro segment member
  rw [Bool.eq_iff_iff, overlapDiffers_iff, decide_eq_true_iff]
  unfold ContradictsPending
  refine exists_congr fun position => exists_congr fun byte =>
    exists_congr fun held => ?_
  by_cases inSegment :
      valueAt segment.start segment.data position = some held
  · have ahead : next ≤ position := by
      have starts := wf.ahead expects member
      have fromSegment := within_of_valueAt inSegment
      omega
    rw [valueAt_drop_of_le ahead]
  · simp [inSegment]

/-- A payload behind `next_seq` contradicts nothing pending. -/
theorem contradictsPending_of_behind
    {view : DirectionView}
    (wf : view.direction.Wf)
    {next start : Int}
    {payload : Bytes}
    (expects : view.direction.nextSeq = some next)
    (behind : start + (payload.length : Int) ≤ next) :
    (view.direction.pending.filter fun segment =>
      ContradictsPending start payload segment) = [] := by
  rw [List.filter_eq_nil_iff]
  intro segment member
  rw [decide_eq_true_iff]
  rintro ⟨position, byte, held, inPayload, inSegment, -⟩
  have starts := wf.ahead expects member
  have ofPayload := within_of_valueAt inPayload
  have ofSegment := within_of_valueAt inSegment
  omega

/-- Retained bytes were emitted, so they lie behind `next_seq`. -/
def DirectionState.RetainsBehind (state : DirectionState) : Prop :=
  ∀ next position byte,
    state.nextSeq = some next →
    state.Retains position byte →
    position < next

/-- The conflicts counted for a payload are the contradictions it makes. -/
theorem overlapConflicts_receivePayload
    {limits : TcpLimits}
    {flow : FlowKey}
    {direction : Direction}
    {view : DirectionView}
    (wf : view.direction.Wf)
    (retained : view.direction.RetainsBehind)
    {next : Int}
    (expects : view.direction.nextSeq = some next)
    (packetIds : List Nat)
    (timestampNs start : Int)
    (payload : Bytes) :
    (receivePayload limits flow direction packetIds timestampNs start next
        payload view).state.counters.overlapConflicts =
      view.counters.overlapConflicts +
        payloadConflicts view.direction start payload := by
  have counted :
      (countConsumedConflict start next payload
          view).counters.overlapConflicts =
        view.counters.overlapConflicts +
          if ContradictsRetained view.direction start payload then 1
          else 0 := by
    unfold countConsumedConflict
    simp only [conflictsWithConsumed_iff]
    by_cases contradicts :
        ContradictsRetained view.direction start payload
    · have early : start < next := by
        obtain ⟨position, byte, kept, inPayload, isKept, -⟩ := contradicts
        have := within_of_valueAt inPayload
        have := retained next position kept expects isKept
        omega
      simp [early, contradicts]
    · simp [contradicts]
  unfold receivePayload payloadConflicts
  simp only
  split
  case isTrue behind =>
    rw [contradictsPending_of_behind wf expects behind]
    simp [countRetransmission, counted]
  case isFalse reaches =>
    have storedWf :=
      (insertPayload_stored packetIds timestampNs (not_le.mp reaches)
        view).wf expects wf
    set stored :=
      insertPayload packetIds timestampNs start next payload
        (countConsumedConflict start next payload view) with storedIs
    have drains :
        (drain limits flow direction false stored).FollowsFrom
          (LabelledStep limits flow direction) stored :=
      drain_labelled storedWf (by simp)
    have enforces :=
      (@enforceDirectionLimits_labelled limits flow direction _
        (drain limits flow direction false
          stored).state.direction.pending.length
        (wf_of_labelled drains storedWf) (settled_drain storedWf)).1
    have follows :
        ((drain limits flow direction false stored).andThen fun drained =>
          enforceDirectionLimits limits flow direction
            drained.direction.pending.length drained).FollowsFrom
          (DirectionStep limits flow direction) stored :=
      follows_of_labelled (Outcome.FollowsFrom.andThen drains enforces)
    have silent :
        inputs
          ((drain limits flow direction false stored).andThen fun drained =>
            enforceDirectionLimits limits flow direction
              drained.direction.pending.length drained).events = [] := by
      simp [TCPReassembler.inputs_drain,
        TCPReassembler.inputs_enforceDirectionLimits]
    rw [overlapConflicts_of_follows follows storedWf
      (arrivals_of_inputs silent), storedIs]
    simp only [insertPayload, countConsumedConflict_direction]
    rw [counted, pendingConflicts_eq wf expects]
    ring

/-- A step that brings no payload counts no conflict. -/
theorem TcpStep.overlapConflicts
    {limits : TcpLimits}
    {before after : TCPReassembler}
    {events : List TcpEvent}
    (step : TcpStep limits before events after)
    (wf : before.Wf)
    (silent : arrivals events = []) :
    after.counters.overlapConflicts =
      before.counters.overlapConflicts := by
  cases step with
  | onDirection found step =>
      exact step.overlapConflicts (wf.directions found _) silent
  | revise found same alive => rfl
  | reorder key => rfl
  | create clock absent => rfl
  | remove found flushed => simp only [TCPReassembler.removeFlow, found]
  | count evicted budgetEvicted expired => rfl

namespace TCPReassembler

variable
  {limits : TcpLimits}
  {reassembler : TCPReassembler}

/-- Steps that bring no payload count no conflict. -/
theorem Follows.overlapConflicts
    {outcome : Outcome TCPReassembler TcpEvent}
    (follows : Follows limits reassembler outcome)
    (wf : reassembler.Wf)
    (silent : arrivals outcome.events = []) :
    outcome.state.counters.overlapConflicts =
      reassembler.counters.overlapConflicts := by
  have kept :
      outcome.state.Wf ∧
        (arrivals ([] ++ outcome.events) = [] →
          outcome.state.counters.overlapConflicts =
            reassembler.counters.overlapConflicts) := by
    apply Steps.invariant
      (motive := fun sofar reached =>
        reached.Wf ∧
          (arrivals sofar = [] →
            reached.counters.overlapConflicts =
              reassembler.counters.overlapConflicts)) _ follows
    · exact ⟨wf, fun _ => rfl⟩
    · intro sofar initial events final holds step
      refine ⟨step.wf holds.1, ?_⟩
      intro noArrivals
      rw [arrivals_append, List.append_eq_nil_iff] at noArrivals
      exact (step.overlapConflicts holds.1 noArrivals.2).trans
        (holds.2 noArrivals.1)
  exact kept.2 silent

/-- The payload stage counts the conflicts of the packet. -/
theorem overlapConflicts_acceptPayload
    (wf : reassembler.Wf)
    (packet : ParsedPacket)
    (retained :
      ∀ {state},
        reassembler.flows.get? packet.flowId = some state →
        (state.directions packet.flow.2).RetainsBehind) :
    (reassembler.onDirection packet.flowId packet.flow.2
        (acceptPayload limits packet)).state.counters.overlapConflicts =
      reassembler.counters.overlapConflicts +
        reassembler.packetConflicts packet := by
  unfold packetConflicts
  cases found : reassembler.flows.get? packet.flowId with
  | none =>
      rw [onDirection_of_get?_eq_none _ _ found]
      simp
  | some state =>
      rw [onDirection_of_get?_eq_some _ _ found]
      simp only [putDirection, acceptPayload]
      cases expects : (state.directions packet.flow.2).nextSeq with
      | none => simp
      | some next =>
          simp only
          cases empty : packet.transportPayload.isEmpty with
          | true => simp
          | false =>
              simp only [Bool.false_or, Bool.false_eq_true, ↓reduceIte]
              split
              case isTrue => simp
              case isFalse =>
                rw [Outcome.state_andThen]
                exact overlapConflicts_receivePayload
                  (wf.directions found packet.flow.2) (retained found)
                  expects _ _ _ _

/-- A call to `process` counts the conflicts of its packet, and no others. -/
theorem overlapConflicts_process
    (wf : reassembler.Wf)
    (clock : Int)
    (packet : ParsedPacket)
    (retained :
      ∀ {state},
        (reassembler.prepare limits clock packet).state.flows.get?
          packet.flowId = some state →
        (state.directions packet.flow.2).RetainsBehind) :
    (reassembler.process limits clock
        packet).state.counters.overlapConflicts =
      reassembler.counters.overlapConflicts +
        if accepts packet then
          (reassembler.prepare limits clock packet).state.packetConflicts
            packet
        else
          0 := by
  unfold process
  split
  case isFalse => simp
  case isTrue =>
    have prepares := @prepare_performs limits _ wf clock packet
    have preparedWf := prepares.wf wf
    have acceptedWf := @wf_acceptPayload limits _ preparedWf packet
    have prepared :=
      (prepares.follows wf).overlapConflicts wf
        (arrivals_prepare limits reassembler clock packet)
    have accepted :=
      @overlapConflicts_acceptPayload limits _ preparedWf packet retained
    rw [prepared] at accepted
    have finished
        {state : TCPReassembler}
        (stateWf : state.Wf) :
        (state.finish limits packet).state.counters.overlapConflicts =
          state.counters.overlapConflicts := by
      have performs := @finish_performs limits _ stateWf packet
      exact (performs.follows stateWf).overlapConflicts stateWf
        (arrivals_of_inputs (inputs_finish limits state packet))
    have enforced
        {state : TCPReassembler}
        (stateWf : state.Wf) :
        (state.enforceBudget limits).state.counters.overlapConflicts =
          state.counters.overlapConflicts := by
      have performs := @enforceBudget_performs limits _ stateWf
      exact (performs.follows stateWf).overlapConflicts stateWf
        (arrivals_of_inputs (inputs_evictWhile limits state _ _ _))
    simp only [processTcp, Outcome.state_andThen]
    split
    case isTrue => exact accepted
    case isFalse =>
      split
      case isTrue =>
        have enforces := @enforceBudget_performs limits _ acceptedWf
        simp only [Outcome.state_andThen]
        rw [finished (enforces.wf acceptedWf), enforced acceptedWf, accepted]
      case isFalse =>
        simp only [Outcome.state_andThen]
        rw [finished acceptedWf, accepted]

end TCPReassembler

/-! ## Where retained and pending bytes come from -/

/-- Every retained or pending byte was brought by a payload before. -/
def Supplied (log : List TcpEvent) (state : DirectionState) : Prop :=
  ∀ position byte,
    (state.Retains position byte ∨
        ∃ origin, Holds state.pending position (byte, origin)) →
    ∃ arrival ∈ arrivals log,
      arrival.keepalive = false ∧ arrival.byteAt position = some byte

/-- More events take no supplier away. -/
theorem Supplied.congr
    {log : List TcpEvent}
    {state state' : DirectionState}
    (supplied : Supplied log state)
    (events : List TcpEvent)
    (retained :
      ∀ position byte,
        state'.Retains position byte →
        state.Retains position byte ∨
          ∃ origin, Holds state.pending position (byte, origin))
    (pending :
      ∀ position byte origin,
        Holds state'.pending position (byte, origin) →
        Holds state.pending position (byte, origin)) :
    Supplied (log ++ events) state' := by
  intro position byte kept
  have before :
      state.Retains position byte ∨
        ∃ origin, Holds state.pending position (byte, origin) := by
    rcases kept with isRetained | ⟨origin, held⟩
    · exact retained position byte isRetained
    · exact .inr ⟨origin, pending position byte origin held⟩
  obtain ⟨arrival, member, supplies⟩ := supplied position byte before
  refine ⟨arrival, ?_, supplies⟩
  rw [arrivals_append]
  exact List.mem_append_left _ member

/-- Every step keeps retained and pending bytes supplied. -/
theorem supplied_invariant (limits : TcpLimits) :
    DirectionInvariant limits fun _ _ log state => Supplied log state where
  fresh flow direction epoch := by
    rintro position byte (⟨start, unknown, -⟩ | ⟨origin, held⟩)
    · cases unknown
    · simp at held
  same := by
    intro flow direction log first second same supplied
    rw [same]
    exact supplied
  step := by
    intro flow direction log before events after step wf supplied
    cases step with
    | start sequence midstream synSeq idle lower upper =>
        exact supplied.congr _ (fun _ _ kept => .inl kept)
          fun _ _ _ held => held
    | probe arrival arrives keepalive behind =>
        exact supplied.congr _ (fun _ _ kept => .inl kept)
          fun _ _ _ held => held
    | repetition arrival arrives notKeepalive behind =>
        simp only [countRetransmission, countConsumedConflict_direction]
        exact supplied.congr _ (fun _ _ kept => .inl kept)
          fun _ _ _ held => held
    | store arrival timestampNs arrives notKeepalive reaches =>
        have stored :=
          insertPayload_stored arrival.packetIds timestampNs reaches before
        have storedWf := stored.wf arrives.expects wf
        obtain ⟨additions, -, directionIs, -⟩ := stored.exists_additions
        intro position byte kept
        have earlier
            (before :
              before.direction.Retains position byte ∨
                ∃ origin,
                  Holds before.direction.pending position (byte, origin)) :
            ∃ other ∈ arrivals (log ++ [.arrived arrival]),
              other.keepalive = false ∧
                other.byteAt position = some byte := by
          obtain ⟨other, member, supplies⟩ := supplied position byte before
          exact ⟨other, by simp [member], supplies⟩
        rcases kept with isRetained | ⟨origin, held⟩
        · rw [directionIs] at isRetained
          exact earlier (.inl isRetained)
        · have ahead : arrival.nextSeq ≤ position := by
            obtain ⟨segment, member, atPosition⟩ := held
            have inside := Segment.contains_of_at? atPosition
            refine (storedWf.ahead ?_ member).trans inside.1
            rw [directionIs]
            exact arrives.expects
          rcases (stored.holds_iff ahead).mp held with old | ⟨isByte, -⟩
          · exact earlier (.inr ⟨origin, old⟩)
          · exact ⟨arrival, by simp, notKeepalive, isByte⟩
    | drain forcedGap label =>
        cases expects : before.direction.nextSeq with
        | none =>
            rw [drain_idle limits flow direction forcedGap expects]
            simpa using supplied
        | some next =>
            obtain ⟨ready, blocked, drained⟩ :=
              drain_spec limits flow direction forcedGap wf expects
            refine supplied.congr _ ?_ ?_
            · intro position byte kept
              rcases drained.retained kept with old | ⟨origin, held⟩
              · exact .inl old
              · refine .inr ⟨origin, ?_⟩
                rw [drained.split]
                exact holds_append.mpr (.inl held)
            · intro position byte origin held
              rw [drained.directionAfter] at held
              rw [drained.split]
              exact holds_append.mpr (.inr held)
    | gap expects pending hole =>
        exact supplied.congr _ (fun _ _ kept => .inl kept)
          fun _ _ _ held => held

/-- Two payloads bring the same byte wherever both lie. -/
def Arrival.AgreesWith (first second : Arrival) : Prop :=
  ∀ position byte other,
    first.byteAt position = some byte →
    second.byteAt position = some other →
    byte = other

/-- A payload that agrees with all earlier ones makes no conflict. -/
theorem payloadConflicts_of_agrees
    {log : List TcpEvent}
    {state : DirectionState}
    (supplied : Supplied log state)
    {arrival : Arrival}
    (agrees :
      ∀ earlier ∈ arrivals log,
        earlier.keepalive = false → earlier.AgreesWith arrival) :
    payloadConflicts state arrival.start arrival.data = 0 := by
  have same
      {position : Int}
      {byte held : UInt8}
      (inPayload :
        valueAt arrival.start arrival.data position = some byte)
      (isHeld :
        state.Retains position held ∨
          ∃ origin, Holds state.pending position (held, origin)) :
      byte = held := by
    obtain ⟨earlier, member, notKeepalive, supplies⟩ :=
      supplied position held isHeld
    exact (agrees earlier member notKeepalive position held byte supplies
      inPayload).symm
  have noRetained :
      ¬ ContradictsRetained state arrival.start arrival.data := by
    rintro ⟨position, byte, held, inPayload, isRetained, different⟩
    exact different (same inPayload (.inl isRetained))
  have noPending :
      (state.pending.filter fun segment =>
        ContradictsPending arrival.start arrival.data segment) = [] := by
    rw [List.filter_eq_nil_iff]
    intro segment member
    rw [decide_eq_true_iff]
    rintro ⟨position, byte, held, inPayload, inSegment, different⟩
    refine different (same inPayload (.inr ⟨segment.tag, segment, member, ?_⟩))
    rw [Segment.at?_eq_valueAt, inSegment]
    rfl
  simp [payloadConflicts, noRetained, noPending]

/-- The events of one direction bring no more payloads than all events. -/
theorem arrivals_history_eq_nil
    {events : List TcpEvent}
    (silent : arrivals events = [])
    (epoch : Nat)
    (direction : Direction) :
    arrivals (history epoch direction events) = [] := by
  unfold arrivals at *
  rw [List.filterMap_eq_nil_iff] at *
  intro event member
  exact silent event (List.mem_filter.mp member).1

/-- What a run says of the consumed history of one direction. -/
structure HistoryExact
    (limits : TcpLimits)
    (log : List TcpEvent)
    (state : DirectionState) : Prop where
  suffix :
    state.consumedHistory =
      (emittedSinceGap log).rtake limits.consumedHistoryBytes
  ends :
    emittedSinceGap log ≠ [] →
      ∃ start next,
        state.consumedHistoryStart = some start ∧
          state.nextSeq = some next ∧
          start + (state.consumedHistory.length : Int) = next

theorem Remembers.exact
    {limits : TcpLimits}
    {log : List TcpEvent}
    {state : DirectionState}
    (remembers : Remembers limits log state)
    (settled : state.Settled) :
    HistoryExact limits log state := by
  by_cases empty : emittedSinceGap log = []
  · refine {
      suffix := ?_
      ends := fun someBytes => (someBytes empty).elim
    }
    rcases remembers.reset empty with
      ⟨-, noHistory⟩ | ⟨segment, member, isNext⟩
    · rw [noHistory, empty]
      simp [List.rtake]
    · exact (lt_irrefl _ (settled _ segment isNext member)).elim
  · cases expects : state.nextSeq with
    | none => exact (empty (remembers.idle expects)).elim
    | some next =>
        have reaches := remembers.ends expects empty
        have continued := remembers.continues expects
        rw [DirectionState.continued, if_pos reaches] at continued
        obtain ⟨start, isStart, isEnd⟩ := Option.map_eq_some_iff.mp reaches
        exact {
          suffix := continued
          ends := fun _ => ⟨start, next, isStart, expects, isEnd⟩
        }

theorem Remembers.retainsBehind
    {limits : TcpLimits}
    {log : List TcpEvent}
    {state : DirectionState}
    (remembers : Remembers limits log state) :
    state.RetainsBehind := by
  rintro next position byte expects ⟨start, isStart, held⟩
  have inside := within_of_valueAt held
  have ends := remembers.behind isStart expects
  omega

/-- A packet that agrees with the earlier payloads makes no conflict. -/
theorem packetConflicts_of_agrees
    {limits : TcpLimits}
    {log : List TcpEvent}
    {reassembler : TCPReassembler}
    (recorded :
      Recorded (fun _ _ log state => Supplied log state) log reassembler)
    (clock : Int)
    (packet : ParsedPacket)
    (accepted : TCPReassembler.accepts packet = true)
    (agrees :
      ∀ arrival ∈ arrivals (reassembler.process limits clock packet).events,
        ∀ earlier ∈
            arrivals
              (history arrival.connectionEpoch arrival.direction log),
          earlier.keepalive = false → earlier.AgreesWith arrival) :
    (reassembler.prepare limits clock packet).state.packetConflicts
      packet = 0 := by
  have prepares :=
    @TCPReassembler.prepare_performs limits _ recorded.wf clock packet
  have prepared :=
    recorded.follows (supplied_invariant limits)
      (prepares.follows recorded.wf)
  have silent :=
    TCPReassembler.arrivals_prepare limits reassembler clock packet
  set state := (reassembler.prepare limits clock packet).state with stateIs
  unfold TCPReassembler.packetConflicts
  cases found : state.flows.get? packet.flowId with
  | none => rfl
  | some flow =>
      simp only
      cases expects : (flow.directions packet.flow.2).nextSeq with
      | none => rfl
      | some next =>
          simp only
          split
          case isTrue => rfl
          case isFalse active =>
            simp only [Bool.or_eq_true, not_or, Bool.not_eq_true] at active
            set arrival :=
              TCPReassembler.arrivalOf packet next
                (flow.directions packet.flow.2) with arrivalIs
            refine payloadConflicts_of_agrees
              (prepared.live found packet.flow.2) ?_
            have received :
                arrival ∈
                  arrivals
                    (reassembler.process limits clock packet).events := by
              have inPayload :
                  arrival ∈
                    arrivals
                      (state.onDirection packet.flowId packet.flow.2
                        (TCPReassembler.acceptPayload limits
                          packet)).events := by
                rw [TCPReassembler.onDirection_of_get?_eq_some _ _ found,
                  TCPReassembler.arrivals_acceptPayload limits packet _
                    expects (by simpa using active.1)]
                exact List.mem_singleton_self _
              simp only [TCPReassembler.process, accepted, ↓reduceIte,
                TCPReassembler.processTcp, Outcome.events_andThen,
                arrivals_append, List.mem_append]
              refine .inr ?_
              split
              · exact inPayload
              · split
                · simp only [Outcome.events_andThen, arrivals_append,
                    List.mem_append]
                  exact .inl (.inl inPayload)
                · simp only [Outcome.events_andThen, arrivals_append,
                    List.mem_append]
                  exact .inl inPayload
            intro earlier member
            have sameEpoch :
                arrival.connectionEpoch = flow.connectionEpoch :=
              prepared.wf.epochOf found packet.flow.2
            refine agrees arrival received earlier ?_
            rw [history_append, arrivals_append,
              arrivals_history_eq_nil silent, List.append_nil] at member
            rw [sameEpoch]
            exact member

/--
In every run the consumed history is the end of the bytes since the last gap;
a further packet adds exactly the conflicts of its payload, none if its
payload agrees with the earlier ones of its stream, and no other call adds any.
-/
theorem run_conflicts_exact
    (limits : TcpLimits)
    (epochNamespace : Nat)
    (operations : List TcpOperation) :
    let run := (TCPReassembler.new epochNamespace).run limits operations
    let conflicts (state : TCPReassembler) := state.counters.overlapConflicts
    (∀ key state direction,
      run.state.flows.get? key = some state →
      HistoryExact limits
        (history state.connectionEpoch direction run.events)
        (state.directions direction)) ∧
      (∀ clock packet,
        conflicts (run.state.process limits clock packet).state =
          conflicts run.state +
            if TCPReassembler.accepts packet then
              (run.state.prepare limits clock
                packet).state.packetConflicts packet
            else
              0) ∧
      (∀ clock packet,
        (∀ arrival ∈
            arrivals (run.state.process limits clock packet).events,
          ∀ earlier ∈
              arrivals
                (history arrival.connectionEpoch arrival.direction
                  run.events),
            earlier.keepalive = false → earlier.AgreesWith arrival) →
        conflicts (run.state.process limits clock packet).state =
          conflicts run.state) ∧
      (∀ now clock,
        conflicts (run.state.expire limits now clock).state =
          conflicts run.state) ∧
      ∀ completeness,
        conflicts (run.state.flushAll limits completeness).state =
          conflicts run.state := by
  intro run conflicts
  have remembers :=
    recorded_run (remembers_invariant limits) epochNamespace operations
  have supplied :=
    recorded_run (supplied_invariant limits) epochNamespace operations
  have wf : run.state.Wf := remembers.wf
  have tidy : run.state.Tidy limits :=
    TCPReassembler.stageInvariant_run
      (fun wf stage tidy => tidy.stage stage wf) (.new epochNamespace)
      operations (.new epochNamespace)
  have counted
      (clock : Int)
      (packet : ParsedPacket) :
      conflicts (run.state.process limits clock packet).state =
        conflicts run.state +
          if TCPReassembler.accepts packet then
            (run.state.prepare limits clock packet).state.packetConflicts
              packet
          else
            0 := by
    have prepares :=
      @TCPReassembler.prepare_performs limits _ wf clock packet
    have prepared :=
      remembers.follows (remembers_invariant limits) (prepares.follows wf)
    exact TCPReassembler.overlapConflicts_process wf clock packet
      fun found => (prepared.live found packet.flow.2).retainsBehind
  refine ⟨?_, counted, ?_, ?_, ?_⟩
  · intro key state direction found
    exact (remembers.live found direction).exact
      (tidy.directions found direction).settled
  · intro clock packet agrees
    rw [counted]
    split
    case isTrue accepted =>
      rw [packetConflicts_of_agrees supplied clock packet accepted agrees,
        add_zero]
    case isFalse => rw [add_zero]
  · intro now clock
    have performs := @TCPReassembler.expire_performs limits _ wf now clock
    refine (performs.follows wf).overlapConflicts wf ?_
    simp [TCPReassembler.expire,
      arrivals_of_inputs (TCPReassembler.inputs_closeFlows limits _ _)]
  · intro completeness
    refine
      (TCPReassembler.flushAll_follows wf completeness).overlapConflicts wf
        ?_
    simp [TCPReassembler.flushAll, TCPReassembler.arrivals_relabel,
      arrivals_of_inputs (TCPReassembler.inputs_closeFlows limits _ _)]

end PacketAudit
