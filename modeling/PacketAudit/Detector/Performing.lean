import PacketAudit.Detector.Steps

namespace PacketAudit.Detector

/-!
# The methods of the detector as steps

While a call processes a flow, every method is a sequence of steps that keep
this flow.  The eviction loops drop other flows only, and a new high-water mark
is counted before it is set.
-/

open Library

section Methods

variable {limits : DetectorLimits}
variable {flowId : FlowId}
variable {detector : SensitiveDetector}

namespace SensitiveDetector

/-! ## Dropping other flows -/

theorem dropOldest_steps
    {kept : Option FlowId}
    (other : kept.isNone ∨ kept ≠ detector.flows.oldest?) :
    Steps (DetectorStep limits kept) detector (dropOldest detector).events
      (dropOldest detector).state.1 := by
  unfold dropOldest
  cases isOldest : detector.flows.oldest? with
  | none => exact .refl detector
  | some oldest =>
      have notKept : kept ≠ some oldest := by
        rintro rfl
        rcases other with isNone | different
        · cases isNone
        · exact different isOldest.symm
      simpa using Steps.single (DetectorStep.drops notKept)

/-- Of several flows, the one that is kept is not the one dropped. -/
theorem dropOldestOther_steps
    (several : 1 < detector.flows.size) :
    Steps (DetectorStep limits (some flowId)) detector
      (dropOldestOther flowId detector).events
      (dropOldestOther flowId detector).state.1 := by
  unfold dropOldestOther
  split
  case isTrue isOldest =>
    have moved :=
      OrderedTable.oldest?_moveToEnd_ne several flowId
    have touch :
        Steps (DetectorStep limits (some flowId)) detector []
          { detector with flows := detector.flows.moveToEnd flowId } :=
      .single (.touches flowId)
    simpa using touch.trans (dropOldest_steps (.inr moved.symm))
  case isFalse notOldest =>
    exact dropOldest_steps (.inr (Ne.symm notOldest))

theorem dropOthersWhile_steps
    (exceeds : SensitiveDetector → Bool) :
    (dropOthersWhile exceeds flowId detector).FollowsFrom
      (DetectorStep limits (some flowId)) detector := by
  refine whileSucceeds_steps (motive := fun _ => True)
    (fun _ _ => trivial) ?_ _ trivial
  intro state isWanted _
  rw [Bool.and_eq_true, decide_eq_true_eq] at isWanted
  exact dropOldestOther_steps isWanted.2

/-- Dropping the oldest flow leaves the others as they were. -/
theorem get?_dropOldest
    (other : detector.flows.oldest? ≠ some flowId) :
    (dropOldest detector).state.1.flows.get? flowId =
      detector.flows.get? flowId := by
  unfold dropOldest
  cases isOldest : detector.flows.oldest? with
  | none => rfl
  | some oldest =>
      simp only [Outcome.state_bind, Outcome.state_quiet]
      rw [flows_dropFlow, OrderedTable.get?_erase_of_ne]
      rintro rfl
      exact other isOldest

/-- The flow that is kept is as it was. -/
theorem get?_dropOthersWhile
    (exceeds : SensitiveDetector → Bool) :
    (dropOthersWhile exceeds flowId detector).state.flows.get? flowId =
      detector.flows.get? flowId := by
  refine whileSucceeds_invariant
    (motive := fun (next : SensitiveDetector) =>
      next.flows.get? flowId = detector.flows.get? flowId)
    ?_ _ rfl
  intro state isWanted same
  rw [Bool.and_eq_true, decide_eq_true_eq] at isWanted
  unfold dropOldestOther
  split
  · rw [get?_dropOldest (OrderedTable.oldest?_moveToEnd_ne isWanted.2 _),
      OrderedTable.get?_moveToEnd, same]
  case isFalse notOldest => rw [get?_dropOldest notOldest, same]

/-! ## High-water marks -/

/-- An assignment of a mark to where it is read from. -/
structure Marks
    (previous : FlowState → Option Marker)
    (assign : FlowState → FlowState) : Prop where
  known :
    ∀ {state before},
      previous state = some before → state.SameHoldings (assign state)
  new : ∀ {state}, previous state = none → state.OneMoreMark (assign state)

/-- A reserved entry is counted for the mark that is set next. -/
theorem reserveMetadataEntry_steps
    (limits : DetectorLimits)
    {state : FlowState}
    (found : detector.flows.get? flowId = some state) :
    let reserved := reserveMetadataEntry limits flowId detector
    reserved.state.1.flows.get? flowId = some state ∧
      (reserved.state.2 = false →
        Steps (DetectorStep limits (some flowId)) detector reserved.events
          reserved.state.1) ∧
      (reserved.state.2 = true →
        ∀ {assign : FlowState → FlowState},
          state.OneMoreMark (assign state) →
          Steps (DetectorStep limits (some flowId)) detector reserved.events
            (reserved.state.1.reviseFlow flowId assign)) := by
  unfold reserveMetadataEntry
  set roomy := dropOthersWhile (metadataFull limits) flowId detector
  have dropped :
      Steps (DetectorStep limits (some flowId)) detector roomy.events
        roomy.state :=
    dropOthersWhile_steps _
  have foundNext : roomy.state.flows.get? flowId = some state := by
    rw [get?_dropOthersWhile, found]
  by_cases full : metadataFull limits roomy.state
  · simp only [Outcome.state_bind, Outcome.events_bind, full, if_true,
      Outcome.state_quiet, Outcome.events_quiet, List.append_nil]
    exact ⟨foundNext, fun _ => dropped, fun answer => by cases answer⟩
  · simp only [Outcome.state_bind, Outcome.events_bind, full,
      Bool.false_eq_true, if_false, Outcome.state_quiet,
      Outcome.events_quiet, List.append_nil]
    refine ⟨foundNext, fun answer => absurd answer (by decide), ?_⟩
    intro _ assign oneMore
    have room := full
    unfold metadataFull at room
    rw [decide_eq_true_eq, not_le] at room
    have foundCounted :
        ({ roomy.state with
          metadataEntries := roomy.state.metadataEntries + 1 } :
          SensitiveDetector).flows.get? flowId = some state :=
      foundNext
    rw [reviseFlow_of_found foundCounted]
    simpa using Steps.tail dropped (.marks foundNext room oneMore)

/-- A mark is set in place, or counted and added. -/
theorem setHighwater_steps
    (limits : DetectorLimits)
    (live : Live flowId detector)
    {previous : FlowState → Option Marker}
    {assign : FlowState → FlowState}
    (marks : Marks previous assign)
    (marker : Marker) :
    Steps (DetectorStep limits (some flowId)) detector
      (setHighwater limits flowId previous assign marker detector).events
      (setHighwater limits flowId previous assign marker
        detector).state.1 := by
  obtain ⟨state, found⟩ := Option.isSome_iff_exists.mp live
  unfold setHighwater
  rw [stateOf_of_found found]
  cases isPrevious : previous state with
  | some before =>
      dsimp only
      split
      · rw [reviseFlow_of_found found]
        exact .single (.revises found (marks.known isPrevious))
      · exact .refl detector
  | none =>
      obtain ⟨-, refused, marked⟩ :=
        reserveMetadataEntry_steps limits found
      cases answer :
          (reserveMetadataEntry limits flowId detector).state.2 with
      | false => simpa [answer] using refused answer
      | true => simpa [answer] using marked answer (marks.new isPrevious)

/-! ## Findings -/

/-- Counting an attempt and telling of the finding. -/
theorem report_steps
    (limits : DetectorLimits)
    {context : ScanContext}
    (live : Live context.flowId detector)
    (exchange : Option Exchange)
    (request : Emission) :
    Steps (DetectorStep limits (some context.flowId)) detector
      (detector.report limits context exchange request).events
      (detector.report limits context exchange request).state := by
  obtain ⟨state, found⟩ := Option.isSome_iff_exists.mp live
  have counted :
      Steps (DetectorStep limits (some context.flowId)) detector []
        (detector.reviseFlow context.flowId
          (FlowState.countAttempt request.materialType)) := by
    rw [reviseFlow_of_found found]
    refine .single (.revises found ⟨?_, rfl, rfl, rfl⟩)
    funext counter
    cases counter <;> rfl
  exact counted.tail (.notes trivial)

theorem marks_emittedHighwater (scope : EmissionScope) (marker : Marker) :
    Marks (fun state => state.emittedHighwater.get? scope)
      fun state =>
        { state with
          emittedHighwater := state.emittedHighwater.set scope marker } where
  known := by
    intro state before isPrevious
    have sameSize :=
      OrderedTable.size_set_of_some isPrevious marker
    refine ⟨?_, rfl, rfl, rfl⟩
    funext counter
    cases counter with
    | metadata =>
        change (_ : Int) = state.metadataEntries
        simp only [FlowState.held, FlowState.metadataEntries, sameSize]
    | _ => rfl
  new := by
    intro state isNew
    have size := OrderedTable.size_set_of_none isNew marker
    refine ⟨?_, rfl, rfl, rfl, rfl, rfl⟩
    simp only [FlowState.metadataEntries, size]
    omega

theorem marks_stateHighwater
    (scope : String × Direction)
    (marker : Marker) :
    Marks (fun state => state.stateHighwater.get? scope)
      fun state =>
        { state with
          stateHighwater := state.stateHighwater.set scope marker } where
  known := by
    intro state before isPrevious
    have sameSize :=
      OrderedTable.size_set_of_some isPrevious marker
    refine ⟨?_, rfl, rfl, rfl⟩
    funext counter
    cases counter with
    | metadata =>
        simp only [FlowState.held, FlowState.metadataEntries, sameSize]
    | _ => rfl
  new := by
    intro state isNew
    have size := OrderedTable.size_set_of_none isNew marker
    refine ⟨?_, rfl, rfl, rfl, rfl, rfl⟩
    simp only [FlowState.metadataEntries, size]
    omega

theorem emit_steps
    (limits : DetectorLimits)
    (context : ScanContext)
    (live : Live context.flowId detector)
    (exchange : Option Exchange)
    (request : Emission) :
    Steps (DetectorStep limits (some context.flowId)) detector
      (detector.emit limits context exchange request).events
      (detector.emit limits context exchange request).state.1 := by
  have marked :=
    setHighwater_steps limits live
      (marks_emittedHighwater (request.scope context)
        (context.positionMarker request.stop))
      (context.positionMarker request.stop)
  have reported :=
    report_steps limits (live.of_steps marked) exchange request
  unfold emit
  simp only [Outcome.events_bind, Outcome.state_bind]
  refine marked.trans ?_
  split
  · simpa using reported
  · exact .refl _

theorem stateOnce_steps
    (limits : DetectorLimits)
    {context : ScanContext}
    (live : Live context.flowId detector)
    (name : String)
    (stop : Int) :
    Steps (DetectorStep limits (some context.flowId)) detector
      (detector.stateOnce limits context name stop).events
      (detector.stateOnce limits context name stop).state.1 :=
  setHighwater_steps limits live (marks_stateHighwater _ _) _

/-! ## The provenance cap -/

theorem trimSpans_steps
    {kept : Option FlowId}
    (directions : List Direction) :
    Steps (DetectorStep limits kept) detector []
      (trimSpans limits flowId directions detector) := by
  induction directions generalizing detector with
  | nil => exact .refl detector
  | cons direction rest inductionHypothesis =>
      unfold trimSpans
      split
      · exact inductionHypothesis
      · have popped :
            Steps (DetectorStep limits kept) detector []
              (detector.popSpan flowId direction) :=
          .single (.pops flowId direction)
        dsimp only
        split
        · exact popped.trans inductionHypothesis
        · exact popped

theorem enforceProvenanceCap_steps
    (limits : DetectorLimits)
    (flowId : FlowId)
    (detector : SensitiveDetector) :
    (enforceProvenanceCap limits flowId detector).FollowsFrom
      (DetectorStep limits (some flowId)) detector := by
  have trimmed
      (state : SensitiveDetector) :
      Steps (DetectorStep limits (some flowId)) state
        (trimRound limits flowId state).events
        (trimRound limits flowId state).state.1 :=
    trimSpans_steps _
  have dropped :
      Steps (DetectorStep limits (some flowId)) detector
        (dropOthersWhile (overProvenanceCap limits) flowId detector).events
        (dropOthersWhile (overProvenanceCap limits) flowId
          detector).state :=
    dropOthersWhile_steps _
  exact dropped.trans
    (whileSucceeds_steps (motive := fun _ => True) (fun _ _ => trivial)
      (fun _ _ => trimmed _) _ trivial)

/-! ## Removing and evicting NTLM entries -/

theorem removeEntry_steps
    {kept : Option FlowId}
    (flowId : FlowId)
    (key : NtlmKey) :
    (detector.removeEntry flowId key).FollowsFrom
      (DetectorStep limits kept) detector :=
  Steps.single (.removes flowId key)

theorem forgetResponse_steps
    {kept : Option FlowId}
    (flowId : FlowId)
    (response : NtlmResponse) :
    (detector.forgetResponse flowId response).FollowsFrom
      (DetectorStep limits kept) detector := by
  unfold forgetResponse
  split
  · exact removeEntry_steps flowId _
  · exact .quiet detector

/-- A consistent index has no entry of a flow that is gone. -/
theorem staleIndexEntry_eq_false
    (consistent : NtlmConsistent limits detector) :
    detector.staleIndexEntry = false := by
  unfold staleIndexEntry
  cases isFirst : detector.ntlmCorrelationIndex.entries.head? with
  | none => rfl
  | some entry =>
      obtain ⟨correlationId, owner, key⟩ := entry
      have indexed :
          detector.ntlmCorrelationIndex.get? correlationId =
            some (owner, key) :=
        OrderedTable.get?_eq_some.mpr (List.mem_of_head? isFirst)
      obtain ⟨state, retainedSize, found, -⟩ :=
        consistent.indexed.mp indexed
      simp [found]

/-- The entry evicted is the first of the index. -/
theorem evictOldestNtlmEntry_eq
    (consistent : NtlmConsistent limits detector) :
    evictOldestNtlmEntry detector =
      match detector.ntlmCorrelationIndex.entries.head? with
      | none => .quiet (detector, false)
      | some (_, flowId, key) =>
          (detector.removeEntry flowId key).bind fun rest =>
            .quiet (rest, true) := by
  have isIndexed {correlationId owner key}
      (isFirst :
        detector.ntlmCorrelationIndex.entries.head? =
          some (correlationId, owner, key)) :
      ((detector.stateOf owner).ntlmEntryOf key).isSome := by
    have indexed :
        detector.ntlmCorrelationIndex.get? correlationId =
          some (owner, key) :=
      OrderedTable.get?_eq_some.mpr (List.mem_of_head? isFirst)
    obtain ⟨state, retainedSize, found, entry⟩ :=
      consistent.indexed.mp indexed
    rw [stateOf_of_found found, entry]
    rfl
  unfold evictOldestNtlmEntry whileSucceeds
  simp only [staleIndexEntry_eq_false consistent, Bool.false_eq_true,
    if_false]
  cases isFirst : detector.ntlmCorrelationIndex.entries.head? with
  | none => simp [Outcome.bind, isFirst, Outcome.quiet]
  | some entry =>
      obtain ⟨correlationId, owner, key⟩ := entry
      simp [Outcome.bind, isFirst, Outcome.quiet, isIndexed isFirst]

theorem evictOldestNtlmEntry_steps
    {kept : Option FlowId}
    (consistent : NtlmConsistent limits detector) :
    Steps (DetectorStep limits kept) detector
      (evictOldestNtlmEntry detector).events
      (evictOldestNtlmEntry detector).state.1 := by
  rw [evictOldestNtlmEntry_eq consistent]
  cases detector.ntlmCorrelationIndex.entries.head? with
  | none => exact .refl detector
  | some entry =>
      obtain ⟨correlationId, owner, key⟩ := entry
      simpa using Steps.single (DetectorStep.removes owner key)

theorem evictOldestOfFlow_steps
    {kept : Option FlowId}
    (flowId : FlowId) :
    Steps (DetectorStep limits kept) detector
      (evictOldestOfFlow flowId detector).events
      (evictOldestOfFlow flowId detector).state.1 := by
  unfold evictOldestOfFlow
  cases (detector.stateOf flowId).oldestNtlmKey? with
  | none => exact .refl detector
  | some key => simpa using Steps.single (DetectorStep.removes flowId key)

/-! ## Retaining NTLM entries -/

/-- A removed entry is gone. -/
theorem ntlmEntryOf_removeEntry_self
    (detector : SensitiveDetector)
    (flowId : FlowId)
    (key : NtlmKey) :
    ((detector.removeEntry flowId key).state.stateOf flowId).ntlmEntryOf
      key = none := by
  unfold removeEntry
  cases found : detector.flows.get? flowId with
  | none =>
      rw [Outcome.state_quiet, stateOf, found, Option.getD_none]
      cases key <;> rfl
  | some state =>
      have gone :=
        ntlmEntryOf_removeNtlmEntries [key] ⟨detector, state⟩ key
      simpa [runAll, stateOf] using gone

/-- Removing an entry adds none. -/
theorem ntlmEntryOf_removeEntry_of_none
    {other : NtlmKey}
    (absent : (detector.stateOf flowId).ntlmEntryOf other = none)
    (owner : FlowId)
    (key : NtlmKey) :
    ((detector.removeEntry owner key).state.stateOf flowId).ntlmEntryOf
      other = none := by
  rcases detector.removeEntry_cases owner key with
    nothing | ⟨state, correlationId, retainedSize, found, -, removed⟩
  · rw [nothing]
    exact absent
  · rw [removed]
    by_cases own : flowId = owner
    · subst own
      rw [stateOf_of_found found] at absent
      have still := FlowState.ntlmEntryOf_popNtlm state key other
      rw [absent, ite_self] at still
      rw [stateOf, OrderedTable.get?_set_self, Option.getD_some, ← still]
      cases other <;> rfl
    · rw [stateOf, OrderedTable.get?_set_of_ne _ _ own]
      exact absent

/-- What reserving gives: room if it is answered so, and no new entry. -/
structure Reserved
    (limits : DetectorLimits)
    (flowId : FlowId)
    (retainedSize : Nat)
    (detector : SensitiveDetector)
    (answer : Outcome (SensitiveDetector × Bool) DetectorEvent) : Prop where
  steps :
    Steps (DetectorStep limits (some flowId)) detector answer.events
      answer.state.1
  absent :
    ∀ {key},
      (detector.stateOf flowId).ntlmEntryOf key = none →
      (answer.state.1.stateOf flowId).ntlmEntryOf key = none
  room :
    answer.state.2 = true →
    NtlmConsistent.Room limits answer.state.1
      (answer.state.1.stateOf flowId) retainedSize

theorem reserveNtlmEntry_reserved
    (ready : Ready limits flowId detector)
    (retainedSize : Nat) :
    Reserved limits flowId retainedSize detector
      (reserveNtlmEntry limits flowId retainedSize detector) := by
  unfold reserveNtlmEntry
  split
  · exact ⟨.refl detector, id, fun answered => by cases answered⟩
  set inFlow :=
    whileSucceeds (flowNtlmFull limits flowId retainedSize)
      (evictOldestOfFlow flowId)
      ((detector.stateOf flowId).ntlmObjects + 1) detector
  set roomy :=
    whileSucceeds (ntlmFull limits retainedSize) evictOldestNtlmEntry
      (inFlow.state.ntlmObjects + 1) inFlow.state
  have flowSteps :
      Steps (DetectorStep limits (some flowId)) detector inFlow.events
        inFlow.state :=
    whileSucceeds_steps (motive := fun _ => True) (fun _ _ => trivial)
      (fun _ _ => evictOldestOfFlow_steps flowId) _ trivial
  have readyInFlow := ready.of_steps flowSteps
  have allSteps :
      Steps (DetectorStep limits (some flowId)) inFlow.state roomy.events
        roomy.state :=
    whileSucceeds_steps
      (fun _ isReady =>
        isReady.of_steps (evictOldestNtlmEntry_steps isReady.sound.ntlm))
      (fun _ isReady => evictOldestNtlmEntry_steps isReady.sound.ntlm) _
      readyInFlow
  have absentInFlow
      {key : NtlmKey}
      (absent : (detector.stateOf flowId).ntlmEntryOf key = none) :
      (inFlow.state.stateOf flowId).ntlmEntryOf key = none := by
    refine whileSucceeds_invariant
      (motive := fun (state : SensitiveDetector) =>
        (state.stateOf flowId).ntlmEntryOf key = none) ?_ _ absent
    intro state _ isAbsent
    unfold evictOldestOfFlow
    split
    · exact isAbsent
    · exact ntlmEntryOf_removeEntry_of_none isAbsent _ _
  have absentRoomy
      {key : NtlmKey}
      (absent : (inFlow.state.stateOf flowId).ntlmEntryOf key = none) :
      (roomy.state.stateOf flowId).ntlmEntryOf key = none := by
    refine (whileSucceeds_invariant
      (motive := fun (state : SensitiveDetector) =>
        Ready limits flowId state ∧
          (state.stateOf flowId).ntlmEntryOf key = none) ?_ _
      ⟨readyInFlow, absent⟩).2
    rintro state - ⟨isReady, isAbsent⟩
    have consistent := isReady.sound.ntlm
    refine ⟨isReady.of_steps (evictOldestNtlmEntry_steps consistent), ?_⟩
    rw [evictOldestNtlmEntry_eq consistent]
    split
    · exact isAbsent
    · exact ntlmEntryOf_removeEntry_of_none isAbsent _ _
  refine ⟨?_, fun absent => absentRoomy (absentInFlow absent), ?_⟩
  · simpa using flowSteps.trans allSteps
  · simp only [Outcome.state_bind, Outcome.state_quiet]
    intro answered
    simp only [flowNtlmFull, ntlmFull, Bool.not_eq_true',
      Bool.or_eq_false_iff, decide_eq_false_iff_not, not_le,
      not_lt] at answered
    exact {
      flowObjects := answered.1.1
      flowBytes := answered.1.2
      objects := answered.2.1
      bytes := answered.2.2
    }

theorem retainNtlmResponse_steps
    (ready : Ready limits flowId detector)
    (response : NtlmResponse) :
    (detector.retainNtlmResponse limits flowId response).FollowsFrom
      (DetectorStep limits (some flowId)) detector := by
  have reserved := reserveNtlmEntry_reserved ready response.size
  have live := ready.live.of_steps reserved.steps
  obtain ⟨state, found⟩ := Option.isSome_iff_exists.mp live
  unfold retainNtlmResponse Outcome.FollowsFrom
  simp only [Outcome.events_bind, Outcome.state_bind]
  refine reserved.steps.trans ?_
  split
  case isTrue answered =>
    have room := reserved.room answered
    rw [stateOf_of_found found] at room
    exact .single (.storesResponse response found room)
  case isFalse => exact .refl _

theorem retainNtlmChallenge_steps
    (ready : Ready limits flowId detector)
    (challenge : NtlmChallenge) :
    (detector.retainNtlmChallenge limits flowId challenge).FollowsFrom
      (DetectorStep limits (some flowId)) detector := by
  have removed :
      Steps (DetectorStep limits (some flowId)) detector
        (detector.removeEntry flowId (.challenge challenge.scope)).events
        (detector.removeEntry flowId
          (.challenge challenge.scope)).state :=
    removeEntry_steps flowId _
  have reserved :=
    reserveNtlmEntry_reserved (ready.of_steps removed) challenge.size
  have live := (ready.of_steps removed).live.of_steps reserved.steps
  obtain ⟨state, found⟩ := Option.isSome_iff_exists.mp live
  unfold retainNtlmChallenge Outcome.FollowsFrom
  simp only [Outcome.events_bind, Outcome.state_bind]
  refine removed.trans (reserved.steps.trans ?_)
  split
  case isTrue answered =>
    have room := reserved.room answered
    have absent :=
      reserved.absent (ntlmEntryOf_removeEntry_self detector flowId _)
    rw [stateOf_of_found found] at room absent
    exact .single (.storesChallenge challenge found absent room)
  case isFalse => exact .refl _

end SensitiveDetector

end Methods

end PacketAudit.Detector
