import PacketAudit.Detector.Calls
import PacketAudit.Detector.Performing

namespace PacketAudit.Detector

/-!
# The scan of a call as steps

What a scan may do to a flow, from the pairing of NTLM messages to the effects
of all scanners, is a sequence of steps that keep the flow.
-/

open Library

section Scans

variable {limits : DetectorLimits}
variable {context : ScanContext}
variable {detector : SensitiveDetector}

namespace SensitiveDetector

/-! ## Changes of a flow -/

/-- A change of a flow that leaves what it holds. -/
theorem reviseFlow_steps
    {kept : Option FlowId}
    {flowId : FlowId}
    {revise : FlowState → FlowState}
    (same : ∀ state, FlowState.SameHoldings state (revise state)) :
    Steps (DetectorStep limits kept) detector []
      (detector.reviseFlow flowId revise) := by
  unfold reviseFlow
  cases found : detector.flows.get? flowId with
  | none => exact .refl detector
  | some state => exact .single (.revises found (same state))

/-- A record field that nothing counts. -/
theorem sameHoldings_of_held
    {state next : FlowState}
    (directions : next.directions = state.directions)
    (marks : next.metadataEntries = state.metadataEntries)
    (pendingBytes : next.pendingAuthBytes = state.pendingAuthBytes)
    (pendingObjects : next.pendingAuthObjects = state.pendingAuthObjects)
    (ntlmPart : next.ntlmPart = state.ntlmPart)
    (pendingAuth : next.pendingAuth = state.pendingAuth) :
    state.SameHoldings next where
  held := by
    funext counter
    cases counter with
    | metadata => exact marks
    | pendingBytes => exact pendingBytes
    | pendingObjects => exact pendingObjects
    | tailBytes =>
        change FlowState.tailBytes _ = FlowState.tailBytes _
        rw [FlowState.tailBytes, directions]
        rfl
    | spans =>
        change (FlowState.flowProvenanceCounts _).spans = _
        rw [FlowState.flowProvenanceCounts, directions]
        rfl
    | packetIdRefs =>
        change (FlowState.flowProvenanceCounts _).packetIdRefs = _
        rw [FlowState.flowProvenanceCounts, directions]
        rfl
  ntlmPart := ntlmPart
  pendingAuth := pendingAuth
  directions := directions

/-! ## Pairing -/

/-- The mark of a pair is set in place, or reserved and added. -/
theorem markPair_steps
    (limits : DetectorLimits)
    {flowId : FlowId}
    (live : Live flowId detector)
    (response : NtlmResponse) :
    let answer := detector.reservePairMark limits flowId response
    (answer.state.2 = false →
      Steps (DetectorStep limits (some flowId)) detector answer.events
        answer.state.1) ∧
    (answer.state.2 = true →
      Steps (DetectorStep limits (some flowId)) detector answer.events
        (answer.state.1.reviseFlow flowId fun state =>
          { state with
            ntlmPairHighwater :=
              state.ntlmPairHighwater.set response.scope
                response.offset })) := by
  obtain ⟨state, found⟩ := Option.isSome_iff_exists.mp live
  unfold reservePairMark
  rw [stateOf_of_found found]
  cases isMarked : state.ntlmPairHighwater.get? response.scope with
  | none =>
      obtain ⟨-, refused, marked⟩ := reserveMetadataEntry_steps limits found
      refine ⟨refused, fun answered => marked answered ?_⟩
      have size := OrderedTable.size_set_of_none isMarked response.offset
      refine ⟨?_, rfl, rfl, rfl, rfl, rfl⟩
      simp only [FlowState.metadataEntries, size]
      omega
  | some offset =>
      refine ⟨fun answered => absurd answered (by simp), fun _ => ?_⟩
      have size := OrderedTable.size_set_of_some isMarked response.offset
      rw [Option.isNone_some, if_neg Bool.false_ne_true,
        Outcome.state_quiet, reviseFlow_of_found found]
      refine .single (.revises found ?_)
      refine sameHoldings_of_held rfl ?_ rfl rfl rfl rfl
      simp only [FlowState.metadataEntries, size]

theorem reportPair_steps
    (limits : DetectorLimits)
    (exchange : Exchange)
    (request : Emission)
    (live :
      Live context.flowId
        (detector.reviseFlow context.flowId fun state =>
          { state with
            ntlmPairHighwater :=
              state.ntlmPairHighwater.set exchange.response.scope
                exchange.response.offset })) :
    Steps (DetectorStep limits (some context.flowId))
      (detector.reviseFlow context.flowId fun state =>
        { state with
          ntlmPairHighwater :=
            state.ntlmPairHighwater.set exchange.response.scope
              exchange.response.offset })
      (detector.reportPair limits context exchange request).events
      (detector.reportPair limits context exchange request).state := by
  have emitted :=
    emit_steps limits (responseContext exchange.response context) live
      (some exchange) request
  unfold reportPair
  simp only [Outcome.events_bind, Outcome.state_bind]
  refine emitted.trans ?_
  split
  · exact reviseFlow_steps fun state =>
      sameHoldings_of_held rfl rfl rfl rfl rfl rfl
  · exact .refl _

theorem correlateNtlm_steps
    (limits : DetectorLimits)
    (live : Live context.flowId detector)
    (response : NtlmResponse) :
    (detector.correlateNtlm limits context response).FollowsFrom
      (DetectorStep limits (some context.flowId)) detector := by
  unfold correlateNtlm
  dsimp only
  cases bestChallenge? (detector.stateOf context.flowId).retainedChallenges
      response with
  | none => exact .quiet detector
  | some challenge =>
      dsimp only
      split
      · exact .quiet detector
      have forgotten :
          Steps (DetectorStep limits (some context.flowId)) detector
            (detector.forgetResponse context.flowId response).events
            (detector.forgetResponse context.flowId response).state :=
        forgetResponse_steps context.flowId response
      split
      · exact forgotten
      obtain ⟨refused, marked⟩ :=
        markPair_steps limits (live.of_steps forgotten) response
      unfold Outcome.FollowsFrom
      simp only [Outcome.events_bind, Outcome.state_bind]
      refine forgotten.trans ?_
      split
      case isTrue answered =>
        have allMarked := marked answered
        exact allMarked.trans
          (reportPair_steps limits ⟨_, challenge, response⟩ _
            ((live.of_steps forgotten).of_steps allMarked))
      case isFalse answered =>
        simpa using refused (Bool.eq_false_of_not_eq_true answered)

theorem correlatePendingNtlm_steps
    (limits : DetectorLimits)
    (live : Live context.flowId detector) :
    (detector.correlatePendingNtlm limits context).FollowsFrom
      (DetectorStep limits (some context.flowId)) detector :=
  runAll_followsFrom (fun isLive steps => isLive.of_steps steps)
    (fun isLive => correlateNtlm_steps limits isLive _) _ live

/-! ## Messages -/

theorem noteHandled_steps
    {kept : Option FlowId}
    (flowId : FlowId)
    (message : NtlmMessage) :
    (detector.noteHandled flowId message).FollowsFrom
      (DetectorStep limits kept) detector :=
  Steps.single (.notes trivial)

theorem handleChallenge_steps
    (ready : Ready limits context.flowId detector)
    (challenge : NtlmChallenge) :
    (detector.handleChallenge limits context challenge).FollowsFrom
      (DetectorStep limits (some context.flowId)) detector := by
  unfold handleChallenge
  have retained :
      ((detector.noteHandled context.flowId (.challenge challenge)).andThen
        (if ((detector.stateOf context.flowId).ntlmChallenges.get?
            challenge.scope).all fun other =>
              decide (other.offset < challenge.offset)
          then retainNtlmChallenge limits context.flowId challenge
          else .quiet)).FollowsFrom
        (DetectorStep limits (some context.flowId)) detector := by
    refine (noteHandled_steps context.flowId _).andThen ?_
    split
    · exact retainNtlmChallenge_steps ready challenge
    · exact .quiet detector
  exact retained.andThen
    (correlatePendingNtlm_steps limits (ready.of_steps retained).live)

theorem handleResponse_steps
    (ready : Ready limits context.flowId detector)
    (response : NtlmResponse) :
    (detector.handleResponse limits context response).FollowsFrom
      (DetectorStep limits (some context.flowId)) detector := by
  unfold handleResponse
  refine (noteHandled_steps context.flowId _).andThen ?_
  split
  · exact correlateNtlm_steps limits ready.live response
  · split
    · exact .quiet detector
    · exact retainNtlmResponse_steps ready response

theorem handleNtlmBlob_steps
    (ready : Ready limits context.flowId detector)
    (token : NtlmToken) :
    (detector.handleNtlmBlob limits context token).FollowsFrom
      (DetectorStep limits (some context.flowId)) detector := by
  unfold handleNtlmBlob
  dsimp only
  split
  · exact .quiet detector
  case h_2 challenge messageEnd _ =>
    have emitted :=
      emit_steps limits context ready.live none
        (token.challengeEmission (detector.stateOf context.flowId) challenge
          messageEnd)
    unfold Outcome.FollowsFrom
    simp only [Outcome.events_bind, Outcome.state_bind]
    refine emitted.trans ?_
    split
    · exact handleChallenge_steps (ready.of_steps emitted) _
    · exact .refl _
  case h_3 values messageEnd _ =>
    have emitted :=
      emit_steps limits context ready.live none
        (token.responseEmission (detector.stateOf context.flowId) values
          messageEnd)
    unfold Outcome.FollowsFrom
    simp only [Outcome.events_bind, Outcome.state_bind]
    refine emitted.trans ?_
    split
    · exact handleResponse_steps (ready.of_steps emitted) _
    · exact .refl _

/-! ## Scanners -/

theorem scanNtlmMatch_steps
    (start : Nat)
    {progress : SensitiveDetector × Bool}
    (ready : Ready limits context.flowId progress.1) :
    Steps (DetectorStep limits (some context.flowId)) progress.1
      (scanNtlmMatch limits context start progress).events
      (scanNtlmMatch limits context start progress).state.1 := by
  obtain ⟨detector, pending⟩ := progress
  unfold scanNtlmMatch
  cases decodeNtlm (context.data.drop start) with
  | none => exact .refl detector
  | some message =>
      obtain ⟨values, length⟩ := message
      simp only [Outcome.events_bind, Outcome.state_bind,
        Outcome.events_quiet, Outcome.state_quiet, List.append_nil]
      have noted :
          Steps (DetectorStep limits (some context.flowId)) detector []
            (detector.reviseFlow context.flowId fun state =>
              { state with
                smb2Seen :=
                  smb2SeenAt context (detector.stateOf context.flowId)
                ntlmZeroSessionAmbiguous :=
                  zeroSessionAmbiguousAt context
                    (smbSessionAt context start length
                      (detector.stateOf context.flowId))
                    values (detector.stateOf context.flowId) }) :=
        reviseFlow_steps fun state =>
          sameHoldings_of_held rfl rfl rfl rfl rfl rfl
      exact noted.trans (handleNtlmBlob_steps (ready.of_steps noted) _)

theorem scanNtlmRaw_steps
    (ready : Ready limits context.flowId detector) :
    (detector.scanNtlmRaw limits context).FollowsFrom
      (DetectorStep limits (some context.flowId)) detector := by
  -- the rounds thread the detector together with `pending`
  have rounds
      (starts : List Nat)
      {progress : SensitiveDetector × Bool}
      (isReady : Ready limits context.flowId progress.1) :
      Steps (DetectorStep limits (some context.flowId)) progress.1
        (runAll (scanNtlmMatch limits context) starts progress).events
        (runAll (scanNtlmMatch limits context) starts progress).state.1 := by
    induction starts generalizing progress with
    | nil => exact .refl progress.1
    | cons start rest inductionHypothesis =>
        have first := scanNtlmMatch_steps start isReady
        exact first.trans (inductionHypothesis (isReady.of_steps first))
  have start : Ready limits context.flowId (detector, false).1 := ready
  have scanned := rounds (signatureStarts context.data) start
  unfold scanNtlmRaw Outcome.FollowsFrom
  simp only [Outcome.events_bind, Outcome.state_bind]
  exact scanned.trans
    (reviseFlow_steps fun state =>
      sameHoldings_of_held rfl rfl rfl rfl rfl rfl)

theorem scanNtlmWindow_steps
    (ready : Ready limits context.flowId detector) :
    (detector.scanNtlmWindow limits context).FollowsFrom
      (DetectorStep limits (some context.flowId)) detector := by
  unfold scanNtlmWindow
  cases context.baseOffset with
  | none => exact scanNtlmRaw_steps ready
  | some baseOffset =>
      have advanced :
          Steps (DetectorStep limits (some context.flowId)) detector []
            (detector.reviseFlow context.flowId
              (FlowState.advanceNtlmCursor context.direction baseOffset
                (baseOffset + context.data.length))) :=
        reviseFlow_steps fun state =>
          sameHoldings_of_held rfl rfl rfl rfl rfl rfl
      dsimp only
      have sameFlow (state : FlowState) :
          (ntlmWindow limits context baseOffset state).flowId =
            context.flowId := by
        simp only [ntlmWindow, apply_ite ScanContext.flowId, ite_self]
      split
      · have windowReady :
            Ready limits
              (ntlmWindow limits context baseOffset
                (detector.stateOf context.flowId)).flowId
              (detector.reviseFlow context.flowId
                (FlowState.advanceNtlmCursor context.direction baseOffset
                  (baseOffset + context.data.length))) := by
          rw [sameFlow]
          exact ready.of_steps advanced
        have scanned := scanNtlmRaw_steps windowReady
        rw [sameFlow] at scanned
        exact advanced.trans scanned
      · exact advanced

theorem perform_steps
    (ready : Ready limits context.flowId detector)
    (effect : ScanEffect) :
    (detector.perform limits context effect).FollowsFrom
      (DetectorStep limits (some context.flowId)) detector := by
  have emitted
      (scan : ScanContext)
      (sameFlow : scan.flowId = context.flowId)
      (request : Emission) :
      ((detector.emit limits scan none request).bind fun answer =>
        .quiet answer.1).FollowsFrom
        (DetectorStep limits (some context.flowId)) detector := by
    rw [← sameFlow] at ready ⊢
    have steps := emit_steps limits scan ready.live none request
    simpa [Outcome.FollowsFrom] using steps
  cases effect with
  | ntlmRaw blanked => exact scanNtlmWindow_steps ready
  | ntlmToken token =>
      unfold perform
      dsimp only
      split
      · exact handleNtlmBlob_steps ready token
      · exact .quiet detector
  | emit request => exact emitted _ rfl request
  | emitRetained direction request =>
      unfold perform
      dsimp only
      cases
        (detector.stateOf context.flowId).directions.get? direction with
      | none => exact .quiet detector
      | some tail =>
          dsimp only
          split
          · exact
              emitted (retainedContext context direction tail request) rfl
                request
          · exact .quiet detector
  | stateOnce name stop =>
      have steps := stateOnce_steps limits ready.live name stop
      simpa [perform, Outcome.FollowsFrom] using steps
  | pendingAuth next =>
      obtain ⟨state, found⟩ := Option.isSome_iff_exists.mp ready.live
      unfold perform Outcome.FollowsFrom
      rw [Outcome.state_quiet, reviseFlow_of_found found]
      exact .single (.pends rfl found next)

/-- A scan of any effects keeps its flow. -/
theorem scan_steps
    (ready : Ready limits context.flowId detector)
    (effects : List ScanEffect) :
    (runAll (perform limits context) effects detector).FollowsFrom
      (DetectorStep limits (some context.flowId)) detector :=
  runAll_followsFrom (fun isReady steps => isReady.of_steps steps)
    (fun isReady => perform_steps isReady _) effects ready

end SensitiveDetector

end Scans

end PacketAudit.Detector
