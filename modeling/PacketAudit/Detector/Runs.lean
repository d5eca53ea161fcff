import PacketAudit.Detector.Budgets

namespace PacketAudit.Detector

/-!
# Runs of the detector

Every call is a sequence of the changes of `DetectorStep`, besides the opening
of a flow and the merging of a chunk.  From this come what holds in every state
of a run and what holds after each call.
-/

open Library

/-- One change in a run. -/
inductive RunStep
    (limits : DetectorLimits) :
    SensitiveDetector → List DetectorEvent → SensitiveDetector → Prop where
  | changes
      {before after : SensitiveDetector}
      {events : List DetectorEvent}
      (step : AnyStep limits before events after) :
      RunStep limits before events after
  | opens
      {before : SensitiveDetector}
      {flowId : FlowId}
      (absent : before.flows.get? flowId = none)
      (clock : Int) :
      RunStep limits before []
        { before with
          flows := before.flows.set flowId { lastActivityNs := clock } }
  | feeds
      {before : SensitiveDetector}
      {chunk : StreamChunk}
      (live : Live (chunkFlowId chunk) before) :
      RunStep limits before [.fed chunk] (before.replaceTail limits chunk)

section Runs

variable {limits : DetectorLimits}
variable {flowId : FlowId}
variable {detector : SensitiveDetector}

namespace RunStep

theorem sound
    {before after : SensitiveDetector}
    {events : List DetectorEvent}
    (step : RunStep limits before events after)
    (soundBefore : Sound limits before) :
    Sound limits after ∧ ∀ event ∈ events, event.ClampsNothing := by
  cases step with
  | changes step =>
      obtain ⟨_, step⟩ := step
      exact step.sound soundBefore
  | opens absent clock => exact ⟨soundBefore.open absent clock, by simp⟩
  | feeds live =>
      refine ⟨soundBefore.replaceTail live, ?_⟩
      intro event member
      rw [List.mem_singleton.mp member]
      trivial

theorem of_steps
    {kept : Option FlowId}
    {before after : SensitiveDetector}
    {events : List DetectorEvent}
    (steps : Steps (DetectorStep limits kept) before events after) :
    Steps (RunStep limits) before events after :=
  steps.mono fun step => .changes (.of step)

theorem of_anySteps
    {before after : SensitiveDetector}
    {events : List DetectorEvent}
    (steps : Steps (AnyStep limits) before events after) :
    Steps (RunStep limits) before events after :=
  steps.mono .changes

end RunStep

theorem Sound.of_runSteps
    {before after : SensitiveDetector}
    {events : List DetectorEvent}
    (sound : Sound limits before)
    (steps : Steps (RunStep limits) before events after) :
    Sound limits after ∧ ∀ event ∈ events, event.ClampsNothing := by
  have invariant :=
    @Steps.invariant _ _ (RunStep limits)
      (fun log detector =>
        Sound limits detector ∧ ∀ event ∈ log, event.ClampsNothing)
      (fun holds step => by
        obtain ⟨soundNext, clamps⟩ := step.sound holds.1
        refine ⟨soundNext, fun event member => ?_⟩
        rcases List.mem_append.mp member with isEarlier | isNew
        · exact holds.2 event isEarlier
        · exact clamps event isNew)
      before after [] events steps ⟨sound, by simp⟩
  simpa using invariant

/-- A new detector is sound. -/
theorem Sound.initial (limits : DetectorLimits) : Sound limits {} where
  balanced := {
    counted := by
      funext counter
      cases counter <;> rfl
    nonneg := by
      intro flowId state found
      cases found
  }
  ntlm := .initial limits
  metadataWithin := Int.natCast_nonneg _

/-- What holds before and after every call. -/
structure BetweenCalls
    (limits : DetectorLimits)
    (detector : SensitiveDetector) : Prop where
  sound : Sound limits detector
  provenance : detector.overProvenanceCap limits = false
  measured : MeasuredBut none detector
  retained : detector.overRetainedCap limits = false

theorem BetweenCalls.initial (limits : DetectorLimits) :
    BetweenCalls limits {} where
  sound := .initial limits
  provenance := by
    simp [SensitiveDetector.overProvenanceCap]
  measured := by
    intro flowId state found
    cases found
  retained := by
    simp [SensitiveDetector.overRetainedCap, SensitiveDetector.retainedBytes]

namespace SensitiveDetector

theorem overProvenanceCap_of_atMost
    {later : SensitiveDetector}
    (atMost : later.provenance.AtMost detector.provenance)
    (within : detector.overProvenanceCap limits = false) :
    later.overProvenanceCap limits = false := by
  unfold overProvenanceCap at *
  rw [Bool.or_eq_false_iff, decide_eq_false_iff_not,
    decide_eq_false_iff_not] at *
  obtain ⟨spans, packetIdRefs⟩ := atMost
  omega

/-! ## The parts of a call -/

/-- What opening a flow gives. -/
structure Opened
    (limits : DetectorLimits)
    (flowId : FlowId)
    (detector : SensitiveDetector)
    (events : List DetectorEvent)
    (opened : SensitiveDetector) : Prop where
  steps : Steps (RunStep limits) detector events opened
  live : Live flowId opened
  provenance : opened.provenance.AtMost detector.provenance
  measured : MeasuredBut none opened

/-- Making room only drops flows. -/
theorem makeRoom_steps
    (limits : DetectorLimits)
    (detector : SensitiveDetector) :
    (whileSucceeds (flowTableFull limits) dropOldest
        (detector.flows.size + 1) detector).FollowsFrom
      (DetectorStep limits none) detector :=
  whileSucceeds_steps (motive := fun _ => True) (fun _ _ => trivial)
    (fun _ _ => dropOldest_steps (.inl rfl)) _ trivial

theorem openFlow_opened
    (sound : Sound limits detector)
    (measured : MeasuredBut none detector)
    (clock : Int)
    (flowId : FlowId) :
    Opened limits flowId detector
      (detector.openFlow limits clock flowId).events
      (detector.openFlow limits clock flowId).state := by
  unfold openFlow
  cases found : detector.flows.get? flowId with
  | some state =>
      have stored :
          (detector.flows.moveToEnd flowId).get? flowId = some state := by
        rw [OrderedTable.get?_moveToEnd]
        exact found
      have touched :
          Steps (DetectorStep limits none) detector []
            { detector with flows := detector.flows.moveToEnd flowId } :=
        .single (.touches flowId)
      have same :
          state.SameHoldings { state with lastActivityNs := clock } :=
        sameHoldings_of_held rfl rfl rfl rfl rfl rfl
      have opened := touched.tail (.revises stored same)
      exact {
        steps := RunStep.of_steps opened
        live := by
          unfold Live
          rw [Outcome.state_quiet, OrderedTable.get?_set_self]
          rfl
        provenance := .refl _
        measured := measured.of_steps opened
      }
  | none =>
      set roomy :=
        whileSucceeds (flowTableFull limits) dropOldest
          (detector.flows.size + 1) detector
      have dropped :
          Steps (DetectorStep limits none) detector roomy.events
            roomy.state :=
        makeRoom_steps limits detector
      have anyDropped :
          Steps (AnyStep limits) detector roomy.events roomy.state :=
        dropped.mono .of
      have absent := absent_of_anySteps anyDropped found
      have fewer := provenance_atMost_of_anySteps anyDropped sound
      exact {
        steps := (RunStep.of_steps dropped).tail (.opens absent clock)
        live := by
          unfold Live
          rw [Outcome.state_bind, Outcome.state_quiet,
            OrderedTable.get?_set_self]
          rfl
        provenance := fewer
        measured :=
          (measured.of_steps dropped).set (fun _ => ⟨rfl, rfl⟩) rfl
      }

/-- Noting when a packet was seen changes nothing of this. -/
theorem Opened.noteTimestamp
    {opened : SensitiveDetector}
    {events : List DetectorEvent}
    (isOpened : Opened limits flowId detector events opened)
    (timestampNs : Int) :
    Opened limits flowId detector events
      (opened.noteTimestamp flowId timestampNs) := by
  have noted (kept : Option FlowId) :
      Steps (DetectorStep limits kept) opened []
        (opened.noteTimestamp flowId timestampNs) :=
    reviseFlow_steps fun _ => sameHoldings_of_held rfl rfl rfl rfl rfl rfl
  have sameProvenance :
      (opened.noteTimestamp flowId timestampNs).provenance =
        opened.provenance := by
    unfold SensitiveDetector.noteTimestamp reviseFlow
    split <;> rfl
  exact {
    steps := by
      simpa using isOpened.steps.trans (RunStep.of_steps (noted none))
    live := isOpened.live.of_steps (noted (some flowId))
    provenance := by
      rw [sameProvenance]
      exact isOpened.provenance
    measured := isOpened.measured.of_steps (noted none)
  }

/-- The scan and the caps bring back what holds between calls. -/
theorem scanAndEnforce_betweenCalls
    {context : ScanContext}
    (ready : Ready limits context.flowId detector)
    (provenance : detector.overProvenanceCap limits = false)
    (measured : MeasuredBut none detector)
    (effects : List ScanEffect) :
    BetweenCalls limits
      (detector.scanAndEnforce limits context effects).state := by
  have steps := scanAndEnforce_steps ready effects
  have scanned :
      Steps (DetectorStep limits (some context.flowId)) detector
        (runAll (perform limits context) effects detector).events
        (runAll (perform limits context) effects detector).state :=
    scan_steps ready effects
  have refreshed := scanned.tail (.refreshes context.flowId)
  have refreshedReady := ready.of_steps refreshed
  have measuredAll :=
    ((measured.weaken (some context.flowId)).of_steps scanned).refresh
  exact {
    sound := (ready.sound.of_anySteps steps).1
    provenance :=
      overProvenanceCap_of_atMost
        (provenance_atMost_of_anySteps steps ready.sound) provenance
    measured := enforceRetainedCap_measured refreshedReady measuredAll
    retained := enforceRetainedCap_within refreshedReady
  }

/-- What merging a chunk gives. -/
structure Merged
    (limits : DetectorLimits)
    (chunk : StreamChunk)
    (detector : SensitiveDetector)
    (merged : Outcome (SensitiveDetector × ScanContext) DetectorEvent) :
    Prop where
  steps : Steps (RunStep limits) detector merged.events merged.state.1
  sameFlow : merged.state.2.flowId = chunkFlowId chunk
  ready : Ready limits (chunkFlowId chunk) merged.state.1
  provenance : merged.state.1.overProvenanceCap limits = false
  measured : MeasuredBut none merged.state.1

theorem mergeStream_merged
    {chunk : StreamChunk}
    (ready : Ready limits (chunkFlowId chunk) detector)
    (measured : MeasuredBut none detector) :
    Merged limits chunk detector (detector.mergeStream limits chunk) := by
  have only := OnlyTails.replaceTail limits ready.live
  have replaced :
      Ready limits (chunkFlowId chunk) (detector.replaceTail limits chunk) :=
    ⟨ready.sound.replaceTail ready.live, only.live ready.live⟩
  have capped :=
    enforceProvenanceCap_steps limits (chunkFlowId chunk)
      (detector.replaceTail limits chunk)
  have fed :
      Steps (RunStep limits) detector [.fed chunk]
        (detector.replaceTail limits chunk) :=
    .single (.feeds ready.live)
  exact {
    steps := by
      simpa [mergeStream] using fed.trans (RunStep.of_steps capped)
    sameFlow := rfl
    ready := replaced.of_steps capped
    provenance := enforceProvenanceCap_within replaced
    measured :=
      enforceProvenanceCap_measured (measured.of_onlyTails only)
  }

/-! ## Calls -/

theorem processStream_steps
    (between : BetweenCalls limits detector)
    (clock : Int)
    (chunk : StreamChunk)
    (effects : List ScanEffect) :
    let processed := detector.processStream limits clock chunk effects
    processed.FollowsFrom (RunStep limits) detector ∧
      BetweenCalls limits processed.state := by
  have opened :=
    (openFlow_opened between.sound between.measured clock
      (chunkFlowId chunk)).noteTimestamp chunk.lastTimestampNs
  have openedSound := (between.sound.of_runSteps opened.steps).1
  have merged :=
    mergeStream_merged ⟨openedSound, opened.live⟩ opened.measured
  have scanReady := merged.ready
  rw [← merged.sameFlow] at scanReady
  have scanned := scanAndEnforce_steps scanReady effects
  refine ⟨?_, scanAndEnforce_betweenCalls scanReady merged.provenance
    merged.measured effects⟩
  exact Steps.trans opened.steps
    (merged.steps.trans (RunStep.of_anySteps scanned))

theorem processDatagram_steps
    (between : BetweenCalls limits detector)
    (clock : Int)
    (packet : ParsedPacket)
    (effects : List ScanEffect) :
    let processed := detector.processDatagram limits clock packet effects
    processed.FollowsFrom (RunStep limits) detector ∧
      BetweenCalls limits processed.state := by
  unfold processDatagram
  dsimp only
  split
  · exact ⟨.quiet detector, between⟩
  have opened :=
    (openFlow_opened between.sound between.measured clock
      (datagramContext packet).flowId).noteTimestamp packet.timestampNs
  have openedSound := (between.sound.of_runSteps opened.steps).1
  have scanReady : Ready limits (datagramContext packet).flowId _ :=
    ⟨openedSound, opened.live⟩
  have scanned := scanAndEnforce_steps scanReady effects
  have within :=
    overProvenanceCap_of_atMost opened.provenance between.provenance
  refine ⟨?_, scanAndEnforce_betweenCalls scanReady within opened.measured
    effects⟩
  exact Steps.trans opened.steps (RunStep.of_anySteps scanned)

/-- Expiring only drops flows. -/
theorem expire_dropSteps
    (limits : DetectorLimits)
    (detector : SensitiveDetector)
    (expiry : Expiry) :
    (detector.expire expiry).FollowsFrom (DetectorStep limits none)
      detector :=
  runAll_followsFrom (motive := fun _ => True) (fun _ _ => trivial)
    (fun _ => dropFlow_steps _) _ trivial

theorem expire_steps
    (between : BetweenCalls limits detector)
    (expiry : Expiry) :
    let expired := detector.expire expiry
    expired.FollowsFrom (RunStep limits) detector ∧
      BetweenCalls limits expired.state := by
  have dropped
      {flowId : FlowId}
      {state : SensitiveDetector}
      (isBetween : BetweenCalls limits state) :
      BetweenCalls limits (state.dropFlow flowId).state := by
    have steps :
        Steps (DetectorStep limits none) state
          (state.dropFlow flowId).events (state.dropFlow flowId).state :=
      dropFlow_steps flowId
    have anySteps :
        Steps (AnyStep limits) state (state.dropFlow flowId).events
          (state.dropFlow flowId).state :=
      steps.mono .of
    have less := retainedBytes_dropFlow_le isBetween.sound flowId
    have within := isBetween.retained
    exact {
      sound := (isBetween.sound.of_steps steps).1
      provenance :=
        overProvenanceCap_of_atMost
          (provenance_atMost_of_anySteps anySteps isBetween.sound)
          isBetween.provenance
      measured := isBetween.measured.of_steps steps
      retained := by
        unfold overRetainedCap at *
        rw [decide_eq_false_iff_not] at *
        omega
    }
  have steps := detector.expire_dropSteps limits expiry
  have between :=
    @runAll_invariant _ _ _ dropFlow (fun _ => True)
      (fun _ state => BetweenCalls limits state)
      (fun _ isBetween => dropped isBetween) (detector.expiring expiry)
      (fun _ _ => trivial) [] detector between
  exact ⟨RunStep.of_steps steps, between⟩

end SensitiveDetector

/-- Every call is made of the changes of a run. -/
theorem DetectorCall.apply_steps
    (between : BetweenCalls limits detector)
    (call : DetectorCall) :
    (call.apply limits detector).FollowsFrom (RunStep limits) detector ∧
      BetweenCalls limits (call.apply limits detector).state := by
  cases call with
  | stream clock chunk effects =>
      exact detector.processStream_steps between clock chunk effects
  | datagram clock packet effects =>
      exact detector.processDatagram_steps between clock packet effects
  | expire expiry => exact detector.expire_steps between expiry

/-- Every run is made of these changes, and ends between two calls. -/
theorem SensitiveDetector.run_steps
    (limits : DetectorLimits)
    (calls : List DetectorCall) :
    (run limits calls).FollowsFrom (RunStep limits) {} ∧
      BetweenCalls limits (run limits calls).state := by
  exact @runAll_invariant _ _ _ (DetectorCall.apply limits) (fun _ => True)
    (fun log state =>
      Steps (RunStep limits) {} log state ∧ BetweenCalls limits state)
    (fun {call} {_} {_} _ reached =>
      have applied := call.apply_steps reached.2
      ⟨reached.1.trans applied.1, applied.2⟩)
    calls (fun _ _ => trivial) [] {} ⟨.refl _, .initial limits⟩

end Runs

end PacketAudit.Detector
