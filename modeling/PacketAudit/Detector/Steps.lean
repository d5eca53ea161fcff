import PacketAudit.Detector.Index

namespace PacketAudit.Detector

/-!
# The steps of the detector

Every method of the detector is made of the changes listed in `DetectorStep`.
Each of them keeps the counters balanced and the index of NTLM entries
consistent, and corrects no counter by clamping it.
-/

open Library

/-! ## States between two steps -/

/-- What holds between any two steps. -/
structure Sound
    (limits : DetectorLimits)
    (detector : SensitiveDetector) : Prop where
  balanced : Balanced detector
  ntlm : NtlmConsistent limits detector
  metadataWithin :
    detector.metadataEntries ≤ (limits.maxMetadataEntries : Int)

/-- The detector keeps a flow. -/
def Live (flowId : FlowId) (detector : SensitiveDetector) : Prop :=
  (detector.flows.get? flowId).isSome

/-- A state that holds what another one holds, with the same tails. -/
structure FlowState.SameHoldings (state next : FlowState) : Prop where
  held : next.held = state.held
  ntlmPart : next.ntlmPart = state.ntlmPart
  pendingAuth : next.pendingAuth = state.pendingAuth
  directions : next.directions = state.directions

/-- A state with one more high-water mark than another one. -/
structure FlowState.OneMoreMark (state next : FlowState) : Prop where
  metadataEntries : next.metadataEntries = state.metadataEntries + 1
  pendingAuthBytes : next.pendingAuthBytes = state.pendingAuthBytes
  pendingAuthObjects : next.pendingAuthObjects = state.pendingAuthObjects
  ntlmPart : next.ntlmPart = state.ntlmPart
  pendingAuth : next.pendingAuth = state.pendingAuth
  directions : next.directions = state.directions

/-- The events that only tell what was seen. -/
def DetectorEvent.IsNote : DetectorEvent → Prop
  | .handled _ _ _ => True
  | .found _ _ _ => True
  | _ => False

/-! ## Steps -/

/--
One change of the flows that the detector keeps, other than the merging of a
chunk, while one of them may be kept from being dropped.
-/
inductive DetectorStep
    (limits : DetectorLimits)
    (kept : Option FlowId) :
    SensitiveDetector → List DetectorEvent → SensitiveDetector → Prop where
  | touches
      {before : SensitiveDetector}
      (flowId : FlowId) :
      DetectorStep limits kept before []
        { before with flows := before.flows.moveToEnd flowId }
  | revises
      {before : SensitiveDetector}
      {flowId : FlowId}
      {state next : FlowState}
      (found : before.flows.get? flowId = some state)
      (same : state.SameHoldings next) :
      DetectorStep limits kept before []
        { before with flows := before.flows.set flowId next }
  | notes
      {before : SensitiveDetector}
      {event : DetectorEvent}
      (isNote : event.IsNote) :
      DetectorStep limits kept before [event] before
  | drops
      {before : SensitiveDetector}
      {flowId : FlowId}
      (notKept : kept ≠ some flowId) :
      DetectorStep limits kept before (before.dropFlow flowId).events
        (before.dropFlow flowId).state
  | pops
      {before : SensitiveDetector}
      (flowId : FlowId)
      (direction : Direction) :
      DetectorStep limits kept before [] (before.popSpan flowId direction)
  | trims
      {before : SensitiveDetector}
      (flowId : FlowId) :
      DetectorStep limits kept before [] (before.trimTails limits flowId)
  | marks
      {before : SensitiveDetector}
      {flowId : FlowId}
      {state next : FlowState}
      (found : before.flows.get? flowId = some state)
      (room : before.metadataEntries < (limits.maxMetadataEntries : Int))
      (oneMore : state.OneMoreMark next) :
      DetectorStep limits kept before []
        { before with
          flows := before.flows.set flowId next
          metadataEntries := before.metadataEntries + 1 }
  | removes
      {before : SensitiveDetector}
      (flowId : FlowId)
      (key : NtlmKey) :
      DetectorStep limits kept before (before.removeEntry flowId key).events
        (before.removeEntry flowId key).state
  | storesChallenge
      {before : SensitiveDetector}
      {flowId : FlowId}
      {state : FlowState}
      (challenge : NtlmChallenge)
      (found : before.flows.get? flowId = some state)
      (absent : state.ntlmEntryOf (.challenge challenge.scope) = none)
      (room : NtlmConsistent.Room limits before state challenge.size) :
      DetectorStep limits kept before []
        (before.storeChallenge flowId challenge)
  | storesResponse
      {before : SensitiveDetector}
      {flowId : FlowId}
      {state : FlowState}
      (response : NtlmResponse)
      (found : before.flows.get? flowId = some state)
      (room : NtlmConsistent.Room limits before state response.size) :
      DetectorStep limits kept before []
        (before.storeResponse flowId response)
  | pends
      {before : SensitiveDetector}
      {flowId : FlowId}
      {state : FlowState}
      (isKept : kept = some flowId)
      (found : before.flows.get? flowId = some state)
      (next : PendingAuth) :
      DetectorStep limits kept before []
        { before with
          flows := before.flows.set flowId { state with pendingAuth := next } }
  | refreshes
      {before : SensitiveDetector}
      (flowId : FlowId) :
      DetectorStep limits kept before
        (before.refreshPendingAuth flowId).events
        (before.refreshPendingAuth flowId).state

/-- One change, whichever flow is kept. -/
def AnyStep
    (limits : DetectorLimits)
    (before : SensitiveDetector)
    (events : List DetectorEvent)
    (after : SensitiveDetector) : Prop :=
  ∃ kept, DetectorStep limits kept before events after

theorem AnyStep.of
    {limits : DetectorLimits}
    {kept : Option FlowId}
    {before after : SensitiveDetector}
    {events : List DetectorEvent}
    (step : DetectorStep limits kept before events after) :
    AnyStep limits before events after :=
  ⟨kept, step⟩

/-! ## What steps leave alone -/

/-- Nothing has changed but tails and the counters of tails. -/
structure OnlyTails (before after : SensitiveDetector) : Prop where
  flows :
    ∀ flowId,
      (after.flows.get? flowId).map
          (fun state => { state with directions := .empty }) =
        (before.flows.get? flowId).map
          fun state => { state with directions := .empty }
  metadataEntries : after.metadataEntries = before.metadataEntries
  ntlmCorrelationIndex :
    after.ntlmCorrelationIndex = before.ntlmCorrelationIndex
  ntlmCorrelationBytes :
    after.ntlmCorrelationBytes = before.ntlmCorrelationBytes
  nextNtlmCorrelationId :
    after.nextNtlmCorrelationId = before.nextNtlmCorrelationId

theorem OnlyTails.refl (detector : SensitiveDetector) :
    OnlyTails detector detector :=
  ⟨fun _ => rfl, rfl, rfl, rfl, rfl⟩

/-- Other tails of one flow. -/
theorem OnlyTails.set
    {before after : SensitiveDetector}
    {flowId : FlowId}
    {state : FlowState}
    {directions : OrderedTable Direction DirectionState}
    (found : before.flows.get? flowId = some state)
    (flows : after.flows = before.flows.set flowId { state with directions })
    (metadataEntries : after.metadataEntries = before.metadataEntries)
    (index : after.ntlmCorrelationIndex = before.ntlmCorrelationIndex)
    (bytes : after.ntlmCorrelationBytes = before.ntlmCorrelationBytes)
    (next : after.nextNtlmCorrelationId = before.nextNtlmCorrelationId) :
    OnlyTails before after := by
  refine ⟨?_, metadataEntries, index, bytes, next⟩
  intro other
  rw [flows, OrderedTable.get?_set]
  split
  case isTrue same => rw [same, found]; rfl
  case isFalse => rfl

theorem OnlyTails.replaceTail
    (limits : DetectorLimits)
    {chunk : StreamChunk}
    {detector : SensitiveDetector}
    (live : Live (chunkFlowId chunk) detector) :
    OnlyTails detector (detector.replaceTail limits chunk) := by
  obtain ⟨state, found⟩ := Option.isSome_iff_exists.mp live
  unfold SensitiveDetector.replaceTail
  simp only [SensitiveDetector.reviseFlow_of_found found]
  exact .set found rfl rfl rfl rfl rfl

theorem OnlyTails.popSpan
    (detector : SensitiveDetector)
    (flowId : FlowId)
    (direction : Direction) :
    OnlyTails detector (detector.popSpan flowId direction) := by
  unfold SensitiveDetector.popSpan
  cases found : detector.flows.get? flowId with
  | none =>
      have noState : detector.stateOf flowId = {} := by
        rw [SensitiveDetector.stateOf, found, Option.getD_none]
      rw [noState]
      exact .refl detector
  | some state =>
      rw [SensitiveDetector.stateOf_of_found found]
      cases state.directions.get? direction with
      | none => exact .refl detector
      | some tail =>
          simp only [SensitiveDetector.reviseFlow_of_found found]
          exact .set found rfl rfl rfl rfl rfl

theorem OnlyTails.trimTails
    (limits : DetectorLimits)
    (detector : SensitiveDetector)
    (flowId : FlowId) :
    OnlyTails detector (detector.trimTails limits flowId) := by
  unfold SensitiveDetector.trimTails
  cases found : detector.flows.get? flowId with
  | none => exact .refl detector
  | some state => exact .set found rfl rfl rfl rfl rfl

theorem OnlyTails.live
    {before after : SensitiveDetector}
    {flowId : FlowId}
    (only : OnlyTails before after)
    (live : Live flowId before) :
    Live flowId after := by
  have same := congrArg Option.isSome (only.flows flowId)
  rw [Option.isSome_map, Option.isSome_map] at same
  exact same.trans live

theorem OnlyTails.absent
    {before after : SensitiveDetector}
    {flowId : FlowId}
    (only : OnlyTails before after)
    (absent : before.flows.get? flowId = none) :
    after.flows.get? flowId = none := by
  have same := only.flows flowId
  rw [absent, Option.map_none, Option.map_eq_none_iff] at same
  exact same

/-- The index stays consistent where only tails change. -/
theorem NtlmConsistent.of_onlyTails
    {limits : DetectorLimits}
    {before after : SensitiveDetector}
    (consistent : NtlmConsistent limits before)
    (only : OnlyTails before after) :
    NtlmConsistent limits after := by
  refine consistent.congr ?_ only.ntlmCorrelationIndex
    only.ntlmCorrelationBytes only.nextNtlmCorrelationId
  intro flowId
  have same :=
    congrArg (Option.map FlowState.ntlmPart) (only.flows flowId)
  rw [Option.map_map, Option.map_map] at same
  exact same

/-- Removing entries only corrects counters. -/
theorem clamped_of_mem_removeNtlmEntries
    {keys : List NtlmKey}
    {holding : Holding}
    {event : DetectorEvent}
    (member : event ∈ (runAll removeNtlmEntry keys holding).events) :
    ∃ counter value, event = .clamped counter value := by
  obtain ⟨prior, key, rest, -, isRemoval⟩ := mem_events_runAll member
  unfold removeNtlmEntry at isRemoval
  split at isRemoval
  · cases isRemoval
  · simp only [List.mem_cons, List.not_mem_nil, or_false] at isRemoval
    rcases isRemoval with rfl | rfl
    · exact ⟨_, _, rfl⟩
    · exact ⟨_, _, rfl⟩

theorem clamped_of_mem_removeEntry
    {detector : SensitiveDetector}
    {other : FlowId}
    {key : NtlmKey}
    {event : DetectorEvent}
    (member : event ∈ (detector.removeEntry other key).events) :
    ∃ counter value, event = .clamped counter value := by
  unfold SensitiveDetector.removeEntry at member
  cases found : detector.flows.get? other with
  | none => simp [found] at member
  | some state =>
      have isRemoval :
          event ∈
            (runAll removeNtlmEntry [key] ⟨detector, state⟩).events := by
        simpa [found, runAll] using member
      exact clamped_of_mem_removeNtlmEntries isRemoval

/-- Removing an entry drops no flow. -/
theorem not_dropped_removeEntry
    (detector : SensitiveDetector)
    (other : FlowId)
    (key : NtlmKey)
    {flowId : FlowId} :
    .dropped flowId ∉ (detector.removeEntry other key).events := by
  intro member
  obtain ⟨_, _, same⟩ := clamped_of_mem_removeEntry member
  cases same

/-- Dropping a flow corrects counters and tells of the drop. -/
theorem mem_dropFlow_events
    {detector : SensitiveDetector}
    {flowId : FlowId}
    {event : DetectorEvent}
    (member : event ∈ (detector.dropFlow flowId).events) :
    (∃ counter value, event = .clamped counter value) ∨
      event = .dropped flowId := by
  unfold SensitiveDetector.dropFlow at member
  cases found : detector.flows.get? flowId with
  | none => simp [found] at member
  | some state =>
      simp only [found, Outcome.events_bind] at member
      rcases List.mem_append.mp member with isRemoval | isOwn
      · exact .inl (clamped_of_mem_removeNtlmEntries isRemoval)
      · simp only [List.mem_cons, List.not_mem_nil, or_false] at isOwn
        rcases isOwn with rfl | rfl | rfl | rfl
        · exact .inl ⟨_, _, rfl⟩
        · exact .inl ⟨_, _, rfl⟩
        · exact .inl ⟨_, _, rfl⟩
        · exact .inr rfl

/-- Dropping a flow drops no other one. -/
theorem dropped_of_mem_dropFlow
    {detector : SensitiveDetector}
    {flowId other : FlowId}
    (member : .dropped flowId ∈ (detector.dropFlow other).events) :
    flowId = other := by
  rcases mem_dropFlow_events member with ⟨_, _, same⟩ | same
  · cases same
  · exact DetectorEvent.dropped.inj same

/-! ## Each step is sound -/

theorem Balanced.removeEntry
    {detector : SensitiveDetector}
    (balanced : Balanced detector)
    (flowId : FlowId)
    (key : NtlmKey) :
    Balanced (detector.removeEntry flowId key).state := by
  rcases detector.removeEntry_cases flowId key with
    nothing | ⟨state, correlationId, retainedSize, found, -, removed⟩
  · rw [nothing]
    exact balanced
  · rw [removed]
    refine balanced.revise found rfl ?_ ?_
    · funext counter
      cases counter <;> rfl
    · funext counter
      cases key <;> cases counter <;> rfl

theorem Balanced.storeEntry
    {detector : SensitiveDetector}
    {flowId : FlowId}
    {state : FlowState}
    (balanced : Balanced detector)
    (found : detector.flows.get? flowId = some state)
    {store : FlowState → FlowState}
    (held : ∀ counter, (store state).held counter = state.held counter)
    (key : NtlmKey)
    (retainedSize : Nat) :
    Balanced (detector.storeEntry flowId key retainedSize store) := by
  unfold SensitiveDetector.storeEntry
  simp only [found]
  refine balanced.revise found rfl ?_ ?_
  · funext counter
    cases counter <;> rfl
  · funext counter
    rw [← held]
    cases counter <;> rfl

namespace DetectorStep

variable {limits : DetectorLimits}
variable {kept : Option FlowId}
variable {before after : SensitiveDetector}
variable {events : List DetectorEvent}

/-- A step keeps the detector sound, and corrects no counter by clamping. -/
theorem sound
    (step : DetectorStep limits kept before events after)
    (soundBefore : Sound limits before) :
    Sound limits after ∧ ∀ event ∈ events, event.ClampsNothing := by
  obtain ⟨balanced, ntlm, metadataWithin⟩ := soundBefore
  cases step with
  | touches flowId =>
      refine ⟨⟨balanced.touch rfl ?_, ntlm.congr ?_ rfl rfl rfl,
        metadataWithin⟩, by simp⟩
      · funext counter
        cases counter <;> rfl
      · intro other
        rw [OrderedTable.get?_moveToEnd]
  | revises found same =>
      refine ⟨⟨balanced.revise found rfl ?_ same.held,
        ntlm.revise found rfl same.ntlmPart rfl rfl rfl, metadataWithin⟩,
        by simp⟩
      funext counter
      cases counter <;> rfl
  | @notes event isNote =>
      refine ⟨⟨balanced, ntlm, metadataWithin⟩, ?_⟩
      intro other member
      rw [List.mem_singleton.mp member]
      cases event with
      | clamped counter value => exact isNote.elim
      | _ => trivial
  | @drops flowId notKept =>
      cases found : before.flows.get? flowId with
      | none =>
          simp only [SensitiveDetector.dropFlow, found]
          exact ⟨⟨balanced, ntlm, metadataWithin⟩, by simp⟩
      | some state =>
          obtain ⟨consistent, removing⟩ := ntlm.dropFlow found
          refine ⟨⟨balanced.dropFlow found, consistent, ?_⟩,
            balanced.dropFlow_clampsNothing found removing⟩
          have fewer :=
            congrFun (balanced.counted_dropFlow found) .metadata
          have nonneg := balanced.nonneg found .metadata
          change (before.dropFlow flowId).state.metadataEntries =
            before.metadataEntries - state.held .metadata at fewer
          change 0 ≤ state.held .metadata at nonneg
          omega
  | pops flowId direction =>
      have only := OnlyTails.popSpan before flowId direction
      exact ⟨⟨balanced.popSpan flowId direction, ntlm.of_onlyTails only,
        only.metadataEntries.trans_le metadataWithin⟩, by simp⟩
  | trims flowId =>
      have only := OnlyTails.trimTails limits before flowId
      exact ⟨⟨balanced.trimTails limits flowId, ntlm.of_onlyTails only,
        only.metadataEntries.trans_le metadataWithin⟩, by simp⟩
  | marks found room oneMore =>
      refine ⟨⟨balanced.mark found oneMore.metadataEntries ?_,
        ntlm.revise found rfl oneMore.ntlmPart rfl rfl rfl, ?_⟩, by simp⟩
      · intro counter other
        cases counter with
        | metadata => exact absurd rfl other
        | pendingBytes => exact oneMore.pendingAuthBytes
        | pendingObjects => exact oneMore.pendingAuthObjects
        | tailBytes =>
            change FlowState.tailBytes _ = FlowState.tailBytes _
            rw [FlowState.tailBytes, oneMore.directions]
            rfl
        | spans =>
            change (FlowState.flowProvenanceCounts _).spans = _
            rw [FlowState.flowProvenanceCounts, oneMore.directions]
            rfl
        | packetIdRefs =>
            change (FlowState.flowProvenanceCounts _).packetIdRefs = _
            rw [FlowState.flowProvenanceCounts, oneMore.directions]
            rfl
      · exact room
  | removes flowId key =>
      obtain ⟨consistent, clamps⟩ := ntlm.removeEntry flowId key
      refine ⟨⟨balanced.removeEntry flowId key, consistent, ?_⟩, clamps⟩
      rcases before.removeEntry_cases flowId key with
        nothing | ⟨state, correlationId, retainedSize, -, -, removed⟩
      · rw [nothing]
        exact metadataWithin
      · rw [removed]
        exact metadataWithin
  | storesChallenge challenge found absent room =>
      refine ⟨⟨balanced.storeEntry found ?_ _ _,
        ntlm.storeChallenge challenge found absent room, ?_⟩, by simp⟩
      · intro counter
        cases counter <;> rfl
      · simp only [SensitiveDetector.storeChallenge,
          SensitiveDetector.storeEntry, found]
        exact metadataWithin
  | storesResponse response found room =>
      refine ⟨⟨balanced.storeEntry found ?_ _ _,
        ntlm.storeResponse response found room, ?_⟩, by simp⟩
      · intro counter
        cases counter <;> rfl
      · simp only [SensitiveDetector.storeResponse,
          SensitiveDetector.storeEntry, found]
        exact metadataWithin
  | pends isKept found next =>
      refine ⟨⟨balanced.revise found rfl ?_ ?_,
        ntlm.revise found rfl rfl rfl rfl rfl, metadataWithin⟩, by simp⟩
      · funext counter
        cases counter <;> rfl
      · funext counter
        cases counter <;> rfl
  | refreshes flowId =>
      obtain ⟨balancedNext, clamps⟩ := balanced.refreshPendingAuth flowId
      refine ⟨⟨balancedNext, ?_, ?_⟩, clamps⟩
      · unfold SensitiveDetector.refreshPendingAuth
        cases found : before.flows.get? flowId with
        | none => exact ntlm
        | some state => exact ntlm.revise found rfl rfl rfl rfl rfl
      · unfold SensitiveDetector.refreshPendingAuth
        cases before.flows.get? flowId with
        | none => exact metadataWithin
        | some state => exact metadataWithin

/-- No flow is added. -/
theorem absent
    {flowId : FlowId}
    (step : DetectorStep limits kept before events after)
    (absentBefore : before.flows.get? flowId = none) :
    after.flows.get? flowId = none := by
  have setAbsent
      {table : OrderedTable FlowId FlowState}
      {other : FlowId}
      {state next : FlowState}
      (found : table.get? other = some state)
      (isAbsent : table.get? flowId = none) :
      (table.set other next).get? flowId = none := by
    rw [OrderedTable.get?_set]
    split
    case isTrue same =>
      rw [← same, isAbsent] at found
      cases found
    case isFalse => exact isAbsent
  cases step with
  | touches other =>
      rw [OrderedTable.get?_moveToEnd]
      exact absentBefore
  | revises found same => exact setAbsent found absentBefore
  | notes isNote => exact absentBefore
  | @drops other notKept =>
      rw [flows_dropFlow]
      by_cases same : flowId = other
      · rw [same]
        exact OrderedTable.get?_erase_self _ _
      · rw [OrderedTable.get?_erase_of_ne _ same]
        exact absentBefore
  | pops other direction =>
      exact (OnlyTails.popSpan before other direction).absent absentBefore
  | trims other =>
      exact (OnlyTails.trimTails limits before other).absent absentBefore
  | marks found room oneMore => exact setAbsent found absentBefore
  | removes other key =>
      rcases before.removeEntry_cases other key with
        nothing | ⟨state, correlationId, retainedSize, found, -, removed⟩
      · rw [nothing]
        exact absentBefore
      · rw [removed]
        exact setAbsent found absentBefore
  | storesChallenge challenge found absent room =>
      simp only [SensitiveDetector.storeChallenge,
        SensitiveDetector.storeEntry, found]
      exact setAbsent found absentBefore
  | storesResponse response found room =>
      simp only [SensitiveDetector.storeResponse,
        SensitiveDetector.storeEntry, found]
      exact setAbsent found absentBefore
  | pends isKept found next => exact setAbsent found absentBefore
  | refreshes other =>
      unfold SensitiveDetector.refreshPendingAuth
      cases found : before.flows.get? other with
      | none => exact absentBefore
      | some state => exact setAbsent found absentBefore

/-- The flow that is kept stays. -/
theorem live
    {flowId : FlowId}
    (step : DetectorStep limits (some flowId) before events after)
    (liveBefore : Live flowId before) :
    Live flowId after := by
  have setLive
      {table : OrderedTable FlowId FlowState}
      {other : FlowId}
      {state : FlowState}
      (isLive : (table.get? flowId).isSome) :
      ((table.set other state).get? flowId).isSome := by
    rw [OrderedTable.get?_set]
    split
    · rfl
    · exact isLive
  cases step with
  | touches other =>
      unfold Live at *
      rwa [OrderedTable.get?_moveToEnd]
  | revises found same => exact setLive liveBefore
  | notes isNote => exact liveBefore
  | @drops other notKept =>
      unfold Live at *
      rw [flows_dropFlow, OrderedTable.get?_erase_of_ne]
      · exact liveBefore
      · rintro rfl
        exact notKept rfl
  | pops other direction =>
      exact (OnlyTails.popSpan before other direction).live liveBefore
  | trims other =>
      exact (OnlyTails.trimTails limits before other).live liveBefore
  | marks found room oneMore => exact setLive liveBefore
  | removes other key =>
      rcases before.removeEntry_cases other key with
        nothing | ⟨state, correlationId, retainedSize, -, -, removed⟩
      · rw [nothing]
        exact liveBefore
      · rw [removed]
        exact setLive liveBefore
  | storesChallenge challenge found absent room =>
      simp only [SensitiveDetector.storeChallenge,
        SensitiveDetector.storeEntry, found]
      exact setLive liveBefore
  | storesResponse response found room =>
      simp only [SensitiveDetector.storeResponse,
        SensitiveDetector.storeEntry, found]
      exact setLive liveBefore
  | pends isKept found next => exact setLive liveBefore
  | refreshes other =>
      unfold SensitiveDetector.refreshPendingAuth
      cases before.flows.get? other with
      | none => exact liveBefore
      | some state => exact setLive liveBefore

/-- The flow that is kept is not dropped. -/
theorem not_dropped
    {flowId : FlowId}
    (step : DetectorStep limits (some flowId) before events after) :
    .dropped flowId ∉ events := by
  cases step with
  | @notes event isNote =>
      intro member
      rw [List.mem_singleton] at member
      rw [← member] at isNote
      exact isNote
  | @drops other notKept =>
      intro member
      exact notKept (congrArg some (dropped_of_mem_dropFlow member))
  | removes other key => exact not_dropped_removeEntry before other key
  | refreshes other =>
      unfold SensitiveDetector.refreshPendingAuth
      cases before.flows.get? other <;> simp
  | _ => exact List.not_mem_nil

end DetectorStep

/-- A new flow keeps the detector sound. -/
theorem Sound.open
    {limits : DetectorLimits}
    {detector : SensitiveDetector}
    {flowId : FlowId}
    (sound : Sound limits detector)
    (absent : detector.flows.get? flowId = none)
    (clock : Int) :
    Sound limits { detector with
      flows := detector.flows.set flowId { lastActivityNs := clock } } where
  balanced := by
    refine sound.balanced.insert absent rfl ?_ ?_
    · funext counter
      cases counter <;> rfl
    · funext counter
      cases counter <;> rfl
  ntlm := sound.ntlm.opened absent rfl rfl rfl rfl rfl
  metadataWithin := sound.metadataWithin

/-- Merging a chunk keeps the detector sound. -/
theorem Sound.replaceTail
    {limits : DetectorLimits}
    {detector : SensitiveDetector}
    {chunk : StreamChunk}
    (sound : Sound limits detector)
    (live : Live (chunkFlowId chunk) detector) :
    Sound limits (detector.replaceTail limits chunk) := by
  obtain ⟨state, found⟩ := Option.isSome_iff_exists.mp live
  have only := OnlyTails.replaceTail limits live
  exact {
    balanced := sound.balanced.replaceTail limits found
    ntlm := sound.ntlm.of_onlyTails only
    metadataWithin := only.metadataEntries.trans_le sound.metadataWithin
  }

/-! ## Sequences of steps -/

section Sequences

variable {limits : DetectorLimits}
variable {kept : Option FlowId}
variable {before after : SensitiveDetector}
variable {events : List DetectorEvent}

/-- Steps keep the detector sound, and correct no counter by clamping. -/
theorem Sound.of_anySteps
    (sound : Sound limits before)
    (steps : Steps (AnyStep limits) before events after) :
    Sound limits after ∧ ∀ event ∈ events, event.ClampsNothing := by
  have invariant :=
    @Steps.invariant _ _ (AnyStep limits)
      (fun log detector =>
        Sound limits detector ∧ ∀ event ∈ log, event.ClampsNothing)
      (fun holds step => by
        obtain ⟨kept, step⟩ := step
        obtain ⟨soundNext, clamps⟩ := step.sound holds.1
        refine ⟨soundNext, fun event member => ?_⟩
        rcases List.mem_append.mp member with isEarlier | isNew
        · exact holds.2 event isEarlier
        · exact clamps event isNew)
      before after [] events steps ⟨sound, by simp⟩
  simpa using invariant

theorem Sound.of_steps
    (sound : Sound limits before)
    (steps : Steps (DetectorStep limits kept) before events after) :
    Sound limits after ∧ ∀ event ∈ events, event.ClampsNothing :=
  sound.of_anySteps (steps.mono AnyStep.of)

/-- A sound detector that keeps a flow. -/
structure Ready
    (limits : DetectorLimits)
    (flowId : FlowId)
    (detector : SensitiveDetector) : Prop where
  sound : Sound limits detector
  live : Live flowId detector

/-- Steps add no flow. -/
theorem absent_of_anySteps
    {flowId : FlowId}
    (steps : Steps (AnyStep limits) before events after)
    (absent : before.flows.get? flowId = none) :
    after.flows.get? flowId = none :=
  Steps.stateInvariant
    (motive := fun (detector : SensitiveDetector) =>
      detector.flows.get? flowId = none)
    (fun isAbsent step => by
      obtain ⟨_, step⟩ := step
      exact step.absent isAbsent) steps absent

theorem Live.of_steps
    {flowId : FlowId}
    (live : Live flowId before)
    (steps :
      Steps (DetectorStep limits (some flowId)) before events after) :
    Live flowId after :=
  Steps.stateInvariant (fun live step => step.live live) steps live

theorem Ready.of_steps
    {flowId : FlowId}
    (ready : Ready limits flowId before)
    (steps :
      Steps (DetectorStep limits (some flowId)) before events after) :
    Ready limits flowId after where
  sound := (ready.sound.of_steps steps).1
  live := ready.live.of_steps steps

/-- Steps that keep a flow do not drop it. -/
theorem not_dropped_of_steps
    {flowId : FlowId}
    (steps :
      Steps (DetectorStep limits (some flowId)) before events after) :
    .dropped flowId ∉ events := by
  induction steps with
  | refl => exact List.not_mem_nil
  | tail earlier last inductionHypothesis =>
      intro member
      rcases List.mem_append.mp member with isEarlier | isLast
      · exact inductionHypothesis isEarlier
      · exact last.not_dropped isLast

end Sequences

end PacketAudit.Detector
