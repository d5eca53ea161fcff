import PacketAudit.Detector.NtlmStore

namespace PacketAudit.Detector

/-!
# What the detector keeps is counted and bounded

After every call the counters are the sums over the flows that are kept, and
they are within their limits.
-/

open Library

section Bounded

variable {limits : DetectorLimits}
variable {detector : SensitiveDetector}

/-- A counter is the sum of what the flows hold. -/
theorem Balanced.counted_eq
    (balanced : Balanced detector)
    (counter : Counter) :
    detector.counted counter =
      detector.flows.sum fun state => state.held counter := by
  rw [balanced.counted]
  unfold OrderedTable.total OrderedTable.sum
  induction detector.flows.entries with
  | nil => rfl
  | cons entry rest inductionHypothesis =>
      rw [List.map_cons, List.map_cons, List.sum_cons, List.sum_cons,
        Pi.add_apply, inductionHypothesis]

/-- Measured flows count the sizes of their pending authentications. -/
theorem sum_of_measured
    (measured : MeasuredBut none detector) :
    (detector.flows.sum fun state => state.pendingAuthBytes) =
        (detector.flows.sum fun state => state.pendingAuth.measured.1) ∧
      (detector.flows.sum fun state => state.pendingAuthObjects) =
        detector.flows.sum fun state => state.pendingAuth.measured.2 := by
  have isMeasured
      {entry : FlowId × FlowState}
      (member : entry ∈ detector.flows.entries) :
      entry.2.Measured :=
    measured (OrderedTable.get?_eq_some.mpr member)
      (Option.some_ne_none _).symm
  constructor
  · exact congrArg List.sum
      (List.map_congr_left fun _ member => (isMeasured member).bytes)
  · exact congrArg List.sum
      (List.map_congr_left fun _ member => (isMeasured member).objects)

/-- The entries of the flows are retained in the bytes counted for them. -/
theorem NtlmConsistent.bytes_eq
    (consistent : NtlmConsistent limits detector) :
    detector.ntlmCorrelationBytes =
      detector.flows.sum FlowState.ntlmRetained := by
  rw [consistent.bytes]
  refine congrArg List.sum (List.map_congr_left fun entry member => ?_)
  exact (consistent.flows (OrderedTable.get?_eq_some.mpr member)).bytes

open SensitiveDetector

/-- Enforcing the provenance cap keeps the flow itself. -/
theorem enforceProvenanceCap_keeps
    (limits : DetectorLimits)
    (flowId : FlowId)
    (detector : SensitiveDetector) :
    .dropped flowId ∉ (enforceProvenanceCap limits flowId detector).events ∧
      (Live flowId detector →
        Live flowId (enforceProvenanceCap limits flowId detector).state) := by
  have steps := enforceProvenanceCap_steps limits flowId detector
  exact ⟨not_dropped_of_steps steps, fun live => live.of_steps steps⟩

/-- Reserving a metadata entry keeps the flow itself. -/
theorem reserveMetadataEntry_keeps
    (limits : DetectorLimits)
    (flowId : FlowId)
    (detector : SensitiveDetector) :
    .dropped flowId ∉ (reserveMetadataEntry limits flowId detector).events ∧
      (Live flowId detector →
        Live flowId
          (reserveMetadataEntry limits flowId detector).state.1) := by
  have steps :
      Steps (DetectorStep limits (some flowId)) detector
        (dropOthersWhile (metadataFull limits) flowId detector).events
        (dropOthersWhile (metadataFull limits) flowId detector).state :=
    dropOthersWhile_steps _
  have notDropped := not_dropped_of_steps steps
  have stays (live : Live flowId detector) :
      Live flowId
        (dropOthersWhile (metadataFull limits) flowId detector).state :=
    live.of_steps steps
  unfold reserveMetadataEntry
  simp only [Outcome.events_bind, Outcome.state_bind]
  split
  · exact ⟨by simpa using notDropped, stays⟩
  · exact ⟨by simpa using notDropped, stays⟩

/--
After every run of calls the metadata and provenance counters are exact and
within their limits; their enforcers never evict the flow they work for.
-/
theorem metadataAndProvenance_within
    (limits : DetectorLimits)
    (calls : List DetectorCall) :
    let detector := (run limits calls).state
    (detector.metadataEntries =
        detector.flows.sum FlowState.metadataEntries ∧
      detector.provenance.spans =
        (detector.flows.sum fun state =>
          state.flowProvenanceCounts.spans) ∧
      detector.provenance.packetIdRefs =
        detector.flows.sum fun state =>
          state.flowProvenanceCounts.packetIdRefs) ∧
    (detector.metadataEntries ≤ limits.maxMetadataEntries ∧
      detector.provenance.spans ≤ limits.maxProvenanceSpans ∧
      detector.provenance.packetIdRefs ≤
        limits.maxProvenancePacketIdRefs) ∧
    ∀ flowId other,
      (.dropped flowId ∉ (enforceProvenanceCap limits flowId other).events ∧
        (Live flowId other →
          Live flowId (enforceProvenanceCap limits flowId other).state)) ∧
      .dropped flowId ∉ (reserveMetadataEntry limits flowId other).events ∧
        (Live flowId other →
          Live flowId
            (reserveMetadataEntry limits flowId other).state.1) := by
  intro detector
  obtain ⟨-, between⟩ := run_steps limits calls
  have balanced := between.sound.balanced
  have within := between.provenance
  unfold overProvenanceCap at within
  rw [Bool.or_eq_false_iff, decide_eq_false_iff_not, not_lt,
    decide_eq_false_iff_not, not_lt] at within
  refine ⟨⟨balanced.counted_eq .metadata, balanced.counted_eq .spans,
    balanced.counted_eq .packetIdRefs⟩,
    ⟨between.sound.metadataWithin, within.1, within.2⟩, ?_⟩
  intro flowId other
  exact ⟨enforceProvenanceCap_keeps limits flowId other,
    reserveMetadataEntry_keeps limits flowId other⟩

/-- Every loop that evicts ends in the rounds it is given. -/
structure LoopsEnd
    (limits : DetectorLimits)
    (detector : SensitiveDetector) : Prop where
  makeRoom :
    EndsWithin (flowTableFull limits) dropOldest (detector.flows.size + 1)
      detector
  dropOthers :
    ∀ (exceeds : SensitiveDetector → Bool) flowId,
      EndsWithin
        (fun next => exceeds next && decide (1 < next.flows.size))
        (dropOldestOther flowId) (detector.flows.size + 1) detector
  trimRounds :
    ∀ flowId,
      EndsWithin (overProvenanceCap limits) (trimRound limits flowId)
        (detector.spanCount flowId + 1) detector
  evictionsOfFlow :
    ∀ flowId retainedSize,
      EndsWithin (flowNtlmFull limits flowId retainedSize)
        (evictOldestOfFlow flowId)
        ((detector.stateOf flowId).ntlmObjects + 1) detector
  staleEntries :
    EndsWithin staleIndexEntry popIndex
      (detector.ntlmCorrelationIndex.size + 1) detector
  evictions :
    ∀ wanted,
      EndsWithin wanted evictOldestNtlmEntry (detector.ntlmObjects + 1)
        detector
  discards :
    ∀ flowId,
      EndsWithin (overRetainedCap limits)
        (discardOnePendingAuthEntry flowId)
        ((detector.stateOf flowId).pendingAuth.discardable + 1) detector

theorem NtlmConsistent.loopsEnd
    (consistent : NtlmConsistent limits detector) :
    LoopsEnd limits detector where
  makeRoom := makeRoom_ends limits detector
  dropOthers := fun exceeds flowId =>
    dropOthersWhile_ends exceeds flowId detector
  trimRounds := fun flowId => trimRounds_end limits flowId detector
  evictionsOfFlow := evictionsOfFlow_end limits consistent
  staleEntries := .inl (staleIndexEntry_eq_false consistent)
  evictions := evictions_end limits consistent
  discards := fun flowId => discards_end limits flowId detector

/--
After every run of calls the counters of retained bytes are exact, no clamp has
changed one, and their total is within the budget; every loop on the way ends.
-/
theorem retainedBytes_within
    (limits : DetectorLimits)
    (calls : List DetectorCall) :
    let outcome := run limits calls
    let detector := outcome.state
    (detector.retainedTailBytes = detector.flows.sum FlowState.tailBytes ∧
      detector.pendingAuthBytes =
        (detector.flows.sum fun state => state.pendingAuth.measured.1) ∧
      detector.pendingAuthObjects =
        (detector.flows.sum fun state => state.pendingAuth.measured.2) ∧
      detector.ntlmCorrelationBytes =
        detector.flows.sum FlowState.ntlmRetained) ∧
    (∀ event ∈ outcome.events, event.ClampsNothing) ∧
    detector.retainedTailBytes + detector.ntlmCorrelationBytes +
        detector.pendingAuthBytes ≤ limits.maxRetainedBytes ∧
    ∀ other, Reached limits other → LoopsEnd limits other := by
  intro outcome detector
  obtain ⟨steps, between⟩ := run_steps limits calls
  have balanced := between.sound.balanced
  have measured := sum_of_measured between.measured
  have pendingBytes := balanced.counted_eq .pendingBytes
  have pendingObjects := balanced.counted_eq .pendingObjects
  have within := between.retained
  unfold overRetainedCap retainedBytes at within
  rw [decide_eq_false_iff_not, not_lt] at within
  exact ⟨⟨balanced.counted_eq .tailBytes, pendingBytes.trans measured.1,
    pendingObjects.trans measured.2, between.sound.ntlm.bytes_eq⟩,
    ((Sound.initial limits).of_runSteps steps).2, within,
    fun _ reached => reached.sound.ntlm.loopsEnd⟩

end Bounded

end PacketAudit.Detector
