import PacketAudit.Detector.Runs

namespace PacketAudit.Detector

/-!
# The store of NTLM entries

The index and the flows name the same entries in every state a run goes
through, and after every operation on such a state.  An eviction takes the
entry that was retained first, of all entries or of those of one flow.
-/

open Library

/-- The detector can be in this state at some point of a run. -/
def Reached (limits : DetectorLimits) (detector : SensitiveDetector) : Prop :=
  ∃ log, Steps (RunStep limits) {} log detector

/--
The candidate with the least correlation id leaves the index, or there is no
candidate and nothing changes.
-/
def EvictsOldest
    (isCandidate : Nat → Prop)
    (before after : SensitiveDetector) : Prop :=
  (∃ correlationId,
    isCandidate correlationId ∧
      (∀ other, isCandidate other → correlationId ≤ other) ∧
      after.ntlmCorrelationIndex =
        before.ntlmCorrelationIndex.erase correlationId) ∨
  ((∀ correlationId, ¬ isCandidate correlationId) ∧ after = before)

section Store

variable {limits : DetectorLimits}
variable {flowId : FlowId}
variable {detector : SensitiveDetector}

theorem Reached.sound (reached : Reached limits detector) :
    Sound limits detector := by
  obtain ⟨_, steps⟩ := reached
  exact ((Sound.initial limits).of_runSteps steps).1

/-- A flow without an oldest entry has no entry. -/
theorem FlowState.ntlmEntryOf_of_noOldest
    {state : FlowState}
    (noOldest : state.oldestNtlmKey? = none)
    (key : NtlmKey) :
    state.ntlmEntryOf key = none := by
  unfold oldestNtlmKey? at noOldest
  rw [Option.map_eq_none_iff, List.argmin_eq_none,
    List.append_eq_nil_iff] at noOldest
  obtain ⟨noChallenge, noResponse⟩ := noOldest
  cases key with
  | challenge scope =>
      rw [ntlmEntryOf, Option.map_eq_none_iff, OrderedTable.get?_eq_none,
        List.map_eq_nil_iff.mp noChallenge]
      exact List.not_mem_nil
  | response correlationId =>
      rw [ntlmEntryOf, Option.map_eq_none_iff, OrderedTable.get?_eq_none]
      cases entries : state.ntlmResponses.entries with
      | nil => exact List.not_mem_nil
      | cons first rest =>
          simp [OrderedTable.oldest?, entries] at noResponse

namespace SensitiveDetector

theorem evictOldestNtlmEntry_oldest
    (consistent : NtlmConsistent limits detector) :
    EvictsOldest
      (fun correlationId =>
        detector.ntlmCorrelationIndex.get? correlationId ≠ none)
      detector (evictOldestNtlmEntry detector).state.1 := by
  rw [evictOldestNtlmEntry_eq consistent]
  cases isFirst : detector.ntlmCorrelationIndex.entries with
  | nil =>
      right
      refine ⟨fun correlationId isIndexed => isIndexed ?_, rfl⟩
      rw [OrderedTable.get?_eq_none, isFirst]
      exact List.not_mem_nil
  | cons first rest =>
      obtain ⟨correlationId, owner, key⟩ := first
      have indexed :
          detector.ntlmCorrelationIndex.get? correlationId =
            some (owner, key) :=
        OrderedTable.get?_eq_some.mpr (by rw [isFirst]; simp)
      obtain ⟨state, retainedSize, found, entry⟩ :=
        consistent.indexed.mp indexed
      left
      refine ⟨correlationId, ?_, ?_, (removeEntry_of_entry found entry).2⟩
      · dsimp only
        rw [indexed]
        exact Option.some_ne_none _
      · intro other isIndexed
        have order := consistent.indexOrder
        rw [Ne, OrderedTable.get?_eq_none, not_not, isFirst] at isIndexed
        rw [isFirst, List.map_cons, List.pairwise_cons] at order
        rcases List.mem_cons.mp isIndexed with same | isLater
        · exact same.ge
        · exact (order.1 other isLater).le

theorem evictOldestOfFlow_oldest
    (consistent : NtlmConsistent limits detector)
    (flowId : FlowId) :
    EvictsOldest
      (fun correlationId =>
        ∃ key,
          detector.ntlmCorrelationIndex.get? correlationId =
            some (flowId, key))
      detector (evictOldestOfFlow flowId detector).state.1 := by
  unfold evictOldestOfFlow
  cases isOldest : (detector.stateOf flowId).oldestNtlmKey? with
  | none =>
      right
      refine ⟨?_, rfl⟩
      rintro correlationId ⟨key, indexed⟩
      obtain ⟨state, retainedSize, found, entry⟩ :=
        consistent.indexed.mp indexed
      rw [stateOf_of_found found] at isOldest
      rw [FlowState.ntlmEntryOf_of_noOldest isOldest] at entry
      cases entry
  | some key =>
      cases found : detector.flows.get? flowId with
      | none =>
          rw [stateOf, found, Option.getD_none] at isOldest
          cases isOldest
      | some state =>
          rw [stateOf_of_found found] at isOldest
          obtain ⟨correlationId, retainedSize, entry, least⟩ :=
            FlowState.oldestNtlmKey?_spec (consistent.flows found) isOldest
          left
          refine ⟨correlationId,
            ⟨key, consistent.index_of_entry found entry⟩, ?_,
            (removeEntry_of_entry found entry).2⟩
          rintro other ⟨otherKey, indexed⟩
          obtain ⟨otherState, otherSize, otherFound, otherEntry⟩ :=
            consistent.indexed.mp indexed
          rw [found] at otherFound
          cases otherFound
          exact least otherEntry

end SensitiveDetector

open SensitiveDetector in
/--
Index and flows name the same entries, within all limits: after every call of a
run, in every state reached within one, and after each operation there; and
what is evicted is the oldest entry.
-/
theorem ntlmStore_consistent (limits : DetectorLimits) :
    (∀ calls,
      Reached limits (run limits calls).state ∧
        NtlmConsistent limits (run limits calls).state) ∧
    ∀ detector,
      Reached limits detector →
      NtlmConsistent limits detector ∧
        (∀ flowId, Live flowId detector →
          (∀ challenge,
            NtlmConsistent limits
              (detector.retainNtlmChallenge limits flowId challenge).state) ∧
          (∀ response,
            NtlmConsistent limits
              (detector.retainNtlmResponse limits flowId response).state) ∧
          ∀ context response,
            context.flowId = flowId →
            NtlmConsistent limits
              (detector.correlateNtlm limits context response).state) ∧
        (∀ flowId,
          NtlmConsistent limits (detector.dropFlow flowId).state) ∧
        (∀ expiry,
          NtlmConsistent limits (detector.expire expiry).state) ∧
        NtlmConsistent limits (evictOldestNtlmEntry detector).state.1 ∧
        EvictsOldest
          (fun correlationId =>
            detector.ntlmCorrelationIndex.get? correlationId ≠ none)
          detector (evictOldestNtlmEntry detector).state.1 ∧
        ∀ flowId,
          NtlmConsistent limits
              (evictOldestOfFlow flowId detector).state.1 ∧
            EvictsOldest
              (fun correlationId =>
                ∃ key,
                  detector.ntlmCorrelationIndex.get? correlationId =
                    some (flowId, key))
              detector (evictOldestOfFlow flowId detector).state.1 := by
  have consistentAfter
      (kept : Option FlowId)
      {detector after : SensitiveDetector}
      {events : List DetectorEvent}
      (sound : Sound limits detector)
      (steps : Steps (DetectorStep limits kept) detector events after) :
      NtlmConsistent limits after :=
    (sound.of_steps steps).1.ntlm
  refine ⟨fun calls => ?_, fun detector reached => ?_⟩
  · obtain ⟨steps, between⟩ := run_steps limits calls
    exact ⟨⟨_, steps⟩, between.sound.ntlm⟩
  have sound := reached.sound
  have consistent := sound.ntlm
  refine ⟨consistent, fun flowId live => ⟨fun challenge => ?_,
    fun response => ?_, ?_⟩, fun flowId => ?_, fun expiry => ?_, ?_, ?_,
    fun flowId => ⟨?_, ?_⟩⟩
  · exact consistentAfter _ sound
      (retainNtlmChallenge_steps ⟨sound, live⟩ challenge)
  · exact consistentAfter _ sound
      (retainNtlmResponse_steps ⟨sound, live⟩ response)
  · rintro context response rfl
    exact consistentAfter _ sound (correlateNtlm_steps limits live response)
  · exact consistentAfter _ sound (dropFlow_steps flowId)
  · exact consistentAfter _ sound (detector.expire_dropSteps limits expiry)
  · exact consistentAfter none sound
      (evictOldestNtlmEntry_steps consistent)
  · exact evictOldestNtlmEntry_oldest consistent
  · exact consistentAfter none sound
      (evictOldestOfFlow_steps flowId)
  · exact evictOldestOfFlow_oldest consistent flowId

/-- A challenge is retained for the first flow of a detector. -/
theorem ntlmStore_consistent_firstChallenge :
    let flowId : FlowId :=
      ⟨⟨6, ⟨"10.0.0.1", 1234⟩, ⟨"10.0.0.2", 445⟩, "eth0", []⟩, some 0⟩
    let opened : SensitiveDetector :=
      { flows := OrderedTable.empty.set flowId { lastActivityNs := 7 } }
    NtlmConsistent .default
      (opened.retainNtlmChallenge .default flowId {
        direction := .bToA
        offset := 12
        timestampNs := 5
        challenge := [1, 2, 3, 4, 5, 6, 7, 8]
        packetIds := [3]
      }).state := by
  intro flowId opened
  have reached : Reached .default opened :=
    have step : RunStep .default {} [] opened := .opens rfl 7
    ⟨[], .single step⟩
  have live : Live flowId opened := by
    unfold Live
    rw [OrderedTable.get?_set_self]
    rfl
  exact (((ntlmStore_consistent .default).2 opened reached).2.1 flowId live).1 _

end Store

end PacketAudit.Detector
