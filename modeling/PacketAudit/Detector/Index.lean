import PacketAudit.Detector.Accounting

namespace PacketAudit.Detector

/-!
# The index of NTLM entries

The index of the detector beside the challenges and responses of its flows.
It names every entry once, under the entry's correlation id, in the order in
which the entries were retained.
-/

open Library

/-! ## The entries of a flow -/

namespace FlowState

/-- What a flow keeps of NTLM exchanges. -/
def ntlmPart (state : FlowState) :
    OrderedTable NtlmScope NtlmChallenge × OrderedTable Nat NtlmResponse ×
      Int :=
  (state.ntlmChallenges, state.ntlmResponses, state.ntlmCorrelationBytes)

/-- The entries of a flow are measured, in order and within its limits. -/
structure KeepsNtlm
    (limits : DetectorLimits)
    (state : FlowState) : Prop where
  bytes : state.ntlmCorrelationBytes = state.ntlmRetained
  challengeSize :
    ∀ {scope challenge},
      state.ntlmChallenges.get? scope = some challenge →
      challenge.retainedSize = challenge.size
  responseSize :
    ∀ {correlationId response},
      state.ntlmResponses.get? correlationId = some response →
      response.retainedSize = response.size
  responseId :
    ∀ {correlationId response},
      state.ntlmResponses.get? correlationId = some response →
      response.correlationId = correlationId
  responseOrder :
    (state.ntlmResponses.entries.map Prod.fst).Pairwise (· < ·)
  objectsWithin :
    state.ntlmObjects ≤ limits.maxNtlmCorrelationObjectsPerFlow
  bytesWithin :
    state.ntlmCorrelationBytes ≤ limits.maxNtlmCorrelationBytesPerFlow

variable {limits : DetectorLimits}
variable {state next : FlowState}
variable {key : NtlmKey}
variable {correlationId retainedSize : Nat}

theorem KeepsNtlm.of_part
    (keeps : state.KeepsNtlm limits)
    (same : next.ntlmPart = state.ntlmPart) :
    next.KeepsNtlm limits := by
  obtain ⟨challenges, responses, bytes⟩ :
      next.ntlmChallenges = state.ntlmChallenges ∧
        next.ntlmResponses = state.ntlmResponses ∧
        next.ntlmCorrelationBytes = state.ntlmCorrelationBytes := by
    simpa [ntlmPart] using same
  exact {
    bytes := by
      rw [bytes, keeps.bytes, ntlmRetained, ntlmRetained, challenges,
        responses]
    challengeSize := by
      rw [challenges]
      exact keeps.challengeSize
    responseSize := by
      rw [responses]
      exact keeps.responseSize
    responseId := by
      rw [responses]
      exact keeps.responseId
    responseOrder := by
      rw [responses]
      exact keeps.responseOrder
    objectsWithin := by
      rw [ntlmObjects, challenges, responses]
      exact keeps.objectsWithin
    bytesWithin := by
      rw [bytes]
      exact keeps.bytesWithin
  }

theorem ntlmEntryOf_of_part
    (same : next.ntlmPart = state.ntlmPart)
    (key : NtlmKey) :
    next.ntlmEntryOf key = state.ntlmEntryOf key := by
  obtain ⟨challenges, responses, -⟩ :
      next.ntlmChallenges = state.ntlmChallenges ∧
        next.ntlmResponses = state.ntlmResponses ∧
        next.ntlmCorrelationBytes = state.ntlmCorrelationBytes := by
    simpa [ntlmPart] using same
  cases key with
  | challenge scope => rw [ntlmEntryOf, ntlmEntryOf, challenges]
  | response correlationId => rw [ntlmEntryOf, ntlmEntryOf, responses]

/-- A popped entry is gone, and no other one. -/
theorem ntlmEntryOf_popNtlm
    (state : FlowState)
    (key other : NtlmKey) :
    (state.popNtlm key).ntlmEntryOf other =
      if other = key then none else state.ntlmEntryOf other := by
  cases key with
  | challenge scope =>
      cases other with
      | challenge otherScope =>
          by_cases same : otherScope = scope
          · subst same
            simp [popNtlm, ntlmEntryOf]
          · simp [popNtlm, ntlmEntryOf, same,
              OrderedTable.get?_erase_of_ne _ same]
      | response correlationId => simp [popNtlm, ntlmEntryOf]
  | response correlationId =>
      cases other with
      | challenge scope => simp [popNtlm, ntlmEntryOf]
      | response otherId =>
          by_cases same : otherId = correlationId
          · subst same
            simp [popNtlm, ntlmEntryOf]
          · simp [popNtlm, ntlmEntryOf, same,
              OrderedTable.get?_erase_of_ne _ same]

/-- A popped entry is counted out. -/
theorem ntlm_popNtlm
    (found : state.ntlmEntryOf key = some (correlationId, retainedSize)) :
    state.ntlmObjects = (state.popNtlm key).ntlmObjects + 1 ∧
      state.ntlmRetained =
        retainedSize + (state.popNtlm key).ntlmRetained := by
  cases key with
  | challenge scope =>
      obtain ⟨challenge, stored, same⟩ := Option.map_eq_some_iff.mp found
      cases same
      have sizes := OrderedTable.size_eq_erase_add_one stored
      have sums :=
        OrderedTable.sum_eq_add_erase stored fun challenge =>
          (challenge.retainedSize : Int)
      simp only [ntlmObjects, ntlmRetained, popNtlm]
      constructor
      · omega
      · omega
  | response responseId =>
      obtain ⟨response, stored, same⟩ := Option.map_eq_some_iff.mp found
      cases same
      have sizes := OrderedTable.size_eq_erase_add_one stored
      have sums :=
        OrderedTable.sum_eq_add_erase stored fun response =>
          (response.retainedSize : Int)
      simp only [ntlmObjects, ntlmRetained, popNtlm]
      constructor
      · omega
      · omega

theorem ntlmRetained_nonneg (state : FlowState) : 0 ≤ state.ntlmRetained := by
  exact add_nonneg
    (state.ntlmChallenges.sum_nonneg fun _ => Int.natCast_nonneg _)
    (state.ntlmResponses.sum_nonneg fun _ => Int.natCast_nonneg _)

/-- A flow without one of its entries. -/
theorem KeepsNtlm.pop
    (keeps : state.KeepsNtlm limits)
    (found : state.ntlmEntryOf key = some (correlationId, retainedSize)) :
    KeepsNtlm limits {
      state.popNtlm key with
      ntlmCorrelationBytes := state.ntlmCorrelationBytes - retainedSize
    } := by
  obtain ⟨objects, retained⟩ := ntlm_popNtlm found
  have bytes := keeps.bytes
  have objectsWithin := keeps.objectsWithin
  have bytesWithin := keeps.bytesWithin
  have stillBytes :
      state.ntlmCorrelationBytes - retainedSize =
        (state.popNtlm key).ntlmRetained := by
    omega
  have challenges
      {scope : NtlmScope}
      {challenge : NtlmChallenge}
      (stored :
        (state.popNtlm key).ntlmChallenges.get? scope = some challenge) :
      state.ntlmChallenges.get? scope = some challenge := by
    cases key with
    | challenge other => exact OrderedTable.get?_of_get?_erase stored
    | response _ => exact stored
  have responses
      {responseId : Nat}
      {response : NtlmResponse}
      (stored :
        (state.popNtlm key).ntlmResponses.get? responseId =
          some response) :
      state.ntlmResponses.get? responseId = some response := by
    cases key with
    | challenge _ => exact stored
    | response other => exact OrderedTable.get?_of_get?_erase stored
  exact {
    bytes := stillBytes
    challengeSize := fun stored => keeps.challengeSize (challenges stored)
    responseSize := fun stored => keeps.responseSize (responses stored)
    responseId := fun stored => keeps.responseId (responses stored)
    responseOrder := by
      cases key with
      | challenge _ => exact keeps.responseOrder
      | response _ =>
          exact keeps.responseOrder.sublist
            (List.filter_sublist.map Prod.fst)
    objectsWithin := by
      change (state.popNtlm key).ntlmObjects ≤ _
      omega
    bytesWithin := by
      change state.ntlmCorrelationBytes - retainedSize ≤ _
      omega
  }

/-- A flow that keeps no entry retains nothing. -/
theorem ntlm_of_empty
    (keeps : state.KeepsNtlm limits)
    (empty : ∀ key, state.ntlmEntryOf key = none) :
    state.ntlmObjects = 0 ∧ state.ntlmCorrelationBytes = 0 := by
  have noChallenge : state.ntlmChallenges.entries = [] :=
    OrderedTable.entries_eq_nil fun scope => by
      simpa [ntlmEntryOf] using empty (.challenge scope)
  have noResponse : state.ntlmResponses.entries = [] :=
    OrderedTable.entries_eq_nil fun correlationId => by
      simpa [ntlmEntryOf] using empty (.response correlationId)
  rw [keeps.bytes]
  simp [ntlmObjects, ntlmRetained, OrderedTable.size, OrderedTable.sum,
    noChallenge, noResponse]

/-- The keys of a flow are those it keeps an entry under. -/
theorem mem_ntlmKeys :
    key ∈ state.ntlmKeys ↔ state.ntlmEntryOf key ≠ none := by
  cases key with
  | challenge scope =>
      rw [ntlmEntryOf, Ne, Option.map_eq_none_iff, OrderedTable.get?_eq_none,
        not_not]
      simp [ntlmKeys]
  | response correlationId =>
      rw [ntlmEntryOf, Ne, Option.map_eq_none_iff, OrderedTable.get?_eq_none,
        not_not]
      simp [ntlmKeys]

end FlowState

/-! ## The entries of all flows -/

/-- The index names every entry of every flow once, and nothing else. -/
structure NtlmConsistent
    (limits : DetectorLimits)
    (detector : SensitiveDetector) : Prop where
  flows :
    ∀ {flowId state},
      detector.flows.get? flowId = some state → state.KeepsNtlm limits
  indexed :
    ∀ {correlationId flowId key},
      detector.ntlmCorrelationIndex.get? correlationId =
          some (flowId, key) ↔
        ∃ state retainedSize,
          detector.flows.get? flowId = some state ∧
            state.ntlmEntryOf key = some (correlationId, retainedSize)
  indexOrder :
    (detector.ntlmCorrelationIndex.entries.map Prod.fst).Pairwise (· < ·)
  fresh :
    ∀ {correlationId},
      detector.ntlmCorrelationIndex.get? correlationId ≠ none →
      correlationId < detector.nextNtlmCorrelationId
  objects :
    (detector.ntlmCorrelationIndex.size : Int) =
      detector.flows.sum fun state => state.ntlmObjects
  bytes :
    detector.ntlmCorrelationBytes =
      detector.flows.sum fun state => state.ntlmCorrelationBytes
  objectsWithin :
    detector.ntlmCorrelationIndex.size ≤ limits.maxNtlmCorrelationObjects
  bytesWithin :
    detector.ntlmCorrelationBytes ≤ limits.maxNtlmCorrelationBytes

/-- A flow's state put back among the flows of its detector. -/
def Holding.rejoined
    (holding : Holding)
    (flowId : FlowId) : SensitiveDetector :=
  { holding.detector with
    flows := holding.detector.flows.set flowId holding.state }

/-- Removed entries are gone, and no other ones. -/
theorem ntlmEntryOf_removeNtlmEntries
    (keys : List NtlmKey)
    (holding : Holding)
    (other : NtlmKey) :
    (runAll removeNtlmEntry keys holding).state.state.ntlmEntryOf other =
      if other ∈ keys then none else holding.state.ntlmEntryOf other := by
  induction keys generalizing holding with
  | nil => simp [runAll]
  | cons key rest inductionHypothesis =>
      have first :
          (removeNtlmEntry key holding).state.state.ntlmEntryOf other =
            if other = key then none else holding.state.ntlmEntryOf other := by
        rw [← FlowState.ntlmEntryOf_popNtlm]
        unfold removeNtlmEntry
        split
        case h_1 absent =>
          rw [FlowState.ntlmEntryOf_popNtlm]
          split
          case isTrue same =>
            rw [same]
            exact absent
          case isFalse => rfl
        case h_2 => cases other <;> rfl
      rw [runAll, Outcome.state_andThen, inductionHypothesis, first]
      by_cases inRest : other ∈ rest
      · simp [inRest]
      · by_cases same : other = key
        · simp [same]
        · simp [inRest, same]

namespace NtlmConsistent

variable {limits : DetectorLimits}
variable {before after : SensitiveDetector}
variable {flowId : FlowId}
variable {holding : Holding}

/-- Only the index and what the flows keep of NTLM exchanges matter. -/
theorem congr
    (consistent : NtlmConsistent limits before)
    (parts :
      ∀ flowId,
        (after.flows.get? flowId).map FlowState.ntlmPart =
          (before.flows.get? flowId).map FlowState.ntlmPart)
    (index : after.ntlmCorrelationIndex = before.ntlmCorrelationIndex)
    (bytes : after.ntlmCorrelationBytes = before.ntlmCorrelationBytes)
    (next : after.nextNtlmCorrelationId = before.nextNtlmCorrelationId) :
    NtlmConsistent limits after := by
  have part
      {flowId : FlowId}
      {state : FlowState}
      (found : after.flows.get? flowId = some state) :
      ∃ old,
        before.flows.get? flowId = some old ∧
          state.ntlmPart = old.ntlmPart := by
    have same := parts flowId
    rw [found, Option.map_some] at same
    obtain ⟨old, stored, isOld⟩ := Option.map_eq_some_iff.mp same.symm
    exact ⟨old, stored, isOld.symm⟩
  have partBack
      {flowId : FlowId}
      {state : FlowState}
      (found : before.flows.get? flowId = some state) :
      ∃ new,
        after.flows.get? flowId = some new ∧
          state.ntlmPart = new.ntlmPart := by
    have same := parts flowId
    rw [found, Option.map_some] at same
    obtain ⟨new, stored, isNew⟩ := Option.map_eq_some_iff.mp same
    exact ⟨new, stored, isNew.symm⟩
  have sums
      (measure :
        OrderedTable NtlmScope NtlmChallenge ×
          OrderedTable Nat NtlmResponse × Int → Int) :
      (after.flows.sum fun state => measure state.ntlmPart) =
        before.flows.sum fun state => measure state.ntlmPart := by
    apply OrderedTable.sum_congr
    intro flowId
    have same := congrArg (Option.map measure) (parts flowId)
    rw [Option.map_map, Option.map_map] at same
    exact same
  exact {
    flows := by
      intro flowId state found
      obtain ⟨old, stored, same⟩ := part found
      exact (consistent.flows stored).of_part same
    indexed := by
      intro correlationId flowId key
      rw [index, consistent.indexed]
      constructor
      · rintro ⟨state, retainedSize, found, entry⟩
        obtain ⟨new, stored, same⟩ := partBack found
        refine ⟨new, retainedSize, stored, ?_⟩
        rw [← FlowState.ntlmEntryOf_of_part same]
        exact entry
      · rintro ⟨state, retainedSize, found, entry⟩
        obtain ⟨old, stored, same⟩ := part found
        refine ⟨old, retainedSize, stored, ?_⟩
        rw [← FlowState.ntlmEntryOf_of_part same]
        exact entry
    indexOrder := by
      rw [index]
      exact consistent.indexOrder
    fresh := by
      rw [index, next]
      exact consistent.fresh
    objects := by
      rw [index, consistent.objects]
      exact (sums fun part => ((part.1.size + part.2.1.size : Nat) : Int)).symm
    bytes := by
      rw [bytes, consistent.bytes]
      exact (sums fun part => part.2.2).symm
    objectsWithin := by
      rw [index]
      exact consistent.objectsWithin
    bytesWithin := by
      rw [bytes]
      exact consistent.bytesWithin
  }

/-- A flow that keeps the same entries as before. -/
theorem revise
    (consistent : NtlmConsistent limits before)
    {state next : FlowState}
    (found : before.flows.get? flowId = some state)
    (flows : after.flows = before.flows.set flowId next)
    (part : next.ntlmPart = state.ntlmPart)
    (index : after.ntlmCorrelationIndex = before.ntlmCorrelationIndex)
    (bytes : after.ntlmCorrelationBytes = before.ntlmCorrelationBytes)
    (nextId :
      after.nextNtlmCorrelationId = before.nextNtlmCorrelationId) :
    NtlmConsistent limits after := by
  refine consistent.congr ?_ index bytes nextId
  intro other
  rw [flows, OrderedTable.get?_set]
  split
  case isTrue same => rw [same, found, Option.map_some, Option.map_some, part]
  case isFalse => rfl

/-- A new flow that keeps no entry. -/
theorem opened
    (consistent : NtlmConsistent limits before)
    {next : FlowState}
    (absent : before.flows.get? flowId = none)
    (flows : after.flows = before.flows.set flowId next)
    (part : next.ntlmPart = FlowState.ntlmPart {})
    (index : after.ntlmCorrelationIndex = before.ntlmCorrelationIndex)
    (bytes : after.ntlmCorrelationBytes = before.ntlmCorrelationBytes)
    (nextId :
      after.nextNtlmCorrelationId = before.nextNtlmCorrelationId) :
    NtlmConsistent limits after := by
  have fresh : FlowState.KeepsNtlm limits {} := {
    bytes := rfl
    challengeSize := by
      intro scope challenge stored
      cases stored
    responseSize := by
      intro correlationId response stored
      cases stored
    responseId := by
      intro correlationId response stored
      cases stored
    responseOrder := .nil
    objectsWithin := Nat.zero_le _
    bytesWithin := Int.natCast_nonneg _
  }
  have keeps := fresh.of_part part
  have noEntry (key : NtlmKey) : next.ntlmEntryOf key = none := by
    rw [FlowState.ntlmEntryOf_of_part part]
    cases key <;> rfl
  obtain ⟨noObjects, noBytes⟩ := FlowState.ntlm_of_empty keeps noEntry
  have sums
      (measure : FlowState → Int)
      (nothing : measure next = 0) :
      after.flows.sum measure = before.flows.sum measure := by
    rw [flows, OrderedTable.sum_set, nothing, zero_add,
      OrderedTable.erase_of_get?_eq_none absent]
  exact {
    flows := by
      intro other state stored
      rw [flows, OrderedTable.get?_set] at stored
      split at stored
      · cases stored
        exact keeps
      · exact consistent.flows stored
    indexed := by
      intro correlationId other key
      rw [index, consistent.indexed, flows, OrderedTable.get?_set]
      split
      case isTrue same => simp [same, absent, noEntry]
      case isFalse => rfl
    indexOrder := by
      rw [index]
      exact consistent.indexOrder
    fresh := by
      rw [index, nextId]
      exact consistent.fresh
    objects := by
      rw [index, consistent.objects]
      exact (sums _ (by rw [noObjects, Nat.cast_zero])).symm
    bytes := by
      rw [bytes, consistent.bytes]
      exact (sums _ noBytes).symm
    objectsWithin := by
      rw [index]
      exact consistent.objectsWithin
    bytesWithin := by
      rw [bytes]
      exact consistent.bytesWithin
  }

/-- A new detector keeps nothing. -/
theorem initial (limits : DetectorLimits) : NtlmConsistent limits {} where
  flows := by
    intro flowId state found
    cases found
  indexed := by
    intro correlationId flowId key
    constructor
    · intro found
      cases found
    · rintro ⟨state, retainedSize, found, -⟩
      cases found
  indexOrder := .nil
  fresh := by
    intro correlationId found
    exact absurd rfl found
  objects := rfl
  bytes := rfl
  objectsWithin := Nat.zero_le _
  bytesWithin := Int.natCast_nonneg _

theorem bytes_nonneg
    (consistent : NtlmConsistent limits before)
    {state : FlowState}
    (found : before.flows.get? flowId = some state) :
    0 ≤ state.ntlmCorrelationBytes := by
  rw [(consistent.flows found).bytes]
  exact state.ntlmRetained_nonneg

/-- An entry of a flow is indexed under its correlation id. -/
theorem index_of_entry
    (consistent : NtlmConsistent limits before)
    {state : FlowState}
    {key : NtlmKey}
    {correlationId retainedSize : Nat}
    (found : before.flows.get? flowId = some state)
    (entry : state.ntlmEntryOf key = some (correlationId, retainedSize)) :
    before.ntlmCorrelationIndex.get? correlationId = some (flowId, key) :=
  consistent.indexed.mpr ⟨state, retainedSize, found, entry⟩

/-- Without one entry, and without its name in the index. -/
theorem unindexed
    (consistent : NtlmConsistent limits before)
    {state : FlowState}
    {key : NtlmKey}
    {correlationId retainedSize : Nat}
    (found : before.flows.get? flowId = some state)
    (entry : state.ntlmEntryOf key = some (correlationId, retainedSize))
    (flows :
      after.flows =
        before.flows.set flowId {
          state.popNtlm key with
          ntlmCorrelationBytes := state.ntlmCorrelationBytes - retainedSize
        })
    (index :
      after.ntlmCorrelationIndex =
        before.ntlmCorrelationIndex.erase correlationId)
    (bytes :
      after.ntlmCorrelationBytes =
        before.ntlmCorrelationBytes - retainedSize)
    (next : after.nextNtlmCorrelationId = before.nextNtlmCorrelationId) :
    NtlmConsistent limits after := by
  have indexed := consistent.index_of_entry found entry
  have size := OrderedTable.size_eq_erase_add_one indexed
  obtain ⟨popped, -⟩ := FlowState.ntlm_popNtlm entry
  have objects := consistent.objects
  have allBytes := consistent.bytes
  have objectsWithin := consistent.objectsWithin
  have bytesWithin := consistent.bytesWithin
  rw [OrderedTable.sum_eq_add_erase found] at objects allBytes
  -- an entry that is left is found as before
  have remaining
      {otherId : Nat}
      {other : FlowId}
      {otherKey : NtlmKey} :
      (∃ state retainedSize,
          after.flows.get? other = some state ∧
            state.ntlmEntryOf otherKey = some (otherId, retainedSize)) ↔
        (other, otherKey) ≠ (flowId, key) ∧
          ∃ state retainedSize,
            before.flows.get? other = some state ∧
              state.ntlmEntryOf otherKey = some (otherId, retainedSize) := by
    rw [flows, OrderedTable.get?_set]
    by_cases sameFlow : other = flowId
    · subst sameFlow
      have entryOf (otherKey : NtlmKey) :
          FlowState.ntlmEntryOf
              { state.popNtlm key with
                ntlmCorrelationBytes :=
                  state.ntlmCorrelationBytes - retainedSize }
              otherKey =
            if otherKey = key then none else state.ntlmEntryOf otherKey := by
        rw [← FlowState.ntlmEntryOf_popNtlm]
        cases otherKey <;> rfl
      by_cases sameKey : otherKey = key
      · simp [entryOf, sameKey]
      · simp [entryOf, sameKey, found]
    · simp [sameFlow]
  exact {
    flows := by
      intro other stored isStored
      rw [flows, OrderedTable.get?_set] at isStored
      split at isStored
      · cases isStored
        exact (consistent.flows found).pop entry
      · exact consistent.flows isStored
    indexed := by
      intro otherId other otherKey
      rw [remaining, ← consistent.indexed, index]
      by_cases sameId : otherId = correlationId
      · subst sameId
        rw [OrderedTable.get?_erase_self, indexed, Option.some.injEq]
        simp [eq_comm]
      · rw [OrderedTable.get?_erase_of_ne _ sameId]
        refine ⟨fun stored => ⟨?_, stored⟩, fun stored => stored.2⟩
        intro same
        cases same
        obtain ⟨again, retained, isFound, isEntry⟩ :=
          consistent.indexed.mp stored
        rw [found] at isFound
        cases isFound
        rw [entry] at isEntry
        cases isEntry
        exact sameId rfl
    indexOrder := by
      rw [index]
      exact consistent.indexOrder.sublist
        (List.filter_sublist.map Prod.fst)
    fresh := by
      intro otherId isIndexed
      rw [next]
      apply consistent.fresh
      intro absent
      apply isIndexed
      rw [index]
      cases stored :
          (before.ntlmCorrelationIndex.erase correlationId).get? otherId with
      | none => rfl
      | some _ =>
          rw [OrderedTable.get?_of_get?_erase stored] at absent
          cases absent
    objects := by
      rw [flows, index, OrderedTable.sum_set]
      change
        _ = ((state.popNtlm key).ntlmObjects : Int) +
          (before.flows.erase flowId).sum fun state => state.ntlmObjects
      omega
    bytes := by
      rw [flows, bytes, OrderedTable.sum_set]
      change
        _ = state.ntlmCorrelationBytes - retainedSize +
          (before.flows.erase flowId).sum
            fun state => state.ntlmCorrelationBytes
      omega
    objectsWithin := by
      rw [index]
      omega
    bytesWithin := by
      rw [bytes]
      omega
  }

/-- Removing an entry removes it from the index, and clamps nothing. -/
theorem removeNtlmEntry
    (consistent : NtlmConsistent limits (holding.rejoined flowId))
    (key : NtlmKey) :
    NtlmConsistent limits
        ((Detector.removeNtlmEntry key holding).state.rejoined flowId) ∧
      ∀ event ∈ (Detector.removeNtlmEntry key holding).events,
        event.ClampsNothing := by
  unfold Detector.removeNtlmEntry
  cases entry : holding.state.ntlmEntryOf key with
  | none => exact ⟨consistent, by simp⟩
  | some stored =>
      obtain ⟨correlationId, retainedSize⟩ := stored
      have found :
          (holding.rejoined flowId).flows.get? flowId =
            some holding.state :=
        OrderedTable.get?_set_self _ _ _
      have keeps := consistent.flows found
      have indexed := consistent.index_of_entry found entry
      obtain ⟨objects, retained⟩ := FlowState.ntlm_popNtlm entry
      have flowBytes :
          0 ≤ holding.state.ntlmCorrelationBytes - retainedSize := by
        have nonneg := (holding.state.popNtlm key).ntlmRetained_nonneg
        have bytes := keeps.bytes
        omega
      have bytesLe :
          holding.state.ntlmCorrelationBytes ≤
            holding.detector.ntlmCorrelationBytes := by
        have le :=
          OrderedTable.le_sum found
            (fun state => state.ntlmCorrelationBytes)
            fun stored => consistent.bytes_nonneg stored
        exact le.trans_eq consistent.bytes.symm
      have allBytes :
          0 ≤ holding.detector.ntlmCorrelationBytes - retainedSize := by
        omega
      dsimp only
      rw [max_eq_right flowBytes, max_eq_right allBytes]
      constructor
      · exact consistent.unindexed found entry
          (OrderedTable.set_set _ _ _ _).symm rfl rfl rfl
      · intro event member
        simp only [List.mem_cons, List.not_mem_nil, or_false] at member
        rcases member with rfl | rfl
        · exact flowBytes
        · exact allBytes

/-- Removing several entries. -/
theorem removeNtlmEntries
    (consistent : NtlmConsistent limits (holding.rejoined flowId))
    (keys : List NtlmKey) :
    let emptied := runAll Detector.removeNtlmEntry keys holding
    NtlmConsistent limits (emptied.state.rejoined flowId) ∧
      ∀ event ∈ emptied.events, event.ClampsNothing := by
  induction keys generalizing holding with
  | nil => exact ⟨consistent, by simp [runAll]⟩
  | cons key rest inductionHypothesis =>
      obtain ⟨consistentNext, firstEvents⟩ := consistent.removeNtlmEntry key
      obtain ⟨consistentLast, laterEvents⟩ :=
        inductionHypothesis consistentNext
      refine ⟨consistentLast, fun event member => ?_⟩
      rcases List.mem_append.mp member with isFirst | isLater
      · exact firstEvents event isFirst
      · exact laterEvents event isLater

/-- A flow that keeps no entry can be left out. -/
theorem forget
    (consistent : NtlmConsistent limits (holding.rejoined flowId))
    (absent : holding.detector.flows.get? flowId = none)
    (empty : ∀ key, holding.state.ntlmEntryOf key = none) :
    NtlmConsistent limits holding.detector := by
  have found :
      (holding.rejoined flowId).flows.get? flowId = some holding.state :=
    OrderedTable.get?_set_self _ _ _
  obtain ⟨noObjects, noBytes⟩ :=
    FlowState.ntlm_of_empty (consistent.flows found) empty
  have rejoinedElsewhere
      {other : FlowId}
      (different : other ≠ flowId) :
      (holding.rejoined flowId).flows.get? other =
        holding.detector.flows.get? other :=
    OrderedTable.get?_set_of_ne _ _ different
  have isElsewhere
      {other : FlowId}
      {state : FlowState}
      (stored : holding.detector.flows.get? other = some state) :
      other ≠ flowId := by
    rintro rfl
    rw [absent] at stored
    cases stored
  have sums
      (measure : FlowState → Int)
      (nothing : measure holding.state = 0) :
      (holding.rejoined flowId).flows.sum measure =
        holding.detector.flows.sum measure := by
    change (holding.detector.flows.set flowId holding.state).sum measure = _
    rw [OrderedTable.sum_set, nothing, zero_add,
      OrderedTable.erase_of_get?_eq_none absent]
  exact {
    flows := by
      intro other state stored
      apply consistent.flows
      rw [rejoinedElsewhere (isElsewhere stored)]
      exact stored
    indexed := by
      intro correlationId other key
      refine consistent.indexed.trans ⟨?_, ?_⟩
      · rintro ⟨state, retainedSize, stored, entry⟩
        by_cases same : other = flowId
        · subst same
          rw [found] at stored
          cases stored
          rw [empty key] at entry
          cases entry
        · rw [rejoinedElsewhere same] at stored
          exact ⟨state, retainedSize, stored, entry⟩
      · rintro ⟨state, retainedSize, stored, entry⟩
        refine ⟨state, retainedSize, ?_, entry⟩
        rw [rejoinedElsewhere (isElsewhere stored)]
        exact stored
    indexOrder := consistent.indexOrder
    fresh := consistent.fresh
    objects :=
      consistent.objects.trans
        (sums _ (by rw [noObjects, Nat.cast_zero]))
    bytes := consistent.bytes.trans (sums _ noBytes)
    objectsWithin := consistent.objectsWithin
    bytesWithin := consistent.bytesWithin
  }

/-- Dropping a flow removes its entries, and clamps nothing. -/
theorem dropFlow
    (consistent : NtlmConsistent limits before)
    {state : FlowState}
    (found : before.flows.get? flowId = some state) :
    NtlmConsistent limits (before.dropFlow flowId).state ∧
      ∀ event ∈
          (runAll Detector.removeNtlmEntry state.ntlmKeys
            ⟨before.popped flowId state, state⟩).events,
        event.ClampsNothing := by
  have consistentStart :
      NtlmConsistent limits
        (Holding.rejoined ⟨before.popped flowId state, state⟩ flowId) := by
    refine consistent.congr ?_ rfl rfl rfl
    intro other
    change
      (((before.flows.erase flowId).set flowId state).get? other).map _ = _
    rw [OrderedTable.get?_set]
    split
    case isTrue same => rw [same, found]
    case isFalse different => rw [OrderedTable.get?_erase_of_ne _ different]
  obtain ⟨consistentEnd, events⟩ :=
    consistentStart.removeNtlmEntries state.ntlmKeys
  refine ⟨?_, events⟩
  have flows :=
    (counted_removeNtlmEntries state.ntlmKeys
      ⟨before.popped flowId state, state⟩).1
  have consistentRest :=
    consistentEnd.forget
      (by
        rw [flows]
        exact OrderedTable.get?_erase_self _ _)
      (by
        intro key
        rw [ntlmEntryOf_removeNtlmEntries]
        split
        · rfl
        case isFalse notKey =>
          rw [FlowState.mem_ntlmKeys, not_not] at notKey
          exact notKey)
  unfold SensitiveDetector.dropFlow
  simp only [found, Outcome.state_bind]
  exact consistentRest.congr (fun _ => rfl) rfl rfl rfl

theorem removeEntry
    (consistent : NtlmConsistent limits before)
    (flowId : FlowId)
    (key : NtlmKey) :
    NtlmConsistent limits (before.removeEntry flowId key).state ∧
      ∀ event ∈ (before.removeEntry flowId key).events,
        event.ClampsNothing := by
  unfold SensitiveDetector.removeEntry
  cases found : before.flows.get? flowId with
  | none => exact ⟨consistent, by simp⟩
  | some state =>
      have consistentHere :
          NtlmConsistent limits (Holding.rejoined ⟨before, state⟩ flowId) := by
        refine consistent.congr ?_ rfl rfl rfl
        intro other
        change ((before.flows.set flowId state).get? other).map _ = _
        rw [OrderedTable.set_stored found]
      have removed := consistentHere.removeNtlmEntry key
      exact ⟨removed.1, by simpa using removed.2⟩

/-- The next correlation id is not in use. -/
theorem next_unused
    (consistent : NtlmConsistent limits before) :
    before.ntlmCorrelationIndex.get? before.nextNtlmCorrelationId = none := by
  by_contra used
  exact lt_irrefl _ (consistent.fresh used)

/-- The responses of a flow were retained before the next entry. -/
theorem responseId_lt
    (consistent : NtlmConsistent limits before)
    {state : FlowState}
    (found : before.flows.get? flowId = some state)
    {correlationId : Nat}
    {response : NtlmResponse}
    (stored : state.ntlmResponses.get? correlationId = some response) :
    correlationId < before.nextNtlmCorrelationId := by
  have sameId := (consistent.flows found).responseId stored
  have entry :
      state.ntlmEntryOf (.response correlationId) =
        some (correlationId, response.retainedSize) := by
    rw [FlowState.ntlmEntryOf, stored, Option.map_some, sameId]
  apply consistent.fresh
  rw [consistent.index_of_entry found entry]
  exact Option.some_ne_none _

/-- Room for one more entry, in its flow and in the detector. -/
structure Room
    (limits : DetectorLimits)
    (detector : SensitiveDetector)
    (state : FlowState)
    (retainedSize : Nat) : Prop where
  flowObjects : state.ntlmObjects < limits.maxNtlmCorrelationObjectsPerFlow
  flowBytes :
    state.ntlmCorrelationBytes + retainedSize ≤
      limits.maxNtlmCorrelationBytesPerFlow
  objects :
    detector.ntlmCorrelationIndex.size < limits.maxNtlmCorrelationObjects
  bytes :
    detector.ntlmCorrelationBytes + retainedSize ≤
      limits.maxNtlmCorrelationBytes

/-- With one more entry, under the next correlation id. -/
theorem indexedAnew
    (consistent : NtlmConsistent limits before)
    {state stored : FlowState}
    {key : NtlmKey}
    {retainedSize : Nat}
    (found : before.flows.get? flowId = some state)
    (absent : state.ntlmEntryOf key = none)
    (room : Room limits before state retainedSize)
    (entryOf :
      ∀ other,
        stored.ntlmEntryOf other =
          if other = key then
            some (before.nextNtlmCorrelationId, retainedSize)
          else
            state.ntlmEntryOf other)
    (storedObjects : stored.ntlmObjects = state.ntlmObjects + 1)
    (storedBytes :
      stored.ntlmCorrelationBytes =
        state.ntlmCorrelationBytes + retainedSize)
    (keeps : stored.KeepsNtlm limits)
    (flows : after.flows = before.flows.set flowId stored)
    (index :
      after.ntlmCorrelationIndex =
        before.ntlmCorrelationIndex.set before.nextNtlmCorrelationId
          (flowId, key))
    (bytes :
      after.ntlmCorrelationBytes =
        before.ntlmCorrelationBytes + retainedSize)
    (next :
      after.nextNtlmCorrelationId = before.nextNtlmCorrelationId + 1) :
    NtlmConsistent limits after := by
  have unused := consistent.next_unused
  have allObjects := consistent.objects
  have allBytes := consistent.bytes
  have size := OrderedTable.size_set_of_none unused (flowId, key)
  obtain ⟨-, -, objectsRoom, bytesRoom⟩ := room
  rw [OrderedTable.sum_eq_add_erase found] at allObjects allBytes
  exact {
    flows := by
      intro other state isStored
      rw [flows, OrderedTable.get?_set] at isStored
      split at isStored
      · cases isStored
        exact keeps
      · exact consistent.flows isStored
    indexed := by
      intro correlationId other otherKey
      rw [index, flows, OrderedTable.get?_set, OrderedTable.get?_set]
      by_cases isNew : correlationId = before.nextNtlmCorrelationId
      · -- the new entry is the only one with its id
        subst isNew
        rw [if_pos rfl]
        constructor
        · intro same
          cases same
          exact ⟨stored, retainedSize, if_pos rfl, by
            rw [entryOf, if_pos rfl]⟩
        · rintro ⟨isStored, size, isFound, entry⟩
          split at isFound
          case isTrue sameFlow =>
            cases isFound
            rw [entryOf] at entry
            split at entry
            case isTrue sameKey => rw [sameFlow, sameKey]
            case isFalse =>
              rw [consistent.index_of_entry found entry] at unused
              cases unused
          case isFalse =>
            rw [consistent.index_of_entry isFound entry] at unused
            cases unused
      · rw [if_neg isNew, consistent.indexed]
        by_cases sameFlow : other = flowId
        · subst sameFlow
          simp only [found, Option.some.injEq, ↓reduceIte, exists_and_left,
            exists_eq_left', entryOf]
          by_cases sameKey : otherKey = key
          · subst sameKey
            simp [absent, Ne.symm isNew]
          · simp only [sameKey, if_false]
        · simp only [if_neg sameFlow]
    indexOrder := by
      rw [index, OrderedTable.entries_set_of_none unused, List.map_append,
        List.pairwise_append]
      refine ⟨consistent.indexOrder, List.pairwise_singleton _ _, ?_⟩
      intro correlationId isIndexed last isLast
      rw [List.map_singleton, List.mem_singleton] at isLast
      rw [isLast]
      apply consistent.fresh
      rw [Ne, OrderedTable.get?_eq_none, not_not]
      exact isIndexed
    fresh := by
      intro correlationId isIndexed
      rw [index, OrderedTable.get?_set] at isIndexed
      rw [next]
      split at isIndexed
      case isTrue same => omega
      case isFalse =>
        have old := consistent.fresh isIndexed
        omega
    objects := by
      rw [flows, index, OrderedTable.sum_set, storedObjects]
      omega
    bytes := by
      rw [flows, bytes, OrderedTable.sum_set, storedBytes]
      omega
    objectsWithin := by
      rw [index]
      omega
    bytesWithin := by
      rw [bytes]
      exact bytesRoom
  }

/-- With one more challenge. -/
theorem storeChallenge
    (consistent : NtlmConsistent limits before)
    {state : FlowState}
    (challenge : NtlmChallenge)
    (found : before.flows.get? flowId = some state)
    (absent : state.ntlmEntryOf (.challenge challenge.scope) = none)
    (room : Room limits before state challenge.size) :
    NtlmConsistent limits (before.storeChallenge flowId challenge) := by
  have keeps := consistent.flows found
  have noChallenge : state.ntlmChallenges.get? challenge.scope = none := by
    simpa [FlowState.ntlmEntryOf] using absent
  have size := OrderedTable.size_set_of_none noChallenge {
    challenge with
    retainedSize := challenge.size
    correlationId := before.nextNtlmCorrelationId
  }
  have sum :
      ((state.ntlmChallenges.set challenge.scope {
          challenge with
          retainedSize := challenge.size
          correlationId := before.nextNtlmCorrelationId
        }).sum fun challenge => (challenge.retainedSize : Int)) =
        challenge.size +
          state.ntlmChallenges.sum fun challenge => challenge.retainedSize := by
    rw [OrderedTable.sum_set, OrderedTable.erase_of_get?_eq_none noChallenge]
  have bytes := keeps.bytes
  have objectsRoom := room.flowObjects
  unfold SensitiveDetector.storeChallenge SensitiveDetector.storeEntry
  simp only [found]
  refine consistent.indexedAnew found absent room ?_ ?_ rfl ?_ rfl rfl rfl rfl
  · intro other
    cases other with
    | challenge scope =>
        by_cases same : scope = challenge.scope
        · subst same
          simp [FlowState.ntlmEntryOf]
        · simp [FlowState.ntlmEntryOf, same,
            OrderedTable.get?_set_of_ne _ _ same]
    | response correlationId => simp [FlowState.ntlmEntryOf]
  · simp only [FlowState.ntlmObjects]
    omega
  · exact {
      bytes := by
        simp only [FlowState.ntlmRetained] at bytes ⊢
        omega
      challengeSize := by
        intro scope stored isStored
        rw [OrderedTable.get?_set] at isStored
        split at isStored
        · cases isStored
          rfl
        · exact keeps.challengeSize isStored
      responseSize := keeps.responseSize
      responseId := keeps.responseId
      responseOrder := keeps.responseOrder
      objectsWithin := by
        simp only [FlowState.ntlmObjects] at objectsRoom ⊢
        omega
      bytesWithin := room.flowBytes
    }

/-- With one more response. -/
theorem storeResponse
    (consistent : NtlmConsistent limits before)
    {state : FlowState}
    (response : NtlmResponse)
    (found : before.flows.get? flowId = some state)
    (room : Room limits before state response.size) :
    NtlmConsistent limits (before.storeResponse flowId response) := by
  have keeps := consistent.flows found
  have noResponse :
      state.ntlmResponses.get? before.nextNtlmCorrelationId = none := by
    cases stored :
        state.ntlmResponses.get? before.nextNtlmCorrelationId with
    | none => rfl
    | some other =>
        exact absurd (consistent.responseId_lt found stored) (lt_irrefl _)
  have absent :
      state.ntlmEntryOf (.response before.nextNtlmCorrelationId) = none := by
    simp [FlowState.ntlmEntryOf, noResponse]
  have size := OrderedTable.size_set_of_none noResponse {
    response with
    retainedSize := response.size
    correlationId := before.nextNtlmCorrelationId
  }
  have sum :
      ((state.ntlmResponses.set before.nextNtlmCorrelationId {
          response with
          retainedSize := response.size
          correlationId := before.nextNtlmCorrelationId
        }).sum fun response => (response.retainedSize : Int)) =
        response.size +
          state.ntlmResponses.sum fun response => response.retainedSize := by
    rw [OrderedTable.sum_set, OrderedTable.erase_of_get?_eq_none noResponse]
  have bytes := keeps.bytes
  have objectsRoom := room.flowObjects
  unfold SensitiveDetector.storeResponse SensitiveDetector.storeEntry
  simp only [found]
  refine consistent.indexedAnew found absent room ?_ ?_ rfl ?_ rfl rfl rfl rfl
  · intro other
    cases other with
    | challenge scope => simp [FlowState.ntlmEntryOf]
    | response correlationId =>
        by_cases same : correlationId = before.nextNtlmCorrelationId
        · subst same
          simp [FlowState.ntlmEntryOf]
        · simp [FlowState.ntlmEntryOf, same,
            OrderedTable.get?_set_of_ne _ _ same]
  · simp only [FlowState.ntlmObjects]
    omega
  · exact {
      bytes := by
        simp only [FlowState.ntlmRetained] at bytes ⊢
        omega
      challengeSize := keeps.challengeSize
      responseSize := by
        intro correlationId stored isStored
        rw [OrderedTable.get?_set] at isStored
        split at isStored
        · cases isStored
          rfl
        · exact keeps.responseSize isStored
      responseId := by
        intro correlationId stored isStored
        rw [OrderedTable.get?_set] at isStored
        split at isStored
        case isTrue same =>
          cases isStored
          exact same.symm
        case isFalse => exact keeps.responseId isStored
      responseOrder := by
        rw [OrderedTable.entries_set_of_none noResponse, List.map_append,
          List.pairwise_append]
        refine ⟨keeps.responseOrder, List.pairwise_singleton _ _, ?_⟩
        intro correlationId isKey last isLast
        rw [List.map_singleton, List.mem_singleton] at isLast
        obtain ⟨entry, isEntry, rfl⟩ := List.mem_map.mp isKey
        rw [isLast]
        exact consistent.responseId_lt found
          (OrderedTable.get?_eq_some.mpr isEntry)
      objectsWithin := by
        simp only [FlowState.ntlmObjects] at objectsRoom ⊢
        omega
      bytesWithin := room.flowBytes
    }

end NtlmConsistent

end PacketAudit.Detector
