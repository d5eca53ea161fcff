import PacketAudit.Detector.Scanning

namespace PacketAudit.Detector

/-!
# The loops end

Every loop that evicts something ends on its own, since each success leaves
less to evict.  The number of rounds it is given in the model is enough.
-/

open Library

section Loops

variable {limits : DetectorLimits}
variable {flowId : FlowId}
variable {detector : SensitiveDetector}

namespace SensitiveDetector

/-! ## Dropping flows -/

/-- Of some flows the oldest is dropped. -/
theorem size_dropOldest
    (nonempty : 0 < detector.flows.size) :
    (dropOldest detector).state.2 = true ∧
      (dropOldest detector).state.1.flows.size + 1 =
        detector.flows.size := by
  obtain ⟨oldest, state, isOldest, found⟩ :=
    OrderedTable.oldest?_of_pos nonempty
  unfold dropOldest
  simp only [isOldest, Outcome.state_bind, Outcome.state_quiet]
  refine ⟨trivial, ?_⟩
  rw [flows_dropFlow, ← OrderedTable.size_eq_erase_add_one found]

theorem size_dropOldestOther
    (flowId : FlowId)
    (nonempty : 0 < detector.flows.size) :
    (dropOldestOther flowId detector).state.2 = true ∧
      (dropOldestOther flowId detector).state.1.flows.size + 1 =
        detector.flows.size := by
  unfold dropOldestOther
  split
  · have moved :
        0 < ({ detector with
          flows := detector.flows.moveToEnd flowId } :
            SensitiveDetector).flows.size := by
      rw [OrderedTable.size_moveToEnd]
      exact nonempty
    obtain ⟨dropped, size⟩ := size_dropOldest moved
    exact ⟨dropped, size.trans (OrderedTable.size_moveToEnd _ _)⟩
  · exact size_dropOldest nonempty

theorem dropOthersWhile_ends
    (exceeds : SensitiveDetector → Bool)
    (flowId : FlowId)
    (detector : SensitiveDetector) :
    EndsWithin
      (fun next => exceeds next && decide (1 < next.flows.size))
      (dropOldestOther flowId) (detector.flows.size + 1) detector := by
  refine endsWithin_of_measure (fun state => state.flows.size)
    (motive := fun _ => True) (fun _ _ => trivial) ?_ trivial (Nat.lt_succ_self _)
  intro state isWanted _ _
  rw [Bool.and_eq_true, decide_eq_true_eq] at isWanted
  have size :=
    (size_dropOldestOther flowId (by omega : 0 < state.flows.size)).2
  exact Nat.lt_of_succ_le size.le

/-- Other flows are dropped until nothing is exceeded, or none is left. -/
theorem dropOthersWhile_exit
    (exceeds : SensitiveDetector → Bool)
    (flowId : FlowId)
    (detector : SensitiveDetector) :
    let alone := (dropOthersWhile exceeds flowId detector).state
    exceeds alone = false ∨ alone.flows.size ≤ 1 := by
  rcases whileSucceeds_exit (motive := fun _ => True) (fun _ _ => trivial)
      trivial (dropOthersWhile_ends exceeds flowId detector) with
    unwanted | ⟨last, -, isWanted, answered⟩
  · rw [Bool.and_eq_false_iff, decide_eq_false_iff_not, not_lt] at unwanted
    exact unwanted
  · rw [Bool.and_eq_true, decide_eq_true_eq] at isWanted
    have succeeded :=
      (size_dropOldestOther flowId
        (show 0 < last.flows.size by omega)).1
    rw [answered] at succeeded
    cases succeeded

theorem makeRoom_ends
    (limits : DetectorLimits)
    (detector : SensitiveDetector) :
    EndsWithin (flowTableFull limits) dropOldest (detector.flows.size + 1)
      detector := by
  refine endsWithin_of_measure (fun state => state.flows.size)
    (motive := fun _ => True) (fun _ _ => trivial) ?_ trivial (Nat.lt_succ_self _)
  intro state isFull _ _
  have full : limits.maxFlows ≤ state.flows.size := of_decide_eq_true isFull
  have positive := limits.maxFlows_pos
  have size := (size_dropOldest (by omega : 0 < state.flows.size)).2
  exact Nat.lt_of_succ_le size.le

/-! ## Popping spans -/

/-- A popped span is one less. -/
theorem spanCount_popSpan
    {direction : Direction}
    (hasSpan : (detector.firstSpan? flowId direction).isSome) :
    (detector.popSpan flowId direction).spanCount flowId + 1 =
      detector.spanCount flowId := by
  unfold firstSpan? at hasSpan
  unfold spanCount popSpan
  cases found : detector.flows.get? flowId with
  | none =>
      rw [stateOf, found, Option.getD_none] at hasSpan
      cases hasSpan
  | some state =>
      rw [stateOf_of_found found] at hasSpan ⊢
      cases isTail : state.directions.get? direction with
      | none =>
          rw [isTail] at hasSpan
          cases hasSpan
      | some tail =>
          rw [isTail, Option.bind_some] at hasSpan
          simp only [reviseFlow_of_found found]
          rw [stateOf, OrderedTable.get?_set_self, Option.getD_some,
            OrderedTable.total_set, OrderedTable.total_eq_add_erase isTail,
            List.length_drop]
          have positive : 0 < tail.provenanceSpans.length := by
            cases spans : tail.provenanceSpans with
            | nil =>
                rw [spans] at hasSpan
                cases hasSpan
            | cons first rest => simp
          omega

/-- A round over the directions pops a span if there is one. -/
theorem spanCount_trimSpans
    (directions : List Direction) :
    (trimSpans limits flowId directions detector).spanCount flowId ≤
        detector.spanCount flowId ∧
      ((directions.any fun direction =>
          (detector.firstSpan? flowId direction).isSome) = true →
        (trimSpans limits flowId directions detector).spanCount flowId <
          detector.spanCount flowId) := by
  induction directions generalizing detector with
  | nil => exact ⟨le_rfl, fun has => by cases has⟩
  | cons direction rest inductionHypothesis =>
      unfold trimSpans
      split
      case isTrue empty =>
        rw [List.any_cons, ← Option.not_isNone, empty]
        exact inductionHypothesis
      case isFalse hasSpan =>
        rw [Bool.not_eq_true, Option.isNone_eq_false_iff] at hasSpan
        have popped := spanCount_popSpan hasSpan
        dsimp only
        split
        · have later :
              (trimSpans limits flowId rest
                  (detector.popSpan flowId direction)).spanCount flowId ≤
                (detector.popSpan flowId direction).spanCount flowId :=
            inductionHypothesis.1
          exact ⟨by omega, fun _ => by omega⟩
        · exact ⟨by omega, fun _ => by omega⟩

theorem trimRounds_end
    (limits : DetectorLimits)
    (flowId : FlowId)
    (detector : SensitiveDetector) :
    EndsWithin (overProvenanceCap limits) (trimRound limits flowId)
      (detector.spanCount flowId + 1) detector := by
  refine endsWithin_of_measure (spanCount flowId)
    (motive := fun _ => True) (fun _ _ => trivial) ?_ trivial
    (Nat.lt_succ_self _)
  intro state _ _ succeeded
  exact (spanCount_trimSpans _).2 succeeded

end SensitiveDetector

/-! ## Evicting NTLM entries -/

/-- The oldest key of a flow is that of its entry with the least id. -/
theorem FlowState.oldestNtlmKey?_spec
    {state : FlowState}
    {key : NtlmKey}
    (keeps : state.KeepsNtlm limits)
    (isOldest : state.oldestNtlmKey? = some key) :
    ∃ correlationId retainedSize,
      state.ntlmEntryOf key = some (correlationId, retainedSize) ∧
        ∀ {other otherId otherSize},
          state.ntlmEntryOf other = some (otherId, otherSize) →
          correlationId ≤ otherId := by
  unfold oldestNtlmKey? at isOldest
  obtain ⟨⟨correlationId, least⟩, isLeast, rfl⟩ :=
    Option.map_eq_some_iff.mp isOldest
  have member := List.argmin_mem isLeast
  have entry :
      ∃ retainedSize,
        state.ntlmEntryOf least = some (correlationId, retainedSize) := by
    rcases List.mem_append.mp member with isChallenge | isResponse
    · obtain ⟨⟨scope, challenge⟩, stored, same⟩ :=
        List.mem_map.mp isChallenge
      cases same
      refine ⟨challenge.retainedSize, ?_⟩
      rw [ntlmEntryOf, OrderedTable.get?_eq_some.mpr stored,
        Option.map_some]
    · obtain ⟨first, isFirst, same⟩ := List.mem_map.mp isResponse
      cases same
      obtain ⟨response, stored⟩ :=
        OrderedTable.get?_of_oldest? (Option.mem_toList.mp isFirst)
      refine ⟨response.retainedSize, ?_⟩
      rw [ntlmEntryOf, stored, Option.map_some, keeps.responseId stored]
  obtain ⟨retainedSize, entry⟩ := entry
  refine ⟨correlationId, retainedSize, entry, ?_⟩
  intro other otherId otherSize otherEntry
  cases other with
  | challenge scope =>
      obtain ⟨challenge, stored, same⟩ :=
        Option.map_eq_some_iff.mp otherEntry
      cases same
      have isCandidate :=
        List.mem_map_of_mem
          (f := fun (entry : NtlmScope × NtlmChallenge) =>
            (entry.2.correlationId, NtlmKey.challenge entry.1))
          (OrderedTable.get?_eq_some.mp stored)
      exact
        List.le_of_mem_argmin (List.mem_append_left _ isCandidate) isLeast
  | response responseId =>
      obtain ⟨response, stored, same⟩ :=
        Option.map_eq_some_iff.mp otherEntry
      cases same
      rw [keeps.responseId stored]
      -- the first response has the least id of the responses
      have stored := OrderedTable.get?_eq_some.mp stored
      have order := keeps.responseOrder
      cases entries : state.ntlmResponses.entries with
      | nil =>
          rw [entries] at stored
          cases stored
      | cons first rest =>
          have isFirst :
              first.1 ∈ state.ntlmResponses.oldest?.toList := by
            simp [OrderedTable.oldest?, entries]
          have le :
              correlationId ≤ first.1 :=
            List.le_of_mem_argmin
              (List.mem_append_right _ (List.mem_map_of_mem isFirst)) isLeast
          rw [entries, List.map_cons, List.pairwise_cons] at order
          rw [entries] at stored
          rcases List.mem_cons.mp stored with same | isLater
          · rw [← same] at le
            exact le
          · have less :=
              order.1 responseId (OrderedTable.mem_keys isLater)
            omega

namespace SensitiveDetector

/-- Removing an entry that is kept leaves its flow and the index without it. -/
theorem removeEntry_of_entry
    {state : FlowState}
    {key : NtlmKey}
    {correlationId retainedSize : Nat}
    (found : detector.flows.get? flowId = some state)
    (entry : state.ntlmEntryOf key = some (correlationId, retainedSize)) :
    (detector.removeEntry flowId key).state.flows =
        detector.flows.set flowId {
          state.popNtlm key with
          ntlmCorrelationBytes :=
            max 0 (state.ntlmCorrelationBytes - retainedSize)
        } ∧
      (detector.removeEntry flowId key).state.ntlmCorrelationIndex =
        detector.ntlmCorrelationIndex.erase correlationId := by
  unfold removeEntry removeNtlmEntry
  simp [found, entry]

/-- An entry removed is one less. -/
theorem ntlmObjects_removeEntry
    {state : FlowState}
    {key : NtlmKey}
    {correlationId retainedSize : Nat}
    (found : detector.flows.get? flowId = some state)
    (entry : state.ntlmEntryOf key = some (correlationId, retainedSize)) :
    (detector.removeEntry flowId key).state.ntlmObjects + 1 =
        detector.ntlmObjects ∧
      ((detector.removeEntry flowId key).state.stateOf
          flowId).ntlmObjects + 1 =
        (detector.stateOf flowId).ntlmObjects := by
  obtain ⟨flows, -⟩ := removeEntry_of_entry found entry
  have popped := (FlowState.ntlm_popNtlm entry).1
  constructor
  · rw [ntlmObjects, ntlmObjects, flows, OrderedTable.total_set,
      OrderedTable.total_eq_add_erase found]
    change (state.popNtlm key).ntlmObjects + _ + 1 = _
    omega
  · rw [stateOf_of_found found, stateOf, flows, OrderedTable.get?_set_self,
      Option.getD_some]
    exact popped.symm

theorem evictionsOfFlow_end
    (limits : DetectorLimits)
    (consistent : NtlmConsistent limits detector)
    (flowId : FlowId)
    (retainedSize : Nat) :
    EndsWithin (flowNtlmFull limits flowId retainedSize)
      (evictOldestOfFlow flowId)
      ((detector.stateOf flowId).ntlmObjects + 1) detector := by
  refine endsWithin_of_measure
    (fun state => (state.stateOf flowId).ntlmObjects)
    (motive := NtlmConsistent limits) ?_ ?_ consistent (Nat.lt_succ_self _)
  · intro state _ isConsistent
    unfold evictOldestOfFlow
    split
    · exact isConsistent
    · exact (isConsistent.removeEntry flowId _).1
  · intro state _ isConsistent succeeded
    unfold evictOldestOfFlow at succeeded ⊢
    cases isOldest : (state.stateOf flowId).oldestNtlmKey? with
    | none =>
        rw [isOldest] at succeeded
        cases succeeded
    | some key =>
        cases found : state.flows.get? flowId with
        | none =>
            rw [stateOf, found, Option.getD_none] at isOldest
            cases isOldest
        | some flow =>
            rw [stateOf_of_found found] at isOldest
            obtain ⟨correlationId, size, entry, -⟩ :=
              FlowState.oldestNtlmKey?_spec (isConsistent.flows found)
                isOldest
            have fewer := (ntlmObjects_removeEntry found entry).2
            exact Nat.lt_of_succ_le fewer.le

theorem evictions_end
    (limits : DetectorLimits)
    (consistent : NtlmConsistent limits detector)
    (wanted : SensitiveDetector → Bool) :
    EndsWithin wanted evictOldestNtlmEntry (detector.ntlmObjects + 1)
      detector := by
  refine endsWithin_of_measure ntlmObjects
    (motive := NtlmConsistent limits) ?_ ?_ consistent (Nat.lt_succ_self _)
  · intro state _ isConsistent
    rw [evictOldestNtlmEntry_eq isConsistent]
    split
    · exact isConsistent
    · exact (isConsistent.removeEntry _ _).1
  · intro state _ isConsistent succeeded
    rw [evictOldestNtlmEntry_eq isConsistent] at succeeded ⊢
    cases isFirst : state.ntlmCorrelationIndex.entries.head? with
    | none =>
        rw [isFirst] at succeeded
        cases succeeded
    | some first =>
        obtain ⟨correlationId, owner, key⟩ := first
        obtain ⟨flow, size, found, entry⟩ :=
          isConsistent.indexed.mp
            (OrderedTable.get?_eq_some.mpr (List.mem_of_head? isFirst))
        have fewer := (ntlmObjects_removeEntry found entry).1
        exact Nat.lt_of_succ_le fewer.le

end SensitiveDetector

/-! ## Discarding pending authentications -/

/-- What is discarded is one less. -/
theorem PendingAuth.discardable_discardOne?
    {pending next : PendingAuth}
    (discarded : pending.discardOne? = some next) :
    next.discardable + 1 = pending.discardable := by
  have addLoss
      (marker : String × Direction)
      (pending : PendingAuth) :
      (pending.addLoss marker).discardable = pending.discardable := by
    unfold PendingAuth.addLoss
    split <;> rfl
  have firstKey
      {κ : Type}
      [DecidableEq κ]
      {text : κ → String}
      {mapping : OrderedTable κ Value}
      {key : κ}
      (isFirst : PendingAuth.firstKey? text mapping = some key) :
      mapping.size = (mapping.erase key).size + 1 := by
    obtain ⟨entry, stored, rfl⟩ :=
      List.mem_map.mp (List.argmin_mem isFirst)
    exact OrderedTable.size_eq_erase_add_one
      (OrderedTable.get?_eq_some.mpr stored)
  unfold PendingAuth.discardOne? at discarded
  cases plaintext : firstKey? keyText pending.plaintextUsers with
  | some key =>
      have sizes := firstKey plaintext
      rw [plaintext] at discarded
      cases discarded
      rw [addLoss]
      unfold discardable
      dsimp only
      omega
  | none =>
      rw [plaintext] at discarded
      dsimp only at discarded
      cases smtp :
          firstKey? (fun direction => toString (directionNumber direction))
            pending.smtpPending with
      | some key =>
          have sizes := firstKey smtp
          rw [smtp] at discarded
          cases discarded
          rw [addLoss]
          unfold discardable
          dsimp only
          omega
      | none =>
          rw [smtp] at discarded
          obtain ⟨key, imap, rfl⟩ := Option.map_eq_some_iff.mp discarded
          have sizes := firstKey imap
          rw [addLoss]
          unfold discardable
          dsimp only
          omega

namespace SensitiveDetector

theorem pendingAuth_refreshPendingAuth
    (flowId : FlowId)
    (detector : SensitiveDetector) :
    ((refreshPendingAuth flowId detector).state.stateOf
        flowId).pendingAuth =
      (detector.stateOf flowId).pendingAuth := by
  unfold refreshPendingAuth
  cases found : detector.flows.get? flowId with
  | none => rfl
  | some state =>
      rw [stateOf_of_found found, stateOf, OrderedTable.get?_set_self]
      rfl

theorem discards_end
    (limits : DetectorLimits)
    (flowId : FlowId)
    (detector : SensitiveDetector) :
    EndsWithin (overRetainedCap limits) (discardOnePendingAuthEntry flowId)
      ((detector.stateOf flowId).pendingAuth.discardable + 1) detector := by
  refine endsWithin_of_measure
    (fun state => (state.stateOf flowId).pendingAuth.discardable)
    (motive := fun _ => True) (fun _ _ => trivial) ?_ trivial
    (Nat.lt_succ_self _)
  intro state _ _ succeeded
  unfold discardOnePendingAuthEntry at succeeded ⊢
  cases discarded : (state.stateOf flowId).pendingAuth.discardOne? with
  | none =>
      rw [discarded] at succeeded
      cases succeeded
  | some next =>
      cases found : state.flows.get? flowId with
      | none =>
          rw [stateOf, found, Option.getD_none] at discarded
          cases discarded
      | some flow =>
          have fewer := PendingAuth.discardable_discardOne? discarded
          rw [Outcome.state_bind, Outcome.state_quiet,
            pendingAuth_refreshPendingAuth, reviseFlow_of_found found, stateOf,
            OrderedTable.get?_set_self, Option.getD_some]
          exact Nat.lt_of_succ_le fewer.le

end SensitiveDetector

end Loops

end PacketAudit.Detector
