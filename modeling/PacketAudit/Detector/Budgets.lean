import PacketAudit.Detector.Loops

namespace PacketAudit.Detector

/-!
# The caps are met

Where the loops of a cap have ended, the cap is met, and nothing but the merging
of a chunk counts spans in again.
-/

open Library

/-! ## Counts of spans -/

/-- Neither count is higher than the other one. -/
structure ProvenanceCounts.AtMost (left right : ProvenanceCounts) : Prop where
  spans : left.spans ≤ right.spans
  packetIdRefs : left.packetIdRefs ≤ right.packetIdRefs

namespace ProvenanceCounts.AtMost

theorem refl (counts : ProvenanceCounts) : counts.AtMost counts :=
  ⟨le_rfl, le_rfl⟩

theorem trans
    {first second third : ProvenanceCounts}
    (earlier : first.AtMost second)
    (later : second.AtMost third) :
    first.AtMost third :=
  ⟨earlier.spans.trans later.spans,
    earlier.packetIdRefs.trans later.packetIdRefs⟩

end ProvenanceCounts.AtMost

@[simp] theorem provenanceCounts_cons
    (span : ProvenanceSpan)
    (spans : List ProvenanceSpan) :
    provenanceCounts (span :: spans) =
      ⟨1 + (provenanceCounts spans).spans,
        span.packetIds.length + (provenanceCounts spans).packetIdRefs⟩ := by
  simp [provenanceCounts, add_comm]

@[simp] theorem provenanceCounts_append
    (first second : List ProvenanceSpan) :
    provenanceCounts (first ++ second) =
      ⟨(provenanceCounts first).spans + (provenanceCounts second).spans,
        (provenanceCounts first).packetIdRefs +
          (provenanceCounts second).packetIdRefs⟩ := by
  simp [provenanceCounts]

theorem ProvenanceCounts.AtMost.append
    {first second : List ProvenanceSpan}
    (atMost : (provenanceCounts first).AtMost (provenanceCounts second))
    (rest : List ProvenanceSpan) :
    (provenanceCounts (first ++ rest)).AtMost
      (provenanceCounts (second ++ rest)) := by
  rw [provenanceCounts_append, provenanceCounts_append]
  exact ⟨add_le_add_left atMost.spans _, add_le_add_left atMost.packetIdRefs _⟩

theorem provenanceCounts_perm
    {first second : List ProvenanceSpan}
    (perm : first.Perm second) :
    provenanceCounts first = provenanceCounts second := by
  unfold provenanceCounts
  rw [perm.length_eq, (perm.map _).sum_eq]

theorem length_addPacketIds_le (known added : List Nat) :
    (addPacketIds known added).length ≤ known.length + added.length := by
  induction added generalizing known with
  | nil => simp
  | cons first rest inductionHypothesis =>
      rw [addPacketIds_cons, List.length_cons]
      refine (inductionHypothesis _).trans ?_
      split
      · omega
      · rw [List.length_append, List.length_singleton]
        omega

theorem counts_pushSpan
    (known : List ProvenanceSpan)
    (span : ProvenanceSpan) :
    (provenanceCounts (pushSpan known span.normalized)).AtMost
      (provenanceCounts (known ++ [span])) := by
  have unique : span.normalized.packetIds.length ≤ span.packetIds.length := by
    simpa [ProvenanceSpan.normalized, uniqueIds] using
      length_addPacketIds_le [] span.packetIds
  rcases pushSpan_cases known span.normalized with
    appended | ⟨front, previous, rfl, -, -, -, merged⟩
  · rw [appended]
    constructor
    · simp
    · simpa [provenanceCounts] using unique
  · rw [merged]
    constructor
    · simp [provenanceCounts]
    · simp [provenanceCounts]

theorem counts_coalesceProvenance (spans : List ProvenanceSpan) :
    (provenanceCounts (coalesceProvenance spans)).AtMost
      (provenanceCounts spans) := by
  have folded (known added : List ProvenanceSpan) :
      (provenanceCounts
          (added.foldl
            (fun result span => pushSpan result span.normalized)
            known)).AtMost
        (provenanceCounts (known ++ added)) := by
    induction added generalizing known with
    | nil =>
        rw [List.append_nil]
        exact .refl _
    | cons first rest inductionHypothesis =>
        have pushed := (counts_pushSpan known first).append rest
        rw [List.append_assoc, List.singleton_append] at pushed
        exact (inductionHypothesis _).trans pushed
  have filtered :
      (provenanceCounts
          (spans.filter fun span => span.streamStart < span.streamEnd)).AtMost
        (provenanceCounts spans) := by
    induction spans with
    | nil => exact .refl _
    | cons span rest inductionHypothesis =>
        obtain ⟨fewer, fewerRefs⟩ := inductionHypothesis
        rw [List.filter_cons]
        split
        · rw [provenanceCounts_cons, provenanceCounts_cons]
          exact ⟨by simpa using fewer, by simpa using fewerRefs⟩
        · rw [provenanceCounts_cons]
          exact ⟨by dsimp only; omega, by dsimp only; omega⟩
  refine (folded [] _).trans ?_
  rw [List.nil_append, provenanceCounts_perm (List.mergeSort_perm _ _)]
  exact filtered

theorem counts_clipProvenance
    (spans : List ProvenanceSpan)
    (first last : Int) :
    (provenanceCounts (clipProvenance spans first last)).AtMost
      (provenanceCounts spans) := by
  refine (counts_coalesceProvenance _).trans ?_
  induction spans with
  | nil => exact .refl _
  | cons span rest inductionHypothesis =>
      obtain ⟨fewer, fewerRefs⟩ := inductionHypothesis
      unfold clipped
      rw [provenanceCounts_cons]
      split
      · exact ⟨by dsimp only; omega, by dsimp only; omega⟩
      split
      · obtain ⟨spansNonneg, refsNonneg⟩ := provenanceCounts_nonneg rest
        constructor
        · change (0 : Int) ≤ 1 + _
          omega
        · change (0 : Int) ≤ _ + _
          omega
      · rw [provenanceCounts_cons]
        exact ⟨by simpa using fewer, by simpa using fewerRefs⟩

section Budgets

variable {limits : DetectorLimits}
variable {flowId : FlowId}
variable {detector : SensitiveDetector}

namespace SensitiveDetector

/-- A popped span is counted out. -/
theorem provenance_popSpan
    (detector : SensitiveDetector)
    (flowId : FlowId)
    (direction : Direction) :
    (detector.popSpan flowId direction).provenance.AtMost
      detector.provenance := by
  unfold popSpan
  split
  · exact .refl _
  case h_2 tail _ =>
    change
      (detector.provenance.appended tail.provenanceSpans
        (tail.provenanceSpans.drop 1)).AtMost _
    cases tail.provenanceSpans with
    | nil =>
        rw [List.drop_nil, ProvenanceCounts.appended_self]
        exact .refl _
    | cons first rest =>
        rw [List.drop_one, List.tail_cons]
        unfold ProvenanceCounts.appended
        rw [provenanceCounts_cons]
        constructor
        · dsimp only
          omega
        · dsimp only
          omega

/-- Trimming tails counts no span in. -/
theorem provenance_keepLasts
    (keep : (Direction × DirectionState) × Nat → Nat)
    {tails : List ((Direction × DirectionState) × Nat)}
    {counts : ProvenanceCounts}
    (spans : 0 ≤ counts.spans)
    (packetIdRefs : 0 ≤ counts.packetIdRefs) :
    (tails.foldl
        (fun counts entry => keepLastCounts (keep entry) entry.1.2 counts)
        counts).AtMost counts := by
  induction tails generalizing counts with
  | nil => exact .refl _
  | cons entry rest inductionHypothesis =>
      rw [List.foldl_cons]
      have first :
          (keepLastCounts (keep entry) entry.1.2 counts).AtMost counts ∧
            0 ≤ (keepLastCounts (keep entry) entry.1.2 counts).spans ∧
            0 ≤ (keepLastCounts (keep entry) entry.1.2
              counts).packetIdRefs := by
        unfold keepLastCounts
        split
        case isFalse => exact ⟨.refl _, spans, packetIdRefs⟩
        case isTrue long =>
          obtain ⟨fewer, fewerRefs⟩ :
              (provenanceCounts
                (keepLast (keep entry) entry.1.2).provenanceSpans).AtMost
                (provenanceCounts entry.1.2.provenanceSpans) := by
            unfold keepLast
            rw [if_pos long]
            exact (counts_coalesceProvenance _).trans
              (counts_clipProvenance _ _ _)
          refine ⟨⟨?_, ?_⟩, le_max_left _ _, le_max_left _ _⟩
          · exact max_le spans (by omega)
          · exact max_le packetIdRefs (by omega)
      obtain ⟨atMost, nonneg, refsNonneg⟩ := first
      exact (inductionHypothesis nonneg refsNonneg).trans atMost

end SensitiveDetector

open SensitiveDetector in
/-- Only the merging of a chunk counts spans in. -/
theorem DetectorStep.provenance_atMost
    {kept : Option FlowId}
    {before after : SensitiveDetector}
    {events : List DetectorEvent}
    (step : DetectorStep limits kept before events after)
    (balanced : Balanced before) :
    after.provenance.AtMost before.provenance := by
  cases step with
  | @drops flowId notKept =>
      cases found : before.flows.get? flowId with
      | none =>
          simp only [SensitiveDetector.dropFlow, found]
          exact .refl _
      | some state =>
          have rest := balanced.counted_dropFlow found
          have nonneg := balanced.nonneg found
          have spans := congrFun rest .spans
          have refs := congrFun rest .packetIdRefs
          constructor
          · change (before.dropFlow flowId).state.provenance.spans =
              before.provenance.spans - state.held .spans at spans
            have held : 0 ≤ state.held .spans := nonneg .spans
            omega
          · change (before.dropFlow flowId).state.provenance.packetIdRefs =
              before.provenance.packetIdRefs -
                state.held .packetIdRefs at refs
            have held : 0 ≤ state.held .packetIdRefs :=
              nonneg .packetIdRefs
            omega
  | pops flowId direction => exact provenance_popSpan before flowId direction
  | trims flowId =>
      unfold trimTails
      split
      · exact .refl _
      · dsimp only
        exact provenance_keepLasts _ (balanced.counted_nonneg .spans)
          (balanced.counted_nonneg .packetIdRefs)
  | removes flowId key =>
      rcases before.removeEntry_cases flowId key with
        nothing | ⟨state, correlationId, retainedSize, -, -, removed⟩
      · rw [nothing]
        exact .refl _
      · rw [removed]
        exact .refl _
  | storesChallenge challenge found absent room =>
      simp only [storeChallenge, storeEntry, found]
      exact .refl _
  | storesResponse response found room =>
      simp only [storeResponse, storeEntry, found]
      exact .refl _
  | refreshes flowId =>
      unfold refreshPendingAuth
      split <;> exact .refl _
  | _ => exact .refl _

theorem provenance_atMost_of_anySteps
    {before after : SensitiveDetector}
    {events : List DetectorEvent}
    (steps : Steps (AnyStep limits) before events after)
    (sound : Sound limits before) :
    after.provenance.AtMost before.provenance := by
  induction steps with
  | refl => exact .refl _
  | tail earlier last inductionHypothesis =>
      obtain ⟨_, last⟩ := last
      have balanced := (sound.of_anySteps earlier).1.balanced
      exact (last.provenance_atMost balanced).trans inductionHypothesis

namespace SensitiveDetector

/-! ## The provenance cap -/

/-- A flow without spans counts none. -/
theorem heldProvenance_of_empty
    {state : FlowState}
    (empty :
      ∀ {direction tail},
        state.directions.get? direction = some tail →
        tail.provenanceSpans = []) :
    state.held .spans = 0 ∧ state.held .packetIdRefs = 0 := by
  have noSpans
      {entry : Direction × DirectionState}
      (member : entry ∈ state.directions.entries) :
      entry.2.provenanceSpans = [] :=
    empty (OrderedTable.get?_eq_some.mpr member)
  constructor
  · apply List.sum_eq_zero
    intro amount member
    obtain ⟨entry, isEntry, rfl⟩ := List.mem_map.mp member
    dsimp only
    rw [noSpans isEntry]
    rfl
  · apply List.sum_eq_zero
    intro amount member
    obtain ⟨entry, isEntry, rfl⟩ := List.mem_map.mp member
    dsimp only
    rw [noSpans isEntry]
    rfl

/-- The cap is met where it has been enforced, the flow itself included. -/
theorem enforceProvenanceCap_within
    (ready : Ready limits flowId detector) :
    (enforceProvenanceCap limits flowId detector).state.overProvenanceCap
      limits = false := by
  set alone :=
    (dropOthersWhile (overProvenanceCap limits) flowId detector).state
  have aloneReady : Ready limits flowId alone :=
    ready.of_steps (dropOthersWhile_steps _)
  rcases dropOthersWhile_exit (overProvenanceCap limits) flowId
      detector with within | single
  · -- the other flows were enough, and no span is popped
    unfold enforceProvenanceCap whileSucceeds
    simp only [Outcome.state_bind, within, Bool.false_eq_true, if_false,
      Outcome.state_quiet]
  obtain ⟨state, found⟩ := Option.isSome_iff_exists.mp aloneReady.live
  have isAlone {other : FlowId} (different : other ≠ flowId) :
      alone.flows.get? other = none :=
    OrderedTable.get?_of_size_le_one found single different
  rcases whileSucceeds_exit
      (motive := fun next =>
        Steps (DetectorStep limits (some flowId)) alone [] next)
      (fun _ steps => steps.trans (trimSpans_steps _)) (.refl alone)
      (trimRounds_end limits flowId alone) with
    within | ⟨last, steps, isOver, answered⟩
  · exact within
  · -- the flow is alone and has no spans, so there is nothing to count
    exfalso
    have lastReady := aloneReady.of_steps steps
    obtain ⟨lastState, lastFound⟩ :=
      Option.isSome_iff_exists.mp lastReady.live
    have counted := lastReady.sound.balanced.counted
    rw [OrderedTable.total_of_alone lastFound
      (fun other different => absent_of_anySteps (steps.mono .of)
        (isAlone different))]
      at counted
    have empty
        {direction : Direction}
        {tail : DirectionState}
        (isTail : lastState.directions.get? direction = some tail) :
        tail.provenanceSpans = [] := by
      have noSpan := congrArg Prod.snd answered
      unfold trimRound at noSpan
      rw [Outcome.state_quiet, stateOf_of_found lastFound,
        List.any_eq_false] at noSpan
      have noFirst :=
        noSpan direction
          (OrderedTable.mem_keys (OrderedTable.get?_eq_some.mp isTail))
      rw [firstSpan?, stateOf_of_found lastFound, isTail, Option.bind_some,
        Bool.not_eq_true, Option.isSome_eq_false_iff, Option.isNone_iff_eq_none,
        List.head?_eq_none_iff] at noFirst
      exact noFirst
    obtain ⟨noSpans, noRefs⟩ := heldProvenance_of_empty empty
    have spans : last.provenance.spans = 0 :=
      (congrFun counted .spans).trans noSpans
    have refs : last.provenance.packetIdRefs = 0 :=
      (congrFun counted .packetIdRefs).trans noRefs
    unfold overProvenanceCap at isOver
    rw [spans, refs, Bool.or_eq_true, decide_eq_true_eq,
      decide_eq_true_eq] at isOver
    omega

/-! ## The caps at the end of a call -/

theorem discardOnePendingAuthEntry_steps
    (limits : DetectorLimits)
    (live : Live flowId detector) :
    Steps (DetectorStep limits (some flowId)) detector
      (discardOnePendingAuthEntry flowId detector).events
      (discardOnePendingAuthEntry flowId detector).state.1 := by
  obtain ⟨state, found⟩ := Option.isSome_iff_exists.mp live
  unfold discardOnePendingAuthEntry
  split
  · exact .refl detector
  case h_2 pending _ =>
    have discarded :
        Steps (DetectorStep limits (some flowId)) detector []
          (detector.reviseFlow flowId fun state =>
            { state with pendingAuth := pending }) := by
      rw [reviseFlow_of_found found]
      exact .single (.pends rfl found pending)
    simpa using discarded.tail (.refreshes flowId)

/-- Once other flows have been dropped, only the flow itself is shrunk. -/
theorem shrinkRetained_alone
    (ready : Ready limits flowId detector) :
    let alone := dropOthersWhile (overRetainedCap limits) flowId detector
    let shrunk := detector.shrinkRetained limits flowId
    ∃ later,
      shrunk.events = alone.events ++ later ∧
        Steps (DetectorStep limits (some flowId)) alone.state later
          shrunk.state := by
  intro alone shrunk
  have aloneReady : Ready limits flowId alone.state :=
    ready.of_steps (dropOthersWhile_steps _)
  set trimmed :=
    if alone.state.overRetainedCap limits then
      alone.state.trimTails limits flowId
    else alone.state
  have trims :
      Steps (DetectorStep limits (some flowId)) alone.state [] trimmed := by
    unfold trimmed
    split
    · exact .single (.trims flowId)
    · exact .refl _
  set unpaired :=
    whileSucceeds (overRetainedCap limits) evictOldestNtlmEntry
      (trimmed.ntlmObjects + 1) trimmed
  have trimmedReady := aloneReady.of_steps trims
  have evicted :
      Steps (DetectorStep limits (some flowId)) trimmed unpaired.events
        unpaired.state :=
    whileSucceeds_steps
      (fun _ isReady =>
        isReady.of_steps (evictOldestNtlmEntry_steps isReady.sound.ntlm))
      (fun _ isReady => evictOldestNtlmEntry_steps isReady.sound.ntlm) _
      trimmedReady
  set bare :=
    whileSucceeds (overRetainedCap limits)
      (discardOnePendingAuthEntry flowId)
      ((unpaired.state.stateOf flowId).pendingAuth.discardable + 1)
      unpaired.state
  have discarded :
      Steps (DetectorStep limits (some flowId)) unpaired.state bare.events
        bare.state :=
    whileSucceeds_steps (motive := Live flowId)
      (fun _ isLive =>
        isLive.of_steps (discardOnePendingAuthEntry_steps limits isLive))
      (fun _ isLive => discardOnePendingAuthEntry_steps limits isLive) _
      (trimmedReady.of_steps evicted).live
  exact ⟨unpaired.events ++ bare.events, rfl,
    trims.trans (evicted.trans discarded)⟩

theorem shrinkRetained_steps
    (ready : Ready limits flowId detector) :
    (detector.shrinkRetained limits flowId).FollowsFrom
      (DetectorStep limits (some flowId)) detector := by
  have dropped :
      Steps (DetectorStep limits (some flowId)) detector
        (dropOthersWhile (overRetainedCap limits) flowId detector).events
        (dropOthersWhile (overRetainedCap limits) flowId detector).state :=
    dropOthersWhile_steps _
  obtain ⟨later, events, steps⟩ := shrinkRetained_alone ready
  unfold Outcome.FollowsFrom
  rw [events]
  exact dropped.trans steps

theorem dropFlow_steps (flowId : FlowId) :
    (detector.dropFlow flowId).FollowsFrom (DetectorStep limits none)
      detector :=
  Steps.single (.drops (Option.some_ne_none flowId).symm)

theorem enforceRetainedCap_steps
    (ready : Ready limits flowId detector) :
    (detector.enforceRetainedCap limits flowId).FollowsFrom
      (AnyStep limits) detector := by
  have shrunk :
      Steps (DetectorStep limits (some flowId)) detector
        (detector.shrinkRetained limits flowId).events
        (detector.shrinkRetained limits flowId).state :=
    shrinkRetained_steps ready
  unfold enforceRetainedCap
  refine Outcome.FollowsFrom.andThen (shrunk.mono .of) ?_
  split
  · exact Steps.mono .of (dropFlow_steps flowId)
  · exact .quiet _

theorem scanAndEnforce_steps
    {context : ScanContext}
    (ready : Ready limits context.flowId detector)
    (effects : List ScanEffect) :
    (detector.scanAndEnforce limits context effects).FollowsFrom
      (AnyStep limits) detector := by
  have scanned :
      Steps (DetectorStep limits (some context.flowId)) detector
        (runAll (perform limits context) effects detector).events
        (runAll (perform limits context) effects detector).state :=
    scan_steps ready effects
  have refreshed := scanned.tail (.refreshes context.flowId)
  have enforced := enforceRetainedCap_steps (ready.of_steps refreshed)
  exact Outcome.FollowsFrom.andThen (refreshed.mono .of) enforced

/-! ## The retained cap -/

/-- Where the cap is met already, nothing is shrunk. -/
theorem shrinkRetained_of_within
    (within :
      (dropOthersWhile (overRetainedCap limits) flowId
        detector).state.overRetainedCap limits = false) :
    (detector.shrinkRetained limits flowId).state =
      (dropOthersWhile (overRetainedCap limits) flowId detector).state := by
  unfold shrinkRetained
  simp [whileSucceeds, within]

/-- A detector without flows retains nothing. -/
theorem retainedBytes_of_empty
    (sound : Sound limits detector)
    (empty : ∀ flowId, detector.flows.get? flowId = none) :
    detector.retainedBytes = 0 := by
  have noFlow := OrderedTable.entries_eq_nil empty
  have counted := sound.balanced.counted
  have bytes := sound.ntlm.bytes
  have noTotal :
      (detector.flows.total fun _ state => state.held) = 0 := by
    simp [OrderedTable.total, noFlow]
  rw [noTotal] at counted
  rw [OrderedTable.sum, noFlow, List.map_nil, List.sum_nil] at bytes
  have tails : detector.retainedTailBytes = 0 := congrFun counted .tailBytes
  have pending : detector.pendingAuthBytes = 0 :=
    congrFun counted .pendingBytes
  rw [retainedBytes, tails, bytes, pending]
  rfl

/-- The cap is met where it has been enforced. -/
theorem enforceRetainedCap_within
    (ready : Ready limits flowId detector) :
    (detector.enforceRetainedCap limits flowId).state.overRetainedCap
      limits = false := by
  set alone :=
    (dropOthersWhile (overRetainedCap limits) flowId detector).state
  set shrunk := (detector.shrinkRetained limits flowId).state
  have enforced :
      (detector.enforceRetainedCap limits flowId).state =
        (if shrunk.overRetainedCap limits then shrunk.dropFlow flowId
          else .quiet shrunk).state := rfl
  rw [enforced]
  split
  case isFalse within => exact Bool.eq_false_of_not_eq_true within
  case isTrue isOver =>
    rcases dropOthersWhile_exit (overRetainedCap limits) flowId
        detector with within | single
    · have same : shrunk = alone := shrinkRetained_of_within within
      rw [same] at isOver
      exact absurd isOver (Bool.eq_false_iff.mp within)
    -- the flow that is dropped was the only one
    obtain ⟨later, -, steps⟩ := shrinkRetained_alone ready
    have aloneReady : Ready limits flowId alone :=
      ready.of_steps (dropOthersWhile_steps _)
    obtain ⟨state, found⟩ := Option.isSome_iff_exists.mp aloneReady.live
    have dropped : Steps (AnyStep limits) alone
        (later ++ (shrunk.dropFlow flowId).events)
        (shrunk.dropFlow flowId).state :=
      (steps.mono .of).trans (Steps.mono .of (dropFlow_steps flowId))
    have nothing :=
      retainedBytes_of_empty (aloneReady.sound.of_anySteps dropped).1 (by
        intro other
        by_cases same : other = flowId
        · rw [same, flows_dropFlow]
          exact OrderedTable.get?_erase_self _ _
        · exact absent_of_anySteps dropped
            (OrderedTable.get?_of_size_le_one found single same))
    unfold overRetainedCap
    rw [nothing]
    exact decide_eq_false (by omega)

/-- Dropping a flow retains no more. -/
theorem retainedBytes_dropFlow_le
    (sound : Sound limits detector)
    (flowId : FlowId) :
    (detector.dropFlow flowId).state.retainedBytes ≤
      detector.retainedBytes := by
  cases found : detector.flows.get? flowId with
  | none =>
      rw [dropFlow, found]
      exact le_rfl
  | some state =>
      have dropped :
          Steps (DetectorStep limits none) detector
            (detector.dropFlow flowId).events
            (detector.dropFlow flowId).state :=
        dropFlow_steps flowId
      have rest := sound.balanced.counted_dropFlow found
      have nonneg := sound.balanced.nonneg found
      have tails := congrFun rest .tailBytes
      have pending := congrFun rest .pendingBytes
      have tailsHeld : 0 ≤ state.held .tailBytes := nonneg .tailBytes
      have pendingHeld : 0 ≤ state.held .pendingBytes :=
        nonneg .pendingBytes
      change (detector.dropFlow flowId).state.retainedTailBytes =
        detector.retainedTailBytes - state.held .tailBytes at tails
      change (detector.dropFlow flowId).state.pendingAuthBytes =
        detector.pendingAuthBytes - state.held .pendingBytes at pending
      have before := sound.ntlm.bytes
      have bytes := (sound.of_steps dropped).1.ntlm.bytes
      have ntlmHeld : 0 ≤ state.ntlmCorrelationBytes := by
        rw [(sound.ntlm.flows found).bytes]
        exact state.ntlmRetained_nonneg
      rw [flows_dropFlow] at bytes
      rw [OrderedTable.sum_eq_add_erase found, ← bytes] at before
      unfold retainedBytes
      omega

end SensitiveDetector

/-! ## The sizes of pending authentications -/

/-- The recorded sizes are those of the pending authentications. -/
structure FlowState.Measured (state : FlowState) : Prop where
  bytes : state.pendingAuthBytes = state.pendingAuth.measured.1
  objects : state.pendingAuthObjects = state.pendingAuth.measured.2

/-- They are for every flow, or for every flow but one. -/
def MeasuredBut
    (pending : Option FlowId)
    (detector : SensitiveDetector) : Prop :=
  ∀ ⦃flowId state⦄,
    detector.flows.get? flowId = some state →
    pending ≠ some flowId → state.Measured

namespace MeasuredBut

variable {pending : Option FlowId}
variable {before after : SensitiveDetector}

theorem weaken
    (measured : MeasuredBut none detector)
    (pending : Option FlowId) :
    MeasuredBut pending detector :=
  fun _ _ found _ => measured found (Option.some_ne_none _).symm

/-- One flow is changed. -/
theorem set
    {next : FlowState}
    (measured : MeasuredBut pending before)
    (isMeasured : pending ≠ some flowId → next.Measured)
    (flows : after.flows = before.flows.set flowId next) :
    MeasuredBut pending after := by
  intro other state found other_ne
  rw [flows, OrderedTable.get?_set] at found
  split at found
  case isTrue same =>
    cases found
    exact isMeasured (same ▸ other_ne)
  case isFalse => exact measured found other_ne

theorem of_onlyTails
    (measured : MeasuredBut pending before)
    (only : OnlyTails before after) :
    MeasuredBut pending after := by
  intro other state found other_ne
  have same := only.flows other
  rw [found, Option.map_some] at same
  obtain ⟨earlier, wasFound, isSame⟩ :=
    Option.map_eq_some_iff.mp same.symm
  obtain ⟨bytes, objects⟩ := measured wasFound other_ne
  have sameBytes := congrArg FlowState.pendingAuthBytes isSame
  have sameObjects := congrArg FlowState.pendingAuthObjects isSame
  have samePending := congrArg FlowState.pendingAuth isSame
  dsimp only at sameBytes sameObjects samePending
  constructor
  · rw [← sameBytes, ← samePending]
    exact bytes
  · rw [← sameObjects, ← samePending]
    exact objects

/-- The sizes are refreshed. -/
theorem refresh
    (measured : MeasuredBut (some flowId) detector) :
    MeasuredBut none (detector.refreshPendingAuth flowId).state := by
  unfold SensitiveDetector.refreshPendingAuth
  cases found : detector.flows.get? flowId with
  | none =>
      intro other state isFound _
      change detector.flows.get? other = some state at isFound
      refine measured isFound ?_
      intro same
      rw [← Option.some.inj same, found] at isFound
      cases isFound
  | some state =>
      intro other next isFound _
      rw [OrderedTable.get?_set] at isFound
      split at isFound
      case isTrue same =>
        cases isFound
        exact ⟨rfl, rfl⟩
      case isFalse different =>
        exact measured isFound fun same =>
          different (Option.some.inj same).symm

/-- A flow that is measured as well. -/
theorem all
    (measured : MeasuredBut (some flowId) detector)
    (own :
      ∀ {state},
        detector.flows.get? flowId = some state → state.Measured) :
    MeasuredBut none detector := by
  intro other state found _
  by_cases same : other = flowId
  · exact own (same ▸ found)
  · exact measured found fun isSame => same (Option.some.inj isSame).symm

end MeasuredBut

/-- Only the flow whose authentications change has to be measured again. -/
theorem DetectorStep.measured
    {kept : Option FlowId}
    {before after : SensitiveDetector}
    {events : List DetectorEvent}
    (step : DetectorStep limits kept before events after)
    (measured : MeasuredBut kept before) :
    MeasuredBut kept after := by
  cases step with
  | touches other =>
      intro flow state found different
      rw [OrderedTable.get?_moveToEnd] at found
      exact measured found different
  | @revises other state next found same =>
      refine measured.set (fun different => ?_) rfl
      obtain ⟨bytes, objects⟩ := measured found different
      have sameBytes := congrFun same.held .pendingBytes
      have sameObjects := congrFun same.held .pendingObjects
      constructor
      · rw [same.pendingAuth, ← bytes]
        exact sameBytes
      · rw [same.pendingAuth, ← objects]
        exact sameObjects
  | notes isNote => exact measured
  | drops notKept =>
      intro flow state found different
      rw [flows_dropFlow] at found
      exact measured (OrderedTable.get?_of_get?_erase found) different
  | pops other direction =>
      exact measured.of_onlyTails (OnlyTails.popSpan before other direction)
  | trims other =>
      exact measured.of_onlyTails (OnlyTails.trimTails limits before other)
  | marks found room oneMore =>
      refine measured.set (fun different => ?_) rfl
      obtain ⟨bytes, objects⟩ := measured found different
      constructor
      · rw [oneMore.pendingAuth, ← bytes]
        exact oneMore.pendingAuthBytes
      · rw [oneMore.pendingAuth, ← objects]
        exact oneMore.pendingAuthObjects
  | removes other key =>
      rcases before.removeEntry_cases other key with
        nothing | ⟨state, correlationId, retainedSize, found, -, removed⟩
      · rw [nothing]
        exact measured
      · rw [removed]
        refine measured.set (fun different => ?_) rfl
        obtain ⟨bytes, objects⟩ := measured found different
        cases key <;> exact ⟨bytes, objects⟩
  | storesChallenge challenge found absent room =>
      simp only [SensitiveDetector.storeChallenge,
        SensitiveDetector.storeEntry, found]
      refine measured.set (fun different => ?_) rfl
      obtain ⟨bytes, objects⟩ := measured found different
      exact ⟨bytes, objects⟩
  | storesResponse response found room =>
      simp only [SensitiveDetector.storeResponse,
        SensitiveDetector.storeEntry, found]
      refine measured.set (fun different => ?_) rfl
      obtain ⟨bytes, objects⟩ := measured found different
      exact ⟨bytes, objects⟩
  | pends isKept found next =>
      exact measured.set (fun different => absurd isKept different) rfl
  | refreshes other =>
      unfold SensitiveDetector.refreshPendingAuth
      cases before.flows.get? other with
      | none => exact measured
      | some state => exact measured.set (fun _ => ⟨rfl, rfl⟩) rfl

theorem MeasuredBut.of_steps
    {kept : Option FlowId}
    {before after : SensitiveDetector}
    {events : List DetectorEvent}
    (measured : MeasuredBut kept before)
    (steps : Steps (DetectorStep limits kept) before events after) :
    MeasuredBut kept after :=
  Steps.stateInvariant (motive := MeasuredBut kept)
    (fun isMeasured step => step.measured isMeasured) steps measured

namespace SensitiveDetector

/-- Dropping other flows leaves everything measured. -/
theorem dropOthersWhile_measured
    (limits : DetectorLimits)
    (exceeds : SensitiveDetector → Bool)
    (measured : MeasuredBut none detector) :
    MeasuredBut none
      (dropOthersWhile exceeds flowId detector).state := by
  have dropped :
      Steps (DetectorStep limits (some flowId)) detector
        (dropOthersWhile exceeds flowId detector).events
        (dropOthersWhile exceeds flowId detector).state :=
    dropOthersWhile_steps _
  refine ((measured.weaken (some flowId)).of_steps dropped).all ?_
  intro state found
  rw [get?_dropOthersWhile] at found
  exact measured found (Option.some_ne_none _).symm

theorem enforceProvenanceCap_measured
    (measured : MeasuredBut none detector) :
    MeasuredBut none
      (enforceProvenanceCap limits flowId detector).state := by
  have trimmed (state : SensitiveDetector) :
      Steps (DetectorStep limits none) state []
        (trimRound limits flowId state).state.1 :=
    trimSpans_steps _
  exact whileSucceeds_invariant (motive := MeasuredBut none)
    (fun _ isMeasured => isMeasured.of_steps (trimmed _)) _
    (dropOthersWhile_measured limits _ measured)

/-- Discarding an authentication measures the others again. -/
theorem discardOnePendingAuthEntry_measured
    (measured : MeasuredBut none detector) :
    MeasuredBut none
      (discardOnePendingAuthEntry flowId detector).state.1 := by
  unfold discardOnePendingAuthEntry
  split
  · exact measured
  case h_2 pending _ =>
    refine MeasuredBut.refresh ?_
    have weaker := measured.weaken (some flowId)
    unfold reviseFlow
    cases detector.flows.get? flowId with
    | none => exact weaker
    | some state => exact weaker.set (fun other => absurd rfl other) rfl

/-- Enforcing the cap measures what it changes. -/
theorem enforceRetainedCap_measured
    (ready : Ready limits flowId detector)
    (measured : MeasuredBut none detector) :
    MeasuredBut none
      (detector.enforceRetainedCap limits flowId).state := by
  set alone :=
    (dropOthersWhile (overRetainedCap limits) flowId detector).state
  have aloneMeasured : MeasuredBut none alone :=
    dropOthersWhile_measured limits _ measured
  have aloneReady : Ready limits flowId alone :=
    ready.of_steps (dropOthersWhile_steps _)
  set trimmed :=
    if alone.overRetainedCap limits then alone.trimTails limits flowId
    else alone
  have trims : Steps (DetectorStep limits none) alone [] trimmed := by
    unfold trimmed
    split
    · exact .single (.trims flowId)
    · exact .refl _
  have trimmedSound := (aloneReady.sound.of_steps trims).1
  have evict
      {state : SensitiveDetector}
      (isSound : Sound limits state) :
      Steps (DetectorStep limits none) state
        (evictOldestNtlmEntry state).events
        (evictOldestNtlmEntry state).state.1 :=
    evictOldestNtlmEntry_steps isSound.ntlm
  set unpaired :=
    whileSucceeds (overRetainedCap limits) evictOldestNtlmEntry
      (trimmed.ntlmObjects + 1) trimmed
  have evicted :
      Steps (DetectorStep limits none) trimmed unpaired.events
        unpaired.state :=
    whileSucceeds_steps (fun _ isSound => (isSound.of_steps (evict isSound)).1)
      (fun _ isSound => evict isSound) _ trimmedSound
  have unpairedMeasured :=
    (aloneMeasured.of_steps trims).of_steps evicted
  have shrunk :
      MeasuredBut none (detector.shrinkRetained limits flowId).state :=
    whileSucceeds_invariant (motive := MeasuredBut none)
      (fun _ isMeasured => discardOnePendingAuthEntry_measured isMeasured) _
      unpairedMeasured
  unfold enforceRetainedCap
  rw [Outcome.state_andThen]
  split
  · have dropped :
        Steps (DetectorStep limits none)
          (detector.shrinkRetained limits flowId).state
          ((detector.shrinkRetained limits flowId).state.dropFlow
            flowId).events
          ((detector.shrinkRetained limits flowId).state.dropFlow
            flowId).state :=
      dropFlow_steps flowId
    exact shrunk.of_steps dropped
  · exact shrunk

end SensitiveDetector

end Budgets

end PacketAudit.Detector
