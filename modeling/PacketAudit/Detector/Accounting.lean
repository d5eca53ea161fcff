import PacketAudit.Detector.Calls

namespace PacketAudit.Detector

/-!
# What the detector counts

Six counters of the detector beside what its flows hold.  The counters are
balanced when each is the sum over the flows; every method that changes a flow
changes the counters by the difference, so that clamping never corrects one.
-/

open Library

/-- The counters of `_drop_flow` other than those of NTLM entries. -/
inductive Counter where
  | tailBytes
  | pendingBytes
  | pendingObjects
  | spans
  | packetIdRefs
  | metadata
  deriving Repr, DecidableEq

/-- What a tail adds to each counter. -/
def DirectionState.held (tail : DirectionState) : Counter → Int
  | .tailBytes => tail.data.length
  | .spans => (provenanceCounts tail.provenanceSpans).spans
  | .packetIdRefs => (provenanceCounts tail.provenanceSpans).packetIdRefs
  | .pendingBytes => 0
  | .pendingObjects => 0
  | .metadata => 0

/-- What a flow adds to each counter. -/
def FlowState.held (state : FlowState) : Counter → Int
  | .tailBytes => state.tailBytes
  | .spans => state.flowProvenanceCounts.spans
  | .packetIdRefs => state.flowProvenanceCounts.packetIdRefs
  | .pendingBytes => state.pendingAuthBytes
  | .pendingObjects => state.pendingAuthObjects
  | .metadata => state.metadataEntries

/-- The values of the counters. -/
def SensitiveDetector.counted (detector : SensitiveDetector) : Counter → Int
  | .tailBytes => detector.retainedTailBytes
  | .spans => detector.provenance.spans
  | .packetIdRefs => detector.provenance.packetIdRefs
  | .pendingBytes => detector.pendingAuthBytes
  | .pendingObjects => detector.pendingAuthObjects
  | .metadata => detector.metadataEntries

/-- Every counter is the sum over the flows, none of which holds a negative. -/
structure Balanced (detector : SensitiveDetector) : Prop where
  counted :
    detector.counted = detector.flows.total fun _ state => state.held
  nonneg :
    ∀ {flowId state},
      detector.flows.get? flowId = some state → 0 ≤ state.held

/-! ## Single flows -/

theorem provenanceCounts_nonneg (spans : List ProvenanceSpan) :
    0 ≤ (provenanceCounts spans).spans ∧
      0 ≤ (provenanceCounts spans).packetIdRefs := by
  refine ⟨Int.natCast_nonneg _, List.sum_nonneg ?_⟩
  intro amount member
  obtain ⟨span, _, rfl⟩ := List.mem_map.mp member
  exact Int.natCast_nonneg _

theorem DirectionState.held_nonneg (tail : DirectionState) :
    0 ≤ tail.held := by
  have counts := provenanceCounts_nonneg tail.provenanceSpans
  intro counter
  cases counter with
  | tailBytes => exact Int.natCast_nonneg _
  | spans => exact counts.1
  | packetIdRefs => exact counts.2
  | _ => exact le_refl _

/-- What a flow adds to each counter beside its tails. -/
def FlowState.heldBesideTails (state : FlowState) : Counter → Int
  | .pendingBytes => state.pendingAuthBytes
  | .pendingObjects => state.pendingAuthObjects
  | .metadata => state.metadataEntries
  | .tailBytes => 0
  | .spans => 0
  | .packetIdRefs => 0

theorem FlowState.held_eq
    (state : FlowState)
    (counter : Counter) :
    state.held counter =
      state.heldBesideTails counter +
        state.directions.sum fun tail => tail.held counter := by
  have nothing : (state.directions.sum fun _ => 0) = 0 := by
    simp [OrderedTable.sum]
  cases counter with
  | tailBytes => exact (zero_add _).symm
  | spans => exact (zero_add _).symm
  | packetIdRefs => exact (zero_add _).symm
  | _ => exact (add_eq_left.mpr nothing).symm

/-- Only pending authentications could count for less than nothing. -/
theorem FlowState.held_nonneg
    (state : FlowState)
    (pendingBytes : 0 ≤ state.pendingAuthBytes)
    (pendingObjects : 0 ≤ state.pendingAuthObjects) :
    0 ≤ state.held := by
  intro counter
  have tails :
      0 ≤ state.directions.sum fun tail => tail.held counter :=
    state.directions.sum_nonneg fun tail => tail.held_nonneg counter
  have beside : 0 ≤ state.heldBesideTails counter := by
    cases counter with
    | pendingBytes => exact pendingBytes
    | pendingObjects => exact pendingObjects
    | metadata =>
        change 0 ≤ state.metadataEntries
        unfold metadataEntries
        omega
    | _ => exact le_refl _
  rw [FlowState.held_eq, Pi.zero_apply]
  exact add_nonneg beside tails

/-- The tail of a direction; a direction that is not kept has an empty one. -/
def FlowState.tailOf
    (state : FlowState)
    (direction : Direction) : DirectionState :=
  (state.directions.get? direction).getD {}

/-- Another tail changes what a flow holds by the difference. -/
theorem FlowState.held_setTail
    (state : FlowState)
    (direction : Direction)
    (tail : DirectionState) :
    FlowState.held
        { state with directions := state.directions.set direction tail } =
      state.held + (tail.held - (state.tailOf direction).held) := by
  funext counter
  have sums :
      ((state.directions.set direction tail).sum fun tail =>
          tail.held counter) =
        (state.directions.sum fun tail => tail.held counter) +
          (tail.held counter - (state.tailOf direction).held counter) := by
    rw [OrderedTable.sum_set]
    unfold tailOf
    cases found : state.directions.get? direction with
    | none =>
        have holdsNothing :
            DirectionState.held {} counter = 0 := by
          cases counter <;> rfl
        rw [OrderedTable.erase_of_get?_eq_none found, Option.getD_none,
          holdsNothing]
        omega
    | some old =>
        rw [OrderedTable.sum_eq_add_erase found, Option.getD_some]
        omega
  rw [FlowState.held_eq, Pi.add_apply, Pi.sub_apply, FlowState.held_eq state,
    sums, add_assoc]
  rfl

/-! ## Balances -/

namespace Balanced

variable {before after : SensitiveDetector}
variable {flowId : FlowId}
variable {state next : FlowState}

/-- A flow that changes with the counters keeps them balanced. -/
theorem set
    (balanced : Balanced before)
    (found : before.flows.get? flowId = some state)
    (flows : after.flows = before.flows.set flowId next)
    (counted : after.counted = before.counted + (next.held - state.held))
    (nonneg : 0 ≤ next.held) :
    Balanced after where
  counted := by
    rw [flows, OrderedTable.total_set_of_some found, counted,
      balanced.counted]
  nonneg := by
    intro other stored isStored
    rw [flows, OrderedTable.get?_set] at isStored
    split at isStored
    · cases isStored
      exact nonneg
    · exact balanced.nonneg isStored

/-- A flow that holds the same as before keeps the counters balanced. -/
theorem revise
    (balanced : Balanced before)
    (found : before.flows.get? flowId = some state)
    (flows : after.flows = before.flows.set flowId next)
    (counted : after.counted = before.counted)
    (held : next.held = state.held) :
    Balanced after :=
  balanced.set found flows (by rw [counted, held, sub_self, add_zero])
    (by rw [held]; exact balanced.nonneg found)

/-- A flow that is dropped takes what it holds from the counters. -/
theorem erase
    (balanced : Balanced before)
    (found : before.flows.get? flowId = some state)
    (flows : after.flows = before.flows.erase flowId)
    (counted : after.counted = before.counted - state.held) :
    Balanced after where
  counted := by
    rw [flows, OrderedTable.total_erase_of_some found, counted,
      balanced.counted]
  nonneg := by
    intro other stored isStored
    rw [flows] at isStored
    by_cases same : other = flowId
    · rw [same, OrderedTable.get?_erase_self] at isStored
      cases isStored
    · rw [OrderedTable.get?_erase_of_ne _ same] at isStored
      exact balanced.nonneg isStored

/-- A new flow that holds nothing keeps the counters balanced. -/
theorem insert
    (balanced : Balanced before)
    (absent : before.flows.get? flowId = none)
    (flows : after.flows = before.flows.set flowId next)
    (counted : after.counted = before.counted)
    (held : next.held = 0) :
    Balanced after where
  counted := by
    rw [flows, OrderedTable.total_set_of_none absent, counted,
      balanced.counted, held, zero_add]
  nonneg := by
    intro other stored isStored
    rw [flows, OrderedTable.get?_set] at isStored
    split at isStored
    · cases isStored
      rw [held]
    · exact balanced.nonneg isStored

/-- The order of the flows does not matter. -/
theorem touch
    (balanced : Balanced before)
    (flows : after.flows = before.flows.moveToEnd flowId)
    (counted : after.counted = before.counted) :
    Balanced after where
  counted := by
    rw [flows, OrderedTable.total_moveToEnd, counted, balanced.counted]
  nonneg := by
    intro other stored isStored
    rw [flows, OrderedTable.get?_moveToEnd] at isStored
    exact balanced.nonneg isStored

/-- No flow holds more than the counters say. -/
theorem held_le
    (balanced : Balanced before)
    (found : before.flows.get? flowId = some state) :
    state.held ≤ before.counted := by
  rw [balanced.counted]
  exact OrderedTable.le_total balanced.nonneg found

theorem counted_nonneg (balanced : Balanced before) : 0 ≤ before.counted := by
  rw [balanced.counted]
  apply List.sum_nonneg
  intro amount member
  obtain ⟨entry, stored, rfl⟩ := List.mem_map.mp member
  exact balanced.nonneg (OrderedTable.get?_eq_some.mpr stored)

/-- Another tail changes the counters by the difference. -/
theorem setTail
    (balanced : Balanced before)
    (found : before.flows.get? flowId = some state)
    {direction : Direction}
    {tail : DirectionState}
    (flows :
      after.flows =
        before.flows.set flowId
          { state with directions := state.directions.set direction tail })
    (counted :
      after.counted =
        before.counted + (tail.held - (state.tailOf direction).held)) :
    Balanced after := by
  refine balanced.set found flows ?_ ?_
  · rw [counted, FlowState.held_setTail, add_sub_cancel_left]
  · have nonneg := balanced.nonneg found
    exact FlowState.held_nonneg _ (nonneg .pendingBytes)
      (nonneg .pendingObjects)

end Balanced

/-! ## Provenance counters -/

namespace ProvenanceCounts

/-- The counters include these spans. -/
structure Include
    (counts : ProvenanceCounts)
    (spans : List ProvenanceSpan) : Prop where
  ofSpans : (provenanceCounts spans).spans ≤ counts.spans
  ofPacketIdRefs :
    (provenanceCounts spans).packetIdRefs ≤ counts.packetIdRefs

variable {counts : ProvenanceCounts}
variable {old new : List ProvenanceSpan}

theorem Include.appended
    (included : counts.Include old)
    (new : List ProvenanceSpan) :
    (counts.appended old new).Include new := by
  obtain ⟨ofSpans, ofPacketIdRefs⟩ := included
  constructor
  · change _ ≤ counts.spans + _
    omega
  · change _ ≤ counts.packetIdRefs + _
    omega

/-- Clamping does not correct counters that include the old spans. -/
theorem replaced_eq
    (included : counts.Include old)
    (new : List ProvenanceSpan) :
    counts.replaced old new = counts.appended old new := by
  have nonneg := provenanceCounts_nonneg new
  obtain ⟨ofSpans, ofPacketIdRefs⟩ := included
  unfold replaced appended
  congr 1
  · omega
  · omega

theorem appended_self (spans : List ProvenanceSpan) :
    counts.appended spans spans = counts := by
  simp [appended]

theorem appended_appended
    (between : List ProvenanceSpan) :
    (counts.appended old between).appended between new =
      counts.appended old new := by
  unfold appended
  congr 1
  · dsimp only
    omega
  · dsimp only
    omega

end ProvenanceCounts

/-- Merging a chunk counts the spans of the new tail for those of the old. -/
theorem mergeTail_counts
    (overlapBytes : Nat)
    {counts : ProvenanceCounts}
    {tail : DirectionState}
    (included : counts.Include tail.provenanceSpans)
    (chunk : StreamChunk) :
    let merged := mergeTail overlapBytes counts tail chunk
    merged.counts =
      counts.appended tail.provenanceSpans merged.tail.provenanceSpans := by
  have island :
      (mergeIsland overlapBytes counts tail chunk).counts =
        counts.appended tail.provenanceSpans
          (mergeIsland overlapBytes counts tail chunk).tail.provenanceSpans :=
    ProvenanceCounts.replaced_eq included _
  unfold mergeTail
  split
  · exact island
  split
  · exact (ProvenanceCounts.appended_self _).symm
  split
  · exact island
  split
  · unfold mergeAdjoining
    dsimp only
    have longer :=
      included.appended (extended tail chunk).provenanceSpans
    split
    · exact (ProvenanceCounts.replaced_eq longer _).trans
        (ProvenanceCounts.appended_appended _)
    split
    · exact (ProvenanceCounts.replaced_eq longer _).trans
        (ProvenanceCounts.appended_appended _)
    · rfl
  · unfold mergeOverlapping
    dsimp only
    split
    · exact ProvenanceCounts.replaced_eq included _
    · exact (ProvenanceCounts.appended_self _).symm

namespace SensitiveDetector

variable {detector : SensitiveDetector}
variable {flowId : FlowId}
variable {state : FlowState}

theorem stateOf_of_found
    (found : detector.flows.get? flowId = some state) :
    detector.stateOf flowId = state := by
  rw [stateOf, found, Option.getD_some]

theorem reviseFlow_of_found
    (found : detector.flows.get? flowId = some state)
    (revise : FlowState → FlowState) :
    detector.reviseFlow flowId revise =
      { detector with flows := detector.flows.set flowId (revise state) } := by
  simp only [reviseFlow, found]

end SensitiveDetector

/-- The counters include the spans of every tail. -/
theorem Balanced.includes
    {detector : SensitiveDetector}
    {flowId : FlowId}
    {state : FlowState}
    (balanced : Balanced detector)
    (found : detector.flows.get? flowId = some state)
    (direction : Direction) :
    detector.provenance.Include
      (state.tailOf direction).provenanceSpans := by
  have tail_le (counter : Counter) :
      (state.tailOf direction).held counter ≤
        state.directions.sum fun tail => tail.held counter := by
    unfold FlowState.tailOf
    cases stored : state.directions.get? direction with
    | none =>
        have nothing : DirectionState.held {} counter = 0 := by
          cases counter <;> rfl
        rw [Option.getD_none, nothing]
        exact state.directions.sum_nonneg fun tail =>
          tail.held_nonneg counter
    | some tail =>
        exact OrderedTable.le_sum stored _ fun {_ stored} _ =>
          stored.held_nonneg counter
  have le := balanced.held_le found
  exact ⟨(tail_le .spans).trans (le .spans),
    (tail_le .packetIdRefs).trans (le .packetIdRefs)⟩

/-- Merging a chunk keeps the counters balanced. -/
theorem Balanced.replaceTail
    {detector : SensitiveDetector}
    {state : FlowState}
    {chunk : StreamChunk}
    (balanced : Balanced detector)
    (limits : DetectorLimits)
    (found : detector.flows.get? (chunkFlowId chunk) = some state) :
    Balanced (detector.replaceTail limits chunk) := by
  have isTail :
      detector.tailFor chunk = state.tailOf chunk.direction := by
    rw [SensitiveDetector.tailFor, SensitiveDetector.stateOf_of_found found]
    rfl
  have counts :=
    mergeTail_counts limits.overlapBytes
      (balanced.includes found chunk.direction) chunk
  unfold SensitiveDetector.replaceTail
  simp only [isTail, SensitiveDetector.reviseFlow_of_found found]
  refine balanced.setTail found rfl ?_
  funext counter
  simp only [Pi.add_apply, Pi.sub_apply]
  cases counter with
  | tailBytes => rfl
  | spans =>
      change (mergeTail _ _ _ _).counts.spans = _
      rw [counts]
      rfl
  | packetIdRefs =>
      change (mergeTail _ _ _ _).counts.packetIdRefs = _
      rw [counts]
      rfl
  | _ => exact (add_zero _).symm

/-- Popping a span keeps the counters balanced. -/
theorem Balanced.popSpan
    {detector : SensitiveDetector}
    (balanced : Balanced detector)
    (flowId : FlowId)
    (direction : Direction) :
    Balanced (detector.popSpan flowId direction) := by
  unfold SensitiveDetector.popSpan
  cases found : detector.flows.get? flowId with
  | none =>
      simp [SensitiveDetector.stateOf, found, balanced]
  | some state =>
      rw [SensitiveDetector.stateOf_of_found found]
      cases stored : state.directions.get? direction with
      | none => exact balanced
      | some tail =>
          have isTail : state.tailOf direction = tail := by
            rw [FlowState.tailOf, stored, Option.getD_some]
          simp only [SensitiveDetector.reviseFlow_of_found found]
          refine balanced.setTail found rfl ?_
          funext counter
          rw [isTail]
          simp only [Pi.add_apply, Pi.sub_apply]
          cases counter with
          | tailBytes => exact (add_eq_left.mpr (sub_self _)).symm
          | spans => rfl
          | packetIdRefs => rfl
          | _ => exact (add_zero _).symm

/-! ## Pending authentications and marks -/

/-- No counter is corrected by the clamping of this event. -/
def DetectorEvent.ClampsNothing : DetectorEvent → Prop
  | .clamped _ value => 0 ≤ value
  | _ => True

/-- Measuring the pending authentications keeps the counters balanced. -/
theorem Balanced.refreshPendingAuth
    {detector : SensitiveDetector}
    (balanced : Balanced detector)
    (flowId : FlowId) :
    Balanced (detector.refreshPendingAuth flowId).state ∧
      ∀ event ∈ (detector.refreshPendingAuth flowId).events,
        event.ClampsNothing := by
  unfold SensitiveDetector.refreshPendingAuth
  cases found : detector.flows.get? flowId with
  | none => exact ⟨balanced, by simp⟩
  | some state =>
      have le := balanced.held_le found
      have bytesLe : state.pendingAuthBytes ≤ detector.pendingAuthBytes :=
        le .pendingBytes
      have objectsLe :
          state.pendingAuthObjects ≤ detector.pendingAuthObjects :=
        le .pendingObjects
      dsimp only
      constructor
      · refine balanced.set found rfl ?_ ?_
        · funext counter
          simp only [Pi.add_apply, Pi.sub_apply]
          cases counter with
          | pendingBytes =>
              change max 0 _ = detector.pendingAuthBytes + (_ - _)
              exact max_eq_right (by omega)
          | pendingObjects =>
              change max 0 _ = detector.pendingAuthObjects + (_ - _)
              exact max_eq_right (by omega)
          | _ => exact (add_eq_left.mpr (sub_self _)).symm
        · exact FlowState.held_nonneg _ (Int.natCast_nonneg _)
            (Int.natCast_nonneg _)
      · intro event member
        simp only [List.mem_cons, List.not_mem_nil, or_false] at member
        rcases member with rfl | rfl
        · change 0 ≤ _
          omega
        · change 0 ≤ _
          omega

/-- A new high-water mark and its count keep the counters balanced. -/
theorem Balanced.mark
    {detector : SensitiveDetector}
    {flowId : FlowId}
    {state next : FlowState}
    (balanced : Balanced detector)
    (found : detector.flows.get? flowId = some state)
    (oneMore : next.metadataEntries = state.metadataEntries + 1)
    (others :
      ∀ counter, counter ≠ .metadata →
        next.held counter = state.held counter) :
    Balanced { detector with
      flows := detector.flows.set flowId next
      metadataEntries := detector.metadataEntries + 1 } := by
  have nonneg := balanced.nonneg found
  refine balanced.set found rfl ?_ ?_
  · funext counter
    simp only [Pi.add_apply, Pi.sub_apply]
    cases counter with
    | metadata =>
        change detector.metadataEntries + 1 =
          detector.metadataEntries +
            (next.metadataEntries - state.metadataEntries)
        omega
    | _ =>
        rw [others _ (by decide), sub_self, add_zero]
        rfl
  · refine FlowState.held_nonneg next ?_ ?_
    · exact (nonneg .pendingBytes).trans_eq
        (others .pendingBytes (by decide)).symm
    · exact (nonneg .pendingObjects).trans_eq
        (others .pendingObjects (by decide)).symm

/-! ## Trimmed tails -/

namespace SensitiveDetector

/-- Trimming tails counts the spans they keep for those they had. -/
theorem foldl_keepLastCounts
    (keep : Nat → Nat)
    {tails : List ((Direction × DirectionState) × Nat)}
    {counts : ProvenanceCounts}
    (spans :
      (tails.map fun entry => entry.1.2.held .spans).sum ≤ counts.spans)
    (packetIdRefs :
      (tails.map fun entry => entry.1.2.held .packetIdRefs).sum ≤
        counts.packetIdRefs) :
    let after :=
      tails.foldl
        (fun counts entry => keepLastCounts (keep entry.2) entry.1.2 counts)
        counts
    let kept := tails.map fun entry => keepLast (keep entry.2) entry.1.2
    after.spans =
        counts.spans +
          ((kept.map fun tail => tail.held .spans).sum -
            (tails.map fun entry => entry.1.2.held .spans).sum) ∧
      after.packetIdRefs =
        counts.packetIdRefs +
          ((kept.map fun tail => tail.held .packetIdRefs).sum -
            (tails.map fun entry => entry.1.2.held .packetIdRefs).sum) := by
  induction tails generalizing counts with
  | nil => simp
  | cons entry rest inductionHypothesis =>
      have restNonneg (counter : Counter) :
          0 ≤ (rest.map fun entry => entry.1.2.held counter).sum := by
        apply List.sum_nonneg
        intro amount member
        obtain ⟨other, _, rfl⟩ := List.mem_map.mp member
        exact other.1.2.held_nonneg counter
      have spansNonneg := restNonneg .spans
      have refsNonneg := restNonneg .packetIdRefs
      have keptSpans :
          0 ≤ (keepLast (keep entry.2) entry.1.2).held .spans :=
        DirectionState.held_nonneg _ _
      have keptRefs :
          0 ≤ (keepLast (keep entry.2) entry.1.2).held .packetIdRefs :=
        DirectionState.held_nonneg _ _
      simp only [List.map_cons, List.sum_cons] at spans packetIdRefs ⊢
      have included : counts.Include entry.1.2.provenanceSpans := by
        constructor
        · change entry.1.2.held .spans ≤ _
          omega
        · change entry.1.2.held .packetIdRefs ≤ _
          omega
      have first :
          keepLastCounts (keep entry.2) entry.1.2 counts =
            counts.appended entry.1.2.provenanceSpans
              (keepLast (keep entry.2) entry.1.2).provenanceSpans := by
        unfold keepLastCounts
        split
        · exact ProvenanceCounts.replaced_eq included _
        case isFalse short =>
          rw [keepLast, if_neg short, ProvenanceCounts.appended_self]
      have firstSpans :
          (keepLastCounts (keep entry.2) entry.1.2 counts).spans =
            counts.spans +
              ((keepLast (keep entry.2) entry.1.2).held .spans -
                entry.1.2.held .spans) := by
        rw [first]
        rfl
      have firstRefs :
          (keepLastCounts (keep entry.2) entry.1.2 counts).packetIdRefs =
            counts.packetIdRefs +
              ((keepLast (keep entry.2) entry.1.2).held .packetIdRefs -
                entry.1.2.held .packetIdRefs) := by
        rw [first]
        rfl
      obtain ⟨restSpans, restRefs⟩ :=
        inductionHypothesis
          (show _ ≤
              (keepLastCounts (keep entry.2) entry.1.2 counts).spans by
            omega)
          (show _ ≤
              (keepLastCounts (keep entry.2) entry.1.2 counts).packetIdRefs by
            omega)
      rw [List.foldl_cons, restSpans, restRefs, firstSpans, firstRefs]
      constructor
      · omega
      · omega

end SensitiveDetector

open SensitiveDetector in
/-- Keeping the last bytes of each tail keeps the counters balanced. -/
theorem Balanced.keepLasts
    {detector : SensitiveDetector}
    {flowId : FlowId}
    {state : FlowState}
    (balanced : Balanced detector)
    (found : detector.flows.get? flowId = some state)
    (keep : Nat → Nat) :
    let trimmed := {
      state with
      directions :=
        state.directions.mapIdx fun index tail => keepLast (keep index) tail
    }
    Balanced { detector with
      flows := detector.flows.set flowId trimmed
      provenance :=
        (state.directions.entries.zipIdx).foldl
          (fun counts entry =>
            keepLastCounts (keep entry.2) entry.1.2 counts)
          detector.provenance
      retainedTailBytes :=
        detector.retainedTailBytes -
          (state.tailBytes - trimmed.tailBytes) } := by
  intro trimmed
  have old (counter : Counter) :
      ((state.directions.entries.zipIdx).map fun entry =>
          entry.1.2.held counter).sum =
        state.directions.sum fun tail => tail.held counter := by
    have entries :
        ((state.directions.entries.zipIdx).map fun entry =>
            entry.1.2.held counter) =
          ((state.directions.entries.zipIdx).map Prod.fst).map
            fun entry => entry.2.held counter := by
      rw [List.map_map]
      rfl
    rw [entries, List.zipIdx_map_fst]
    rfl
  have new (counter : Counter) :
      (((state.directions.entries.zipIdx).map fun entry =>
          keepLast (keep entry.2) entry.1.2).map
            fun tail => tail.held counter).sum =
        trimmed.directions.sum fun tail => tail.held counter := by
    have entries :
        trimmed.directions.entries =
          (state.directions.entries.zipIdx).map fun entry =>
            (entry.1.1, keepLast (keep entry.2) entry.1.2) :=
      List.mapIdx_eq_zipIdx_map
    unfold OrderedTable.sum
    rw [entries, List.map_map, List.map_map]
    rfl
  have le := balanced.held_le found
  obtain ⟨spans, packetIdRefs⟩ :=
    foldl_keepLastCounts keep
      (show _ ≤ detector.provenance.spans by
        rw [old]
        exact le .spans)
      (show _ ≤ detector.provenance.packetIdRefs by
        rw [old]
        exact le .packetIdRefs)
  have nonneg := balanced.nonneg found
  refine balanced.set found rfl ?_ ?_
  · funext counter
    simp only [Pi.add_apply, Pi.sub_apply]
    cases counter with
    | tailBytes =>
        change
          detector.retainedTailBytes -
              (state.tailBytes - trimmed.tailBytes) =
            detector.retainedTailBytes +
              (trimmed.tailBytes - state.tailBytes)
        omega
    | spans =>
        rw [old, new] at spans
        exact spans
    | packetIdRefs =>
        rw [old, new] at packetIdRefs
        exact packetIdRefs
    | _ => exact (add_eq_left.mpr (sub_self _)).symm
  · exact FlowState.held_nonneg trimmed (nonneg .pendingBytes)
      (nonneg .pendingObjects)

/-- Trimming the tails of a flow keeps the counters balanced. -/
theorem Balanced.trimTails
    {detector : SensitiveDetector}
    (balanced : Balanced detector)
    (limits : DetectorLimits)
    (flowId : FlowId) :
    Balanced (detector.trimTails limits flowId) := by
  unfold SensitiveDetector.trimTails
  cases found : detector.flows.get? flowId with
  | none => exact balanced
  | some state => exact balanced.keepLasts found _

/-! ## Removed entries -/

/-- What removing an entry does, if there is one. -/
theorem SensitiveDetector.removeEntry_cases
    (detector : SensitiveDetector)
    (flowId : FlowId)
    (key : NtlmKey) :
    (detector.removeEntry flowId key).state = detector ∨
      ∃ state correlationId retainedSize,
        detector.flows.get? flowId = some state ∧
          state.ntlmEntryOf key = some (correlationId, retainedSize) ∧
          (detector.removeEntry flowId key).state = { detector with
            flows :=
              detector.flows.set flowId {
                state.popNtlm key with
                ntlmCorrelationBytes :=
                  max 0 (state.ntlmCorrelationBytes - retainedSize)
              }
            ntlmCorrelationIndex :=
              detector.ntlmCorrelationIndex.erase correlationId
            ntlmCorrelationBytes :=
              max 0 (detector.ntlmCorrelationBytes - retainedSize) } := by
  unfold removeEntry
  cases found : detector.flows.get? flowId with
  | none => exact .inl rfl
  | some state =>
      unfold removeNtlmEntry
      cases entry : state.ntlmEntryOf key with
      | none =>
          left
          simp [entry, OrderedTable.set_stored found]
      | some stored =>
          exact .inr ⟨state, stored.1, stored.2, rfl, entry, by
            simp [entry]⟩

/-! ## Dropped flows -/

/-- Removing NTLM entries leaves the flows and the counters alone. -/
theorem counted_removeNtlmEntries
    (keys : List NtlmKey)
    (holding : Holding) :
    let emptied := (runAll removeNtlmEntry keys holding).state.detector
    emptied.flows = holding.detector.flows ∧
      emptied.counted = holding.detector.counted := by
  induction keys generalizing holding with
  | nil => exact ⟨rfl, rfl⟩
  | cons key rest inductionHypothesis =>
      have first :
          (removeNtlmEntry key holding).state.detector.flows =
              holding.detector.flows ∧
            (removeNtlmEntry key holding).state.detector.counted =
              holding.detector.counted := by
        unfold removeNtlmEntry
        split
        · exact ⟨rfl, rfl⟩
        · refine ⟨rfl, ?_⟩
          funext counter
          cases counter <;> rfl
      have later :=
        inductionHypothesis (removeNtlmEntry key holding).state
      exact ⟨later.1.trans first.1, later.2.trans first.2⟩

/-- The detector of `_drop_flow` before the flow's NTLM entries go. -/
def SensitiveDetector.popped
    (detector : SensitiveDetector)
    (flowId : FlowId)
    (state : FlowState) : SensitiveDetector :=
  { detector with
    flows := detector.flows.erase flowId
    retainedTailBytes := detector.retainedTailBytes - state.tailBytes
    pendingAuthBytes := detector.pendingAuthBytes - state.pendingAuthBytes
    pendingAuthObjects :=
      detector.pendingAuthObjects - state.pendingAuthObjects
    provenance := {
      spans := detector.provenance.spans - state.flowProvenanceCounts.spans
      packetIdRefs :=
        detector.provenance.packetIdRefs -
          state.flowProvenanceCounts.packetIdRefs
    } }

theorem flows_dropFlow
    (detector : SensitiveDetector)
    (flowId : FlowId) :
    (detector.dropFlow flowId).state.flows =
      detector.flows.erase flowId := by
  unfold SensitiveDetector.dropFlow
  cases found : detector.flows.get? flowId with
  | none => exact (OrderedTable.erase_of_get?_eq_none found).symm
  | some state =>
      exact (counted_removeNtlmEntries state.ntlmKeys
        ⟨detector.popped flowId state, state⟩).1

/-- Dropping a flow takes from the counters exactly what it holds. -/
theorem Balanced.counted_dropFlow
    {detector : SensitiveDetector}
    {flowId : FlowId}
    {state : FlowState}
    (balanced : Balanced detector)
    (found : detector.flows.get? flowId = some state) :
    (detector.dropFlow flowId).state.counted =
      detector.counted - state.held := by
  have le := balanced.held_le found
  have counted :=
    (counted_removeNtlmEntries state.ntlmKeys
      ⟨detector.popped flowId state, state⟩).2
  unfold SensitiveDetector.dropFlow
  simp only [found, Outcome.state_bind]
  funext counter
  have same := congrFun counted counter
  have leHere := le counter
  rw [Pi.sub_apply]
  cases counter with
  | metadata =>
      have isRest :
          (runAll removeNtlmEntry state.ntlmKeys
                ⟨detector.popped flowId state,
                  state⟩).state.detector.metadataEntries -
              state.metadataEntries =
            detector.counted .metadata - state.held .metadata :=
        congrArg (· - state.metadataEntries) same
      exact (congrArg (max 0) isRest).trans
        (max_eq_right (sub_nonneg.mpr leHere))
  | _ =>
      exact (congrArg (max 0) same).trans
        (max_eq_right (sub_nonneg.mpr leHere))

/-- Dropping a flow keeps the counters of the others balanced. -/
theorem Balanced.dropFlow
    {detector : SensitiveDetector}
    {flowId : FlowId}
    {state : FlowState}
    (balanced : Balanced detector)
    (found : detector.flows.get? flowId = some state) :
    Balanced (detector.dropFlow flowId).state :=
  balanced.erase found (flows_dropFlow detector flowId)
    (balanced.counted_dropFlow found)

/-- Where removing its NTLM entries clamps nothing, dropping a flow does not. -/
theorem Balanced.dropFlow_clampsNothing
    {detector : SensitiveDetector}
    {flowId : FlowId}
    {state : FlowState}
    (balanced : Balanced detector)
    (found : detector.flows.get? flowId = some state)
    (removing :
      ∀ event ∈
          (runAll removeNtlmEntry state.ntlmKeys
            ⟨detector.popped flowId state, state⟩).events,
        event.ClampsNothing) :
    ∀ event ∈ (detector.dropFlow flowId).events, event.ClampsNothing := by
  have le := balanced.held_le found
  have counted :=
    (counted_removeNtlmEntries state.ntlmKeys
      ⟨detector.popped flowId state, state⟩).2
  have atLeast (counter : Counter) :
      counter ≠ .metadata →
        0 ≤
          (runAll removeNtlmEntry state.ntlmKeys
            ⟨detector.popped flowId state,
              state⟩).state.detector.counted counter := by
    intro other
    have leHere := le counter
    have isRest :
        (detector.popped flowId state).counted counter =
          detector.counted counter - state.held counter := by
      cases counter with
      | metadata => exact absurd rfl other
      | _ => rfl
    rw [counted, isRest]
    exact sub_nonneg.mpr leHere
  unfold SensitiveDetector.dropFlow
  simp only [found, Outcome.events_bind]
  intro event member
  rcases List.mem_append.mp member with isRemoval | isOwn
  · exact removing event isRemoval
  · simp only [List.mem_cons, List.not_mem_nil, or_false] at isOwn
    rcases isOwn with rfl | rfl | rfl | rfl
    · exact atLeast .tailBytes (by decide)
    · exact atLeast .pendingBytes (by decide)
    · exact atLeast .pendingObjects (by decide)
    · trivial

end PacketAudit.Detector
