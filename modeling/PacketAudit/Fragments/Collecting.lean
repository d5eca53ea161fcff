import PacketAudit.Fragments.Datagram

namespace PacketAudit

/-!
# Collecting the fragments of one payload

`Collecting` ties the state held for a key to the fragments that arrived so
far: the ranges hold exactly the bytes those fragments carry, with holes
between the ranges.  Each arrival of a consistent fragment keeps it, and the
assembly loop succeeds exactly when the payload is finished.
-/

open Library

namespace FragmentState

/-! ## Inserting a fragment -/

/-- The ranges are nonempty and have holes between them. -/
structure Tidy (state : FragmentState) : Prop where
  solid : Solid state.ranges
  apart : Apart state.ranges

/-- What the parts of a fragment outside the held ranges guarantee. -/
theorem additions_spec
    (packet : ParsedPacket)
    (state : FragmentState) :
    CarveSpec state.ranges [packet.byteRange] (state.additions packet) :=
  uncovered_spec (fun old _ => old.start_le_stop) packet.byteRange

theorem holdsValue_additions
    {packet : ParsedPacket}
    {state : FragmentState}
    {position : Int}
    {value : UInt8} :
    HoldsValue (state.additions packet) position value ↔
      valueAt packet.fragmentOffset packet.networkPayload position =
          some value ∧
        ¬ Covers state.ranges position := by
  have piece :
      HoldsValue [packet.byteRange] position value ↔
        valueAt packet.fragmentOffset packet.networkPayload position =
          some value := by
    simp [ParsedPacket.byteRange]
  rw [← piece, holdsValue_iff_holds, holdsValue_iff_holds]
  simp only [(additions_spec packet state).holds, exists_and_right]

/-- The range objects before merging are nonempty and do not overlap. -/
theorem Tidy.marked
    {state : FragmentState}
    (tidy : state.Tidy)
    (packet : ParsedPacket) :
    Solid (state.marked packet) ∧ Ordered (state.marked packet) := by
  have spec := additions_spec packet state
  refine ⟨?_, ?_⟩
  · exact solid_insertSorted (solid_map_retag tidy.solid)
      (solid_map_retag spec.solid)
  · apply ordered_insertSorted (solid_map_retag tidy.solid)
      (ordered_map_retag tidy.apart.ordered) (solid_map_retag spec.solid)
      (ordered_map_retag spec.ordered)
    intro position inAdditions inRanges
    rw [covers_map_retag, covers_iff_holdsValue] at inAdditions
    rw [covers_map_retag] at inRanges
    obtain ⟨value, held⟩ := inAdditions
    exact (holdsValue_additions.mp held).2 inRanges

/-- Inserting a fragment leaves nonempty ranges with holes between them. -/
theorem Tidy.insert
    {state : FragmentState}
    (tidy : state.Tidy)
    (packet : ParsedPacket) :
    (state.insert packet).Tidy := by
  obtain ⟨markedSolid, markedOrdered⟩ := tidy.marked packet
  obtain ⟨solid, apart⟩ := apart_coalesce markedSolid markedOrdered
  exact {
    solid := solid_map_retag solid
    apart := apart_map_retag apart
  }

/-- Inserting adds the fragment's bytes where nothing was held. -/
theorem holdsValue_insert
    {packet : ParsedPacket}
    {state : FragmentState}
    {position : Int}
    {value : UInt8} :
    HoldsValue (state.insert packet).ranges position value ↔
      HoldsValue state.ranges position value ∨
        (valueAt packet.fragmentOffset packet.networkPayload position =
            some value ∧
          ¬ Covers state.ranges position) := by
  simp only [insert, marked, holdsValue_map_retag, holdsValue_coalesce,
    holdsValue_insertSorted, holdsValue_additions]

/-- Inserting covers what was covered and the fragment. -/
theorem covers_insert
    {packet : ParsedPacket}
    {state : FragmentState}
    {position : Int} :
    Covers (state.insert packet).ranges position ↔
      Covers state.ranges position ∨ packet.byteRange.Contains position := by
  have carried :
      packet.byteRange.Contains position ↔
        ∃ value,
          valueAt packet.fragmentOffset packet.networkPayload position =
            some value := by
    rw [← Option.isSome_iff_exists, valueAt_isSome]
    rfl
  simp only [covers_iff_holdsValue, holdsValue_insert, exists_or,
    exists_and_right, carried]
  rw [← covers_iff_holdsValue]
  by_cases held : Covers state.ranges position
  · simp [held]
  · simp [held]

/-! ## Assembly -/

/-- A complete assembly covers everything from the cursor to the end. -/
theorem covers_of_assembleFrom
    {finalEnd cursor : Int}
    {assembled payload : Bytes}
    {ranges : List ByteRange}
    (complete :
      assembleFrom finalEnd cursor assembled ranges = .complete payload)
    {position : Int}
    (fromCursor : cursor ≤ position)
    (beforeEnd : position < finalEnd) :
    Covers ranges position := by
  induction ranges generalizing cursor assembled with
  | nil =>
      simp only [assembleFrom] at complete
      split at complete
      · omega
      · cases complete
  | cons item rest inductionHypothesis =>
      rw [covers_cons]
      unfold assembleFrom at complete
      split at complete
      · cases complete
      case isFalse atCursor =>
        split at complete
        · cases complete
        by_cases inItem : position < item.stop
        · exact .inl ⟨by omega, inItem⟩
        · right
          split at complete
          · omega
          · exact inductionHypothesis complete (by omega)

/-- An assembly that reaches the end returns one of the held datagrams. -/
theorem assemble_eq_complete
    {state : FragmentState}
    {payload : Bytes}
    {base : ParsedPacket}
    (assembled : state.assemble = (.complete payload, some base)) :
    ∃ finalEnd,
      state.firstFragment = some base ∧
        state.finalEnd = some finalEnd ∧
        assembleFrom finalEnd 0 [] state.ranges = .complete payload := by
  unfold assemble at assembled
  split at assembled
  case _ first finalEnd firstHeld finalHeld =>
    split at assembled
    · cases assembled
    · obtain ⟨complete, same⟩ := Prod.mk.inj assembled
      exact ⟨finalEnd, firstHeld.trans same, finalHeld, complete⟩
  case _ => cases assembled

end FragmentState

/-! ## The invariant -/

/-- The state holds exactly what the fragments of the payload brought. -/
structure Collecting
    (payload : Bytes)
    (arrivals : List ParsedPacket)
    (state : FragmentState) : Prop where
  tidy : state.Tidy
  first :
    state.firstFragment =
      arrivals.find? fun packet => packet.fragmentOffset = 0
  final :
    state.finalEnd =
      if ∃ packet ∈ arrivals, packet.moreFragments = false then
        some payload.length
      else
        none
  untruncated : state.truncated = false
  values :
    ∀ {position value},
      HoldsValue state.ranges position value →
        valueAt 0 payload position = some value
  covers :
    ∀ {position : Nat},
      Covers state.ranges position ↔ Covered arrivals position
  sourcePacketIds : state.sourcePacketIds = supplierIds arrivals

/-- The state carries the largest identifier and timestamp that arrived. -/
structure Latest
    (arrivals : List ParsedPacket)
    (state : FragmentState) : Prop where
  packetId :
    state.latestPacketId =
      largest (arrivals.map fun packet => packet.packetId)
  timestampNs :
    state.lastSeenNs =
      largest (arrivals.map fun packet => packet.timestampNs)

namespace Collecting

variable
  {key : FragmentKey}
  {payload : Bytes}
  {arrivals : List ParsedPacket}
  {state : FragmentState}
  {packet : ParsedPacket}

/-- Held bytes lie inside the payload. -/
theorem inside
    (collecting : Collecting payload arrivals state)
    {position : Int}
    (covered : Covers state.ranges position) :
    0 ≤ position ∧ position < payload.length := by
  obtain ⟨value, held⟩ := covers_iff_holdsValue.mp covered
  have found := valueAt_isSome.mp
    (Option.isSome_iff_exists.mpr ⟨value, collecting.values held⟩)
  omega

/-- Held ranges lie inside the payload. -/
theorem range_inside
    (collecting : Collecting payload arrivals state)
    {range : ByteRange}
    (member : range ∈ state.ranges) :
    0 ≤ range.start ∧ range.stop ≤ payload.length := by
  have forward := Segment.start_lt_stop (collecting.tidy.solid range member)
  have first := collecting.inside ⟨range, member, le_refl _, forward⟩
  have beforeStop : range.Contains (range.stop - 1) := by
    unfold Segment.Contains
    omega
  have last := collecting.inside ⟨range, member, beforeStop⟩
  omega

/-- A datagram without a fragment holds nothing. -/
theorem new
    (clock : Int)
    (packet : ParsedPacket) :
    Collecting payload [] (.new clock packet) where
  tidy := {
    solid := by simp [FragmentState.new, Solid]
    apart := List.Pairwise.nil
  }
  first := rfl
  final := by simp [FragmentState.new]
  untruncated := rfl
  values := by simp [FragmentState.new]
  covers := by simp [FragmentState.new, Covered]
  sourcePacketIds := rfl

/-- A consistent fragment ends where the fragments before it say. -/
theorem finalEnd_agrees
    (collecting : Collecting payload arrivals state)
    (fragment : FragmentOf key payload packet)
    (clock : Int) :
    (state.touch clock packet).finalEndDiffers packet = false := by
  unfold FragmentState.finalEndDiffers
  cases more : packet.moreFragments with
  | true => rfl
  | false =>
      simp only [FragmentState.touch, collecting.final,
        (fragment.last more).1, Bool.not_false, Bool.true_and]
      split <;> simp

/-- A consistent fragment agrees with the bytes held. -/
theorem no_conflict
    (collecting : Collecting payload arrivals state)
    (fragment : FragmentOf key payload packet)
    (clock : Int) :
    ((state.touch clock packet).recordFinalEnd packet).hasConflictingOverlap
      packet = false := by
  unfold FragmentState.hasConflictingOverlap
  rw [List.any_eq_false]
  intro old member
  have agrees :
      overlapDiffers packet.fragmentOffset packet.networkPayload old.start
        old.data = false :=
    overlapDiffers_eq_false (fun held => fragment.valueAt held)
      (fun held => collecting.values ⟨old, member, held⟩)
  simp [agrees]

/-- A fragment adds something exactly when it supplies a byte first. -/
theorem additions_isEmpty
    (collecting : Collecting payload arrivals state)
    (packet : ParsedPacket) :
    (state.additions packet).isEmpty = true ↔
      ¬ SuppliesNewByte arrivals packet := by
  rw [List.isEmpty_iff, FragmentState.additions,
    uncovered_eq_nil fun old _ => old.start_le_stop]
  constructor
  · rintro allCovered ⟨position, -, carries, fresh⟩
    exact fresh (collecting.covers.mp
      (allCovered _ (ParsedPacket.carriesByte_iff_contains.mp carries)))
  · intro nothingNew position inside
    have nonnegative : 0 ≤ position := by
      have fromStart : (packet.fragmentOffset : Int) ≤ position := inside.1
      omega
    obtain ⟨index, rfl⟩ := Int.eq_ofNat_of_zero_le nonnegative
    have carries := ParsedPacket.carriesByte_iff_contains.mpr inside
    by_contra fresh
    exact nothingNew
      ⟨index, carries.2, carries, mt collecting.covers.mpr fresh⟩

/-- A consistent fragment keeps the invariant. -/
theorem insert
    (collecting : Collecting payload arrivals state)
    (fragment : FragmentOf key payload packet)
    (clock : Int) :
    Collecting payload (arrivals ++ [packet])
      (((state.touch clock packet).recordFinalEnd packet).insert packet) := by
  have tidy :
      ((state.touch clock packet).recordFinalEnd packet).Tidy :=
    ⟨collecting.tidy.solid, collecting.tidy.apart⟩
  refine {
    tidy := tidy.insert packet
    first := ?_
    final := ?_
    untruncated := ?_
    values := ?_
    covers := ?_
    sourcePacketIds := ?_
  }
  · rw [List.find?_append, ← collecting.first]
    simp only [FragmentState.insert, FragmentState.recordFinalEnd,
      FragmentState.touch]
    cases held : state.firstFragment with
    | none => by_cases atStart : packet.fragmentOffset = 0 <;> simp [atStart]
    | some base => simp
  · simp only [FragmentState.insert, FragmentState.recordFinalEnd,
      FragmentState.touch]
    cases more : packet.moreFragments with
    | true =>
        simp [collecting.final, more]
    | false =>
        rw [if_neg (by simp), (fragment.last more).1, if_pos]
        exact ⟨packet, by simp, more⟩
  · simp [FragmentState.insert, FragmentState.recordFinalEnd,
      FragmentState.touch, collecting.untruncated, fragment.untruncated]
  · intro position value held
    rcases FragmentState.holdsValue_insert.mp held with before | ⟨new, -⟩
    · exact collecting.values before
    · exact fragment.valueAt new
  · intro position
    rw [FragmentState.covers_insert, covered_append,
      ← ParsedPacket.carriesByte_iff_contains]
    have before :
        Covers
            ((state.touch clock packet).recordFinalEnd packet).ranges
            position ↔
          Covered arrivals position :=
      collecting.covers
    rw [before]
    simp [Covered]
  · have sameAdditions :
        ((state.touch clock packet).recordFinalEnd packet).additions packet =
          state.additions packet := rfl
    simp only [FragmentState.insert, sameAdditions,
      collecting.additions_isEmpty packet]
    simp only [FragmentState.recordFinalEnd, FragmentState.touch]
    rw [supplierIds_concat, collecting.sourcePacketIds]
    by_cases supplies : SuppliesNewByte arrivals packet
    · simp [supplies]
    · simp [supplies]

/-- A finished payload is held as one range. -/
theorem whole
    (collecting : Collecting payload arrivals state)
    (nonempty : payload ≠ [])
    (finished : Finished payload arrivals) :
    ∃ range,
      state.ranges = [range] ∧ range.start = 0 ∧ range.data = payload := by
  have positive := List.length_pos_iff.mpr nonempty
  obtain ⟨range, single, startsFirst, stopsLast⟩ :=
    collecting.tidy.apart.eq_singleton collecting.tidy.solid
      (show (0 : Int) < payload.length by omega)
      fun position => by
        refine ⟨collecting.inside, ?_⟩
        rintro ⟨nonnegative, before⟩
        obtain ⟨index, rfl⟩ := Int.eq_ofNat_of_zero_le nonnegative
        exact collecting.covers.mpr (finished.2 index (by omega))
  refine ⟨range, single, startsFirst, ?_⟩
  have sameLength : range.data.length = payload.length := by
    unfold Segment.stop at stopsLast
    omega
  apply List.ext_getElem sameLength
  intro index inRange inPayload
  have held :
      HoldsValue state.ranges (index : Int) range.data[index] := by
    refine ⟨range, by simp [single], ?_⟩
    simp [valueAt, startsFirst, inRange]
  have agrees := collecting.values held
  have nonnegative : (0 : Int) ≤ index := by omega
  simp only [valueAt, nonnegative, ↓reduceIte, sub_zero,
    Int.toNat_natCast] at agrees
  exact (List.getElem_eq_iff inPayload).mpr agrees |>.symm

/-- A finished payload is assembled under its first fragment. -/
theorem assemble_finished
    (collecting : Collecting payload arrivals state)
    (nonempty : payload ≠ [])
    (finished : Finished payload arrivals)
    {base : ParsedPacket}
    (first :
      arrivals.find? (fun packet => packet.fragmentOffset = 0) =
        some base) :
    state.assemble = (.complete payload, some base) := by
  obtain ⟨range, single, startsFirst, holds⟩ :=
    collecting.whole nonempty finished
  have stopsLast : range.stop = payload.length := by
    unfold Segment.stop
    rw [startsFirst, holds]
    omega
  unfold FragmentState.assemble
  rw [collecting.first, first, collecting.final, if_pos finished.1]
  simp [collecting.untruncated, single, FragmentState.assembleFrom,
    startsFirst, stopsLast, holds]

/-- An unfinished payload is not assembled. -/
theorem assemble_unfinished
    (collecting : Collecting payload arrivals state)
    (unfinished : ¬ Finished payload arrivals) :
    state.assemble.1 = .incomplete := by
  unfold FragmentState.assemble
  split
  case _ base finalEnd firstHeld finalHeld =>
    rw [collecting.untruncated]
    simp only [Bool.false_eq_true, ↓reduceIte]
    rw [collecting.final] at finalHeld
    split at finalHeld
    case isFalse => cases finalHeld
    case isTrue final =>
      obtain rfl := Option.some.inj finalHeld
      -- With the final fragment there, a byte is missing below the end.
      have hole :
          ∃ position < payload.length, ¬ Covered arrivals position := by
        by_contra noHole
        push Not at noHole
        exact unfinished ⟨final, noHole⟩
      obtain ⟨position, before, missing⟩ := hole
      have outside : ¬ Covers state.ranges position :=
        mt collecting.covers.mp missing
      have inside := @range_inside _ _ _ collecting
      cases ranges : state.ranges with
      | nil =>
          have notEmpty : ¬ (0 : Int) = payload.length := by omega
          simp [FragmentState.assembleFrom, notEmpty]
      | cons range rest =>
          rw [ranges] at outside
          rw [covers_cons, not_or] at outside
          obtain ⟨lower, upper⟩ :=
            inside (show range ∈ state.ranges by simp [ranges])
          unfold FragmentState.assembleFrom
          split
          · rfl
          case isFalse atStart =>
            have stopsEarly : range.stop ≠ payload.length := by
              intro stopsLast
              apply outside.1
              unfold Segment.Contains
              omega
            rw [if_neg (by omega), if_neg stopsEarly]
            cases rest with
            | nil =>
                simp [FragmentState.assembleFrom, stopsEarly]
            | cons later others =>
                have apart := collecting.tidy.apart
                rw [ranges] at apart
                have gap :=
                  (List.pairwise_cons.mp apart).1 later List.mem_cons_self
                unfold FragmentState.assembleFrom
                rw [if_pos (by omega)]
  case _ => rfl

end Collecting

namespace Latest

variable
  {arrivals : List ParsedPacket}
  {state : FragmentState}

/-- The first arrival sets both values. -/
theorem new
    (clock : Int)
    (packet : ParsedPacket) :
    Latest [packet]
      ((((FragmentState.new clock packet).touch clock packet).recordFinalEnd
        packet).insert packet) where
  packetId := by
    simp [FragmentState.insert, FragmentState.recordFinalEnd,
      FragmentState.touch, FragmentState.new]
  timestampNs := by
    simp [FragmentState.insert, FragmentState.recordFinalEnd,
      FragmentState.touch, FragmentState.new]

/-- Every later arrival can only raise them. -/
theorem insert
    (latest : Latest arrivals state)
    (nonempty : arrivals ≠ [])
    (clock : Int)
    (packet : ParsedPacket) :
    Latest (arrivals ++ [packet])
      (((state.touch clock packet).recordFinalEnd packet).insert
        packet) where
  packetId := by
    rw [List.map_append, List.map_singleton,
      largest_concat (by simpa using nonempty), ← latest.packetId]
    rfl
  timestampNs := by
    rw [List.map_append, List.map_singleton,
      largest_concat (by simpa using nonempty), ← latest.timestampNs]
    rfl

end Latest

end PacketAudit
