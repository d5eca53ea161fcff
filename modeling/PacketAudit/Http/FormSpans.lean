import PacketAudit.Library.Resuming
import PacketAudit.Http.WireSpans

namespace PacketAudit

open Library

/-!
# The wire spans of form values

`Message.wire_span` finds the start of a value in the chunk that holds the byte
there, and its end in the chunk that holds the byte before.  For an empty value
these are different chunks where a chunk ends at the value, and there is no
byte at all where the body does.
-/

/-- Where the value of a field starts on the wire. -/
def valueWireStart (spans : List BodySpan) (value : Field) : Option Nat :=
  if value.start < value.stop then
    (wirePositions spans)[value.start]?
  else
    (wirePositions spans)[value.start - 1]?.map fun equals => equals + 1

/-- The wire span of a field's value and of no other body byte. -/
structure ExactSpan
    (rest : Bytes)
    (message : Message)
    (value : Field)
    (span : Nat × Nat) : Prop where
  ordered : span.1 ≤ span.2
  starts : valueWireStart message.bodySpans value = some span.1
  carries :
    carriedBytes rest message.bodySpans span.1 span.2 =
      message.body.extract value.start value.stop

open Detector in
/-- A finding for the field has the offset and the packets of its value. -/
structure ExactFinding
    (rest : Bytes)
    (message : Message)
    (value : Field) : Prop where
  span : ExactSpan rest message value (message.wireSpan value.start value.stop)
  streamOffset :
    ∀ limits context usernames attemptOrdinal,
      let scanned := message.context context
      ((message.formEmission limits scanned usernames value).finding limits
          scanned attemptOrdinal).streamOffset =
        context.baseOffset.bind fun baseOffset =>
          (valueWireStart message.bodySpans value).map fun first =>
            baseOffset + message.start + first
  packets :
    ∀ limits context usernames attemptOrdinal,
      usernames.length ≠ 1 →
        let scanned := message.context context
        let span := message.wireSpan value.start value.stop
        ((message.formEmission limits scanned usernames value).finding limits
            scanned attemptOrdinal).packetIds =
          (scanned.provenance limits span.1 span.2).1

open Detector in
/-- A finding is at the position of its emission in the stream. -/
theorem finding_streamOffset
    (request : Emission)
    (limits : DetectorLimits)
    (context : ScanContext)
    (attemptOrdinal : Nat) :
    (request.finding limits context attemptOrdinal).streamOffset =
      context.baseOffset.map fun baseOffset => baseOffset + request.start :=
  rfl

open Detector in
/-- Without a companion a finding has the packets of its range. -/
theorem finding_packetIds
    (request : Emission)
    (limits : DetectorLimits)
    (context : ScanContext)
    (attemptOrdinal : Nat)
    (noOverride : request.packetIdsOverride = none) :
    (request.finding limits context attemptOrdinal).packetIds =
      (context.provenance limits request.start request.stop).1 := by
  simp only [Emission.finding, Emission.packetIds, noOverride]

/-- A finding has the offset and the packets of the span of its value. -/
theorem ExactSpan.finding
    {rest : Bytes}
    {message : Message}
    {value : Field}
    (exactSpan :
      ExactSpan rest message value
        (message.wireSpan value.start value.stop)) :
    ExactFinding rest message value where
  span := exactSpan
  streamOffset := by
    intro limits context usernames attemptOrdinal scanned
    rw [exactSpan.starts, finding_streamOffset]
    have start :
        (message.formEmission limits scanned usernames value).start =
          (message.wireSpan value.start value.stop).1 :=
      rfl
    have base :
        scanned.baseOffset =
          context.baseOffset.map (· + (message.start : Int)) :=
      rfl
    rw [start, base]
    cases context.baseOffset <;> rfl
  packets := by
    intro limits context usernames attemptOrdinal noCompanion scanned span
    refine finding_packetIds _ limits scanned attemptOrdinal ?_
    match usernames with
    | [] => rfl
    | [companion] => exact absurd rfl noCompanion
    | first :: second :: more => rfl

/-! ## Increasing positions -/

section Increasing

variable {positions : List Nat}
variable (increasing : positions.Pairwise (· < ·))

include increasing

theorem lt_of_increasing
    {index later position behind : Nat}
    (before : index < later)
    (isPosition : positions[index]? = some position)
    (isBehind : positions[later]? = some behind) :
    position < behind := by
  obtain ⟨inside, rfl⟩ := List.getElem?_eq_some_iff.mp isPosition
  obtain ⟨laterInside, rfl⟩ := List.getElem?_eq_some_iff.mp isBehind
  exact List.pairwise_iff_getElem.mp increasing index later inside
    laterInside before

/-- The positions from one to another are those between their indices. -/
theorem filter_between
    {first last firstPosition lastPosition : Nat}
    (ordered : first ≤ last)
    (isFirst : positions[first]? = some firstPosition)
    (isLast : positions[last]? = some lastPosition) :
    positions.filter (fun position =>
        firstPosition ≤ position && position < lastPosition + 1) =
      positions.extract first (last + 1) := by
  have shape :
      positions =
        positions.extract 0 first ++ positions.extract first (last + 1) ++
          positions.extract (last + 1) positions.length := by
    have inside := (List.getElem?_eq_some_iff.mp isLast).1
    rw [extract_append_extract _ (Nat.zero_le _) (by omega),
      extract_append_extract _ (Nat.zero_le _) (by omega)]
    simp
  have at_index
      {start stop position : Nat}
      (member : position ∈ positions.extract start stop) :
      ∃ index,
        start ≤ index ∧ index < stop ∧ positions[index]? = some position := by
    obtain ⟨index, isIndex⟩ := List.mem_iff_getElem?.mp member
    rw [List.extract_eq_take_drop, List.getElem?_take] at isIndex
    split at isIndex
    · rw [List.getElem?_drop] at isIndex
      exact ⟨start + index, by omega, by omega, isIndex⟩
    · cases isIndex
  rw [shape, List.filter_append, List.filter_append, ← shape]
  have before :
      (positions.extract 0 first).filter (fun position =>
        firstPosition ≤ position && position < lastPosition + 1) = [] := by
    rw [List.filter_eq_nil_iff]
    intro position member
    obtain ⟨index, -, isBefore, isPosition⟩ := at_index member
    have less := lt_of_increasing increasing isBefore isPosition isFirst
    simp only [Bool.and_eq_true, decide_eq_true_eq]
    omega
  have behind :
      (positions.extract (last + 1) positions.length).filter
        (fun position =>
          firstPosition ≤ position && position < lastPosition + 1) = [] := by
    rw [List.filter_eq_nil_iff]
    intro position member
    obtain ⟨index, isBehind, -, isPosition⟩ := at_index member
    have greater :=
      lt_of_increasing increasing (by omega) isLast isPosition
    simp only [Bool.and_eq_true, decide_eq_true_eq]
    omega
  have between :
      (positions.extract first (last + 1)).filter (fun position =>
          firstPosition ≤ position && position < lastPosition + 1) =
        positions.extract first (last + 1) := by
    rw [List.filter_eq_self]
    intro position member
    obtain ⟨index, fromFirst, toLast, isPosition⟩ := at_index member
    have notBefore : firstPosition ≤ position := by
      rcases Nat.lt_or_eq_of_le fromFirst with isLater | rfl
      · exact (lt_of_increasing increasing isLater isFirst isPosition).le
      · rw [isFirst, Option.some.injEq] at isPosition
        exact isPosition.le
    have notBehind : position ≤ lastPosition := by
      rcases Nat.lt_or_eq_of_le (Nat.le_of_lt_succ toLast) with
        isEarlier | rfl
      · exact (lt_of_increasing increasing isEarlier isPosition isLast).le
      · rw [isLast, Option.some.injEq] at isPosition
        exact isPosition.ge
    simp only [Bool.and_eq_true, decide_eq_true_eq]
    omega
  rw [before, between, behind, List.nil_append, List.append_nil]

end Increasing

theorem filterMap_of_map_eq
    {positions : List Nat}
    {rest bytes : Bytes}
    (same :
      positions.map (fun position => rest[position]?) = bytes.map some) :
    positions.filterMap (fun position => rest[position]?) = bytes := by
  have mapped := congrArg (List.filterMap id) same
  simpa [List.filterMap_map, Function.comp_def] using mapped

/-! ## The span of a value -/

section Value

variable {rest : Bytes}
variable {message : Message}
variable {value : Field}
variable (carried :
  Carried rest 0 message.headerEnd message.bodySpans message.body)
variable (ofBody : FieldOf message.body value)

include carried

theorem wireSpan_first
    {start : Nat}
    (stop : Nat)
    (inBody : start < message.body.length) :
    (wirePositions message.bodySpans)[start]? =
      some (message.wireSpan start stop).1 := by
  obtain ⟨span, isSpan, isPosition⟩ :=
    carried.find_first (Nat.zero_le start) (by omega)
  simpa [Message.wireSpan, isSpan] using isPosition

theorem wireSpan_first_behind
    {start : Nat}
    (stop : Nat)
    (behindBody : message.body.length ≤ start) :
    (message.wireSpan start stop).1 = message.headerEnd := by
  have noSpan :=
    carried.find_none (show 0 + message.body.length ≤ start by omega)
  simp only [Message.wireSpan, noSpan]

/-- The span that holds the byte before the end of a value gives its end. -/
theorem wireSpan_last
    (start : Nat)
    {stop : Nat}
    (positive : 0 < stop)
    (inBody : stop ≤ message.body.length) :
    ∃ before,
      (wirePositions message.bodySpans)[stop - 1]? = some before ∧
        (message.wireSpan start stop).2 = before + 1 := by
  obtain ⟨span, before, isSpan, isPosition, isBefore, -⟩ :=
    carried.find_last positive (by omega)
  exact ⟨before, by simpa using isPosition, by
    simpa [Message.wireSpan, isSpan] using isBefore⟩

include ofBody

/-- The span of a value that is not empty is exact. -/
theorem exactSpan_of_nonempty
    (nonempty : value.start < value.stop) :
    ExactSpan rest message value
      (message.wireSpan value.start value.stop) := by
  have inside := ofBody.inside
  have inBody : value.start < message.body.length := by omega
  have positive : 0 < value.stop := by omega
  have isFirst := wireSpan_first carried value.stop inBody
  obtain ⟨before, isBefore, isLast⟩ :=
    wireSpan_last carried value.start positive inside
  have increasing := carried.increasing.2
  have between :=
    filter_between increasing (by omega) isFirst isBefore
  rw [Nat.sub_add_cancel (by omega)] at between
  have bytes := congrArg
    (fun bytes => bytes.extract value.start value.stop) carried.bytes
  simp only [List.extract_eq_take_drop, ← List.map_drop, ← List.map_take]
    at bytes
  refine {
    ordered := ?_
    starts := by rw [valueWireStart, if_pos nonempty, isFirst]
    carries := ?_
  }
  · have firstInside := (List.getElem?_eq_some_iff.mp isFirst).1
    rw [isLast]
    rcases Nat.lt_or_eq_of_le (Nat.le_sub_one_of_lt nonempty) with
      isLater | isSame
    · exact (lt_of_increasing increasing isLater isFirst isBefore).le.trans
        (Nat.le_succ _)
    · rw [← isSame, isFirst, Option.some.injEq] at isBefore
      omega
  · rw [carriedBytes, isLast, between, List.extract_eq_take_drop,
      List.extract_eq_take_drop]
    exact filterMap_of_map_eq bytes

/-- The span of an empty value is exact if its chunk goes on behind it. -/
theorem exactSpan_iff_of_empty
    (isEmpty : value.start = value.stop) :
    ExactSpan rest message value
        (message.wireSpan value.start value.stop) ↔
      ∃ span ∈ message.bodySpans,
        span.left < value.start ∧ value.start < span.right := by
  obtain ⟨positive, -⟩ := ofBody.behindEquals
  have inside := ofBody.inside
  obtain ⟨before, isBefore, isLast⟩ :=
    wireSpan_last carried value.start positive (by omega)
  rw [carried.adjacent_iff positive, ← isEmpty]
  simp only [Nat.sub_zero]
  constructor
  · rintro ⟨-, starts, -⟩
    rw [valueWireStart, if_neg (by omega), isBefore, Option.map_some,
      Option.some.injEq] at starts
    refine ⟨before, isBefore, ?_⟩
    by_cases inBody : value.start < message.body.length
    · rw [wireSpan_first carried value.start inBody, starts]
    · -- Behind the body the start is that of the body.
      rw [wireSpan_first_behind carried value.start (by omega)] at starts
      have fromHeader :=
        carried.increasing.1 before (List.mem_of_getElem? isBefore)
      omega
  · rintro ⟨found, isFound, isNext⟩
    rw [isBefore, Option.some.injEq] at isFound
    subst isFound
    have inBody : value.start < message.body.length := by
      rw [← carried.length_positions]
      exact (List.getElem?_eq_some_iff.mp isNext).1
    have isFirst := wireSpan_first carried value.start inBody
    rw [isNext, Option.some.injEq] at isFirst
    refine {
      ordered := by rw [isLast, isFirst]
      starts := ?_
      carries := ?_
    }
    · rw [valueWireStart, if_neg (by omega), isBefore, Option.map_some,
        isFirst]
    · rw [carriedBytes, isLast, isFirst, isEmpty]
      simp

end Value

/-! ## Findings for form values -/

/-- A form of 16 bytes with an empty value in it and one at its end. -/
def formRequest : Bytes :=
  ascii "POST /x HTTP/1.1\r\nContent-Length: 16\r\nContent-Type: " ++
    ascii "application/x-www-form-urlencoded\r\n\r\nuser=&k=xy&pass="

def formMessage : Message where
  headerEnd := 89
  stop := 105
  target := ascii "/x"
  targetStart := 5
  contentType := "application/x-www-form-urlencoded"
  body := ascii "user=&k=xy&pass="
  bodySpans := [⟨0, 16, 89⟩]
  encodedContent := false

/-- The field `pass` of the form, with an empty value. -/
def emptyField : Field := ⟨[112, 97, 115, 115], [], [], 16, 16⟩

end PacketAudit
