import PacketAudit.Http.Forms
import PacketAudit.Http.Returned

namespace PacketAudit

open Library

/-!
# Where a body lies on the wire

The body spans of a message give the wire position of every body byte, in
order.  `Message.wire_span` finds the first byte of a value and the last one by
these positions; an empty value has neither.
-/

/-- The wire positions of the body bytes, in order. -/
def wirePositions (spans : List BodySpan) : List Nat :=
  spans.flatMap fun span => List.range' span.wire (span.right - span.left)

/-- The body bytes that the wire carries from a position up to another. -/
def carriedBytes
    (rest : Bytes)
    (spans : List BodySpan)
    (first last : Nat) : Bytes :=
  ((wirePositions spans).filter fun position =>
    first ≤ position && position < last).filterMap fun position =>
      rest[position]?

/--
The spans of a body from a decoded position on: one behind the other on the
wire, none before the given wire position.
-/
inductive Carried (rest : Bytes) :
    (left position : Nat) → List BodySpan → Bytes → Prop where
  | done {left position : Nat} : Carried rest left position [] []
  | span
      {left position wire length : Nat}
      {spans : List BodySpan}
      {body : Bytes}
      (behind : position ≤ wire)
      (inside : wire + length ≤ rest.length)
      (later :
        Carried rest (left + length) (wire + length + 1) spans body) :
      Carried rest left position (⟨left, left + length, wire⟩ :: spans)
        (rest.extract wire (wire + length) ++ body)

theorem length_extract_inside
    {data : Bytes}
    {start length : Nat}
    (inside : start + length ≤ data.length) :
    (data.extract start (start + length)).length = length := by
  rw [List.extract_eq_take_drop, List.length_take, List.length_drop]
  omega

theorem map_getElem?_range'
    {data : Bytes}
    {start length : Nat}
    (inside : start + length ≤ data.length) :
    (List.range' start length).map (fun index => data[index]?) =
      (data.extract start (start + length)).map some := by
  refine List.ext_getElem? fun index => ?_
  rw [List.getElem?_map, List.getElem?_map, List.extract_eq_take_drop,
    List.getElem?_take, List.getElem?_drop, Nat.add_sub_cancel_left]
  by_cases isIndex : index < length
  · rw [List.getElem?_range' isIndex, if_pos isIndex, Option.map_some,
      Nat.one_mul, List.getElem?_eq_getElem (by omega), Option.map_some]
  · rw [List.getElem?_eq_none (by simp; omega), if_neg isIndex,
      Option.map_none, Option.map_none]

namespace Carried

variable {rest body : Bytes}
variable {left position : Nat}
variable {spans : List BodySpan}

theorem weaken
    {earlier : Nat}
    (carried : Carried rest left position spans body)
    (isEarlier : earlier ≤ position) :
    Carried rest left earlier spans body := by
  cases carried with
  | done => exact .done
  | span behind inside later => exact .span (by omega) inside later

theorem length_positions
    (carried : Carried rest left position spans body) :
    (wirePositions spans).length = body.length := by
  induction carried with
  | done => rfl
  | @span left position wire length spans body behind inside later
      inductionHypothesis =>
      simp only [wirePositions, List.flatMap_cons, List.length_append,
        List.length_range', Nat.add_sub_cancel_left] at inductionHypothesis ⊢
      rw [inductionHypothesis, length_extract_inside inside]

/-- The wire has each body byte at its position. -/
theorem bytes
    (carried : Carried rest left position spans body) :
    (wirePositions spans).map (fun wire => rest[wire]?) =
      body.map some := by
  induction carried with
  | done => rfl
  | @span left position wire length spans body behind inside later
      inductionHypothesis =>
      simp only [wirePositions, List.flatMap_cons, List.map_append,
        Nat.add_sub_cancel_left] at inductionHypothesis ⊢
      rw [inductionHypothesis]
      congr 1
      exact map_getElem?_range' inside

/-- Every position is behind the bound, and each behind the one before. -/
theorem increasing
    (carried : Carried rest left position spans body) :
    (∀ wire ∈ wirePositions spans, position ≤ wire) ∧
      (wirePositions spans).Pairwise (· < ·) := by
  induction carried with
  | done => simp [wirePositions]
  | @span left position wire length spans body behind inside later
      inductionHypothesis =>
      obtain ⟨afterSpan, increasing⟩ := inductionHypothesis
      simp only [wirePositions, List.flatMap_cons, Nat.add_sub_cancel_left]
        at afterSpan increasing ⊢
      constructor
      · intro found member
        rcases List.mem_append.mp member with here | later
        · have inSpan := (List.mem_range'_1.mp here).1
          omega
        · have behindSpan := afterSpan found later
          omega
      · refine List.pairwise_append.mpr
          ⟨List.pairwise_lt_range', increasing, ?_⟩
        intro first inFirst second inLater
        have inSpan := (List.mem_range'_1.mp inFirst).2
        have behindSpan := afterSpan second inLater
        omega

/-- The span with a body byte tells its position. -/
theorem find_first
    (carried : Carried rest left position spans body)
    {index : Nat}
    (fromLeft : left ≤ index)
    (inBody : index < left + body.length) :
    ∃ span,
      spans.find? (fun span => span.left ≤ index && index < span.right) =
          some span ∧
        (wirePositions spans)[index - left]? =
          some (span.wire + index - span.left) := by
  induction carried with
  | done => simp at inBody; omega
  | @span left position wire length spans body behind inside later
      inductionHypothesis =>
      simp only [wirePositions, List.flatMap_cons, Nat.add_sub_cancel_left,
        List.find?_cons] at inductionHypothesis ⊢
      rw [List.length_append, length_extract_inside inside] at inBody
      by_cases here : index < left + length
      · refine ⟨⟨left, left + length, wire⟩, by simp [fromLeft, here], ?_⟩
        rw [List.getElem?_append_left (by simp; omega),
          List.getElem?_range' (by omega), Nat.one_mul,
          Nat.add_sub_assoc fromLeft]
      · obtain ⟨span, isSpan, isPosition⟩ :=
          inductionHypothesis (by omega) (by omega)
        refine ⟨span, by simpa [here] using isSpan, ?_⟩
        rw [List.getElem?_append_right (by simp; omega), List.length_range',
          show index - left - length = index - (left + length) by omega]
        exact isPosition

/-- No span begins a byte behind the body. -/
theorem find_none
    (carried : Carried rest left position spans body)
    {index : Nat}
    (behindBody : left + body.length ≤ index) :
    spans.find? (fun span => span.left ≤ index && index < span.right) =
      none := by
  induction carried with
  | done => rfl
  | @span left position wire length spans body behind inside later
      inductionHypothesis =>
      rw [List.length_append, length_extract_inside inside] at behindBody
      rw [List.find?_cons]
      have notHere : ¬ index < left + length := by omega
      simp only [notHere, decide_false, Bool.and_false]
      exact inductionHypothesis (by omega)

/-- The span that ends a value tells the position of its last byte. -/
theorem find_last
    (carried : Carried rest left position spans body)
    {index : Nat}
    (fromLeft : left < index)
    (inBody : index ≤ left + body.length) :
    ∃ span before,
      spans.find? (fun span => span.left < index && index ≤ span.right) =
          some span ∧
        (wirePositions spans)[index - 1 - left]? = some before ∧
        span.wire + index - span.left = before + 1 ∧
        span.left < index := by
  induction carried with
  | done => simp at inBody; omega
  | @span left position wire length spans body behind inside later
      inductionHypothesis =>
      simp only [wirePositions, List.flatMap_cons, Nat.add_sub_cancel_left,
        List.find?_cons] at inductionHypothesis ⊢
      rw [List.length_append, length_extract_inside inside] at inBody
      by_cases here : index ≤ left + length
      · refine ⟨⟨left, left + length, wire⟩, wire + (index - 1 - left),
          by simp [fromLeft, here], ?_, by simp; omega, fromLeft⟩
        rw [List.getElem?_append_left (by simp; omega),
          List.getElem?_range' (by omega), Nat.one_mul]
      · obtain ⟨span, before, isSpan, isPosition, isBefore, fromSpan⟩ :=
          inductionHypothesis (by omega) (by omega)
        refine ⟨span, before, by simpa [here] using isSpan, ?_, isBefore,
          fromSpan⟩
        rw [List.getElem?_append_right (by simp; omega), List.length_range',
          show index - 1 - left - length = index - 1 - (left + length) by
            omega]
        exact isPosition

theorem left_le
    (carried : Carried rest left position spans body) :
    ∀ span ∈ spans, left ≤ span.left := by
  induction carried with
  | done => simp
  | @span left position wire length spans body behind inside later
      inductionHypothesis =>
      intro span member
      rcases List.mem_cons.mp member with rfl | inLater
      · exact Nat.le_refl left
      · have behindSpan := inductionHypothesis span inLater
        omega

/-- Two body bytes are adjacent on the wire exactly within a span. -/
theorem adjacent_iff
    (carried : Carried rest left position spans body)
    {index : Nat}
    (fromLeft : left < index) :
    (∃ span ∈ spans, span.left < index ∧ index < span.right) ↔
      ∃ before,
        (wirePositions spans)[index - 1 - left]? = some before ∧
          (wirePositions spans)[index - left]? = some (before + 1) := by
  induction carried with
  | done => simp [wirePositions]
  | @span left position wire length spans body behind inside later
      inductionHypothesis =>
      have afterSpan := later.increasing.1
      have behindSpan := later.left_le
      simp only [wirePositions, List.flatMap_cons, Nat.add_sub_cancel_left,
        List.mem_cons, exists_eq_or_imp] at inductionHypothesis afterSpan ⊢
      rcases Nat.lt_trichotomy index (left + length) with
        here | atEnd | behindHere
      · refine iff_of_true (.inl ⟨fromLeft, here⟩)
          ⟨wire + (index - 1 - left), ?_, ?_⟩
        · rw [List.getElem?_append_left (by simp; omega),
            List.getElem?_range' (by omega), Nat.one_mul]
        · rw [List.getElem?_append_left (by simp; omega),
            List.getElem?_range' (by omega), Nat.one_mul,
            Option.some.injEq]
          omega
      · -- The next span begins at least one byte later.
        refine iff_of_false ?_ ?_
        · rintro (⟨-, here⟩ | ⟨span, member, isLeft, -⟩)
          · omega
          · have fromSpan := behindSpan span member
            omega
        · rintro ⟨before, isBefore, isNext⟩
          rw [List.getElem?_append_left (by simp; omega),
            List.getElem?_range' (by omega), Option.some.injEq] at isBefore
          rw [List.getElem?_append_right (by simp; omega)] at isNext
          have isBehind := afterSpan _ (List.mem_of_getElem? isNext)
          omega
      · have shift :
            ∀ {offset : Nat}, length + left ≤ offset →
              (List.range' wire length ++
                  spans.flatMap fun span =>
                    List.range' span.wire (span.right - span.left))[
                      offset - left]? =
                (spans.flatMap fun span =>
                  List.range' span.wire (span.right - span.left))[
                    offset - (left + length)]? := by
          intro offset isBehind
          rw [List.getElem?_append_right (by simp; omega),
            List.length_range', Nat.sub_sub]
        rw [shift (by omega), shift (by omega),
          ← inductionHypothesis behindHere]
        constructor
        · rintro (⟨-, here⟩ | inLater)
          · omega
          · exact inLater
        · exact .inr

end Carried

/-! ## The spans of framed messages -/

/-- A decoder adds the spans of the chunks it still reads. -/
theorem chunkedFrom_carried
    {rest body decoded : Bytes}
    {limit remaining position stop : Nat}
    {spans ranges : List BodySpan}
    (decodes :
      chunkedFrom rest limit remaining position body spans =
        .decoded decoded ranges stop) :
    ∃ moreBody moreSpans,
      decoded = body ++ moreBody ∧ ranges = spans ++ moreSpans ∧
        Carried rest body.length position moreSpans moreBody := by
  induction remaining generalizing position body spans with
  | zero =>
      simp only [chunkedFrom] at decodes
      split at decodes <;> cases decodes
  | succ remaining inductionHypothesis =>
      simp only [chunkedFrom] at decodes
      split at decodes
      case h_1 => cases decodes
      case h_2 lineEnd isLine =>
        have behind := (findSub_eq_some.mp isLine).1.1
        split at decodes
        · cases decodes
        split at decodes
        case h_1 => cases decodes
        case h_2 isLast =>
          refine ⟨[], [], ?_⟩
          simp only [List.append_nil]
          unfold chunkedEnd at decodes
          split at decodes
          · cases decodes
            exact ⟨rfl, rfl, .done⟩
          split at decodes
          · cases decodes
          split at decodes
          · cases decodes
          · cases decodes
            exact ⟨rfl, rfl, .done⟩
        case h_3 length notLast isLength =>
          split at decodes
          · cases decodes
          split at decodes
          · cases decodes
          split at decodes
          · cases decodes
          obtain ⟨moreBody, moreSpans, isBody, isSpans, carried⟩ :=
            inductionHypothesis decodes
          have inside : lineEnd + 2 + length ≤ rest.length := by omega
          rw [List.length_append, length_extract_inside inside] at carried
          refine ⟨rest.extract (lineEnd + 2) (lineEnd + 2 + length) ++
            moreBody, ⟨body.length, body.length + length, lineEnd + 2⟩ ::
              moreSpans, ?_, ?_, ?_⟩
          · rw [isBody, List.append_assoc]
          · rw [isSpans, List.append_assoc, List.singleton_append]
          · exact .span (by omega) inside (carried.weaken (by omega))

/-- The spans of a complete message carry its body. -/
theorem FramedAs.carried
    {limit : Nat}
    {rest : Bytes}
    {head : RequestHead}
    {message : Message}
    (framedAs : FramedAs limit rest head message) :
    Carried rest 0 message.headerEnd message.bodySpans message.body := by
  cases framedAs with
  | chunked isChunked decodes =>
      obtain ⟨moreBody, moreSpans, rfl, rfl, carried⟩ :=
        chunkedFrom_carried decodes
      exact carried
  | @length stop isChunked ordered inside fits =>
      have size :
          (rest.extract head.headerEnd stop).length =
            stop - head.headerEnd := by
        rw [List.extract_eq_take_drop, List.length_take, List.length_drop]
        omega
      have carried :
          Carried rest 0 head.headerEnd
            [⟨0, 0 + (stop - head.headerEnd), head.headerEnd⟩]
            (rest.extract head.headerEnd
              (head.headerEnd + (stop - head.headerEnd)) ++ []) :=
        .span (Nat.le_refl _) (by omega) .done
      rw [Nat.zero_add, List.append_nil, Nat.add_sub_cancel' ordered,
        ← size] at carried
      exact carried
  | bodiless isChunked => exact .done

/-! ## The fields of a body -/

/-- A field stands behind an equals sign of the body. -/
structure FieldOf (body : Bytes) (value : Field) : Prop where
  behindEquals : 1 ≤ value.start ∧ body[value.start - 1]? = some 61
  ordered : value.start ≤ value.stop
  inside : value.stop ≤ body.length
  encoded :
    value.encoded = decodeReplace (body.extract value.start value.stop)

/-- What a match of the pattern is. -/
structure FormMatch.Of (data : Bytes) (found : FormMatch) : Prop where
  behindEquals : 1 ≤ found.valueStart ∧ data[found.valueStart - 1]? = some 61
  ordered : found.valueStart ≤ found.stop
  inside : found.stop ≤ data.length

theorem formGroupsAt_of
    {data : Bytes}
    {nameStart : Nat}
    {found : FormMatch}
    (isMatch : formGroupsAt data nameStart = some found) :
    found.Of data := by
  simp only [formGroupsAt] at isMatch
  split at isMatch
  case isFalse => cases isMatch
  case isTrue conditions =>
    cases isMatch
    obtain ⟨-, -, isEquals⟩ := conditions
    have inside := (List.getElem?_eq_some_iff.mp isEquals).1
    have taken
        (rest : Bytes) :
        ((rest.takeWhile isFormValueByte).take 8192).length ≤ rest.length :=
      ((List.take_sublist 8192 _).trans
        (List.takeWhile_sublist isFormValueByte)).length_le
    have short :=
      taken (data.drop (nameStart +
        ((data.drop nameStart).takeWhile isFormNameByte).length + 1))
    rw [List.length_drop] at short
    exact {
      behindEquals := ⟨by simp, by simpa using isEquals⟩
      ordered := by simp
      inside := by simp only; omega
    }

theorem formMatches_of
    {data : Bytes}
    {found : FormMatch}
    (member : found ∈ formMatches data) :
    found.Of data := by
  have fromPosition
      {rounds position : Nat}
      (member : found ∈ formMatchesFrom data rounds position) :
      found.Of data := by
    induction rounds generalizing position with
    | zero => cases member
    | succ rounds inductionHypothesis =>
        simp only [formMatchesFrom] at member
        split at member
        case h_1 => cases member
        case h_2 first isFirst =>
          rcases List.mem_cons.mp member with rfl | later
          · obtain ⟨candidate, -, isMatch⟩ :=
              List.exists_of_findSome?_eq_some isFirst
            simp only [formMatchAt, Option.or_eq_some_iff] at isMatch
            rcases isMatch with atStart | ⟨-, behindSeparator⟩
            · split at atStart
              · exact formGroupsAt_of atStart
              · cases atStart
            · split at behindSeparator
              · exact formGroupsAt_of behindSeparator
              · cases behindSeparator
          · exact inductionHypothesis later
  exact fromPosition member

/-- Every field of a complete body is one of its `name=value` pairs. -/
theorem formFields_of
    {body : Bytes}
    {value : Field}
    (isField : value ∈ formFields body true) :
    FieldOf body value := by
  obtain ⟨found, isMatch, isFieldOf⟩ :=
    List.mem_filterMap.mp (List.mem_of_mem_take isField)
  have ofBody := formMatches_of isMatch
  simp only [formField] at isFieldOf
  split at isFieldOf
  · cases isFieldOf
  simp only [Bool.true_eq_false, false_and, if_false, if_true,
    Option.some.injEq] at isFieldOf
  have ordered := ofBody.ordered
  have size :
      (body.extract found.valueStart found.stop).length =
        found.stop - found.valueStart := by
    have inside := ofBody.inside
    rw [List.extract_eq_take_drop, List.length_take, List.length_drop]
    omega
  rw [size, Nat.add_sub_cancel' ordered] at isFieldOf
  subst isFieldOf
  exact {
    behindEquals := ofBody.behindEquals
    ordered := ordered
    inside := ofBody.inside
    encoded := rfl
  }

end PacketAudit
