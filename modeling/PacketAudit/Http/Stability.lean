import PacketAudit.Http.Framer

namespace PacketAudit

open Library

/-!
# Framing does not change when more bytes arrive

Each reader of the framer either waits for more bytes or has seen all that it
judges by: what it then says of a prefix it says of the whole.
-/

/-! ## Request lines -/

/-- What `_REQUEST_AT` matches. -/
structure RequestLine.Valid (line : RequestLine) : Prop where
  method : line.method ∈ requestMethods
  nonempty : 1 ≤ line.target.length
  bounded : line.target.length ≤ 8192
  target : ∀ byte ∈ line.target, isTargetByte byte
  minorVersion : line.minorVersion = 48 ∨ line.minorVersion = 49

/-- The front of a list up to the first occurrence of an element. -/
theorem takeWhile_ne_append
    {separator : UInt8}
    {front : Bytes}
    (noSeparator : separator ∉ front)
    (rest : Bytes) :
    (front ++ separator :: rest).takeWhile (fun byte => byte ≠ separator) =
      front := by
  induction front with
  | nil =>
      simp
  | cons first front inductionHypothesis =>
      obtain ⟨isNot, noOther⟩ := by
        simpa [not_or] using noSeparator
      have isFront := inductionHypothesis (by simpa using noOther)
      simpa [Ne.symm isNot] using isFront

theorem takeWhile_append_stop
    {test : UInt8 → Bool}
    {front : Bytes}
    (passes : ∀ byte ∈ front, test byte)
    {next : UInt8}
    (stops : test next = false)
    (rest : Bytes) :
    (front ++ next :: rest).takeWhile test = front := by
  rw [List.takeWhile_append_of_pos passes, List.takeWhile_cons, stops]
  simp

theorem noSpace_of_method :
    ∀ method ∈ requestMethods, (32 : UInt8) ∉ method := by
  decide

theorem length_le_of_method :
    ∀ method ∈ requestMethods, method.length ≤ 7 := by
  decide

theorem noNewline_of_method :
    ∀ method ∈ requestMethods, (10 : UInt8) ∉ method := by
  decide

/-- The request line without its newline. -/
def RequestLine.textBeforeNewline (line : RequestLine) : Bytes :=
  line.method ++ 32 :: line.target ++ ascii " HTTP/1." ++
    [line.minorVersion, 13]

theorem RequestLine.text_eq (line : RequestLine) :
    line.text = line.textBeforeNewline ++ [10] := by
  simp [text, textBeforeNewline, crlf]

/-- The newline is the only one. -/
theorem RequestLine.Valid.noNewline
    {line : RequestLine}
    (valid : line.Valid) :
    10 ∉ line.textBeforeNewline := by
  have inTarget : 10 ∉ line.target := by
    intro member
    have isTarget := valid.target 10 member
    simp [isTargetByte] at isTarget
  have inMethod := noNewline_of_method line.method valid.method
  have inVersion : 10 ∉ ascii " HTTP/1." := by decide
  have notMinor : (10 : UInt8) ≠ line.minorVersion := by
    rcases valid.minorVersion with isMinor | isMinor <;>
      rw [isMinor] <;> decide
  simp only [textBeforeNewline, List.mem_append, List.mem_cons, not_or,
    List.not_mem_nil, not_false_eq_true, and_true]
  exact ⟨⟨⟨inMethod, by decide, inTarget⟩, inVersion⟩, notMinor,
    by decide⟩

theorem RequestLine.Valid.stop_le
    {line : RequestLine}
    (valid : line.Valid) :
    line.stop ≤ 8211 := by
  have short := length_le_of_method line.method valid.method
  have version : (ascii " HTTP/1.").length = 8 := by decide
  have bounded := valid.bounded
  simp only [stop, text, crlf, List.length_append, List.length_cons,
    List.length_nil, version]
  omega

/-- A method with a space behind it is found, and no other. -/
theorem find_method
    {method : Bytes}
    (isMethod : method ∈ requestMethods)
    (behind : Bytes) :
    requestMethods.find? (fun other =>
        (other ++ [32]).isPrefixOf (method ++ 32 :: behind)) =
      some method := by
  obtain ⟨other, isOther⟩ :
      ∃ other,
        requestMethods.find? (fun other =>
          (other ++ [32]).isPrefixOf (method ++ 32 :: behind)) =
            some other := by
    rw [← Option.isSome_iff_exists, List.find?_isSome]
    refine ⟨method, isMethod, List.isPrefixOf_iff_prefix.mpr ?_⟩
    exact ⟨behind, by simp⟩
  have otherSpace :=
    noSpace_of_method other (List.mem_of_find?_eq_some isOther)
  have matched := List.find?_some isOther
  obtain ⟨otherBehind, same⟩ := List.isPrefixOf_iff_prefix.mp matched
  rw [List.append_assoc, List.singleton_append] at same
  have fronts := congrArg (List.takeWhile fun byte => byte ≠ 32) same
  rw [takeWhile_ne_append otherSpace,
    takeWhile_ne_append (noSpace_of_method method isMethod)] at fronts
  rw [isOther, fronts]

/-- What `requestAt` returns is a valid line at the front. -/
theorem requestAt_sound
    {data : Bytes}
    {line : RequestLine}
    (found : requestAt data = some line) :
    line.Valid ∧ line.text <+: data := by
  unfold requestAt at found
  split at found
  case h_1 => cases found
  case h_2 method isMethod =>
    simp only at found
    split at found
    case h_1 => cases found
    case h_2 minorVersion isMinor =>
      split at found
      case isFalse => cases found
      case isTrue conditions =>
        cases found
        obtain ⟨nonempty, bounded, minor, matched⟩ := conditions
        refine ⟨{
          method := List.mem_of_find?_eq_some isMethod
          nonempty := nonempty
          bounded := bounded
          target := ?_
          minorVersion := minor
        }, List.isPrefixOf_iff_prefix.mp matched⟩
        intro byte member
        exact List.mem_takeWhile_imp member

/-- A valid request line is found where it stands. -/
theorem requestAt_text
    {data : Bytes}
    {line : RequestLine}
    (valid : line.Valid)
    (isText : line.text <+: data) :
    requestAt data = some line := by
  obtain ⟨more, rfl⟩ := isText
  obtain ⟨method, target, minorVersion⟩ := line
  have shape :
      RequestLine.text ⟨method, target, minorVersion⟩ ++ more =
        method ++ 32 :: (target ++ 32 :: (ascii "HTTP/1." ++
          minorVersion :: (crlf ++ more))) := by
    simp [RequestLine.text, ascii, crlf]
  have afterMethod :
      (RequestLine.text ⟨method, target, minorVersion⟩ ++ more).drop
          (method.length + 1) =
        target ++ 32 :: (ascii "HTTP/1." ++
          minorVersion :: (crlf ++ more)) := by
    rw [shape, ← List.singleton_append, ← List.append_assoc,
      List.drop_append_of_le_length (by simp)]
    simp
  have isTarget :
      (target ++ 32 :: (ascii "HTTP/1." ++
        minorVersion :: (crlf ++ more))).takeWhile isTargetByte =
          target :=
    takeWhile_append_stop valid.target (by decide) _
  unfold requestAt
  rw [shape, find_method valid.method, ← shape]
  simp only [afterMethod, isTarget, List.drop_left]
  have isMinor :
      (32 :: (ascii "HTTP/1." ++ minorVersion :: (crlf ++ more)))[8]? =
        some minorVersion := by
    rfl
  simp only [isMinor]
  rw [if_pos]
  exact ⟨valid.nonempty, valid.bounded, valid.minorVersion,
    List.isPrefixOf_iff_prefix.mpr (List.prefix_append _ _)⟩

section Head

variable {seen rest : Bytes}
variable (isPrefix : seen <+: rest)

include isPrefix

/-- A request line that was seen stays. -/
theorem requestAt_of_isPrefix
    {line : RequestLine}
    (found : requestAt seen = some line) :
    requestAt rest = some line := by
  obtain ⟨valid, isText⟩ := requestAt_sound found
  exact requestAt_text valid (isText.trans isPrefix)

/-- A request line of which a part was seen shows no newline yet. -/
theorem unfinished_line
    {line : RequestLine}
    (missing : requestAt seen = none)
    (found : requestAt rest = some line) :
    10 ∉ seen ∧ seen.length < line.stop := by
  obtain ⟨valid, isText⟩ := requestAt_sound found
  have notSeen : ¬ line.text <+: seen := by
    intro isSeen
    rw [requestAt_text valid isSeen] at missing
    cases missing
  have shorter : seen.length < line.text.length := by
    by_contra notShorter
    exact notSeen (List.prefix_of_prefix_length_le isText isPrefix
      (by omega))
  refine ⟨?_, shorter⟩
  have inside := List.prefix_of_prefix_length_le isPrefix isText shorter.le
  rw [RequestLine.text_eq] at inside shorter
  have inFront : seen <+: line.textBeforeNewline := by
    refine List.prefix_of_prefix_length_le inside (List.prefix_append _ _) ?_
    simp only [List.length_append, List.length_singleton] at shorter
    omega
  exact fun member => valid.noNewline (inFront.subset member)

/-- A parsed head stays, and a refused one stays refused. -/
theorem requestHead_stable :
    requestHead seen = .wait ∨
      (∃ stat other,
        requestHead seen = .refuse stat ∧ requestHead rest = .refuse other) ∨
      ∃ head,
        requestHead seen = .parsed head ∧
          requestHead rest = .parsed head := by
  have shorter := isPrefix.length_le
  cases seenLine : requestAt seen with
  | none =>
      by_cases refuses : 10 ∈ seen ∨ maxHeader < seen.length
      · right; left
        have restLine : requestAt rest = none := by
          cases restLine : requestAt rest with
          | none => rfl
          | some line =>
              obtain ⟨noNewline, short⟩ :=
                unfinished_line isPrefix seenLine restLine
              have bound :=
                (requestAt_sound restLine).1.stop_le
              rcases refuses with newline | long
              · exact absurd newline noNewline
              · simp only [maxHeader] at long
                omega
        have restRefuses : 10 ∈ rest ∨ maxHeader < rest.length :=
          refuses.imp (fun newline => isPrefix.subset newline)
            (fun long => by omega)
        refine ⟨.invalidRequest, .invalidRequest, ?_, ?_⟩
        · simp [requestHead, seenLine, refuses]
        · simp [requestHead, restLine, restRefuses]
      · left
        simp [requestHead, seenLine, refuses]
  | some line =>
      have restLine := requestAt_of_isPrefix isPrefix seenLine
      cases seenEnd :
          findSub (crlf ++ crlf) seen (line.stop - 2) seen.length with
      | none =>
          by_cases long : maxHeader < seen.length
          · right; left
            refine ⟨.headerLimit, ?_⟩
            cases restEnd :
                findSub (crlf ++ crlf) rest (line.stop - 2)
                  rest.length with
            | none =>
                refine ⟨.headerLimit, ?_, ?_⟩
                · simp [requestHead, seenLine, seenEnd, long]
                · simp only [requestHead, restLine, restEnd]
                  rw [if_pos (by omega)]
            | some terminator =>
                have behind :=
                  length_lt_of_findSub isPrefix seenEnd restEnd
                have size : (crlf ++ crlf).length = 4 := rfl
                refine ⟨.headerLimit, ?_, ?_⟩
                · simp [requestHead, seenLine, seenEnd, long]
                · simp only [requestHead, restLine, restEnd]
                  rw [if_pos (by omega)]
          · left
            simp [requestHead, seenLine, seenEnd, long]
      | some terminator =>
          right
          have restEnd := findSub_of_isPrefix isPrefix seenEnd
          have inside := (findSub_eq_some.mp seenEnd).1.2
          have size : (crlf ++ crlf).length = 4 := rfl
          have sameBlock :
              rest.extract line.stop (terminator + 4 - 2) =
                seen.extract line.stop (terminator + 4 - 2) :=
            extract_of_isPrefix isPrefix (by omega)
          have same : requestHead rest = requestHead seen := by
            simp only [requestHead, seenLine, restLine, seenEnd, restEnd,
              sameBlock]
          rw [same]
          cases isHead : requestHead seen with
          | wait =>
              exfalso
              simp only [requestHead, seenLine, seenEnd] at isHead
              split at isHead
              · cases isHead
              · split at isHead
                · cases isHead
                · split at isHead <;> cases isHead
          | refuse stat =>
              exact .inl ⟨stat, stat, rfl, rfl⟩
          | parsed head =>
              exact .inr ⟨head, rfl, rfl⟩

end Head

/-! ## Chunked bodies -/

/-- A chunked body ends at or behind the position where decoding is. -/
theorem position_le_of_chunkedFrom
    {rest : Bytes}
    {limit remaining position stop : Nat}
    {body decoded : Bytes}
    {spans ranges : List BodySpan}
    (decodes :
      chunkedFrom rest limit remaining position body spans =
        .decoded decoded ranges stop) :
    ∃ lineEnd,
      findSub crlf rest position rest.length = some lineEnd ∧
        lineEnd + 2 ≤ stop := by
  induction remaining generalizing position body spans with
  | zero =>
      simp only [chunkedFrom] at decodes
      split at decodes <;> cases decodes
  | succ remaining inductionHypothesis =>
      simp only [chunkedFrom] at decodes
      split at decodes
      case h_1 => cases decodes
      case h_2 lineEnd isLine =>
        refine ⟨lineEnd, isLine, ?_⟩
        split at decodes
        · cases decodes
        split at decodes
        case h_1 => cases decodes
        case h_2 isLast =>
          simp only [chunkedEnd] at decodes
          split at decodes
          · cases decodes
            omega
          split at decodes
          case h_1 => cases decodes
          case h_2 trailersEnd isTrailer =>
            have order := (findSub_eq_some.mp isTrailer).1.1
            split at decodes
            · cases decodes
            · cases decodes
              omega
        case h_3 length notLast isLength =>
          split at decodes
          · cases decodes
          split at decodes
          · cases decodes
          split at decodes
          · cases decodes
          obtain ⟨next, isNext, order⟩ := inductionHypothesis decodes
          have behind := (findSub_eq_some.mp isNext).1.1
          omega

section Chunked

variable {seen rest : Bytes}
variable (isPrefix : seen <+: rest)

/-- A decoder waits, and then the body ends behind what was seen, or judges. -/
def WaitsOrAgrees
    (seenLength : Nat)
    (onSeen onRest : ChunkResult) : Prop :=
  (onSeen = .wait ∧
      ∀ {body spans stop},
        onRest = .decoded body spans stop → seenLength < stop) ∨
    onSeen = onRest

include isPrefix

theorem chunkedEnd_stable
    (limit position : Nat)
    (body : Bytes)
    (spans : List BodySpan) :
    WaitsOrAgrees seen.length
      (chunkedEnd seen limit position body spans)
      (chunkedEnd rest limit position body spans) := by
  by_cases inside : position + 2 ≤ seen.length
  · have same :
        rest.extract position (position + 2) =
          seen.extract position (position + 2) :=
      extract_of_isPrefix isPrefix inside
    unfold chunkedEnd
    rw [same]
    split
    · exact .inr rfl
    · cases seenEnd : findSub (crlf ++ crlf) seen position seen.length with
      | some trailersEnd =>
          rw [findSub_of_isPrefix isPrefix seenEnd]
          exact .inr rfl
      | none =>
          refine .inl ⟨rfl, ?_⟩
          intro decoded ranges stop decodes
          split at decodes
          case h_1 => cases decodes
          case h_2 trailersEnd restEnd =>
            have behind := length_lt_of_findSub isPrefix seenEnd restEnd
            have size : (crlf ++ crlf).length = 4 := rfl
            split at decodes
            · cases decodes
            · cases decodes
              omega
  · left
    constructor
    · have short :
          (seen.extract position (position + 2)).length < crlf.length := by
        have size : crlf.length = 2 := rfl
        rw [List.extract_eq_take_drop, List.length_take, List.length_drop]
        omega
      have differs : seen.extract position (position + 2) ≠ crlf := by
        intro same
        rw [same] at short
        exact Nat.lt_irrefl _ short
      have missing :
          findSub (crlf ++ crlf) seen position seen.length = none := by
        rw [findSub_eq_none]
        intro index fromPosition inEnd
        have size : (crlf ++ crlf).length = 4 := rfl
        omega
      simp only [chunkedEnd, differs, if_false, missing]
    · intro decoded ranges stop decodes
      unfold chunkedEnd at decodes
      split at decodes
      · cases decodes
        omega
      split at decodes
      case h_1 => cases decodes
      case h_2 trailersEnd isTrailer =>
        have order := (findSub_eq_some.mp isTrailer).1.1
        split at decodes
        · cases decodes
        · cases decodes
          omega

theorem chunkedFrom_stable
    (limit remaining position : Nat)
    (body : Bytes)
    (spans : List BodySpan) :
    WaitsOrAgrees seen.length
      (chunkedFrom seen limit remaining position body spans)
      (chunkedFrom rest limit remaining position body spans) := by
  have shorter := isPrefix.length_le
  induction remaining generalizing position body spans with
  | zero =>
      cases seenLine : findSub crlf seen position seen.length with
      | none =>
          refine .inl ⟨by simp only [chunkedFrom, seenLine], ?_⟩
          intro decoded ranges stop decodes
          simp only [chunkedFrom] at decodes
          split at decodes <;> cases decodes
      | some lineEnd =>
          right
          simp only [chunkedFrom, seenLine,
            findSub_of_isPrefix isPrefix seenLine]
  | succ remaining inductionHypothesis =>
      cases seenLine : findSub crlf seen position seen.length with
      | none =>
          refine .inl ⟨by simp only [chunkedFrom, seenLine], ?_⟩
          intro decoded ranges stop decodes
          obtain ⟨lineEnd, isLine, order⟩ :=
            position_le_of_chunkedFrom decodes
          have behind := length_lt_of_findSub isPrefix seenLine isLine
          have size : crlf.length = 2 := rfl
          omega
      | some lineEnd =>
          have restLine := findSub_of_isPrefix isPrefix seenLine
          have inside := (findSub_eq_some.mp seenLine).1.2
          have sameLine :
              rest.extract position lineEnd =
                seen.extract position lineEnd :=
            extract_of_isPrefix isPrefix (by omega)
          simp only [chunkedFrom, seenLine, restLine, sameLine]
          split
          · exact .inr rfl
          split
          · exact .inr rfl
          · exact chunkedEnd_stable isPrefix _ _ _ _
          case h_3 length notLast isLength =>
            split
            · exact .inr rfl
            by_cases seenAll : lineEnd + 2 + length + 2 ≤ seen.length
            · have sameEnd :
                  rest.extract (lineEnd + 2 + length)
                      (lineEnd + 2 + length + 2) =
                    seen.extract (lineEnd + 2 + length)
                      (lineEnd + 2 + length + 2) :=
                extract_of_isPrefix isPrefix seenAll
              have sameData :
                  rest.extract (lineEnd + 2) (lineEnd + 2 + length) =
                    seen.extract (lineEnd + 2) (lineEnd + 2 + length) :=
                extract_of_isPrefix isPrefix (by omega)
              have notShort :
                  ¬ seen.length < lineEnd + 2 + length + 2 := by
                omega
              have restNotShort :
                  ¬ rest.length < lineEnd + 2 + length + 2 := by
                omega
              rw [if_neg notShort, if_neg restNotShort, sameEnd, sameData]
              split
              · exact .inr rfl
              · exact inductionHypothesis _ _ _
            · rw [if_pos (by omega)]
              refine .inl ⟨rfl, ?_⟩
              intro decoded ranges stop decodes
              split at decodes
              · cases decodes
              split at decodes
              · cases decodes
              obtain ⟨next, isNext, order⟩ :=
                position_le_of_chunkedFrom decodes
              have behind := (findSub_eq_some.mp isNext).1.1
              omega

end Chunked

/-! ## Whole requests -/

/-- What framing makes of a request, as a verdict on the stream. -/
def Framing.verdict : Framing → Verdict Message
  | .wait => .wait
  | .refuse _ => .stop
  | .skip stop => .step stop []
  | .unframed _ _ => .stop
  | .frame message => .step message.stop [message]

/-- The request has a form type but no body length. -/
def LacksBodyLength (rest : Bytes) : Prop :=
  ∃ head,
    requestHead rest = .parsed head ∧
      headerValues head.headers "transfer-encoding" = [] ∧
      headerValues head.headers "content-length" = [] ∧
      head.hasForm

/-- A chunked message fits within the limit. -/
def ChunkedFits (limit : Nat) (rest : Bytes) : Prop :=
  ∀ {head body spans stop},
    requestHead rest = .parsed head →
      chunked rest head.headerEnd limit = .decoded body spans stop →
        stop ≤ limit

section Requests

variable {limit : Nat}
variable {seen rest : Bytes}
variable {head : RequestHead}

theorem frameLength_stable
    (isPrefix : seen <+: rest)
    (limit : Nat)
    (head : RequestHead)
    (rawLength : Bytes) :
    frameLength seen limit head rawLength = .wait ∨
      frameLength seen limit head rawLength =
        frameLength rest limit head rawLength := by
  have shorter := isPrefix.length_le
  unfold frameLength
  split
  · exact .inr rfl
  simp only
  split
  · exact .inr rfl
  by_cases seenAll :
      head.headerEnd + decimalValue rawLength ≤ seen.length
  · right
    have notShort :
        ¬ seen.length < head.headerEnd + decimalValue rawLength := by
      omega
    have restNotShort :
        ¬ rest.length < head.headerEnd + decimalValue rawLength := by
      omega
    rw [if_neg notShort, if_neg restNotShort,
      extract_of_isPrefix isPrefix seenAll]
  · left
    rw [if_pos (by omega)]

theorem frameChunked_stable
    (isPrefix : seen <+: rest)
    (isHead : requestHead rest = .parsed head)
    (fits : ChunkedFits limit rest) :
    (frameChunked seen limit head).verdict = .wait ∨
      (frameChunked seen limit head).verdict =
        (frameChunked rest limit head).verdict := by
  have shorter := isPrefix.length_le
  rcases chunkedFrom_stable isPrefix limit 4096 head.headerEnd [] [] with
    ⟨waits, behind⟩ | same
  · by_cases long : limit < seen.length
    · right
      have seenStops :
          frameChunked seen limit head = .refuse .bodyLimit := by
        simp only [frameChunked, chunked, waits, if_pos long]
      rw [seenStops]
      cases onRest : chunked rest head.headerEnd limit with
      | wait =>
          simp only [frameChunked, onRest]
          rw [if_pos (by omega)]
      | refuse stat =>
          simp only [frameChunked, onRest, Framing.verdict]
      | decoded body spans stop =>
          have inLimit := fits isHead onRest
          have after := behind onRest
          omega
    · left
      simp only [frameChunked, chunked, waits, if_neg long,
        Framing.verdict]
  · cases onSeen : chunked seen head.headerEnd limit with
    | wait =>
        have onRest : chunked rest head.headerEnd limit = .wait :=
          same.symm.trans onSeen
        simp only [frameChunked, onSeen, onRest]
        by_cases long : limit < seen.length
        · right
          rw [if_pos long, if_pos (by omega)]
        · left
          rw [if_neg long]
          rfl
    | refuse stat =>
        have onRest : chunked rest head.headerEnd limit = .refuse stat :=
          same.symm.trans onSeen
        right
        simp only [frameChunked, onSeen, onRest]
    | decoded body spans stop =>
        have onRest :
            chunked rest head.headerEnd limit =
              .decoded body spans stop :=
          same.symm.trans onSeen
        right
        simp only [frameChunked, onSeen, onRest]

/-- Framing a request is stable, but for bodies without a length. -/
theorem frameRequest_stable
    (framed : ¬ LacksBodyLength rest)
    (fits : ChunkedFits limit rest) :
    PrefixStable (fun rest => (frameRequest limit rest).verdict) rest := by
  intro seen isPrefix
  rcases requestHead_stable isPrefix with
    waits | ⟨stat, other, refuses, stillRefuses⟩ | ⟨head, seenHead, isHead⟩
  · left
    simp only [frameRequest, waits, Framing.verdict]
  · right
    simp only [frameRequest, refuses, stillRefuses, Framing.verdict]
  simp only [frameRequest, seenHead, isHead, frameBody]
  cases transfers : headerValues head.headers "transfer-encoding" with
  | cons transfer more =>
      simp only
      split
      · exact .inr rfl
      · exact frameChunked_stable isPrefix isHead fits
  | nil =>
      cases lengths : headerValues head.headers "content-length" with
      | cons rawLength more =>
          rcases frameLength_stable isPrefix limit head rawLength with
            waits | same
          · left
            simp only [waits, Framing.verdict]
          · right
            simp only [same]
      | nil =>
          have noForm : head.hasForm = false := by
            cases hasForm : head.hasForm with
            | false => rfl
            | true =>
                exact absurd ⟨head, isHead, transfers, lengths, hasForm⟩
                  framed
          right
          simp only [noForm]
          rfl

end Requests

end PacketAudit
