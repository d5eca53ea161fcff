import PacketAudit.Dashboard.Depth
import PacketAudit.Json.RoundTrip

namespace PacketAudit

/-!
# Lines that are written

When `write_json_line` writes a line, and that the line stands for the value
and for nothing else.
-/

/-! ## Which values are written -/

mutual

/-- No text has a lone surrogate, and no number too many digits. -/
def PyValue.Writable : PyValue → Prop
  | .int value => (Nat.toDigits 10 value.natAbs).length ≤ maxIntDigits
  | .float text => AllChars text
  | .str text => AllChars text
  | .list items => WritableItems items
  | .dict members => WritableMembers members
  | _ => True

def WritableItems : List PyValue → Prop
  | [] => True
  | item :: rest => item.Writable ∧ WritableItems rest

def WritableMembers : List (Text × PyValue) → Prop
  | [] => True
  | (name, value) :: rest =>
      AllChars name ∧ value.Writable ∧ WritableMembers rest

end

/-- This is dumped, and encoded. -/
def Encodes (dumped : Option Text) : Prop :=
  ∃ text, dumped = some text ∧ AllChars text

theorem encodes_some {text : Text} :
    Encodes (some text) ↔ AllChars text := by
  unfold Encodes
  constructor
  · rintro ⟨other, isText, isValid⟩
    obtain rfl := Option.some.inj isText
    exact isValid
  · intro isValid
    exact ⟨text, rfl, isValid⟩

theorem allChars_append {front rest : Text} :
    AllChars (front ++ rest) ↔ AllChars front ∧ AllChars rest :=
  List.forall_mem_append

theorem allChars_cons {code : Nat} {rest : Text} :
    AllChars (code :: rest) ↔ code.isValidChar ∧ AllChars rest :=
  List.forall_mem_cons

theorem isValidChar_of_lt {code : Nat} (small : code < 0xD800) :
    code.isValidChar :=
  .inl small

/-- Brackets around a text change nothing. -/
theorem encodes_enclosed
    {dumped : Option Text}
    {opening closing : Nat}
    (isOpening : opening < 0xD800)
    (isClosing : closing < 0xD800) :
    Encodes (dumped.map fun text => opening :: (text ++ [closing])) ↔
      Encodes dumped := by
  cases dumped with
  | none => simp [Encodes]
  | some text =>
      rw [Option.map_some, encodes_some, encodes_some, allChars_cons,
        allChars_append]
      have openingValid := isValidChar_of_lt isOpening
      have closingValid : AllChars [closing] := by
        simpa [AllChars] using isValidChar_of_lt isClosing
      exact ⟨fun isValid => isValid.2.1,
        fun isValid => ⟨openingValid, isValid, closingValid⟩⟩

theorem allChars_encodeString {text : Text} :
    AllChars (encodeString text) ↔ AllChars text := by
  refine ⟨allChars_of_encodeString, fun isValid => ?_⟩
  obtain ⟨string, isString, -⟩ := exists_spelledString isValid
  rw [← isString]
  exact allChars_codes _

theorem encodes_intText {value : Int} :
    Encodes (intText value) ↔
      (Nat.toDigits 10 value.natAbs).length ≤ maxIntDigits := by
  unfold intText
  split
  case isTrue long =>
    simp only [Encodes, reduceCtorEq, false_and, exists_false, false_iff]
    omega
  case isFalse short =>
    rw [encodes_some]
    exact iff_of_true (allChars_codes _) (Nat.not_lt.mp short)

theorem allChars_lowerHex {value : Nat} (small : value < 16) :
    (lowerHex value).isValidChar := by
  unfold lowerHex
  split <;> exact isValidChar_of_lt (by omega)

theorem allChars_hexText (value : Bytes) : AllChars (hexText value) := by
  intro code member
  obtain ⟨byte, -, inByte⟩ := List.mem_flatMap.mp member
  have bound := byte.toNat_lt
  simp only [List.mem_cons, List.not_mem_nil, or_false] at inByte
  rcases inByte with rfl | rfl
  · exact allChars_lowerHex (by omega)
  · exact allChars_lowerHex (by omega)

theorem allChars_asciiText (text : String) : AllChars (asciiText text) :=
  allChars_codes text.toList

/-- Two texts with a comma between them. -/
theorem encodes_joined {first later : Option Text} :
    Encodes (first.bind fun front =>
        later.bind fun rest => some (front ++ 44 :: rest)) ↔
      Encodes first ∧ Encodes later := by
  cases first with
  | none => simp [Encodes]
  | some front =>
      cases later with
      | none => simp [Encodes]
      | some rest =>
          simp only [Option.bind_some, encodes_some, allChars_append,
            allChars_cons, isValidChar_of_lt (show 44 < 0xD800 by decide),
            true_and]

/-- A text behind its name. -/
theorem encodes_named {name : Text} {dumped : Option Text} :
    Encodes (dumped.bind fun text => some (encodeString name ++ 58 :: text)) ↔
      AllChars name ∧ Encodes dumped := by
  cases dumped with
  | none => simp [Encodes]
  | some text =>
      simp only [Option.bind_some, encodes_some, allChars_append,
        allChars_cons, isValidChar_of_lt (show 58 < 0xD800 by decide),
        true_and, allChars_encodeString]

/-- The `dict` that stands for bytes. -/
theorem encodes_bytes (value : Bytes) :
    Encodes (dumps (jsonSafe (.bytes value))) := by
  rw [jsonSafe, dumps, encodes_enclosed (by decide) (by decide)]
  have written :
      dumpsMembers
          [(asciiText "encoding", .str (asciiText "hex")),
            (asciiText "value", .str (hexText value))] =
        some (encodeString (asciiText "encoding") ++
          58 :: (encodeString (asciiText "hex") ++
            44 :: (encodeString (asciiText "value") ++
              58 :: encodeString (hexText value)))) :=
    rfl
  rw [written, encodes_some]
  simp only [allChars_append, allChars_cons, allChars_encodeString]
  exact ⟨allChars_asciiText _, isValidChar_of_lt (by decide),
    allChars_asciiText _, isValidChar_of_lt (by decide),
    allChars_asciiText _, isValidChar_of_lt (by decide),
    allChars_hexText value⟩

mutual

/-- Just the writable values are dumped and encoded. -/
theorem encodes_dumps (value : PyValue) :
    Encodes (dumps (jsonSafe value)) ↔ value.Writable := by
  match value with
  | .none =>
      exact iff_of_true (encodes_some.mpr (allChars_asciiText _)) trivial
  | .bool true =>
      exact iff_of_true (encodes_some.mpr (allChars_asciiText _)) trivial
  | .bool false =>
      exact iff_of_true (encodes_some.mpr (allChars_asciiText _)) trivial
  | .int value => exact encodes_intText
  | .float text => exact encodes_some
  | .str text => exact encodes_some.trans allChars_encodeString
  | .bytes value => exact iff_of_true (encodes_bytes value) trivial
  | .list items =>
      rw [jsonSafe, dumps, encodes_enclosed (by decide) (by decide),
        PyValue.Writable]
      exact encodes_dumpsItems items
  | .dict members =>
      rw [jsonSafe, dumps, encodes_enclosed (by decide) (by decide),
        PyValue.Writable]
      exact encodes_dumpsMembers members

theorem encodes_dumpsItems (items : List PyValue) :
    Encodes (dumpsItems (jsonSafeItems items)) ↔ WritableItems items := by
  match items with
  | [] => exact iff_of_true (encodes_some.mpr (by simp [AllChars])) trivial
  | [item] =>
      exact (encodes_dumps item).trans (and_iff_left trivial).symm
  | item :: second :: others =>
      exact encodes_joined.trans
        (and_congr (encodes_dumps item) (encodes_dumpsItems (second :: others)))

theorem encodes_dumpsMembers (members : List (Text × PyValue)) :
    Encodes (dumpsMembers (jsonSafeMembers members)) ↔
      WritableMembers members := by
  match members with
  | [] => exact iff_of_true (encodes_some.mpr (by simp [AllChars])) trivial
  | [(name, value)] =>
      refine encodes_named.trans (and_congr_right fun _ => ?_)
      exact (encodes_dumps value).trans (and_iff_left trivial).symm
  | (name, value) :: second :: others =>
      have named :
          dumpsMembers (jsonSafeMembers ((name, value) :: second :: others)) =
            ((dumps (jsonSafe value)).bind fun front =>
              (dumpsMembers (jsonSafeMembers (second :: others))).bind
                fun rest => some (front ++ 44 :: rest)).bind
              fun text => some (encodeString name ++ 58 :: text) := by
        simp only [Option.bind_assoc, Option.bind_some]
        rfl
      rw [named, encodes_named, encodes_joined, encodes_dumps value,
        encodes_dumpsMembers (second :: others)]
      rfl

end

/-! ## The line -/

/-- `write_json_line` raises nothing just where the value is writable. -/
theorem writeJsonLine_isSome (value : PyValue) :
    (writeJsonLine value).isSome ↔ value.Writable := by
  rw [← encodes_dumps value]
  unfold writeJsonLine
  cases dumps (jsonSafe value) with
  | none => simp [Encodes]
  | some text =>
      rw [encodes_some, Option.bind_eq_bind, Option.bind_some,
        encodeText_isSome, allChars_append]
      exact and_iff_left (by simp [AllChars, Nat.isValidChar])

theorem names_jsonSafeMembers (members : List (Text × PyValue)) :
    (jsonSafeMembers members).map Prod.fst = members.map Prod.fst := by
  induction members with
  | nil => rfl
  | cons first rest inductionHypothesis =>
      rw [jsonSafeMembers, List.map_cons, List.map_cons, inductionHypothesis]

mutual

/-- What JSON has of a value is as faithful as the value. -/
theorem faithful_jsonSafe
    {hooks : JsonHooks}
    {value : PyValue}
    (faithful : value.Faithful hooks) :
    (jsonSafe value).Faithful hooks := by
  match value with
  | .none | .bool _ | .int _ | .str _ => exact trivial
  | .float _ => exact faithful
  | .bytes value =>
      have different :
          [asciiText "encoding", asciiText "value"].Nodup := by
        decide
      exact ⟨different, trivial, trivial, trivial⟩
  | .list items => exact faithful_jsonSafeItems faithful
  | .dict members =>
      refine ⟨?_, faithful_jsonSafeMembers faithful.2⟩
      rw [names_jsonSafeMembers]
      exact faithful.1

theorem faithful_jsonSafeItems
    {hooks : JsonHooks}
    {items : List PyValue}
    (faithful : FaithfulItems hooks items) :
    FaithfulItems hooks (jsonSafeItems items) := by
  match items with
  | [] => exact trivial
  | item :: rest =>
      exact ⟨faithful_jsonSafe faithful.1, faithful_jsonSafeItems faithful.2⟩

theorem faithful_jsonSafeMembers
    {hooks : JsonHooks}
    {members : List (Text × PyValue)}
    (faithful : FaithfulMembers hooks members) :
    FaithfulMembers hooks (jsonSafeMembers members) := by
  match members with
  | [] => exact trivial
  | (name, value) :: rest =>
      exact ⟨faithful_jsonSafe faithful.1, faithful_jsonSafeMembers faithful.2⟩

end

/-! ## One line -/

/-- There is no control character in a text. -/
def Uncontrolled (text : Text) : Prop :=
  ∀ code ∈ text, 32 ≤ code

theorem uncontrolled_append {front rest : Text} :
    Uncontrolled (front ++ rest) ↔ Uncontrolled front ∧ Uncontrolled rest :=
  List.forall_mem_append

theorem uncontrolled_cons {code : Nat} {rest : Text} :
    Uncontrolled (code :: rest) ↔ 32 ≤ code ∧ Uncontrolled rest :=
  List.forall_mem_cons

theorem uncontrolled_escapeCode (code : Nat) :
    Uncontrolled (escapeCode code) := by
  have hexDigit (value : Nat) : 32 ≤ lowerHex value := by
    unfold lowerHex
    split <;> omega
  unfold escapeCode Uncontrolled
  split
  case h_8 =>
    split
    · simp [hexDigit]
    · simp
      omega
  all_goals decide

theorem uncontrolled_encodeString (text : Text) :
    Uncontrolled (encodeString text) := by
  unfold encodeString
  refine uncontrolled_cons.mpr ⟨by decide, uncontrolled_append.mpr ⟨?_, ?_⟩⟩
  · intro other member
    obtain ⟨code, -, inEscape⟩ := List.mem_flatMap.mp member
    exact uncontrolled_escapeCode code other inEscape
  · simp [Uncontrolled]

theorem uncontrolled_number (number : JsonNumber) :
    Uncontrolled (codes number.chars) := by
  intro code member
  obtain ⟨character, inNumber, rfl⟩ := List.mem_map.mp member
  refine @JsonNumber.forall_chars (fun other => 32 ≤ other.toNat)
    (fun digit => ?_) (by simp) number character inNumber
  have isDigit := isDigitCode_digitChar digit
  simp only [isDigitCode, Bool.and_eq_true, decide_eq_true_eq] at isDigit
  omega

theorem uncontrolled_intText
    {value : Int}
    {text : Text}
    (written : intText value = some text) :
    Uncontrolled text := by
  obtain ⟨number, isText, -⟩ := exists_number ⟨some, some⟩ written
  rw [← isText]
  exact uncontrolled_number number

mutual

/-- A value is written without control characters. -/
theorem uncontrolled_dumps
    {hooks : JsonHooks}
    {value : PyValue}
    {text : Text}
    (faithful : value.Faithful hooks)
    (written : dumps value = some text) :
    Uncontrolled text := by
  match value with
  | .none | .bool true | .bool false =>
      obtain rfl := Option.some.inj written
      unfold Uncontrolled
      decide
  | .int value => exact uncontrolled_intText written
  | .float digits =>
      obtain rfl := Option.some.inj written
      obtain ⟨number, -, rfl, -⟩ := faithful
      exact uncontrolled_number number
  | .str content =>
      obtain rfl := Option.some.inj written
      exact uncontrolled_encodeString content
  | .bytes _ => cases written
  | .list items =>
      obtain ⟨inner, isInner, rfl⟩ := Option.map_eq_some_iff.mp written
      exact uncontrolled_cons.mpr ⟨by decide, uncontrolled_append.mpr
        ⟨uncontrolled_dumpsItems faithful isInner, by simp [Uncontrolled]⟩⟩
  | .dict members =>
      obtain ⟨inner, isInner, rfl⟩ := Option.map_eq_some_iff.mp written
      exact uncontrolled_cons.mpr ⟨by decide, uncontrolled_append.mpr
        ⟨uncontrolled_dumpsMembers faithful.2 isInner, by simp [Uncontrolled]⟩⟩

theorem uncontrolled_dumpsItems
    {hooks : JsonHooks}
    {items : List PyValue}
    {text : Text}
    (faithful : FaithfulItems hooks items)
    (written : dumpsItems items = some text) :
    Uncontrolled text := by
  match items with
  | [] =>
      obtain rfl := Option.some.inj written
      simp [Uncontrolled]
  | [item] => exact uncontrolled_dumps faithful.1 written
  | item :: second :: others =>
      obtain ⟨head, isHead, written⟩ := Option.bind_eq_some_iff.mp written
      obtain ⟨tail, isTail, written⟩ := Option.bind_eq_some_iff.mp written
      obtain rfl := Option.some.inj written
      exact uncontrolled_append.mpr ⟨uncontrolled_dumps faithful.1 isHead,
        uncontrolled_cons.mpr
          ⟨by decide, uncontrolled_dumpsItems faithful.2 isTail⟩⟩

theorem uncontrolled_dumpsMembers
    {hooks : JsonHooks}
    {members : List (Text × PyValue)}
    {text : Text}
    (faithful : FaithfulMembers hooks members)
    (written : dumpsMembers members = some text) :
    Uncontrolled text := by
  match members with
  | [] =>
      obtain rfl := Option.some.inj written
      simp [Uncontrolled]
  | [(name, value)] =>
      obtain ⟨inner, isInner, written⟩ := Option.bind_eq_some_iff.mp written
      obtain rfl := Option.some.inj written
      exact uncontrolled_append.mpr ⟨uncontrolled_encodeString name,
        uncontrolled_cons.mpr
          ⟨by decide, uncontrolled_dumps faithful.1 isInner⟩⟩
  | (name, value) :: second :: others =>
      obtain ⟨head, isHead, written⟩ := Option.bind_eq_some_iff.mp written
      obtain ⟨tail, isTail, written⟩ := Option.bind_eq_some_iff.mp written
      obtain rfl := Option.some.inj written
      exact uncontrolled_append.mpr ⟨uncontrolled_encodeString name,
        uncontrolled_cons.mpr ⟨by decide, uncontrolled_append.mpr
          ⟨uncontrolled_dumps faithful.1 isHead, uncontrolled_cons.mpr
            ⟨by decide, uncontrolled_dumpsMembers faithful.2 isTail⟩⟩⟩⟩

end

theorem newlineByte_not_mem
    {chars : List Char}
    (uncontrolled : Uncontrolled (codes chars)) :
    newlineByte ∉ encodeUtf8 chars := by
  intro member
  obtain ⟨character, inChars, inBytes⟩ := List.mem_flatMap.mp member
  have visible := uncontrolled character.toNat (List.mem_map_of_mem inChars)
  by_cases isAscii : character.toNat < 128
  · rw [utf8EncodeChar_of_ascii isAscii, List.mem_singleton] at inBytes
    have same := congrArg UInt8.toNat inBytes
    rw [UInt8.toNat_ofNat', Nat.mod_eq_of_lt (by omega)] at same
    have newline : newlineByte.toNat = 10 := rfl
    omega
  · have large :=
      notAscii_of_utf8EncodeChar (by omega : 128 ≤ character.toNat) _ inBytes
    exact absurd large (by decide)

/-- A line as it is written for a value. -/
structure LineOf
    (python : PythonLibrary)
    (hooks : JsonHooks)
    (value : PyValue)
    (body : Bytes) : Prop where
  oneLine : newlineByte ∉ body
  loads : loadsValue python hooks body = some (jsonSafe value)
  depth :
    jsonDepthAllowed body = decide ((jsonSafe value).depth ≤ maxJsonDepth)

/-- What is written is one line, and it is read back as the value. -/
theorem lineOf_writeJsonLine
    (python : PythonLibrary)
    {hooks : JsonHooks}
    {value : PyValue}
    {line : Bytes}
    (faithful : value.Faithful hooks)
    (written : writeJsonLine value = some line) :
    ∃ body, line = body ++ [newlineByte] ∧ LineOf python hooks value body := by
  have safe := faithful_jsonSafe faithful
  obtain ⟨text, isText, encoded⟩ := Option.bind_eq_some_iff.mp written
  have isValid : AllChars (text ++ [10]) := by
    rw [← encodeText_isSome, encoded]
    rfl
  obtain ⟨tree, isTree⟩ :=
    exists_tree safe isText (allChars_append.mp isValid).1
  obtain ⟨document, isDocument⟩ :
      ∃ document : JsonDocument, document = ⟨[], tree, []⟩ :=
    ⟨_, rfl⟩
  have data : document.data = encodeUtf8 tree.chars := by
    rw [isDocument, JsonDocument.data, JsonDocument.chars]
    simp [Spaces.chars]
  have isValue : document.value = tree := by rw [isDocument]
  have isLine : encodeUtf8 tree.chars ++ [newlineByte] = line := by
    have shape : text ++ [10] = codes (tree.chars ++ ['\n']) := by
      rw [codes_append, isTree.chars]
      rfl
    rw [shape, encodeText_codes] at encoded
    rw [← Option.some.inj encoded, encodeUtf8_append]
    rfl
  refine ⟨_, isLine.symm, ?_, ?_, ?_⟩
  · refine newlineByte_not_mem ?_
    rw [isTree.chars]
    exact uncontrolled_dumps safe isText
  · rw [← data, loadsValue_document, isValue, isTree.spells]
  · rw [jsonDepthAllowed_eq, ← data,
      nestingExceeds_document document (Int.natCast_nonneg _), isValue,
      isTree.depth, ← decide_not]
    refine decide_eq_decide.mpr ?_
    omega

end PacketAudit
