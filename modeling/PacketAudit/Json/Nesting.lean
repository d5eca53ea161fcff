import PacketAudit.Json.Parsing

namespace PacketAudit

/-!
# Strings and brackets in the bytes

The bytes of a string's content are plain bytes and escapes, so that a quote
that is not escaped ends it.  The guard against deep nesting counts the
brackets outside strings.
-/

/-! ## The bytes of strings -/

/-- A byte that stands for itself in a string. -/
def isPlainByte (byte : UInt8) : Bool :=
  32 ≤ byte && byte ≠ 34 && byte ≠ 92

/-- The bytes of a unit of a string: plain ones, or an escape. -/
inductive UnitBytes : Bytes → Prop where
  | plain
      {bytes : Bytes}
      (isPlain : ∀ byte ∈ bytes, isPlainByte byte) :
      UnitBytes bytes
  | escape
      {letter : UInt8}
      {digits : Bytes}
      (noNewline : letter ≠ 10)
      (isPlain : ∀ byte ∈ digits, isPlainByte byte) :
      UnitBytes (92 :: letter :: digits)

theorem isPlainByte_iff {byte : UInt8} :
    isPlainByte byte ↔
      32 ≤ byte.toNat ∧ byte.toNat ≠ 34 ∧ byte.toNat ≠ 92 := by
  simp only [isPlainByte, Bool.and_eq_true, decide_eq_true_eq, ne_eq,
    UInt8.le_iff_toNat_le, ← UInt8.toNat_inj, and_assoc]
  rfl

theorem encodeUtf8_ascii
    {character : Char}
    (isAscii : character.toNat < 128)
    (chars : List Char) :
    encodeUtf8 (character :: chars) =
      UInt8.ofNat character.toNat :: encodeUtf8 chars := by
  rw [encodeUtf8_cons, utf8EncodeChar_of_ascii isAscii]
  rfl

theorem HexDigit.isAscii (digit : HexDigit) :
    digit.char.toNat < 128 ∧
      isPlainByte (UInt8.ofNat digit.char.toNat) := by
  obtain ⟨value, upper⟩ := digit
  revert value upper
  decide

theorem ShortEscape.isAscii (escape : ShortEscape) :
    escape.letter.toNat < 128 ∧
      UInt8.ofNat escape.letter.toNat ≠ 10 := by
  cases escape <;> decide

theorem PlainChar.bytes (plain : PlainChar) :
    ∀ byte ∈ String.utf8EncodeChar plain.character, isPlainByte byte := by
  obtain ⟨character, notControl, notQuote, notBackslash⟩ := plain
  intro byte member
  rw [isPlainByte_iff]
  by_cases isAscii : character.toNat < 128
  · have isNot : character.toNat ≠ 34 ∧ character.toNat ≠ 92 :=
      ⟨fun same => notQuote (Char.toNat_inj.mp same),
        fun same => notBackslash (Char.toNat_inj.mp same)⟩
    rw [utf8EncodeChar_of_ascii isAscii, List.mem_singleton] at member
    rw [member, UInt8.toNat_ofNat', Nat.mod_eq_of_lt (by omega)]
    exact ⟨notControl, isNot⟩
  · have large :=
      notAscii_of_utf8EncodeChar (by omega : 128 ≤ character.toNat) byte
        member
    omega

theorem JsonUnit.unitBytes (unit : JsonUnit) :
    UnitBytes (encodeUtf8 unit.chars) := by
  cases unit with
  | plain plain =>
      refine .plain ?_
      rw [chars, encodeUtf8_cons, encodeUtf8_nil, List.append_nil]
      exact plain.bytes
  | short escape =>
      rw [chars, encodeUtf8_ascii (by decide),
        encodeUtf8_ascii escape.isAscii.1]
      exact .escape escape.isAscii.2 (by simp)
  | unicode first second third fourth =>
      rw [chars, encodeUtf8_ascii (by decide), encodeUtf8_ascii (by decide),
        encodeUtf8_ascii first.isAscii.1, encodeUtf8_ascii second.isAscii.1,
        encodeUtf8_ascii third.isAscii.1, encodeUtf8_ascii fourth.isAscii.1]
      refine .escape (by decide) ?_
      simp only [encodeUtf8_nil, List.forall_mem_cons, List.not_mem_nil,
        false_imp_iff, implies_true, and_true]
      exact ⟨first.isAscii.2, second.isAscii.2, third.isAscii.2,
        fourth.isAscii.2⟩

/-- The bytes between the quotes. -/
def JsonString.bytes (string : JsonString) : Bytes :=
  encodeUtf8 string.content

theorem JsonString.bytes_cons (unit : JsonUnit) (string : JsonString) :
    JsonString.bytes (unit :: string) =
      encodeUtf8 unit.chars ++ string.bytes := by
  simp [bytes, content]

theorem JsonString.encodeUtf8_chars (string : JsonString) :
    encodeUtf8 string.chars = 34 :: (string.bytes ++ [34]) := by
  have quote : encodeUtf8 ['"'] = [34] := by decide
  rw [chars, List.cons_append, encodeUtf8_ascii (by decide),
    encodeUtf8_append, quote]
  rfl

/-! ## Nesting -/

section Guard

variable {limit depth : Int}

theorem nestingExceeds_plain
    {bytes : Bytes}
    (isPlain : ∀ byte ∈ bytes, isPlainByte byte)
    (rest : Bytes) :
    nestingExceeds limit depth true false (bytes ++ rest) =
      nestingExceeds limit depth true false rest := by
  induction bytes with
  | nil => rfl
  | cons byte bytes inductionHypothesis =>
      rw [List.forall_mem_cons] at isPlain
      obtain ⟨isThis, others⟩ := isPlain
      simp only [isPlainByte, Bool.and_eq_true, decide_eq_true_eq] at isThis
      rw [List.cons_append, nestingExceeds, if_neg isThis.2,
        decide_eq_true isThis.1.2]
      exact inductionHypothesis others

/-- The guard stays in a string up to its closing quote. -/
theorem nestingExceeds_content (string : JsonString) (rest : Bytes) :
    nestingExceeds limit depth true false (string.bytes ++ 34 :: rest) =
      nestingExceeds limit depth false false rest := by
  induction string with
  | nil =>
      change nestingExceeds limit depth true false (34 :: rest) = _
      rw [nestingExceeds, if_neg (by decide)]
      rfl
  | cons unit string inductionHypothesis =>
      rw [JsonString.bytes_cons, List.append_assoc]
      have unitBytes := unit.unitBytes
      generalize encodeUtf8 unit.chars = bytes at unitBytes ⊢
      cases unitBytes with
      | plain isPlain =>
          rw [nestingExceeds_plain isPlain]
          exact inductionHypothesis
      | escape noNewline isPlain =>
          rw [List.cons_append, List.cons_append, nestingExceeds,
            if_pos rfl, nestingExceeds, nestingExceeds_plain isPlain]
          exact inductionHypothesis

/-- The guard passes over a string. -/
theorem nestingExceeds_string (string : JsonString) (rest : Bytes) :
    nestingExceeds limit depth false false
        (encodeUtf8 string.chars ++ rest) =
      nestingExceeds limit depth false false rest := by
  rw [string.encodeUtf8_chars, List.cons_append, nestingExceeds,
    if_pos rfl, List.append_assoc]
  exact nestingExceeds_content string rest

end Guard

/-! ## What stands between strings and brackets -/

/-- ASCII characters that are no quotes, backslashes or brackets. -/
def Neutral (chars : List Char) : Prop :=
  ∀ character ∈ chars,
    character.toNat < 128 ∧
      character.toNat ∉ [34, 91, 92, 93, 123, 125]

namespace Neutral

theorem nil : Neutral [] := by
  simp [Neutral]

theorem cons
    {first : Char}
    {rest : List Char}
    (isNeutral :
      first.toNat < 128 ∧ first.toNat ∉ [34, 91, 92, 93, 123, 125])
    (restNeutral : Neutral rest) :
    Neutral (first :: rest) :=
  List.forall_mem_cons.mpr ⟨isNeutral, restNeutral⟩

theorem append
    {front rest : List Char}
    (isNeutral : Neutral front)
    (restNeutral : Neutral rest) :
    Neutral (front ++ rest) :=
  List.forall_mem_append.mpr ⟨isNeutral, restNeutral⟩

theorem spaces (blanks : Spaces) : Neutral blanks.chars := by
  intro character member
  obtain ⟨blank, -, rfl⟩ := List.mem_map.mp member
  cases blank <;> decide

theorem number (value : JsonNumber) : Neutral value.chars := by
  refine value.forall_chars (fun digit => ?_) (by simp)
  have isDigit := isDigitCode_digitChar digit
  simp only [isDigitCode, Bool.and_eq_true, decide_eq_true_eq] at isDigit
  simp only [List.mem_cons, List.not_mem_nil, or_false, not_or]
  omega

theorem word (value : JsonWord) : Neutral value.chars := by
  cases value <;>
    simp [Neutral, JsonWord.chars]

theorem bytes
    {chars : List Char}
    (isNeutral : Neutral chars) :
    ∀ byte ∈ encodeUtf8 chars,
      byte.toNat < 128 ∧ byte.toNat ∉ [34, 91, 92, 93, 123, 125] := by
  intro byte member
  obtain ⟨character, inChars, inBytes⟩ := List.mem_flatMap.mp member
  have isNeutral := isNeutral character inChars
  rw [utf8EncodeChar_of_ascii isNeutral.1, List.mem_singleton] at inBytes
  rw [inBytes, UInt8.toNat_ofNat', Nat.mod_eq_of_lt (by omega)]
  exact isNeutral

end Neutral

section Guard

variable {limit depth : Int}

theorem nestingExceeds_neutral
    {chars : List Char}
    (isNeutral : Neutral chars)
    (rest : Bytes) :
    nestingExceeds limit depth false false (encodeUtf8 chars ++ rest) =
      nestingExceeds limit depth false false rest := by
  have neutral := isNeutral.bytes
  generalize encodeUtf8 chars = bytes at neutral ⊢
  induction bytes with
  | nil => rfl
  | cons byte bytes inductionHypothesis =>
      rw [List.forall_mem_cons] at neutral
      obtain ⟨⟨-, isThis⟩, others⟩ := neutral
      have isNot :
          byte ≠ 34 ∧ byte ≠ 91 ∧ byte ≠ 123 ∧ byte ≠ 93 ∧ byte ≠ 125 := by
        refine ⟨?_, ?_, ?_, ?_, ?_⟩ <;>
          (rintro rfl; simp at isThis)
      rw [List.cons_append, nestingExceeds]
      simp only [isNot, or_self, if_false]
      exact inductionHypothesis others

theorem nestingExceeds_scalar (scalar : Scalar) (rest : Bytes) :
    nestingExceeds limit depth false false
        (encodeUtf8 scalar.chars ++ rest) =
      nestingExceeds limit depth false false rest := by
  cases scalar with
  | word value => exact nestingExceeds_neutral (.word value) rest
  | number value => exact nestingExceeds_neutral (.number value) rest
  | string value => exact nestingExceeds_string value rest

/-- The guard exceeds its limit in what goes `nested` deep, or behind it. -/
def exceedsWithin
    (limit depth : Int)
    (nested : Nat)
    (rest : Bytes) : Bool :=
  decide (limit < depth + nested) ||
    nestingExceeds limit depth false false rest

theorem exceedsWithin_flat
    (within : depth ≤ limit)
    (rest : Bytes) :
    exceedsWithin limit depth 0 rest =
      nestingExceeds limit depth false false rest := by
  have notBeyond : ¬limit < depth + (0 : Nat) := by omega
  rw [exceedsWithin, decide_eq_false notBeyond, Bool.false_or]

/-- What stands side by side nests as deep as the deeper of the two. -/
theorem exceedsWithin_max
    (first second : Nat)
    (rest : Bytes) :
    exceedsWithin limit depth (max first second) rest =
      (decide (limit < depth + first) ||
        exceedsWithin limit depth second rest) := by
  have either :
      limit < depth + (max first second : Nat) ↔
        limit < depth + first ∨ limit < depth + second := by
    omega
  rw [exceedsWithin, exceedsWithin, ← Bool.or_assoc, ← Bool.decide_or,
    decide_eq_decide.mpr either]

/-- Brackets around what the guard judges by how deep it goes. -/
theorem nestingExceeds_brackets
    {opening closing : Char}
    {inner : List Char}
    {nested : Nat}
    (opens : opening = '[' ∨ opening = '{')
    (closes : closing = ']' ∨ closing = '}')
    (within : depth ≤ limit)
    (judges :
      depth + 1 ≤ limit →
        ∀ rest,
          nestingExceeds limit (depth + 1) false false
              (encodeUtf8 inner ++ rest) =
            exceedsWithin limit (depth + 1) nested rest)
    (rest : Bytes) :
    nestingExceeds limit depth false false
        (encodeUtf8 (opening :: (inner ++ [closing])) ++ rest) =
      exceedsWithin limit depth (nested + 1) rest := by
  have shape :
      encodeUtf8 (opening :: (inner ++ [closing])) ++ rest =
        UInt8.ofNat opening.toNat ::
          (encodeUtf8 inner ++ UInt8.ofNat closing.toNat :: rest) := by
    have bytes : encodeUtf8 [closing] = [UInt8.ofNat closing.toNat] := by
      rcases closes with rfl | rfl <;> rfl
    have isAscii : opening.toNat < 128 := by
      rcases opens with rfl | rfl <;> decide
    rw [encodeUtf8_ascii isAscii, encodeUtf8_append, bytes, List.cons_append,
      List.append_assoc, List.singleton_append]
  have up :
      nestingExceeds limit depth false false
          (UInt8.ofNat opening.toNat ::
            (encodeUtf8 inner ++ UInt8.ofNat closing.toNat :: rest)) =
        if limit < depth + 1 then true
        else
          nestingExceeds limit (depth + 1) false false
            (encodeUtf8 inner ++ UInt8.ofNat closing.toNat :: rest) := by
    rcases opens with rfl | rfl <;>
      (rw [nestingExceeds]; simp)
  have down :
      nestingExceeds limit (depth + 1) false false
          (UInt8.ofNat closing.toNat :: rest) =
        nestingExceeds limit depth false false rest := by
    rcases closes with rfl | rfl <;>
      (rw [nestingExceeds]; simp)
  rw [shape, up]
  by_cases beyond : limit < depth + 1
  · have deeper : limit < depth + (nested + 1 : Nat) := by omega
    rw [if_pos beyond, exceedsWithin, decide_eq_true deeper, Bool.true_or]
  · have sameDepth :
        limit < depth + 1 + nested ↔ limit < depth + (nested + 1 : Nat) := by
      omega
    rw [if_neg beyond, judges (by omega), exceedsWithin, down, exceedsWithin,
      decide_eq_decide.mpr sameDepth]

end Guard

theorem nestingExceeds_name
    {limit depth : Int}
    (name : JsonString)
    (behindName beforeValue : Spaces)
    (rest : Bytes) :
    nestingExceeds limit depth false false
        (encodeUtf8 (nameChars name behindName beforeValue) ++ rest) =
      nestingExceeds limit depth false false rest := by
  have colon : Neutral (':' :: beforeValue.chars) :=
    .cons (by decide) (.spaces beforeValue)
  rw [nameChars, encodeUtf8_append, List.append_assoc,
    nestingExceeds_string, nestingExceeds_neutral]
  exact (Neutral.spaces behindName).append colon

theorem encodeUtf8_comma (chars : List Char) :
    encodeUtf8 (',' :: chars) = encodeUtf8 [','] ++ encodeUtf8 chars := by
  rw [← encodeUtf8_append]
  rfl

mutual

/-- The guard exceeds its limit in a value exactly where it goes too deep. -/
theorem Json.nestingExceeds_chars
    (value : Json)
    {limit depth : Int}
    (within : depth ≤ limit)
    (rest : Bytes) :
    nestingExceeds limit depth false false (encodeUtf8 value.chars ++ rest) =
      exceedsWithin limit depth value.depth rest := by
  match value with
  | .scalar leaf =>
      simp only [Json.chars, Json.depth]
      rw [exceedsWithin_flat within]
      exact nestingExceeds_scalar leaf rest
  | .emptyArray spaces =>
      simp only [Json.chars, Json.depth]
      refine nestingExceeds_brackets (.inl rfl) (.inl rfl) within ?_ rest
      intro deeper rest
      rw [exceedsWithin_flat deeper]
      exact nestingExceeds_neutral (.spaces spaces) rest
  | .emptyObject spaces =>
      simp only [Json.chars, Json.depth]
      refine nestingExceeds_brackets (.inr rfl) (.inr rfl) within ?_ rest
      intro deeper rest
      rw [exceedsWithin_flat deeper]
      exact nestingExceeds_neutral (.spaces spaces) rest
  | .array elements =>
      simp only [Json.chars, Json.depth]
      exact nestingExceeds_brackets (.inl rfl) (.inl rfl) within
        elements.nestingExceeds_chars rest
  | .object members =>
      simp only [Json.chars, Json.depth]
      exact nestingExceeds_brackets (.inr rfl) (.inr rfl) within
        members.nestingExceeds_chars rest

theorem Elements.nestingExceeds_chars
    (elements : Elements)
    {limit depth : Int}
    (within : depth ≤ limit)
    (rest : Bytes) :
    nestingExceeds limit depth false false
        (encodeUtf8 elements.chars ++ rest) =
      exceedsWithin limit depth elements.depth rest := by
  match elements with
  | .last before value behind =>
      simp only [Elements.chars, Elements.depth, encodeUtf8_append,
        List.append_assoc]
      rw [nestingExceeds_neutral (.spaces before),
        value.nestingExceeds_chars within, exceedsWithin,
        nestingExceeds_neutral (.spaces behind), exceedsWithin]
  | .more before value behind others =>
      simp only [Elements.chars, Elements.depth, encodeUtf8_append,
        encodeUtf8_comma others.chars, List.append_assoc]
      rw [nestingExceeds_neutral (.spaces before),
        value.nestingExceeds_chars within, exceedsWithin,
        nestingExceeds_neutral (.spaces behind),
        nestingExceeds_neutral (.cons (by decide) .nil),
        others.nestingExceeds_chars within, exceedsWithin_max]

theorem Members.nestingExceeds_chars
    (members : Members)
    {limit depth : Int}
    (within : depth ≤ limit)
    (rest : Bytes) :
    nestingExceeds limit depth false false
        (encodeUtf8 members.chars ++ rest) =
      exceedsWithin limit depth members.depth rest := by
  match members with
  | .last before name behindName beforeValue value behind =>
      simp only [Members.chars, Members.depth, encodeUtf8_append,
        List.append_assoc]
      rw [nestingExceeds_neutral (.spaces before), nestingExceeds_name,
        value.nestingExceeds_chars within, exceedsWithin,
        nestingExceeds_neutral (.spaces behind), exceedsWithin]
  | .more before name behindName beforeValue value behind others =>
      simp only [Members.chars, Members.depth, encodeUtf8_append,
        encodeUtf8_comma others.chars, List.append_assoc]
      rw [nestingExceeds_neutral (.spaces before), nestingExceeds_name,
        value.nestingExceeds_chars within, exceedsWithin,
        nestingExceeds_neutral (.spaces behind),
        nestingExceeds_neutral (.cons (by decide) .nil),
        others.nestingExceeds_chars within, exceedsWithin_max]

end

/-- The guard judges a document by how deep its value goes. -/
theorem nestingExceeds_document
    (document : JsonDocument)
    {limit : Int}
    (notNegative : 0 ≤ limit) :
    nestingExceeds limit 0 false false document.data =
      decide (limit < document.value.depth) := by
  have behind :
      nestingExceeds limit 0 false false
          (encodeUtf8 document.behind.chars ++ []) =
        false :=
    nestingExceeds_neutral (.spaces document.behind) []
  rw [List.append_nil] at behind
  rw [JsonDocument.data, JsonDocument.chars, encodeUtf8_append,
    encodeUtf8_append, nestingExceeds_neutral (.spaces document.before),
    document.value.nestingExceeds_chars notNegative, exceedsWithin, behind,
    Bool.or_false, Int.zero_add]

end PacketAudit
