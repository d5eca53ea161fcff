import PacketAudit.Json.Steps

namespace PacketAudit

/-!
# The tokens of a document

What is known of the tokens that a document has: a string that is no name of a
scalar member has no scalar value behind it, and nothing behind a member
prolongs its value.
-/

/-- A byte outside strings. -/
def isGapByte (byte : UInt8) : Bool :=
  0 < byte && byte < 128 && byte ≠ 34 && byte ≠ 92

/-- What holds of the tokens of a document whose integers convert. -/
inductive Regular : List Token → Prop where
  | nil : Regular []
  | byte
      {value : UInt8}
      {rest : List Token}
      (isGap : isGapByte value)
      (later : Regular rest) :
      Regular (.byte value :: rest)
  | loose
      {string : JsonString}
      {rest : List Token}
      (noValue : matchValue? (tokensBytes rest) = none)
      (later : Regular rest) :
      Regular (.loose string :: rest)
  | member
      {name : JsonString}
      {behindName beforeValue : Spaces}
      {value : Scalar}
      {rest : List Token}
      (converts : value.Converts)
      (ends : NumberEnds ((tokensBytes rest).map UInt8.toNat))
      (later : Regular rest) :
      Regular (.member name behindName beforeValue value :: rest)

/-! ## Bytes between strings -/

/-- Characters whose bytes stand outside strings. -/
def GapChars (chars : List Char) : Prop :=
  ∀ character ∈ chars,
    0 < character.toNat ∧ character.toNat < 128 ∧ character.toNat ≠ 34 ∧
      character.toNat ≠ 92

theorem isGapByte_iff {byte : UInt8} :
    isGapByte byte ↔
      0 < byte.toNat ∧ byte.toNat < 128 ∧ byte.toNat ≠ 34 ∧
        byte.toNat ≠ 92 := by
  simp only [isGapByte, Bool.and_eq_true, decide_eq_true_eq, ne_eq,
    UInt8.lt_iff_toNat_lt, ← UInt8.toNat_inj, and_assoc]
  rfl

namespace GapChars

theorem of_neutral
    {chars : List Char}
    (isNeutral : Neutral chars)
    (printed : AllPrinted chars) :
    GapChars chars := by
  intro character member
  obtain ⟨isAscii, isNot⟩ := isNeutral character member
  have isPrinted := printed character member
  simp only [List.mem_cons, List.not_mem_nil, or_false, not_or] at isNot
  exact ⟨by omega, isAscii, isNot.1, isNot.2.2.1⟩

theorem spaces (blanks : Spaces) : GapChars blanks.chars :=
  of_neutral (.spaces blanks) (.spaces blanks)

theorem append
    {front rest : List Char}
    (isGap : GapChars front)
    (restIsGap : GapChars rest) :
    GapChars (front ++ rest) :=
  List.forall_mem_append.mpr ⟨isGap, restIsGap⟩

/-- Whitespace between two characters. -/
theorem around
    {first last : Char}
    (isFirst : GapChars [first])
    (isLast : GapChars [last])
    (blanks : Spaces) :
    GapChars (first :: (blanks.chars ++ [last])) :=
  isFirst.append ((spaces blanks).append isLast)

theorem bytes
    {chars : List Char}
    (isGap : GapChars chars) :
    ∀ byte ∈ encodeUtf8 chars, isGapByte byte := by
  intro byte member
  obtain ⟨character, inChars, inBytes⟩ := List.mem_flatMap.mp member
  have isGap := isGap character inChars
  rw [utf8EncodeChar_of_ascii isGap.2.1, List.mem_singleton] at inBytes
  rw [inBytes, isGapByte_iff, UInt8.toNat_ofNat',
    Nat.mod_eq_of_lt (by omega)]
  exact isGap

end GapChars

theorem Regular.gap
    {chars : List Char}
    {rest : List Token}
    (isGap : GapChars chars)
    (later : Regular rest) :
    Regular (gapTokens chars ++ rest) := by
  have isGap := isGap.bytes
  rw [gapTokens]
  generalize encodeUtf8 chars = bytes at isGap
  induction bytes with
  | nil => exact later
  | cons byte bytes inductionHypothesis =>
      rw [List.forall_mem_cons] at isGap
      exact .byte isGap.1 (inductionHypothesis isGap.2)

/-! ## What follows a value -/

/-- Whitespace, and then a comma, a closing bracket or nothing. -/
def TokensEnd (tokens : List Token) : Prop :=
  ∃ (spaces : Spaces) (rest : Bytes),
    tokensBytes tokens = encodeUtf8 spaces.chars ++ rest ∧
      ∀ byte ∈ rest.head?, byte = 44 ∨ byte = 93 ∨ byte = 125

namespace TokensEnd

theorem intro
    (spaces : Spaces)
    {tokens : List Token}
    (ends :
      ∀ byte ∈ (tokensBytes tokens).head?,
        byte = 44 ∨ byte = 93 ∨ byte = 125) :
    TokensEnd (gapTokens spaces.chars ++ tokens) :=
  ⟨spaces, tokensBytes tokens,
    by rw [tokensBytes_append, tokensBytes_gapTokens], ends⟩

/-- A string before it is no name. -/
theorem matchValue?_eq_none
    {tokens : List Token}
    (ends : TokensEnd tokens) :
    matchValue? (tokensBytes tokens) = none := by
  obtain ⟨spaces, rest, shape, closes⟩ := ends
  rw [shape]
  refine matchValue?_noColon (isSpaceByte_spaces spaces) ?_ ?_
  all_goals
    intro byte isHead
    rcases closes byte isHead with rfl | rfl | rfl <;> decide

/-- A number before it is not prolonged. -/
theorem numberEnds
    {tokens : List Token}
    (ends : TokensEnd tokens) :
    NumberEnds ((tokensBytes tokens).map UInt8.toNat) := by
  obtain ⟨spaces, rest, shape, closes⟩ := ends
  refine ValueEnds.numberEnds ?_
  rw [shape, List.map_append, map_toNat_encodeUtf8 (Neutral.spaces spaces).isAscii]
  intro code isHead
  cases spaces with
  | nil =>
      cases rest with
      | nil => cases isHead
      | cons byte rest =>
          simp only [Spaces.chars, List.map_nil, codes_nil, List.nil_append,
            List.map_cons, List.head?_cons, Option.mem_some] at isHead
          rcases closes byte (by simp) with rfl | rfl | rfl <;>
            (rw [← isHead]; decide)
  | cons blank blanks =>
      refine .inl (isJsonSpace_spaces (blank :: blanks) code ?_)
      refine List.mem_of_mem_head? ?_
      simpa [Spaces.chars] using isHead

end TokensEnd

/-! ## Values -/

/-- What begins with a bracket is no scalar. -/
theorem matchScalar?_bracket
    {first : UInt8}
    (isBracket : first = 91 ∨ first = 123)
    (rest : Bytes) :
    matchScalar? (first :: rest) = none := by
  rcases isBracket with rfl | rfl <;>
    (rw [matchScalar?_noQuote (by decide),
      matchNumber?_eq_none (by decide) (by decide), Option.none_or]
     rfl)

theorem Regular.scalar
    {leaf : Scalar}
    {rest : List Token}
    (ends : TokensEnd rest)
    (later : Regular rest) :
    Regular (leaf.tokens ++ rest) := by
  cases leaf with
  | string value => exact .loose ends.matchValue?_eq_none later
  | number value =>
      exact .gap (.of_neutral (.number value) (.number value)) later
  | word value =>
      exact .gap
        (.of_neutral (.word value) (.scalar (.word value))) later

theorem Regular.memberOf
    (name : JsonString)
    (behindName beforeValue : Spaces)
    {value : Json}
    {rest : List Token}
    (converts : value.Converts)
    (ends : TokensEnd rest)
    (later : Regular rest)
    (isValue : Regular (value.tokens ++ rest)) :
    Regular
      (memberTokens name behindName beforeValue value value.tokens ++
        rest) := by
  have colonChar : GapChars [':'] := by
    simp [GapChars]
  have colon :
      GapChars (behindName.chars ++ ':' :: beforeValue.chars) :=
    (GapChars.spaces behindName).append
      (colonChar.append (.spaces beforeValue))
  have container
      (first : UInt8)
      {more : Bytes}
      (shape : encodeUtf8 value.chars = first :: more)
      (isBracket : first = 91 ∨ first = 123) :
      Regular
        (.loose name ::
          (gapTokens (behindName.chars ++ ':' :: beforeValue.chars) ++
            (value.tokens ++ rest))) := by
    refine .loose ?_ (.gap colon isValue)
    have noSpace : ∀ byte ∈ (first :: (more ++ tokensBytes rest)).head?,
        isSpaceByte byte = false := by
      intro byte isHead
      cases isHead
      rcases isBracket with rfl | rfl <;> rfl
    have noValue :=
      matchValue?_eq (isSpaceByte_spaces behindName)
        (isSpaceByte_spaces beforeValue) noSpace
    rw [matchScalar?_bracket isBracket, Option.map_none] at noValue
    rw [tokensBytes_append, tokensBytes_gapTokens, tokensBytes_append,
      value.tokensBytes_tokens, shape, encodeUtf8_append,
      encodeUtf8_ascii (by decide), List.append_assoc, List.cons_append]
    exact noValue
  cases value with
  | scalar leaf =>
      exact .member (by simpa only [Json.Converts] using converts)
        ends.numberEnds later
  | emptyArray _ | array _ =>
      have regular := container 91 (by rw [Json.chars]; rfl) (.inl rfl)
      simpa only [memberTokens, List.cons_append,
        List.append_assoc] using regular
  | emptyObject _ | object _ =>
      have regular := container 123 (by rw [Json.chars]; rfl) (.inr rfl)
      simpa only [memberTokens, List.cons_append,
        List.append_assoc] using regular

theorem TokensEnd.closing
    {spaces : Spaces}
    {bracket : Char}
    (isBracket : bracket = ',' ∨ bracket = ']' ∨ bracket = '}')
    (rest : List Token) :
    TokensEnd
      (gapTokens spaces.chars ++ (gapTokens [bracket] ++ rest)) := by
  refine .intro spaces fun byte isHead => ?_
  rcases isBracket with rfl | rfl | rfl <;>
    (cases isHead; decide)

theorem GapChars.bracket
    {bracket : Char}
    (isBracket : bracket ∈ ['[', ']', '{', '}', ',']) :
    GapChars [bracket] := by
  simp only [List.mem_cons, List.not_mem_nil, or_false] at isBracket
  rcases isBracket with rfl | rfl | rfl | rfl | rfl <;> simp [GapChars]

mutual

/-- Tokens stay regular behind a value. -/
theorem Json.regular
    (value : Json)
    {rest : List Token}
    (converts : value.Converts)
    (ends : TokensEnd rest)
    (later : Regular rest) :
    Regular (value.tokens ++ rest) := by
  match value with
  | .scalar leaf =>
      simp only [Json.tokens]
      exact .scalar ends later
  | .emptyArray spaces | .emptyObject spaces =>
      simp only [Json.tokens]
      exact .gap
        (.around (.bracket (by simp)) (.bracket (by simp)) spaces) later
  | .array elements =>
      simp only [Json.Converts] at converts
      simp only [Json.tokens, List.append_assoc]
      exact .gap (.bracket (by simp))
        (elements.regular converts later)
  | .object members =>
      simp only [Json.Converts] at converts
      simp only [Json.tokens, List.append_assoc]
      exact .gap (.bracket (by simp))
        (members.regular converts later)

theorem Elements.regular
    (elements : Elements)
    {rest : List Token}
    (converts : elements.Converts)
    (later : Regular rest) :
    Regular (elements.tokens ++ (gapTokens [']'] ++ rest)) := by
  match elements with
  | .last before value behind =>
      simp only [Elements.Converts] at converts
      simp only [Elements.tokens, List.append_assoc]
      exact .gap (.spaces before)
        (value.regular converts (.closing (.inr (.inl rfl)) rest)
          (.gap (.spaces behind) (.gap (.bracket (by simp)) later)))
  | .more before value behind others =>
      simp only [Elements.Converts] at converts
      simp only [Elements.tokens, List.append_assoc]
      exact .gap (.spaces before)
        (value.regular converts.1 (.closing (.inl rfl) _)
          (.gap (.spaces behind) (.gap (.bracket (by simp))
            (others.regular converts.2 later))))

theorem Members.regular
    (members : Members)
    {rest : List Token}
    (converts : members.Converts)
    (later : Regular rest) :
    Regular (members.tokens ++ (gapTokens ['}'] ++ rest)) := by
  match members with
  | .last before name behindName beforeValue value behind =>
      simp only [Members.Converts] at converts
      simp only [Members.tokens, List.append_assoc]
      have ends :
          TokensEnd
            (gapTokens behind.chars ++ (gapTokens ['}'] ++ rest)) :=
        .closing (.inr (.inr rfl)) rest
      have regular :
          Regular (gapTokens behind.chars ++ (gapTokens ['}'] ++ rest)) :=
        .gap (.spaces behind) (.gap (.bracket (by simp)) later)
      exact .gap (.spaces before)
        (.memberOf name behindName beforeValue converts ends regular
          (value.regular converts ends regular))
  | .more before name behindName beforeValue value behind others =>
      simp only [Members.Converts] at converts
      simp only [Members.tokens, List.append_assoc]
      have ends :
          TokensEnd
            (gapTokens behind.chars ++ (gapTokens [','] ++
              (others.tokens ++ (gapTokens ['}'] ++ rest)))) :=
        .closing (.inl rfl) _
      have regular :
          Regular
            (gapTokens behind.chars ++ (gapTokens [','] ++
              (others.tokens ++ (gapTokens ['}'] ++ rest)))) :=
        .gap (.spaces behind) (.gap (.bracket (by simp))
          (others.regular converts.2 later))
      exact .gap (.spaces before)
        (.memberOf name behindName beforeValue converts.1 ends regular
          (value.regular converts.1 ends regular))

end

/-- The tokens of a document are regular. -/
theorem JsonDocument.regular
    {document : JsonDocument}
    (converts : document.value.Converts) :
    Regular document.tokens := by
  have ends : TokensEnd (gapTokens document.behind.chars) := by
    have ends : TokensEnd (gapTokens document.behind.chars ++ []) :=
      .intro document.behind (by simp)
    rwa [List.append_nil] at ends
  have behind : Regular (gapTokens document.behind.chars) := by
    have regular : Regular (gapTokens document.behind.chars ++ []) :=
      .gap (.spaces document.behind) .nil
    rwa [List.append_nil] at regular
  exact .gap (.spaces document.before)
    (document.value.regular converts ends behind)

/-! ## How many fields there are -/

theorem length_memberFields
    (python : PythonLibrary)
    (name : JsonString)
    (value : Json)
    (start : Nat) :
    (memberFields python name value start).length ≤
      value.isScalar.toNat := by
  cases value with
  | scalar leaf =>
      cases leaf <;>
        simp [memberFields, Scalar.text, Json.isScalar]
  | emptyArray _ | array _ | emptyObject _ | object _ =>
      exact Nat.zero_le _

mutual

theorem Json.length_fields
    (value : Json)
    (python : PythonLibrary)
    (start : Nat) :
    (value.fields python start).length ≤ value.scalarMembers := by
  match value with
  | .scalar _ | .emptyArray _ | .emptyObject _ =>
      simp only [Json.fields, List.length_nil, Nat.zero_le]
  | .array elements =>
      simp only [Json.fields, Json.scalarMembers]
      exact elements.length_fields python _
  | .object members =>
      simp only [Json.fields, Json.scalarMembers]
      exact members.length_fields python _

theorem Elements.length_fields
    (elements : Elements)
    (python : PythonLibrary)
    (start : Nat) :
    (elements.fields python start).length ≤ elements.scalarMembers := by
  match elements with
  | .last before value behind =>
      simp only [Elements.fields, Elements.scalarMembers]
      exact value.length_fields python _
  | .more before value behind others =>
      simp only [Elements.fields, Elements.scalarMembers, List.length_append]
      exact Nat.add_le_add (value.length_fields python _)
        (others.length_fields python _)

theorem Members.length_fields
    (members : Members)
    (python : PythonLibrary)
    (start : Nat) :
    (members.fields python start).length ≤ members.scalarMembers := by
  match members with
  | .last before name behindName beforeValue value behind =>
      simp only [Members.fields, Members.scalarMembers, List.length_append]
      exact Nat.add_le_add (length_memberFields python name value _)
        (value.length_fields python _)
  | .more before name behindName beforeValue value behind others =>
      simp only [Members.fields, Members.scalarMembers, List.length_append,
        Nat.add_assoc]
      exact Nat.add_le_add (length_memberFields python name value _)
        (Nat.add_le_add (value.length_fields python _)
          (others.length_fields python _))

end

end PacketAudit
