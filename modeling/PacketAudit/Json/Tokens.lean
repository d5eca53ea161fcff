import PacketAudit.Json.Nesting

namespace PacketAudit

/-!
# Documents as tokens

For the pattern of `json_fields` a document is a sequence of members with a
scalar value, of other strings, and of single bytes between them.  The pattern
finds the members in order, unless it takes the closing quote of another string
for the opening quote of a name.
-/

/-- A member with a scalar value, a string that is none, or a byte. -/
inductive Token where
  | byte (value : UInt8)
  | loose (string : JsonString)
  | member
      (name : JsonString)
      (behindName beforeValue : Spaces)
      (value : Scalar)

def Token.bytes : Token → Bytes
  | byte value => [value]
  | loose string => encodeUtf8 string.chars
  | member name behindName beforeValue value =>
      encodeUtf8 (nameChars name behindName beforeValue) ++
        encodeUtf8 value.chars

def tokensBytes (tokens : List Token) : Bytes :=
  tokens.flatMap Token.bytes

/-- Characters between strings, one token for each. -/
def gapTokens (chars : List Char) : List Token :=
  (encodeUtf8 chars).map Token.byte

/-- The tokens of a member; those of its value are given. -/
def memberTokens
    (name : JsonString)
    (behindName beforeValue : Spaces)
    (value : Json)
    (valueTokens : List Token) : List Token :=
  match value with
  | .scalar leaf => [.member name behindName beforeValue leaf]
  | _ =>
      .loose name ::
        (gapTokens (behindName.chars ++ ':' :: beforeValue.chars) ++
          valueTokens)

def Scalar.tokens : Scalar → List Token
  | .string value => [.loose value]
  | .number value => gapTokens value.chars
  | .word value => gapTokens value.chars

mutual

def Json.tokens : Json → List Token
  | .scalar leaf => leaf.tokens
  | .emptyArray spaces => gapTokens ('[' :: (spaces.chars ++ [']']))
  | .array elements =>
      gapTokens ['['] ++ (elements.tokens ++ gapTokens [']'])
  | .emptyObject spaces => gapTokens ('{' :: (spaces.chars ++ ['}']))
  | .object members =>
      gapTokens ['{'] ++ (members.tokens ++ gapTokens ['}'])

def Elements.tokens : Elements → List Token
  | .last before value behind =>
      gapTokens before.chars ++ (value.tokens ++ gapTokens behind.chars)
  | .more before value behind rest =>
      gapTokens before.chars ++ (value.tokens ++
        (gapTokens behind.chars ++ (gapTokens [','] ++ rest.tokens)))

def Members.tokens : Members → List Token
  | .last before name behindName beforeValue value behind =>
      gapTokens before.chars ++
        (memberTokens name behindName beforeValue value value.tokens ++
          gapTokens behind.chars)
  | .more before name behindName beforeValue value behind rest =>
      gapTokens before.chars ++
        (memberTokens name behindName beforeValue value value.tokens ++
          (gapTokens behind.chars ++ (gapTokens [','] ++ rest.tokens)))

end

def JsonDocument.tokens (document : JsonDocument) : List Token :=
  gapTokens document.before.chars ++
    (document.value.tokens ++ gapTokens document.behind.chars)

/-! ## Mistaken quotes -/

/-- What a string shows to a pattern that takes its opening quote for the end
of a name. -/
inductive Opening where
  | other
  /-- A colon and a number. -/
  | number
  /-- A colon and `true`, `false` or `null`, with the bytes behind the word. -/
  | word (behind : Bytes)
  /-- A colon and nothing else. -/
  | quote
  deriving Repr, DecidableEq

/-- What stands behind the colon. -/
def openingValue (value : Bytes) : Opening :=
  if value.isEmpty then .quote
  else if (matchNumber? value).isSome then .number
  else
    match matchWord? value with
    | some length => .word (value.drop length)
    | none => .other

/-- What the content of a string shows. -/
def opening (content : Bytes) : Opening :=
  match content.dropWhile isSpaceByte with
  | 58 :: rest => openingValue (rest.dropWhile isSpaceByte)
  | _ => .other

/-- A quote follows before any control character. -/
def quoteFollows : List Token → Bool
  | [] => false
  | .byte value :: rest => 32 ≤ value && quoteFollows rest
  | _ => true

/-- Whitespace without control characters. -/
def Spaces.noControl (spaces : Spaces) : Bool :=
  spaces.all fun blank => blank = .space

/--
No quote is mistaken so that it shows.  `dangling` tells that the quote before
the tokens closes a string and that no control character stands behind it, so
that the next string may be taken for what follows a name.
-/
def noneMistaken : (dangling : Bool) → List Token → Bool
  | _, [] => true
  | dangling, .byte value :: rest =>
      noneMistaken (dangling && 32 ≤ value) rest
  | false, .loose _ :: rest => noneMistaken true rest
  | false, .member _ _ _ _ :: rest => noneMistaken false rest
  | true, .loose string :: rest =>
      match opening string.bytes with
      | .number => false
      | .quote => !quoteFollows rest && noneMistaken true rest
      | _ => noneMistaken true rest
  | true, .member name behindName beforeValue value :: rest =>
      let unbroken := behindName.noControl && beforeValue.noControl
      match opening name.bytes, value with
      | .other, _ => noneMistaken false rest
      | .number, _ => false
      | .quote, .string _ => !unbroken && noneMistaken false rest
      | .quote, _ =>
          !(unbroken && quoteFollows rest) && noneMistaken false rest
      -- The name is not found; that of a word leaves its quote dangling.
      | .word behind, .word _ =>
          noneMistaken (decide (34 ∉ behind) && unbroken) rest
      | .word _, _ => false

@[simp] theorem noneMistaken_nil (dangling : Bool) :
    noneMistaken dangling [] = true := by
  cases dangling <;> rfl

theorem noneMistaken_byte (dangling : Bool) (value : UInt8) (rest : List Token) :
    noneMistaken dangling (.byte value :: rest) =
      noneMistaken (dangling && 32 ≤ value) rest := by
  cases dangling <;> rfl

theorem noneMistaken_loose (string : JsonString) (rest : List Token) :
    noneMistaken false (.loose string :: rest) = noneMistaken true rest := rfl

theorem noneMistaken_member
    (name : JsonString)
    (behindName beforeValue : Spaces)
    (value : Scalar)
    (rest : List Token) :
    noneMistaken false (.member name behindName beforeValue value :: rest) =
      noneMistaken false rest := rfl

theorem noneMistaken_dangling_loose (string : JsonString) (rest : List Token) :
    noneMistaken true (.loose string :: rest) =
      match opening string.bytes with
      | .number => false
      | .quote => !quoteFollows rest && noneMistaken true rest
      | _ => noneMistaken true rest := rfl

theorem noneMistaken_dangling_member
    (name : JsonString)
    (behindName beforeValue : Spaces)
    (value : Scalar)
    (rest : List Token) :
    noneMistaken true (.member name behindName beforeValue value :: rest) =
      let unbroken := behindName.noControl && beforeValue.noControl
      match opening name.bytes, value with
      | .other, _ => noneMistaken false rest
      | .number, _ => false
      | .quote, .string _ => !unbroken && noneMistaken false rest
      | .quote, _ =>
          !(unbroken && quoteFollows rest) && noneMistaken false rest
      | .word behind, .word _ =>
          noneMistaken (decide (34 ∉ behind) && unbroken) rest
      | .word _, _ => false := rfl

/-! ## The bytes of the tokens -/

@[simp] theorem tokensBytes_nil : tokensBytes [] = [] := rfl

@[simp] theorem tokensBytes_cons (token : Token) (tokens : List Token) :
    tokensBytes (token :: tokens) = token.bytes ++ tokensBytes tokens := rfl

@[simp] theorem tokensBytes_append (front rest : List Token) :
    tokensBytes (front ++ rest) = tokensBytes front ++ tokensBytes rest :=
  List.flatMap_append

@[simp] theorem tokensBytes_gapTokens (chars : List Char) :
    tokensBytes (gapTokens chars) = encodeUtf8 chars := by
  rw [gapTokens, tokensBytes, List.flatMap_map]
  exact List.flatMap_singleton' _

theorem tokensBytes_scalar (leaf : Scalar) :
    tokensBytes leaf.tokens = encodeUtf8 leaf.chars := by
  cases leaf with
  | word value => exact tokensBytes_gapTokens _
  | number value => exact tokensBytes_gapTokens _
  | string value =>
      simp [Scalar.tokens, Token.bytes, Scalar.chars]

theorem tokensBytes_member
    (name : JsonString)
    (behindName beforeValue : Spaces)
    {value : Json}
    {valueTokens : List Token}
    (isValue : tokensBytes valueTokens = encodeUtf8 value.chars) :
    tokensBytes
        (memberTokens name behindName beforeValue value valueTokens) =
      encodeUtf8 (nameChars name behindName beforeValue) ++
        encodeUtf8 value.chars := by
  cases value <;>
    simp [memberTokens, Token.bytes, nameChars, isValue, Json.chars]

mutual

theorem Json.tokensBytes_tokens (value : Json) :
    tokensBytes value.tokens = encodeUtf8 value.chars := by
  match value with
  | .scalar leaf =>
      simp only [Json.tokens, Json.chars]
      exact tokensBytes_scalar leaf
  | .emptyArray spaces | .emptyObject spaces =>
      simp only [Json.tokens, Json.chars, tokensBytes_gapTokens]
  | .array elements =>
      simp only [Json.tokens, Json.chars, tokensBytes_append,
        tokensBytes_gapTokens, elements.tokensBytes_tokens,
        ← encodeUtf8_append]
      rfl
  | .object members =>
      simp only [Json.tokens, Json.chars, tokensBytes_append,
        tokensBytes_gapTokens, members.tokensBytes_tokens,
        ← encodeUtf8_append]
      rfl

theorem Elements.tokensBytes_tokens (elements : Elements) :
    tokensBytes elements.tokens = encodeUtf8 elements.chars := by
  match elements with
  | .last before value behind =>
      simp only [Elements.tokens, Elements.chars, tokensBytes_append,
        tokensBytes_gapTokens, value.tokensBytes_tokens, encodeUtf8_append]
  | .more before value behind others =>
      simp only [Elements.tokens, Elements.chars, tokensBytes_append,
        tokensBytes_gapTokens, value.tokensBytes_tokens,
        others.tokensBytes_tokens, ← encodeUtf8_append]
      rfl

theorem Members.tokensBytes_tokens (members : Members) :
    tokensBytes members.tokens = encodeUtf8 members.chars := by
  match members with
  | .last before name behindName beforeValue value behind =>
      simp only [Members.tokens, Members.chars, tokensBytes_append,
        tokensBytes_gapTokens, encodeUtf8_append, List.append_assoc,
        tokensBytes_member name behindName beforeValue
          value.tokensBytes_tokens]
  | .more before name behindName beforeValue value behind others =>
      simp only [Members.tokens, Members.chars, tokensBytes_append,
        tokensBytes_gapTokens, others.tokensBytes_tokens, List.append_assoc,
        tokensBytes_member name behindName beforeValue
          value.tokensBytes_tokens, ← encodeUtf8_append]
      rfl

end

theorem JsonDocument.tokensBytes_tokens (document : JsonDocument) :
    tokensBytes document.tokens = document.data := by
  simp [JsonDocument.tokens, data, JsonDocument.chars,
    document.value.tokensBytes_tokens]

/-! ## The fields of the tokens -/

/-- The field of a token at an offset, if it is a member. -/
def Token.fields (python : PythonLibrary) (offset : Nat) : Token → List Field
  | .member name behindName beforeValue value =>
      memberFields python name (.scalar value)
        (offset + byteSize (nameChars name behindName beforeValue))
  | _ => []

/-- The fields of the members among the tokens, which begin at an offset. -/
def tokenFields
    (python : PythonLibrary) : (offset : Nat) → List Token → List Field
  | _, [] => []
  | offset, token :: rest =>
      token.fields python offset ++
        tokenFields python (offset + token.bytes.length) rest

section Fields

variable {python : PythonLibrary}

theorem tokenFields_append
    (offset : Nat)
    (front rest : List Token) :
    tokenFields python offset (front ++ rest) =
      tokenFields python offset front ++
        tokenFields python (offset + (tokensBytes front).length) rest := by
  induction front generalizing offset with
  | nil => rfl
  | cons token front inductionHypothesis =>
      rw [List.cons_append, tokenFields, inductionHypothesis, tokenFields,
        List.append_assoc, tokensBytes_cons, List.length_append,
        Nat.add_assoc]

@[simp] theorem tokenFields_gapTokens (offset : Nat) (chars : List Char) :
    tokenFields python offset (gapTokens chars) = [] := by
  rw [gapTokens]
  generalize encodeUtf8 chars = bytes
  induction bytes generalizing offset with
  | nil => rfl
  | cons byte bytes inductionHypothesis =>
      rw [List.map_cons, tokenFields, inductionHypothesis]
      rfl

theorem tokenFields_gapTokens_append
    (offset : Nat)
    (chars : List Char)
    (rest : List Token) :
    tokenFields python offset (gapTokens chars ++ rest) =
      tokenFields python (offset + byteSize chars) rest := by
  rw [tokenFields_append, tokenFields_gapTokens, List.nil_append,
    tokensBytes_gapTokens]
  rfl

theorem tokenFields_scalar (offset : Nat) (leaf : Scalar) :
    tokenFields python offset leaf.tokens = [] := by
  cases leaf with
  | word value => exact tokenFields_gapTokens offset _
  | number value => exact tokenFields_gapTokens offset _
  | string value => rfl

theorem tokenFields_member
    (offset : Nat)
    (name : JsonString)
    (behindName beforeValue : Spaces)
    {value : Json}
    (isValue :
      ∀ start,
        tokenFields python start value.tokens = value.fields python start) :
    tokenFields python offset
        (memberTokens name behindName beforeValue value value.tokens) =
      memberFields python name value
          (offset + byteSize (nameChars name behindName beforeValue)) ++
        value.fields python
          (offset + byteSize (nameChars name behindName beforeValue)) := by
  cases value with
  | scalar leaf =>
      simp [memberTokens, tokenFields, Token.fields, Json.fields]
  | emptyArray _ | array _ | emptyObject _ | object _ =>
      simp only [memberTokens, memberFields, List.nil_append]
      rw [tokenFields, Token.fields, List.nil_append,
        tokenFields_gapTokens_append, isValue]
      · congr 1
        simp [Token.bytes, nameChars, byteSize, Nat.add_assoc]
      · intro _ _ _ _ isMember
        cases isMember

mutual

theorem Json.tokenFields_tokens (value : Json) (offset : Nat) :
    tokenFields python offset value.tokens = value.fields python offset := by
  match value with
  | .scalar leaf =>
      simp only [Json.tokens, Json.fields]
      exact tokenFields_scalar offset leaf
  | .emptyArray spaces | .emptyObject spaces =>
      simp only [Json.tokens, Json.fields, tokenFields_gapTokens]
  | .array elements =>
      simp only [Json.tokens, Json.fields, tokenFields_gapTokens_append]
      rw [tokenFields_append, elements.tokenFields_tokens,
        tokenFields_gapTokens, List.append_nil]
      rfl
  | .object members =>
      simp only [Json.tokens, Json.fields, tokenFields_gapTokens_append]
      rw [tokenFields_append, members.tokenFields_tokens,
        tokenFields_gapTokens, List.append_nil]
      rfl

theorem Elements.tokenFields_tokens (elements : Elements) (offset : Nat) :
    tokenFields python offset elements.tokens =
      elements.fields python offset := by
  match elements with
  | .last before value behind =>
      simp only [Elements.tokens, Elements.fields,
        tokenFields_gapTokens_append]
      rw [tokenFields_append, value.tokenFields_tokens,
        tokenFields_gapTokens, List.append_nil]
  | .more before value behind others =>
      simp only [Elements.tokens, Elements.fields,
        tokenFields_gapTokens_append]
      rw [tokenFields_append, value.tokenFields_tokens,
        tokenFields_gapTokens_append, tokenFields_gapTokens_append,
        others.tokenFields_tokens, value.tokensBytes_tokens]
      rfl

theorem Members.tokenFields_tokens (members : Members) (offset : Nat) :
    tokenFields python offset members.tokens =
      members.fields python offset := by
  match members with
  | .last before name behindName beforeValue value behind =>
      simp only [Members.tokens, Members.fields,
        tokenFields_gapTokens_append]
      rw [tokenFields_append,
        tokenFields_member _ name behindName beforeValue
          value.tokenFields_tokens,
        tokenFields_gapTokens, List.append_nil]
  | .more before name behindName beforeValue value behind others =>
      simp only [Members.tokens, Members.fields,
        tokenFields_gapTokens_append]
      rw [tokenFields_append,
        tokenFields_member _ name behindName beforeValue
          value.tokenFields_tokens,
        tokenFields_gapTokens_append, tokenFields_gapTokens_append,
        others.tokenFields_tokens,
        tokensBytes_member name behindName beforeValue
          value.tokensBytes_tokens, List.length_append, List.append_assoc,
        ← Nat.add_assoc]
      rfl

end

theorem JsonDocument.tokenFields_tokens (document : JsonDocument) :
    tokenFields python 0 document.tokens = document.fields python := by
  rw [tokens, tokenFields_gapTokens_append, tokenFields_append,
    document.value.tokenFields_tokens, tokenFields_gapTokens,
    List.append_nil, Nat.zero_add, fields]

end Fields

end PacketAudit
