import PacketAudit.Json.Openings

namespace PacketAudit

/-!
# What the loop does with a match

A member with a literal value is passed over, any other gives its field.  A
value that begins like a string or a number is never passed over.
-/

section Steps

variable {python : PythonLibrary}

/-! ## Members -/

/-- A scalar is decoded from its bytes. -/
theorem loads_scalar
    (leaf : Scalar)
    (converts : leaf.Converts) :
    loads python (encodeUtf8 leaf.chars) = some (leaf.decoded python) := by
  have decoded := loads_document python ⟨[], .scalar leaf, []⟩
  rw [if_pos (by simpa only [Json.Converts] using converts)] at decoded
  simpa [JsonDocument.data, JsonDocument.chars, Spaces.chars, Json.chars,
    Json.decoded] using decoded

theorem loads_string (string : JsonString) :
    loads python (encodeUtf8 string.chars) = some (.string string.text) :=
  loads_scalar (.string string) trivial

theorem jsonStep_word
    (name : JsonString)
    (start : Nat)
    (value : JsonWord) :
    jsonStep python
        ⟨encodeUtf8 name.chars, start, encodeUtf8 value.chars⟩ =
      .skip := by
  have decoded :
      loads python (encodeUtf8 value.chars) =
        some ((Scalar.word value).decoded python) :=
    loads_scalar (.word value) trivial
  cases value <;>
    simp only [jsonStep, loads_string, decoded, Scalar.decoded]

/-- The loop appends the field of a member that has one. -/
theorem jsonStep_text
    {value : Scalar}
    {text : Text}
    (isText : value.text python = some text)
    (converts : value.Converts)
    (name : JsonString)
    (start : Nat) :
    jsonStep python
        ⟨encodeUtf8 name.chars, start, encodeUtf8 value.chars⟩ =
      .append ⟨name.text, text, codes value.chars, start,
        start + byteSize value.chars⟩ := by
  have decoded :
      loads python (encodeUtf8 value.chars) = some (value.decoded python) :=
    loads_scalar value converts
  cases value with
  | word value => cases isText
  | number value | string value =>
      cases isText
      simp only [jsonStep, loads_string, decoded, Scalar.decoded,
        decodeUtf8_encodeUtf8, JsonMatch.stop]
      rfl

/-- A field has the place of its match, and its name. -/
theorem jsonStep_append
    {found : JsonMatch}
    {field : Field}
    (appends : jsonStep python found = .append field) :
    field.start = found.valueStart ∧
      loads python found.name = some (.string field.name) := by
  unfold jsonStep at appends
  split at appends
  case h_1 isName _ _ | h_2 isName _ _ =>
    cases appends
    exact ⟨rfl, isName⟩
  all_goals cases appends

/-! ## Values that are no literals -/

theorem loads_nil : loads python [] = none := by
  rfl

theorem toNat_ofNat_ascii
    {code : Nat}
    (isAscii : code < 128) :
    (Char.ofNat code).toNat = code := by
  have isValid : code.isValidChar := .inl (by omega)
  rw [Char.ofNat, dif_pos isValid]
  rfl

/-- A text that begins with an ASCII character is decoded to one. -/
theorem decode_ascii
    {first : UInt8}
    {rest : Bytes}
    (isAscii : first.toNat < 128)
    (noZero : ∀ byte ∈ first :: rest, byte ≠ 0)
    {text : Text}
    (decoded : python.decode (first :: rest) = some text) :
    ∃ more, text = first.toNat :: more := by
  have isCode : (Char.ofNat first.toNat).toNat = first.toNat :=
    toNat_ofNat_ascii isAscii
  have isByte :
      String.utf8EncodeChar (Char.ofNat first.toNat) = [first] := by
    rw [utf8EncodeChar_of_ascii (by omega), isCode, UInt8.ofNat_toNat]
  have isFirst :
      (first :: rest).toByteArray.utf8DecodeChar? 0 =
        some (Char.ofNat first.toNat) := by
    have shape :
        first :: rest =
          String.utf8EncodeChar (Char.ofNat first.toNat) ++ rest := by
      rw [isByte, List.singleton_append]
    rw [shape, List.toByteArray_append]
    exact ByteArray.utf8DecodeChar?_utf8EncodeChar_append
  rw [PythonLibrary.decode, detectEncoding_eq_utf8 isAscii noZero] at decoded
  simp only [List.length_cons, decodeUtf8From, isFirst, isCode,
    Option.map_eq_some_iff] at decoded
  obtain ⟨more, -, rfl⟩ := decoded
  exact ⟨more, rfl⟩

/-- What is scanned from a quote, a sign or a digit is no literal. -/
theorem scanValue_noLiteral
    {first : Nat}
    {rest : Text}
    (begins : first = 34 ∨ first = 45 ∨ isDigitCode first)
    {fuel : Nat}
    {value : JsonValue}
    {behind : Text}
    (scanned : scanValue python fuel (first :: rest) = some (value, behind)) :
    ∃ text, value = .string text ∨ value = .number text := by
  cases fuel with
  | zero => cases scanned
  | succ fuel =>
      by_cases isQuote : first = 34
      · subst isQuote
        simp only [scanValue, Option.bind_eq_bind,
          Option.bind_eq_some_iff, Option.some.injEq, Prod.mk.injEq]
          at scanned
        obtain ⟨_, _, isValue, -⟩ := scanned
        exact ⟨_, .inl isValue.symm⟩
      simp only [isDigitCode, Bool.and_eq_true, decide_eq_true_eq] at begins
      rw [scanValue_other fuel isQuote (by omega) (by omega)] at scanned
      split at scanned
      case h_1 word isWord =>
        have starts :
            ∀ word ∈ jsonWords,
              word.2 = .number (asciiText "-inf") ∨
                (word.1 ≠ [] ∧
                  ∀ code ∈ word.1.head?, 58 ≤ code) := by
          decide
        cases scanned
        rcases starts word (List.mem_of_find?_eq_some isWord) with
          isNumber | ⟨nonempty, isLetter⟩
        · exact ⟨_, .inr isNumber⟩
        · have isPrefix := List.find?_some isWord
          cases letters : word.1 with
          | nil => exact absurd letters nonempty
          | cons letter letters =>
              rw [letters] at isLetter isPrefix
              rw [List.isPrefixOf_iff_prefix, List.cons_prefix_cons]
                at isPrefix
              have large := isLetter letter (by simp)
              omega
      case h_2 =>
        simp only [scanNumber, Option.bind_eq_bind,
          Option.bind_eq_some_iff, Option.some.injEq, Prod.mk.injEq]
          at scanned
        obtain ⟨_, _, _, _, isValue, -⟩ := scanned
        exact ⟨_, .inr isValue.symm⟩

/-- What begins like a string or a number is decoded to one, if at all. -/
theorem loads_noLiteral
    {first : UInt8}
    {rest : Bytes}
    (begins : first.toNat = 34 ∨ first.toNat = 45 ∨ isDigitCode first.toNat)
    (noZero : ∀ byte ∈ first :: rest, byte ≠ 0)
    {value : JsonValue}
    (decoded : loads python (first :: rest) = some value) :
    ∃ text, value = .string text ∨ value = .number text := by
  have isAscii : first.toNat < 128 := by
    simp only [isDigitCode, Bool.and_eq_true, decide_eq_true_eq] at begins
    omega
  have noSpace : isJsonSpace first.toNat = false := by
    simp only [isDigitCode, Bool.and_eq_true, decide_eq_true_eq] at begins
    simp only [isJsonSpace, Bool.or_eq_false_iff, decide_eq_false_iff_not]
    omega
  simp only [loads, Option.bind_eq_bind, Option.bind_eq_some_iff] at decoded
  obtain ⟨text, isText, found, scanned, isValue⟩ := decoded
  obtain ⟨more, rfl⟩ := decode_ascii isAscii noZero isText
  have skipped :
      skipSpaces (first.toNat :: more) = first.toNat :: more := by
    rw [skipSpaces, List.dropWhile_cons_of_neg (by simp [noSpace])]
  rw [skipped] at scanned
  split at isValue
  case isTrue =>
    cases isValue
    exact scanValue_noLiteral begins scanned
  case isFalse => cases isValue

/-- A match whose value begins so is not passed over. -/
theorem jsonStep_ne_skip
    {found : JsonMatch}
    (begins :
      ∀ first ∈ found.value.head?,
        first.toNat = 34 ∨ first.toNat = 45 ∨ isDigitCode first.toNat)
    (noZero : ∀ byte ∈ found.value, byte ≠ 0) :
    jsonStep python found ≠ .skip := by
  intro skips
  obtain ⟨value, decoded, literal⟩ :
      ∃ value,
        loads python found.value = some value ∧
          (value = .null ∨ ∃ bool, value = .bool bool) := by
    unfold jsonStep at skips
    split at skips
    case h_3 _ isNull => exact ⟨_, isNull, .inl rfl⟩
    case h_4 bool _ isBool => exact ⟨_, isBool, .inr ⟨bool, rfl⟩⟩
    all_goals cases skips
  cases content : found.value with
  | nil =>
      rw [content, loads_nil] at decoded
      cases decoded
  | cons first rest =>
      rw [content] at begins noZero decoded
      obtain ⟨text, isText⟩ :=
        loads_noLiteral (begins first (by simp)) noZero decoded
      rcases literal with rfl | ⟨bool, rfl⟩ <;> simp at isText

end Steps

end PacketAudit
