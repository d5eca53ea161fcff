import PacketAudit.Json.Decoding

namespace PacketAudit

/-!
# Every document is decoded

The scanner reads a value up to its end, and `loads` reads the bytes of a
document, as long as every integer converts.
-/

section Scanning

variable {python : PythonLibrary}

/-! ## Scalars -/

/-- What is no string, array or object is a word or a number. -/
theorem scanValue_other
    {first : Nat}
    {rest : Text}
    (fuel : Nat)
    (notQuote : first ≠ 34)
    (notBrace : first ≠ 123)
    (notBracket : first ≠ 91) :
    scanValue python (fuel + 1) (first :: rest) =
      match jsonWords.find? fun word => word.1.isPrefixOf (first :: rest) with
      | some word => some (word.2, (first :: rest).drop word.1.length)
      | none => scanNumber python (first :: rest) := by
  rw [scanValue.eq_def]
  simp only
  split
  · simp_all
  · simp_all
  · simp_all
  · rfl

theorem findWord_word (value : JsonWord) (rest : Text) :
    (jsonWords.find? fun word =>
        word.1.isPrefixOf (codes value.chars ++ rest)) =
      some (codes value.chars, (Scalar.word value).decoded python) := by
  cases value <;> rfl

/-- No word begins like a number. -/
theorem findWord_number (number : JsonNumber) (rest : Text) :
    (jsonWords.find? fun word =>
        word.1.isPrefixOf (codes number.chars ++ rest)) = none := by
  have wordStarts :
      ∀ word ∈ jsonWords,
        (∀ code ∈ word.1.head?, isDigitCode code = false) ∧
          (∀ code ∈ word.1.tail.head?, isDigitCode code = false) ∧
          2 ≤ word.1.length := by
    decide
  obtain ⟨digit, more, isInteger, isDigit⟩ :
      ∃ digit more,
        number.integer.chars = digit :: more ∧ isDigitCode digit.toNat := by
    cases number.integer with
    | zero => exact ⟨'0', [], rfl, rfl⟩
    | positive digits leading =>
        exact ⟨_, _, rfl, isDigitCode_digitChar digits.first⟩
  rw [List.find?_eq_none]
  intro word member isPrefix
  obtain ⟨noFirst, noSecond, size⟩ := wordStarts word member
  match shape : word.1 with
  | [] => simp [shape] at size
  | [_] => simp [shape] at size
  | first :: second :: letters =>
      have firstOther := noFirst first (by rw [shape]; rfl)
      have secondOther := noSecond second (by rw [shape]; rfl)
      rw [shape, List.isPrefixOf_iff_prefix] at isPrefix
      simp only [JsonNumber.chars, JsonNumber.integerChars, isInteger]
        at isPrefix
      cases negative : number.negative with
      | false =>
          simp only [negative, Bool.false_eq_true, if_false, List.nil_append,
            List.cons_append, codes_cons, List.cons_prefix_cons] at isPrefix
          rw [isPrefix.1, isDigit] at firstOther
          cases firstOther
      | true =>
          simp only [negative, if_true, List.cons_append, List.nil_append,
            codes_cons, List.cons_prefix_cons] at isPrefix
          rw [isPrefix.2.1, isDigit] at secondOther
          cases secondOther

/-- A scalar is read up to its end. -/
theorem scanValue_scalar
    (scalar : Scalar)
    {rest : Text}
    (fuel : Nat)
    (ends : ValueEnds rest) :
    scanValue python (fuel + 1) (codes scalar.chars ++ rest) =
      if scalar.Converts then some (scalar.decoded python, rest) else none := by
  cases scalar with
  | string value =>
      rw [if_pos (show (Scalar.string value).Converts from trivial)]
      have shape :
          codes (Scalar.string value).chars ++ rest =
            34 :: (codes value.content ++ 34 :: rest) := by
        simp [Scalar.chars, JsonString.chars]
      rw [shape]
      simp [scanValue, scanUnits_content, Scalar.decoded, JsonString.text]
  | word value =>
      rw [if_pos (show (Scalar.word value).Converts from trivial)]
      obtain ⟨first, more, shape, other⟩ :
          ∃ first more,
            codes (Scalar.word value).chars ++ rest = first :: more ∧
              (first ≠ 34 ∧ first ≠ 123 ∧ first ≠ 91) := by
        cases value <;> exact ⟨_, _, rfl, by decide⟩
      have found := @findWord_word python value rest
      have behind :
          (codes value.chars ++ rest).drop (codes value.chars).length =
            rest :=
        List.drop_left
      simp only [Scalar.chars] at shape ⊢
      rw [shape] at found behind ⊢
      rw [scanValue_other fuel other.1 other.2.1 other.2.2, found]
      simp only [behind]
  | number value =>
      obtain ⟨first, more, shape, starts⟩ := value.head_chars
      have other : first.toNat ≠ 34 ∧ first.toNat ≠ 123 ∧ first.toNat ≠ 91 := by
        simp only [isDigitCode, Bool.and_eq_true, decide_eq_true_eq] at starts
        omega
      have notWord := findWord_number value rest
      have scanned := scanNumber_chars python value ends.numberEnds
      simp only [Scalar.chars]
      rw [shape, codes_cons, List.cons_append] at notWord scanned ⊢
      rw [scanValue_other fuel other.1 other.2.1 other.2.2, notWord]
      exact scanned

/-! ## Arrays and objects -/

theorem startsValue_iff {code : Nat} :
    startsValue code ↔
      (48 ≤ code ∧ code ≤ 57) ∨ code = 34 ∨ code = 45 ∨ code = 91 ∨
        code = 123 ∨ code = 102 ∨ code = 110 ∨ code = 116 := by
  simp [startsValue, isDigitCode]

theorem valueEnds_spaces
    (spaces : Spaces)
    {next : Nat}
    (isEnd : next = 44 ∨ next = 93 ∨ next = 125)
    (rest : Text) :
    ValueEnds (codes spaces.chars ++ next :: rest) := by
  intro code isHead
  cases spaces with
  | nil =>
      simp only [Spaces.chars, List.map_nil, codes_nil, List.nil_append,
        List.head?_cons, Option.mem_some] at isHead
      subst isHead
      exact .inr isEnd
  | cons blank spaces =>
      refine .inl (isJsonSpace_spaces (blank :: spaces) code ?_)
      simp only [Spaces.chars, List.map_cons, codes_cons, List.cons_append,
        List.head?_cons, Option.mem_some] at isHead
      subst isHead
      exact List.mem_cons_self

theorem skipSpaces_delimiter
    (spaces : Spaces)
    {next : Nat}
    (isEnd : next = 44 ∨ next = 93 ∨ next = 125 ∨ next = 58)
    (rest : Text) :
    skipSpaces (codes spaces.chars ++ next :: rest) = next :: rest := by
  refine skipSpaces_append fun code isHead => ?_
  simp only [List.head?_cons, Option.mem_some] at isHead
  subst isHead
  rcases isEnd with rfl | rfl | rfl | rfl <;> rfl

/-- The first element of an array starts a value. -/
theorem Elements.skipSpaces_chars (elements : Elements) (rest : Text) :
    ∃ first more,
      skipSpaces (codes elements.chars ++ rest) = first :: more ∧
        startsValue first := by
  have ofValue
      (before : Spaces)
      (value : Json)
      (behind : Text) :
      ∃ first more,
        skipSpaces (codes before.chars ++ (codes value.chars ++ behind)) =
            first :: more ∧
          startsValue first := by
    obtain ⟨first, more, shape, starts⟩ := value.head_chars
    refine ⟨first.toNat, codes more ++ behind, ?_, starts⟩
    rw [skipSpaces_value, shape]
    rfl
  cases elements with
  | last before value behind =>
      simpa [Elements.chars] using ofValue before value _
  | more before value behind others =>
      simpa [Elements.chars] using ofValue before value _

/-- The first member of an object starts with its name. -/
theorem skipSpaces_name
    (before : Spaces)
    (name : JsonString)
    (rest : Text) :
    skipSpaces (codes before.chars ++ (codes name.chars ++ rest)) =
      34 :: (codes name.content ++ 34 :: rest) := by
  have shape :
      codes name.chars ++ rest = 34 :: (codes name.content ++ 34 :: rest) := by
    simp [JsonString.chars]
  rw [shape]
  exact skipSpaces_append fun code isHead => by
    simp only [List.head?_cons, Option.mem_some] at isHead
    subst isHead
    rfl

mutual

/-- A value is read up to its end, if its integers convert. -/
theorem Json.scanValue_chars
    (value : Json)
    {fuel : Nat}
    {rest : Text}
    (ends : ValueEnds rest)
    (enough : value.chars.length ≤ fuel) :
    scanValue python fuel (codes value.chars ++ rest) =
      if value.Converts then some (value.decoded python, rest) else none := by
  obtain ⟨fuel, rfl⟩ : ∃ fewer, fuel = fewer + 1 := by
    obtain ⟨first, more, shape, -⟩ := value.head_chars
    rw [shape, List.length_cons] at enough
    exact Nat.exists_eq_add_one_of_ne_zero (by omega)
  match value with
  | .scalar leaf =>
      simp only [Json.chars, Json.Converts]
      exact scanValue_scalar leaf fuel ends
  | .emptyArray spaces =>
      have behind := skipSpaces_delimiter spaces (.inr (.inl rfl)) rest
      simp [Json.chars, scanValue, behind, Json.Converts, Json.decoded]
  | .emptyObject spaces =>
      have behind := skipSpaces_delimiter spaces (.inr (.inr (.inl rfl))) rest
      simp [Json.chars, scanValue, behind, Json.Converts, Json.decoded]
  | .array elements =>
      simp only [Json.chars, List.length_cons, List.length_append,
        List.length_nil] at enough
      have scanned :=
        elements.scanElements_chars rest
          (show elements.chars.length + 1 ≤ fuel by omega)
      obtain ⟨first, more, shape, starts⟩ :=
        elements.skipSpaces_chars (93 :: rest)
      rw [startsValue_iff] at starts
      rw [shape] at scanned
      have whole :
          codes (Json.array elements).chars ++ rest =
            91 :: (codes elements.chars ++ 93 :: rest) := by
        simp [Json.chars]
      rw [whole, scanValue]
      simp only [shape]
      split
      case h_1 same =>
        simp only [List.cons.injEq] at same
        omega
      case h_2 =>
        rw [scanned]
        by_cases converts : elements.Converts <;>
          simp [Json.Converts, converts, Json.decoded]
  | .object members =>
      simp only [Json.chars, List.length_cons, List.length_append,
        List.length_nil] at enough
      have scanned :=
        members.scanMembers_chars rest
          (show members.chars.length + 1 ≤ fuel by omega)
      obtain ⟨more, shape⟩ :
          ∃ more,
            skipSpaces (codes members.chars ++ 125 :: rest) = 34 :: more := by
        match members with
        | .last before name _ _ _ _ | .more before name _ _ _ _ _ =>
            simp only [Members.chars, nameChars, codes_append,
              List.append_assoc, skipSpaces_name]
            exact ⟨_, rfl⟩
      rw [shape] at scanned
      have whole :
          codes (Json.object members).chars ++ rest =
            123 :: (codes members.chars ++ 125 :: rest) := by
        simp [Json.chars]
      rw [whole, scanValue]
      simp only [shape, scanned]
      by_cases converts : members.Converts <;>
        simp [Json.Converts, converts, Json.decoded]

/-- The elements of an array are read up to behind its bracket. -/
theorem Elements.scanElements_chars
    (elements : Elements)
    (rest : Text)
    {fuel : Nat}
    (enough : elements.chars.length + 1 ≤ fuel) :
    scanElements python fuel
        (skipSpaces (codes elements.chars ++ 93 :: rest)) =
      if elements.Converts then some rest else none := by
  obtain ⟨fuel, rfl⟩ : ∃ fewer, fuel = fewer + 1 :=
    Nat.exists_eq_add_one_of_ne_zero (by omega)
  match elements with
  | .last before value behind =>
      simp only [Elements.chars, List.length_append] at enough
      have scanned :=
        value.scanValue_chars
          (valueEnds_spaces behind (.inr (.inl rfl)) rest)
          (show value.chars.length ≤ fuel by omega)
      simp only [Elements.chars, codes_append, List.append_assoc,
        skipSpaces_value, scanElements, scanned]
      by_cases converts : value.Converts <;>
        simp [Elements.Converts, converts,
          skipSpaces_delimiter behind (.inr (.inl rfl)) rest]
  | .more before value behind others =>
      simp only [Elements.chars, List.length_append, List.length_cons]
        at enough
      have scanned :=
        value.scanValue_chars
          (valueEnds_spaces behind (.inl rfl)
            (codes others.chars ++ 93 :: rest))
          (show value.chars.length ≤ fuel by omega)
      have later :=
        others.scanElements_chars rest
          (show others.chars.length + 1 ≤ fuel by
            obtain ⟨first, more, shape, -⟩ := value.head_chars
            rw [shape, List.length_cons] at enough
            omega)
      simp only [Elements.chars, codes_append, codes_cons, List.append_assoc,
        List.cons_append, skipSpaces_value]
      have comma : (',').toNat = 44 := rfl
      simp only [comma, scanElements, scanned]
      by_cases converts : value.Converts <;>
        simp [Elements.Converts, converts, later,
          skipSpaces_delimiter behind (.inl rfl)
            (codes others.chars ++ 93 :: rest)]

/-- The members of an object are read up to behind its brace. -/
theorem Members.scanMembers_chars
    (members : Members)
    (rest : Text)
    {fuel : Nat}
    (enough : members.chars.length + 1 ≤ fuel) :
    scanMembers python fuel
        (skipSpaces (codes members.chars ++ 125 :: rest)) =
      if members.Converts then some rest else none := by
  obtain ⟨fuel, rfl⟩ : ∃ fewer, fuel = fewer + 1 :=
    Nat.exists_eq_add_one_of_ne_zero (by omega)
  have colon : (':').toNat = 58 := rfl
  have comma : (',').toNat = 44 := rfl
  match members with
  | .last before name behindName beforeValue value behind =>
      simp only [Members.chars, List.length_append] at enough
      have scanned :=
        value.scanValue_chars
          (valueEnds_spaces behind (.inr (.inr rfl)) rest)
          (show value.chars.length ≤ fuel by omega)
      simp only [Members.chars, nameChars, codes_append, codes_cons,
        List.append_assoc, List.cons_append, skipSpaces_name, colon,
        scanMembers, scanUnits_content, Option.bind_eq_bind,
        Option.bind_some, skipSpaces_delimiter behindName
          (.inr (.inr (.inr rfl))), skipSpaces_value, scanned]
      by_cases converts : value.Converts <;>
        simp [Members.Converts, converts,
          skipSpaces_delimiter behind (.inr (.inr (.inl rfl))) rest]
  | .more before name behindName beforeValue value behind others =>
      simp only [Members.chars, List.length_append, List.length_cons]
        at enough
      have scanned :=
        value.scanValue_chars
          (valueEnds_spaces behind (.inl rfl)
            (codes others.chars ++ 125 :: rest))
          (show value.chars.length ≤ fuel by omega)
      have later :=
        others.scanMembers_chars rest
          (show others.chars.length + 1 ≤ fuel by
            obtain ⟨first, more, shape, -⟩ := value.head_chars
            rw [shape, List.length_cons] at enough
            omega)
      simp only [Members.chars, nameChars, codes_append, codes_cons,
        List.append_assoc, List.cons_append, skipSpaces_name, colon, comma,
        scanMembers, scanUnits_content, Option.bind_eq_bind,
        Option.bind_some, skipSpaces_delimiter behindName
          (.inr (.inr (.inr rfl))), skipSpaces_value, scanned]
      by_cases converts : value.Converts <;>
        simp [Members.Converts, converts, later,
          skipSpaces_delimiter behind (.inl rfl)
            (codes others.chars ++ 125 :: rest)]

end

end Scanning

/-! ## Bytes -/

/-- Characters that are no control characters but whitespace. -/
def AllPrinted (chars : List Char) : Prop :=
  ∀ character ∈ chars, 9 ≤ character.toNat

namespace AllPrinted

theorem nil : AllPrinted [] := by
  simp [AllPrinted]

theorem append
    {front rest : List Char}
    (printed : AllPrinted front)
    (restPrinted : AllPrinted rest) :
    AllPrinted (front ++ rest) := by
  intro character member
  rcases List.mem_append.mp member with inFront | inRest
  · exact printed character inFront
  · exact restPrinted character inRest

theorem cons
    {first : Char}
    {rest : List Char}
    (isPrinted : 9 ≤ first.toNat)
    (restPrinted : AllPrinted rest) :
    AllPrinted (first :: rest) := by
  intro character member
  rcases List.mem_cons.mp member with rfl | inRest
  · exact isPrinted
  · exact restPrinted character inRest

theorem spaces (blanks : Spaces) : AllPrinted blanks.chars := by
  intro character member
  obtain ⟨blank, -, rfl⟩ := List.mem_map.mp member
  cases blank <;> decide

theorem string (value : JsonString) : AllPrinted value.chars := by
  have digit (hex : HexDigit) : 9 ≤ hex.char.toNat := by
    obtain ⟨value, upper⟩ := hex
    revert value upper
    decide
  have letter (escape : ShortEscape) :
      ∀ character ∈ (JsonUnit.short escape).chars, 9 ≤ character.toNat := by
    cases escape <;> simp [JsonUnit.chars, ShortEscape.letter]
  have content : AllPrinted value.content := by
    intro character member
    obtain ⟨unit, -, inUnit⟩ := List.mem_flatMap.mp member
    cases unit with
    | plain plain =>
        rw [List.mem_singleton.mp inUnit]
        exact Nat.le_trans (by decide) plain.notControl
    | short escape => exact letter escape character inUnit
    | unicode first second third fourth =>
        simp only [JsonUnit.chars, List.mem_cons, List.not_mem_nil,
          or_false] at inUnit
        rcases inUnit with rfl | rfl | rfl | rfl | rfl | rfl
        · decide
        · decide
        · exact digit first
        · exact digit second
        · exact digit third
        · exact digit fourth
  exact cons (by decide) (content.append (cons (by decide) nil))

theorem number (value : JsonNumber) : AllPrinted value.chars := by
  refine value.forall_chars (fun digit => ?_) (by simp)
  have isDigit := isDigitCode_digitChar digit
  simp only [isDigitCode, Bool.and_eq_true, decide_eq_true_eq] at isDigit
  omega

theorem scalar (leaf : Scalar) : AllPrinted leaf.chars := by
  cases leaf with
  | word value =>
      cases value <;>
        simp [AllPrinted, Scalar.chars, JsonWord.chars]
  | number value => exact number value
  | string value => exact string value

theorem name
    (value : JsonString)
    (behindName beforeValue : Spaces) :
    AllPrinted (nameChars value behindName beforeValue) :=
  (string value).append ((spaces behindName).append
    (cons (by decide) (spaces beforeValue)))

end AllPrinted

mutual

theorem Json.allPrinted (value : Json) : AllPrinted value.chars := by
  match value with
  | .scalar leaf =>
      simpa only [Json.chars] using AllPrinted.scalar leaf
  | .emptyArray spaces | .emptyObject spaces =>
      simp only [Json.chars]
      exact .cons (by decide)
        ((AllPrinted.spaces spaces).append (.cons (by decide) .nil))
  | .array elements =>
      simp only [Json.chars]
      exact .cons (by decide)
        (elements.allPrinted.append (.cons (by decide) .nil))
  | .object members =>
      simp only [Json.chars]
      exact .cons (by decide)
        (members.allPrinted.append (.cons (by decide) .nil))

theorem Elements.allPrinted (elements : Elements) :
    AllPrinted elements.chars := by
  match elements with
  | .last before value behind =>
      simp only [Elements.chars]
      exact (AllPrinted.spaces before).append
        (value.allPrinted.append (AllPrinted.spaces behind))
  | .more before value behind others =>
      simp only [Elements.chars]
      exact (AllPrinted.spaces before).append
        (value.allPrinted.append ((AllPrinted.spaces behind).append
          (.cons (by decide) others.allPrinted)))

theorem Members.allPrinted (members : Members) :
    AllPrinted members.chars := by
  match members with
  | .last before name behindName beforeValue value behind =>
      simp only [Members.chars]
      exact (AllPrinted.spaces before).append
        ((AllPrinted.name name behindName beforeValue).append
          (value.allPrinted.append (AllPrinted.spaces behind)))
  | .more before name behindName beforeValue value behind others =>
      simp only [Members.chars]
      exact (AllPrinted.spaces before).append
        ((AllPrinted.name name behindName beforeValue).append
          (value.allPrinted.append ((AllPrinted.spaces behind).append
            (.cons (by decide) others.allPrinted))))

end

/-- The bytes of printed characters have no zero among them. -/
theorem AllPrinted.bytes
    {chars : List Char}
    (printed : AllPrinted chars) :
    ∀ byte ∈ encodeUtf8 chars, byte ≠ 0 := by
  intro byte member isZero
  obtain ⟨character, inChars, inBytes⟩ := List.mem_flatMap.mp member
  have isPrinted := printed character inChars
  by_cases isAscii : character.toNat < 128
  · rw [utf8EncodeChar_of_ascii isAscii, List.mem_singleton] at inBytes
    have same := congrArg UInt8.toNat (inBytes.symm.trans isZero)
    rw [UInt8.toNat_ofNat', Nat.mod_eq_of_lt (by omega)] at same
    simp at same
    omega
  · have large :=
      notAscii_of_utf8EncodeChar (by omega : 128 ≤ character.toNat) byte
        inBytes
    rw [isZero] at large
    simp at large

/-- Bytes without zeros that begin with ASCII are taken for UTF-8. -/
theorem detectEncoding_eq_utf8
    {first : UInt8}
    {rest : Bytes}
    (isAscii : first.toNat < 128)
    (noZero : ∀ byte ∈ first :: rest, byte ≠ 0) :
    detectEncoding (first :: rest) = .utf8 := by
  have firstNonzero := noZero first (by simp)
  have isNot
      {other : UInt8}
      (large : 128 ≤ other.toNat) :
      ¬ other = first := by
    rintro rfl
    omega
  have noMark :
      ∀ mark ∈ ([[0, 0, 0xFE, 0xFF], [0xFF, 0xFE, 0, 0], [0xFE, 0xFF],
          [0xFF, 0xFE], [0xEF, 0xBB, 0xBF]] : List Bytes),
        mark.isPrefixOf (first :: rest) = false := by
    intro mark member
    simp only [List.mem_cons, List.not_mem_nil, or_false] at member
    rcases member with rfl | rfl | rfl | rfl | rfl <;>
      simp [List.isPrefixOf, isNot, Ne.symm firstNonzero]
  simp only [List.forall_mem_cons] at noMark
  obtain ⟨utf32Be, utf32Le, utf16Be, utf16Le, utf8Sig, -⟩ := noMark
  have zeroless :
      first ≠ 0 ∧ ∀ second third, rest = second :: third → second ≠ 0 := by
    refine ⟨firstNonzero, ?_⟩
    rintro second third rfl
    exact noZero second (by simp)
  simp only [detectEncoding, utf32Be, utf32Le, utf16Be, utf16Le, utf8Sig,
    Bool.false_eq_true, or_self, if_false]
  match rest with
  | [] => rfl
  | [second] => simp [firstNonzero, zeroless.2 second [] rfl]
  | [second, third] => rfl
  | second :: third :: fourth :: more =>
      simp [firstNonzero, zeroless.2 second _ rfl]

/-- The bytes of a document are decoded to its characters. -/
theorem JsonDocument.decode_data
    (python : PythonLibrary)
    (document : JsonDocument) :
    python.decode document.data = some (codes document.chars) := by
  have printed : AllPrinted document.chars :=
    (AllPrinted.spaces document.before).append
      (document.value.allPrinted.append (AllPrinted.spaces document.behind))
  obtain ⟨first, more, shape, isAscii⟩ :
      ∃ first more,
        document.data = first :: more ∧ first.toNat < 128 := by
    have ofChars
        {character : Char}
        {others : List Char}
        (isChars : document.chars = character :: others)
        (small : character.toNat < 128) :
        ∃ first more,
          document.data = first :: more ∧ first.toNat < 128 := by
      refine ⟨UInt8.ofNat character.toNat, encodeUtf8 others, ?_, ?_⟩
      · rw [JsonDocument.data, isChars, encodeUtf8_cons,
          utf8EncodeChar_of_ascii small]
        rfl
      · rw [UInt8.toNat_ofNat', Nat.mod_eq_of_lt (by omega)]
        exact small
    obtain ⟨character, others, isValue, starts⟩ := document.value.head_chars
    cases isBefore : document.before with
    | nil =>
        have isChars :
            document.chars = character :: (others ++ document.behind.chars) := by
          simp [JsonDocument.chars, isBefore, Spaces.chars, isValue]
        refine ofChars isChars ?_
        rw [startsValue_iff] at starts
        omega
    | cons blank blanks =>
        have isChars :
            document.chars =
              blank.char :: (Spaces.chars blanks ++
                (document.value.chars ++ document.behind.chars)) := by
          simp [JsonDocument.chars, isBefore, Spaces.chars]
        refine ofChars isChars ?_
        cases blank <;> decide
  have isUtf8 : detectEncoding document.data = .utf8 := by
    rw [shape]
    refine detectEncoding_eq_utf8 isAscii ?_
    rw [← shape]
    exact printed.bytes
  rw [PythonLibrary.decode, isUtf8]
  exact decodeUtf8From_encodeUtf8 true (length_le_encodeUtf8 _)

/-- The decoder reads a document as the value it spells, if its integers
convert. -/
theorem loads_document
    (python : PythonLibrary)
    (document : JsonDocument) :
    loads python document.data =
      if document.value.Converts then some (document.value.decoded python)
      else none := by
  have decoded := document.decode_data python
  have skipped :
      skipSpaces (codes document.chars) =
        codes document.value.chars ++ codes document.behind.chars := by
    simp only [JsonDocument.chars, codes_append, skipSpaces_value]
  have ends : ValueEnds (codes document.behind.chars) := by
    intro code isHead
    exact .inl (isJsonSpace_spaces document.behind code
      (List.mem_of_mem_head? isHead))
  have enough :
      document.value.chars.length ≤ (codes document.chars).length + 1 := by
    simp only [JsonDocument.chars, length_codes, List.length_append]
    omega
  have scanned :
      scanValue python ((codes document.chars).length + 1)
          (codes document.value.chars ++ codes document.behind.chars) =
        if document.value.Converts then
          some (document.value.decoded python, codes document.behind.chars)
        else none :=
    document.value.scanValue_chars ends enough
  have nothing : skipSpaces (codes document.behind.chars) = [] := by
    rw [skipSpaces, List.dropWhile_eq_nil_iff]
    exact isJsonSpace_spaces document.behind
  simp only [loads, decoded, Option.bind_eq_bind, Option.bind_some, skipped,
    scanned]
  by_cases converts : document.value.Converts <;> simp [converts, nothing]

end PacketAudit
