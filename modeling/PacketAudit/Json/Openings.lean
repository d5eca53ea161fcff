import PacketAudit.Json.Matching

namespace PacketAudit

/-!
# Names and mistaken names

Behind the name of a member with a scalar value the pattern matches that value.
Behind a quote that it takes for the end of a name it matches what the string
shows there.
-/

/-! ## Whitespace and colons -/

theorem isSpaceByte_spaces (spaces : Spaces) :
    ∀ byte ∈ encodeUtf8 spaces.chars, isSpaceByte byte := by
  have ofBlank (blank : Space) :
      ∀ byte ∈ String.utf8EncodeChar blank.char, isSpaceByte byte := by
    intro byte member
    rw [utf8EncodeChar_of_ascii (by cases blank <;> decide),
      List.mem_singleton] at member
    rw [member]
    cases blank <;> rfl
  intro byte member
  obtain ⟨character, inChars, inBytes⟩ := List.mem_flatMap.mp member
  obtain ⟨blank, -, rfl⟩ := List.mem_map.mp inChars
  exact ofBlank blank byte inBytes

theorem drop_takeWhile_length
    {α : Type}
    (test : α → Bool)
    (data : List α) :
    data.drop (data.takeWhile test).length = data.dropWhile test := by
  conv_lhs =>
    rw [← List.takeWhile_append_dropWhile (p := test) (l := data)]
  exact List.drop_left' (by rw [List.takeWhile_append_dropWhile])

theorem dropWhile_append_ends
    {α : Type}
    {test : α → Bool}
    {front rest : List α}
    (passes : ∀ element ∈ front, test element)
    (ends : ∀ element ∈ rest.head?, test element = false) :
    (front ++ rest).dropWhile test = rest := by
  rw [← drop_takeWhile_length, takeWhile_append_ends passes ends,
    List.drop_left]

/-- The pattern behind a name, in terms of what it skips. -/
theorem matchValue?_eq
    {before behind rest : Bytes}
    (isBefore : ∀ byte ∈ before, isSpaceByte byte)
    (isBehind : ∀ byte ∈ behind, isSpaceByte byte)
    (noSpace : ∀ byte ∈ rest.head?, isSpaceByte byte = false) :
    matchValue? (before ++ 58 :: (behind ++ rest)) =
      (matchScalar? rest).map fun length =>
        (before.length + 1 + behind.length, length) := by
  have front :
      (before ++ 58 :: (behind ++ rest)).takeWhile isSpaceByte = before :=
    takeWhile_append_ends isBefore (by simp [isSpaceByte])
  have back : (behind ++ rest).takeWhile isSpaceByte = behind :=
    takeWhile_append_ends isBehind noSpace
  simp only [matchValue?, front, List.drop_left, back]

/-- Without a colon nothing is matched. -/
theorem matchValue?_noColon
    {before rest : Bytes}
    (isBefore : ∀ byte ∈ before, isSpaceByte byte)
    (noSpace : ∀ byte ∈ rest.head?, isSpaceByte byte = false)
    (noColon : ∀ byte ∈ rest.head?, byte ≠ 58) :
    matchValue? (before ++ rest) = none := by
  have front : (before ++ rest).takeWhile isSpaceByte = before :=
    takeWhile_append_ends isBefore noSpace
  simp only [matchValue?, front, List.drop_left]
  split
  case h_1 behind => exact absurd rfl (noColon 58 (by simp))
  case h_2 => rfl

/-- The first byte of a value is no whitespace. -/
theorem Scalar.head_bytes (scalar : Scalar) :
    ∃ first more,
      encodeUtf8 scalar.chars = first :: more ∧
        isSpaceByte first = false ∧ first.toNat < 128 := by
  obtain ⟨first, more, shape, starts⟩ := scalar.head_chars
  rw [startsValue_iff] at starts
  have isAscii : first.toNat < 128 := by omega
  refine ⟨UInt8.ofNat first.toNat, encodeUtf8 more, ?_, ?_, ?_⟩
  · rw [shape, encodeUtf8_ascii isAscii]
  · have back : (UInt8.ofNat first.toNat).toNat = first.toNat := by
      rw [UInt8.toNat_ofNat', Nat.mod_eq_of_lt (by omega)]
    simp only [isSpaceByte, Bool.or_eq_false_iff, decide_eq_false_iff_not,
      Bool.and_eq_false_iff, ← UInt8.toNat_inj, UInt8.le_iff_toNat_le, back]
    have space : (32 : UInt8).toNat = 32 := rfl
    have low : (9 : UInt8).toNat = 9 := rfl
    have high : (13 : UInt8).toNat = 13 := rfl
    omega
  · rw [UInt8.toNat_ofNat', Nat.mod_eq_of_lt (by omega)]
    exact isAscii

/-- What stands between the closing quote of a name and its value. -/
def colonBytes (behindName beforeValue : Spaces) : Bytes :=
  encodeUtf8 behindName.chars ++ 58 :: encodeUtf8 beforeValue.chars

theorem encodeUtf8_nameChars
    (name : JsonString)
    (behindName beforeValue : Spaces) :
    encodeUtf8 (nameChars name behindName beforeValue) =
      34 :: (name.bytes ++ 34 :: colonBytes behindName beforeValue) := by
  rw [nameChars, encodeUtf8_append, encodeUtf8_append,
    encodeUtf8_ascii (by decide), name.encodeUtf8_chars, colonBytes]
  simp

theorem length_nameBytes
    (name : JsonString)
    (behindName beforeValue : Spaces) :
    byteSize (nameChars name behindName beforeValue) =
      name.bytes.length + 2 + (colonBytes behindName beforeValue).length := by
  rw [byteSize, encodeUtf8_nameChars]
  simp only [List.length_cons, List.length_append]
  omega

/-- Behind a name its scalar value is matched. -/
theorem matchValue?_member
    (behindName beforeValue : Spaces)
    {value : Scalar}
    {rest : Bytes}
    (ends : NumberEnds (rest.map UInt8.toNat)) :
    matchValue?
        (colonBytes behindName beforeValue ++
          (encodeUtf8 value.chars ++ rest)) =
      some ((colonBytes behindName beforeValue).length,
        (encodeUtf8 value.chars).length) := by
  obtain ⟨first, more, shape, noSpace, -⟩ := value.head_bytes
  rw [colonBytes, List.append_assoc, List.cons_append,
    matchValue?_eq (isSpaceByte_spaces behindName)
      (isSpaceByte_spaces beforeValue) (by rw [shape]; simpa using noSpace),
    matchScalar?_chars ends]
  simp [Nat.add_assoc, Nat.add_comm 1]

/-- The match of a member with a scalar value. -/
theorem jsonMatchAt_member
    (name : JsonString)
    (behindName beforeValue : Spaces)
    {value : Scalar}
    {rest : Bytes}
    (ends : NumberEnds (rest.map UInt8.toNat)) :
    jsonMatchAt
        (34 :: (name.bytes ++ 34 :: (colonBytes behindName beforeValue ++
          (encodeUtf8 value.chars ++ rest)))) =
      some {
        name := encodeUtf8 name.chars
        valueStart := byteSize (nameChars name behindName beforeValue)
        value := encodeUtf8 value.chars
      } := by
  rw [jsonMatchAt_content, matchValue?_member _ _ ends, Option.map_some,
    List.drop_left, List.take_left, name.encodeUtf8_chars, length_nameBytes]

/-! ## What a string shows -/

/-- The first byte of a string's content is no quote. -/
theorem JsonString.head_bytes
    (string : JsonString)
    {first : UInt8}
    {more : Bytes}
    (shape : string.bytes = first :: more) :
    first ≠ 34 := by
  induction string with
  | nil => cases shape
  | cons unit string inductionHypothesis =>
      have unitBytes := unit.unitBytes
      rw [JsonString.bytes_cons] at shape
      generalize encodeUtf8 unit.chars = bytes at unitBytes shape
      cases unitBytes with
      | plain isPlain =>
          cases bytes with
          | nil => exact inductionHypothesis shape
          | cons byte bytes =>
              simp only [List.cons_append, List.cons.injEq] at shape
              rw [← shape.1]
              rintro rfl
              exact absurd (isPlain 34 (by simp)) (by decide)
      | escape noNewline isPlain =>
          simp only [List.cons_append, List.cons.injEq] at shape
          rw [← shape.1]
          decide

/-- ASCII bytes that are no backslashes are characters of their own. -/
theorem JsonString.split
    {front rest : Bytes}
    (isAscii : ∀ byte ∈ front, byte.toNat < 128 ∧ byte ≠ 92)
    {string : JsonString}
    (shape : string.bytes = front ++ rest) :
    ∃ before behind : JsonString,
      string = before ++ behind ∧ before.bytes = front ∧
        behind.bytes = rest := by
  induction front generalizing string with
  | nil => exact ⟨[], string, rfl, rfl, shape⟩
  | cons byte front inductionHypothesis =>
      rw [List.forall_mem_cons] at isAscii
      obtain ⟨⟨small, noBackslash⟩, others⟩ := isAscii
      cases string with
      | nil => cases shape
      | cons unit string =>
          have whole := shape
          rw [JsonString.bytes_cons] at shape
          have backslash : encodeUtf8 unit.chars ++ JsonString.bytes string =
              92 :: (encodeUtf8 unit.chars ++ JsonString.bytes string).tail →
              False := by
            intro isEscape
            rw [isEscape, List.cons_append, List.cons.injEq] at shape
            exact noBackslash shape.1.symm
          cases unit with
          | plain plain =>
              by_cases isSmall : plain.character.toNat < 128
              · have isOne :
                    encodeUtf8 (JsonUnit.plain plain).chars =
                      [UInt8.ofNat plain.character.toNat] := by
                  rw [JsonUnit.chars, encodeUtf8_ascii isSmall]
                  rfl
                rw [isOne, List.cons_append, List.nil_append,
                  List.cons_append, List.cons.injEq] at shape
                obtain ⟨before, behind, isString, isFront, isRest⟩ :=
                  inductionHypothesis others shape.2
                refine ⟨.plain plain :: before, behind, ?_, ?_, isRest⟩
                · rw [isString]
                  rfl
                · rw [JsonString.bytes_cons, isOne, isFront, ← shape.1]
                  rfl
              · exfalso
                have large :=
                  notAscii_of_utf8EncodeChar
                    (by omega : 128 ≤ plain.character.toNat)
                have isBytes :
                    encodeUtf8 (JsonUnit.plain plain).chars =
                      String.utf8EncodeChar plain.character := by
                  simp [JsonUnit.chars, encodeUtf8]
                have nonempty := plain.character.utf8Size_pos
                rw [← String.length_utf8EncodeChar] at nonempty
                rw [isBytes] at shape
                cases isChar : String.utf8EncodeChar plain.character with
                | nil => simp [isChar] at nonempty
                | cons first more =>
                    rw [isChar, List.cons_append, List.cons_append,
                      List.cons.injEq] at shape
                    have isLarge := large first (by rw [isChar]; simp)
                    rw [shape.1] at isLarge
                    omega
          | short escape =>
              refine absurd ?_ backslash
              rw [JsonUnit.chars, encodeUtf8_ascii (by decide)]
              rfl
          | unicode first second third fourth =>
              refine absurd ?_ backslash
              rw [JsonUnit.chars, encodeUtf8_ascii (by decide)]
              rfl

/-- A string with a colon in front, and what it shows behind the colon. -/
structure ShowsValue
    (string : JsonString)
    (before behind : Bytes)
    (value : JsonString) : Prop where
  shape : string.bytes = before ++ 58 :: (behind ++ value.bytes)
  before : ∀ byte ∈ before, isSpaceByte byte
  behind : ∀ byte ∈ behind, isSpaceByte byte
  noSpace : ∀ byte ∈ value.bytes.head?, isSpaceByte byte = false
  opening : opening string.bytes = openingValue value.bytes

theorem isSpaceByte_ascii
    {byte : UInt8}
    (isSpace : isSpaceByte byte) :
    byte.toNat < 128 ∧ byte ≠ 92 ∧ byte ≠ 34 := by
  simp only [isSpaceByte, Bool.or_eq_true, decide_eq_true_eq,
    Bool.and_eq_true, UInt8.le_iff_toNat_le, ← UInt8.toNat_inj, ne_eq]
    at isSpace ⊢
  have space : (32 : UInt8).toNat = 32 := rfl
  have low : (9 : UInt8).toNat = 9 := rfl
  have high : (13 : UInt8).toNat = 13 := rfl
  have quote : (34 : UInt8).toNat = 34 := rfl
  have backslash : (92 : UInt8).toNat = 92 := rfl
  omega

theorem noSpace_dropWhile (data : Bytes) :
    ∀ byte ∈ (data.dropWhile isSpaceByte).head?,
      isSpaceByte byte = false := by
  intro byte isHead
  have failed := List.head?_dropWhile_not isSpaceByte data
  rw [Option.mem_def.mp isHead] at failed
  simpa using failed

theorem takeWhile_isSpaceByte (data : Bytes) :
    ∀ byte ∈ data.takeWhile isSpaceByte, isSpaceByte byte :=
  fun _ member => List.mem_takeWhile_imp member

/-- A string shows nothing, or a value behind a colon. -/
theorem opening_cases (string : JsonString) :
    (opening string.bytes = .other ∧
        ∀ after, matchValue? (string.bytes ++ 34 :: after) = none) ∨
      ∃ before behind value, ShowsValue string before behind value := by
  have split :
      string.bytes.takeWhile isSpaceByte ++
          string.bytes.dropWhile isSpaceByte =
        string.bytes :=
    List.takeWhile_append_dropWhile
  have noSpace := noSpace_dropWhile string.bytes
  have isBefore := takeWhile_isSpaceByte string.bytes
  generalize string.bytes.takeWhile isSpaceByte = before at split isBefore
  cases rest : string.bytes.dropWhile isSpaceByte with
  | nil =>
      left
      refine ⟨by rw [opening, rest], fun after => ?_⟩
      rw [rest, List.append_nil] at split
      rw [← split]
      exact matchValue?_noColon isBefore (by simp [isSpaceByte]) (by simp)
  | cons first more =>
      rw [rest] at split noSpace
      by_cases isColon : first = 58
      · right
        subst isColon
        have shape :
            string.bytes =
              (before ++ 58 :: more.takeWhile isSpaceByte) ++
                more.dropWhile isSpaceByte := by
          rw [List.append_assoc, List.cons_append,
            List.takeWhile_append_dropWhile]
          exact split.symm
        have isAscii :
            ∀ byte ∈ before ++ 58 :: more.takeWhile isSpaceByte,
              byte.toNat < 128 ∧ byte ≠ 92 := by
          intro byte member
          rcases List.mem_append.mp member with inBefore | inBehind
          · exact ⟨(isSpaceByte_ascii (isBefore byte inBefore)).1,
              (isSpaceByte_ascii (isBefore byte inBefore)).2.1⟩
          rcases List.mem_cons.mp inBehind with rfl | inSpaces
          · decide
          · have isSpace := List.mem_takeWhile_imp inSpaces
            exact ⟨(isSpaceByte_ascii isSpace).1,
              (isSpaceByte_ascii isSpace).2.1⟩
        obtain ⟨-, value, -, -, isValue⟩ := JsonString.split isAscii shape
        refine ⟨before, more.takeWhile isSpaceByte, value, {
          shape := ?_
          before := isBefore
          behind := takeWhile_isSpaceByte more
          noSpace := ?_
          opening := ?_
        }⟩
        · rw [shape, isValue, List.append_assoc, List.cons_append]
        · rw [isValue]
          exact noSpace_dropWhile more
        · rw [opening, rest, isValue]
          rfl
      · left
        constructor
        · rw [opening, rest]
          split
          case h_1 tail same =>
            simp only [List.cons.injEq] at same
            exact absurd same.1 isColon
          case h_2 => rfl
        · intro after
          rw [← split, List.append_assoc]
          refine matchValue?_noColon isBefore ?_ ?_
          · intro byte isHead
            exact noSpace byte isHead
          · intro byte isHead
            simp only [List.cons_append, List.head?_cons,
              Option.mem_some] at isHead
            rw [← isHead]
            exact isColon

/-- A word without a quote in it ends before one. -/
theorem isPrefixOf_append_quote
    {word : Bytes}
    (noQuote : 34 ∉ word)
    (value after : Bytes) :
    word.isPrefixOf (value ++ 34 :: after) = word.isPrefixOf value := by
  induction word generalizing value with
  | nil => simp
  | cons letter word inductionHypothesis =>
      rw [List.mem_cons, not_or] at noQuote
      cases value with
      | nil =>
          have differs : (letter == 34) = false := by
            simpa using Ne.symm noQuote.1
          rw [List.nil_append, List.isPrefixOf_cons_cons, differs]
          rfl
      | cons byte value =>
          simp only [List.cons_append, List.isPrefixOf_cons_cons,
            inductionHypothesis noQuote.2]

theorem matchWord?_append_quote (value after : Bytes) :
    matchWord? (value ++ 34 :: after) = matchWord? value := by
  have words :
      ∀ word ∈ ["true", "false", "null"].map ascii, (34 : UInt8) ∉ word := by
    decide
  have same :
      ∀ word ∈ ["true", "false", "null"].map ascii,
        (if word.isPrefixOf (value ++ 34 :: after) then some word.length
          else none) =
        if word.isPrefixOf value then some word.length else none := by
    intro word member
    rw [isPrefixOf_append_quote (words word member)]
  simp only [List.map_cons, List.map_nil, List.forall_mem_cons] at same
  simp only [matchWord?, List.map_cons, List.map_nil, List.findSome?_cons,
    List.findSome?_nil, same.1, same.2.1, same.2.2.1]

/-- Whether a number is matched shows before a quote. -/
theorem isSome_matchNumber?
    {value : Bytes}
    (nonempty : value ≠ [])
    (after : Bytes) :
    (matchNumber? (value ++ 34 :: after)).isSome =
        (matchNumber? value).isSome ∧
      ((matchNumber? value).isSome →
        ∃ first more,
          value = first :: more ∧
            (first.toNat = 45 ∨ isDigitCode first.toNat)) := by
  obtain ⟨first, more, rfl⟩ := List.exists_cons_of_ne_nil nonempty
  have isSome_iff
      (data : Bytes) :
      (matchNumber? (first :: data)).isSome =
        decide ((((first.toNat :: data.map UInt8.toNat).drop
          (if first.toNat = 45 then 1 else 0)).takeWhile
            isDigitCode).length ≠ 0) := by
    simp only [matchNumber?, List.map_cons, List.head?_cons,
      Option.some.injEq]
    generalize (((first.toNat :: data.map UInt8.toNat).drop
      (if first.toNat = 45 then 1 else 0)).takeWhile
        isDigitCode).length = digits
    by_cases noDigits : digits = 0
    · simp [noDigits]
    · simp [noDigits]
  have quote : (34 : UInt8).toNat = 34 := rfl
  have noDigit : isDigitCode 34 = false := rfl
  constructor
  · rw [List.cons_append, isSome_iff, isSome_iff, List.map_append,
      List.map_cons, quote]
    by_cases minus : first.toNat = 45
    · simp only [minus, if_true, List.drop_succ_cons, List.drop_zero]
      rw [List.takeWhile_append]
      split
      case isTrue allDigits =>
        rw [List.takeWhile_cons_of_neg (by simp [noDigit]), List.append_nil,
          allDigits]
      case isFalse => rfl
    · simp only [minus, if_false, List.drop_zero, List.takeWhile_cons]
      cases isDigitCode first.toNat <;> simp
  · intro isNumber
    refine ⟨first, more, rfl, ?_⟩
    rw [isSome_iff] at isNumber
    by_contra neither
    rw [not_or] at neither
    simp [neither.1, neither.2] at isNumber

/--
What the pattern finds behind a quote that it takes for the end of a name, when
that quote opens a string.
-/
inductive Mistaken (string : JsonString) (after : Bytes) : Prop where
  | other
      (shows : opening string.bytes = .other)
      (noValue : matchValue? (string.bytes ++ 34 :: after) = none) :
      Mistaken string after
  | quote
      (shows : opening string.bytes = .quote)
      (isValue :
        matchValue? (string.bytes ++ 34 :: after) =
          (stringTail? after).map fun length =>
            (string.bytes.length, length + 1)) :
      Mistaken string after
  | number
      {start length : Nat}
      {first : UInt8}
      {more : Bytes}
      (shows : opening string.bytes = .number)
      (isValue :
        matchValue? (string.bytes ++ 34 :: after) = some (start, length))
      (inside : start < string.bytes.length)
      (begins : (string.bytes ++ 34 :: after).drop start = first :: more)
      (isNumber : first.toNat = 45 ∨ isDigitCode first.toNat) :
      Mistaken string after
  | word
      {front : Bytes}
      {before behind : JsonString}
      {word : JsonWord}
      (shows : opening string.bytes = .word behind.bytes)
      (isValue :
        matchValue? (string.bytes ++ 34 :: after) =
          some (front.length, (encodeUtf8 word.chars).length))
      (shape :
        string.bytes = front ++ (encodeUtf8 word.chars ++ behind.bytes))
      (split : string = before ++ behind) :
      Mistaken string after

theorem matchWord?_eq_some
    {data : Bytes}
    {length : Nat}
    (found : matchWord? data = some length) :
    ∃ word : JsonWord,
      (encodeUtf8 word.chars).length = length ∧
        data = encodeUtf8 word.chars ++ data.drop length := by
  obtain ⟨word, member, isWord⟩ := List.exists_of_findSome?_eq_some found
  have isJson :
      ∃ value : JsonWord, encodeUtf8 value.chars = word := by
    simp only [List.map_cons, List.map_nil, List.mem_cons, List.not_mem_nil,
      or_false] at member
    rcases member with rfl | rfl | rfl
    · exact ⟨.trueWord, by decide⟩
    · exact ⟨.falseWord, by decide⟩
    · exact ⟨.nullWord, by decide⟩
  obtain ⟨value, rfl⟩ := isJson
  split at isWord
  case isTrue isPrefix =>
    obtain ⟨rest, rfl⟩ := List.isPrefixOf_iff_prefix.mp isPrefix
    cases isWord
    exact ⟨value, rfl, by rw [List.drop_left]⟩
  case isFalse => cases isWord

theorem matchScalar?_noQuote
    {first : UInt8}
    (noQuote : first ≠ 34)
    (rest : Bytes) :
    matchScalar? (first :: rest) =
      (matchNumber? (first :: rest)).or (matchWord? (first :: rest)) := by
  unfold matchScalar?
  split
  case h_1 tail same =>
    simp only [List.cons.injEq] at same
    exact absurd same.1 noQuote
  case h_2 => rfl

theorem ShowsValue.matchValue?_eq
    {string value : JsonString}
    {before behind : Bytes}
    (shows : ShowsValue string before behind value)
    (after : Bytes) :
    matchValue? (string.bytes ++ 34 :: after) =
      (matchScalar? (value.bytes ++ 34 :: after)).map fun length =>
        (before.length + 1 + behind.length, length) := by
  rw [shows.shape, List.append_assoc, List.cons_append, List.append_assoc,
    PacketAudit.matchValue?_eq shows.before shows.behind]
  intro byte isHead
  cases content : value.bytes with
  | nil =>
      rw [content, List.nil_append, List.head?_cons, Option.mem_some] at isHead
      rw [← isHead]
      rfl
  | cons first more =>
      refine shows.noSpace byte ?_
      rw [content] at isHead ⊢
      exact isHead

/-- These are the ways a quote is mistaken. -/
theorem mistaken (string : JsonString) (after : Bytes) :
    Mistaken string after := by
  rcases opening_cases string with ⟨isOther, noValue⟩ |
    ⟨before, behind, value, shows⟩
  · exact .other isOther (noValue after)
  have isValue := shows.matchValue?_eq after
  have isOpening := shows.opening
  have position :
      before.length + 1 + behind.length =
        (before ++ 58 :: behind).length := by
    simp [Nat.add_assoc, Nat.add_comm 1]
  have shape : string.bytes = (before ++ 58 :: behind) ++ value.bytes := by
    rw [shows.shape, List.append_assoc, List.cons_append]
  cases content : value.bytes with
  | nil =>
      rw [openingValue, content] at isOpening
      refine .quote isOpening ?_
      have length :
          string.bytes.length = before.length + 1 + behind.length := by
        rw [shape, content, List.append_nil, position]
      rw [isValue, content, length, List.nil_append, matchScalar?,
        Option.map_map]
      rfl
  | cons first more =>
      have noQuote := value.head_bytes content
      have nonempty : value.bytes ≠ [] := by
        rw [content]
        exact List.cons_ne_nil first more
      obtain ⟨sameNumber, starts⟩ := isSome_matchNumber? nonempty after
      have scalar :
          matchScalar? (value.bytes ++ 34 :: after) =
            (matchNumber? (value.bytes ++ 34 :: after)).or
              (matchWord? value.bytes) := by
        rw [← matchWord?_append_quote value.bytes after, content,
          List.cons_append]
        exact matchScalar?_noQuote noQuote _
      have notEmpty : value.bytes.isEmpty = false := by
        rw [content]
        rfl
      rw [openingValue, notEmpty] at isOpening
      simp only [Bool.false_eq_true, if_false] at isOpening
      cases isNumber : (matchNumber? value.bytes).isSome with
      | true =>
          rw [isNumber] at isOpening sameNumber
          obtain ⟨length, isLength⟩ := Option.isSome_iff_exists.mp sameNumber
          obtain ⟨digit, digits, isDigits, isDigit⟩ := starts isNumber
          rw [scalar, isLength, Option.some_or, Option.map_some] at isValue
          simp only [if_true] at isOpening
          have inside :
              before.length + 1 + behind.length < string.bytes.length := by
            rw [shape, List.length_append, ← position, content,
              List.length_cons]
            omega
          have begins :
              (string.bytes ++ 34 :: after).drop
                  (before.length + 1 + behind.length) =
                digit :: (digits ++ 34 :: after) := by
            rw [shape, List.append_assoc, position, List.drop_left, isDigits]
            rfl
          exact .number isOpening isValue inside begins isDigit
      | false =>
          rw [isNumber] at isOpening sameNumber
          rw [Option.isSome_eq_false_iff, Option.isNone_iff_eq_none]
            at sameNumber
          rw [scalar, sameNumber, Option.none_or] at isValue
          simp only [Bool.false_eq_true, if_false] at isOpening
          cases isWord : matchWord? value.bytes with
          | none =>
              rw [isWord] at isOpening isValue
              exact .other isOpening isValue
          | some length =>
              rw [isWord] at isOpening isValue
              obtain ⟨word, isLength, isFront⟩ := matchWord?_eq_some isWord
              simp only at isOpening
              have isAscii :
                  ∀ byte ∈ (before ++ 58 :: behind) ++ encodeUtf8 word.chars,
                    byte.toNat < 128 ∧ byte ≠ 92 := by
                have ofSpace {byte : UInt8} (isSpace : isSpaceByte byte) :
                    byte.toNat < 128 ∧ byte ≠ 92 :=
                  ⟨(isSpaceByte_ascii isSpace).1,
                    (isSpaceByte_ascii isSpace).2.1⟩
                intro byte member
                rcases List.mem_append.mp member with inFront | inWord
                · rcases List.mem_append.mp inFront with inBefore | inBehind
                  · exact ofSpace (shows.before byte inBefore)
                  rcases List.mem_cons.mp inBehind with rfl | inSpaces
                  · decide
                  · exact ofSpace (shows.behind byte inSpaces)
                · obtain ⟨small, isNot⟩ :=
                    (Neutral.word word).bytes byte inWord
                  refine ⟨small, ?_⟩
                  rintro rfl
                  exact isNot (by decide)
              have whole :
                  string.bytes =
                    ((before ++ 58 :: behind) ++ encodeUtf8 word.chars) ++
                      value.bytes.drop length := by
                rw [List.append_assoc, ← isFront]
                exact shape
              obtain ⟨front, later, split, -, isLater⟩ :=
                JsonString.split isAscii whole
              rw [← isLater] at isOpening
              rw [Option.map_some, position, ← isLength] at isValue
              refine .word isOpening isValue ?_ split
              rw [isLater, ← isFront]
              exact shape

end PacketAudit
