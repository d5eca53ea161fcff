import PacketAudit.Json.Syntax

namespace PacketAudit

/-!
# The decoder accepts every document

`loads` decodes the bytes of a document to its characters and reads the value
they spell.
-/

/-! ## Characters and bytes -/

/-- The code points of characters. -/
def codes (chars : List Char) : Text :=
  chars.map Char.toNat

@[simp] theorem codes_nil : codes [] = [] := rfl

@[simp] theorem codes_cons (first : Char) (chars : List Char) :
    codes (first :: chars) = first.toNat :: codes chars := rfl

@[simp] theorem codes_append (front rest : List Char) :
    codes (front ++ rest) = codes front ++ codes rest :=
  List.map_append

@[simp] theorem length_codes (chars : List Char) :
    (codes chars).length = chars.length :=
  List.length_map _

@[simp] theorem encodeUtf8_nil : encodeUtf8 [] = [] := rfl

theorem encodeUtf8_cons (first : Char) (chars : List Char) :
    encodeUtf8 (first :: chars) =
      String.utf8EncodeChar first ++ encodeUtf8 chars := rfl

@[simp] theorem encodeUtf8_append (front rest : List Char) :
    encodeUtf8 (front ++ rest) = encodeUtf8 front ++ encodeUtf8 rest :=
  List.flatMap_append

theorem length_le_encodeUtf8 (chars : List Char) :
    chars.length ≤ (encodeUtf8 chars).length := by
  induction chars with
  | nil => exact Nat.le_refl 0
  | cons first chars inductionHypothesis =>
      have positive := first.utf8Size_pos
      rw [encodeUtf8_cons, List.length_append, String.length_utf8EncodeChar,
        List.length_cons]
      omega

/-- An ASCII character is its own byte. -/
theorem utf8EncodeChar_of_ascii
    {character : Char}
    (isAscii : character.toNat < 128) :
    String.utf8EncodeChar character = [UInt8.ofNat character.toNat] := by
  have small : character.val.toNat ≤ 0x7F := Nat.le_of_lt_succ isAscii
  simp only [String.utf8EncodeChar, small, if_true]
  rfl

/-- The bytes of any other character are none of ASCII. -/
theorem notAscii_of_utf8EncodeChar
    {character : Char}
    (notAscii : 128 ≤ character.toNat) :
    ∀ byte ∈ String.utf8EncodeChar character, 128 ≤ byte.toNat := by
  have large : ¬ character.val.toNat ≤ 0x7F := Nat.not_le.mpr notAscii
  simp only [String.utf8EncodeChar, large, if_false]
  intro byte member
  split at member
  · simp only [List.mem_cons, List.not_mem_nil, or_false] at member
    rcases member with rfl | rfl <;> rw [UInt8.toNat_ofNat'] <;> omega
  split at member
  · simp only [List.mem_cons, List.not_mem_nil, or_false] at member
    rcases member with rfl | rfl | rfl <;> rw [UInt8.toNat_ofNat'] <;> omega
  · simp only [List.mem_cons, List.not_mem_nil, or_false] at member
    rcases member with rfl | rfl | rfl | rfl <;>
      rw [UInt8.toNat_ofNat'] <;> omega

/-- Decoding gives back the characters. -/
theorem decodeUtf8From_encodeUtf8
    (surrogatePass : Bool)
    {rounds : Nat}
    {chars : List Char}
    (enough : chars.length ≤ rounds) :
    decodeUtf8From surrogatePass rounds (encodeUtf8 chars) =
      some (codes chars) := by
  induction chars generalizing rounds with
  | nil =>
      cases rounds <;> rfl
  | cons character chars inductionHypothesis =>
      obtain ⟨rounds, rfl⟩ : ∃ fewer, rounds = fewer + 1 :=
        Nat.exists_eq_add_one_of_ne_zero
          (by rw [List.length_cons] at enough; omega)
      have decoded :
          (encodeUtf8 (character :: chars)).toByteArray.utf8DecodeChar? 0 =
            some character := by
        rw [encodeUtf8_cons, List.toByteArray_append]
        exact ByteArray.utf8DecodeChar?_utf8EncodeChar_append
      have behind :
          (encodeUtf8 (character :: chars)).drop character.utf8Size =
            encodeUtf8 chars := by
        rw [encodeUtf8_cons, ← String.length_utf8EncodeChar, List.drop_left]
      cases shape : encodeUtf8 (character :: chars) with
      | nil =>
          have positive := length_le_encodeUtf8 (character :: chars)
          rw [shape] at positive
          simp at positive
      | cons first rest =>
          rw [shape] at decoded behind
          have later : chars.length ≤ rounds := by
            rw [List.length_cons] at enough
            omega
          simp only [decodeUtf8From, decoded, behind,
            inductionHypothesis later, Option.map_some, codes_cons]

theorem decodeUtf8_encodeUtf8 (chars : List Char) :
    decodeUtf8 (encodeUtf8 chars) = some (codes chars) :=
  decodeUtf8From_encodeUtf8 false (length_le_encodeUtf8 chars)

/-! ## Strings -/

theorem hexCode?_char (digit : HexDigit) :
    hexCode? digit.char.toNat = some digit.value := by
  obtain ⟨value, upper⟩ := digit
  revert value upper
  decide

theorem scanUnits_plain
    {code : Nat}
    (notControl : 32 ≤ code)
    (notQuote : code ≠ 34)
    (notBackslash : code ≠ 92)
    (rest : Text) :
    scanUnits (code :: rest) =
      (scanUnits rest).map fun scanned =>
        (⟨code, false⟩ :: scanned.1, scanned.2) := by
  rw [scanUnits.eq_def]
  split
  case h_1 => simp_all
  case h_2 => simp_all
  case h_3 => simp_all
  case h_4 => simp_all
  case h_5 found behind _ _ _ _ same =>
    simp only [List.cons.injEq] at same
    obtain ⟨rfl, rfl⟩ := same
    rw [if_neg (by omega)]
    cases scanUnits rest <;> rfl
  case h_6 => simp_all

/-- A unit is scanned as its code unit. -/
theorem scanUnits_unit (unit : JsonUnit) (rest : Text) :
    scanUnits (codes unit.chars ++ rest) =
      (scanUnits rest).map fun scanned =>
        (unit.codeUnit :: scanned.1, scanned.2) := by
  cases unit with
  | plain character =>
      obtain ⟨character, notControl, notQuote, notBackslash⟩ := character
      refine scanUnits_plain notControl ?_ ?_ rest
      · exact fun same => notQuote (Char.toNat_inj.mp same)
      · exact fun same => notBackslash (Char.toNat_inj.mp same)
  | short escape =>
      cases escape <;>
        (cases found : scanUnits rest <;>
          simp [JsonUnit.chars, JsonUnit.codeUnit, ShortEscape.letter,
            ShortEscape.code, scanUnits, escapedCode?, found])
  | unicode first second third fourth =>
      have digits :
          hexUnit? first.char.toNat second.char.toNat third.char.toNat
              fourth.char.toNat =
            some ((((first.value : Nat) * 16 + second.value) * 16 +
              third.value) * 16 + fourth.value) := by
        simp [hexUnit?, hexCode?_char]
      cases found : scanUnits rest <;>
        simp [JsonUnit.chars, JsonUnit.codeUnit, scanUnits, digits, found]

/-- A string is scanned as its code units, up to the closing quote. -/
theorem scanUnits_content (string : JsonString) (rest : Text) :
    scanUnits (codes string.content ++ 34 :: rest) =
      some (string.map JsonUnit.codeUnit, rest) := by
  induction string with
  | nil => rfl
  | cons unit string inductionHypothesis =>
      have shape :
          codes (JsonString.content (unit :: string)) ++ 34 :: rest =
            codes unit.chars ++
              (codes (JsonString.content string) ++ 34 :: rest) := by
        simp [JsonString.content]
      rw [shape, scanUnits_unit, inductionHypothesis]
      rfl

/-! ## Numbers -/

/-- What may follow a number. -/
def NumberEnds (rest : Text) : Prop :=
  ∀ code ∈ rest.head?,
    isDigitCode code = false ∧ code ≠ 46 ∧ code ≠ 101 ∧ code ≠ 69

theorem takeWhile_append_ends
    {α : Type}
    {test : α → Bool}
    {front rest : List α}
    (passes : ∀ element ∈ front, test element)
    (ends : ∀ element ∈ rest.head?, test element = false) :
    (front ++ rest).takeWhile test = front := by
  rw [List.takeWhile_append_of_pos passes]
  cases rest with
  | nil => simp
  | cons next rest =>
      rw [List.takeWhile_cons, ends next (by simp)]
      simp

theorem isDigitCode_digitChar (digit : Fin 10) :
    isDigitCode (digitChar digit).toNat = true := by
  revert digit
  decide

theorem isDigitCode_digits
    (digits : List (Fin 10)) :
    ∀ code ∈ codes (digits.map digitChar), isDigitCode code := by
  intro code member
  simp only [codes, List.map_map, List.mem_map] at member
  obtain ⟨digit, -, rfl⟩ := member
  exact isDigitCode_digitChar digit

theorem fractionLength_chars
    {number : JsonNumber}
    {rest : Text}
    (ends : NumberEnds rest) :
    fractionLength
        (codes number.fractionChars ++
          (codes number.exponentChars ++ rest)) =
      number.fractionChars.length := by
  have noDigit :
      ∀ code ∈ (codes number.exponentChars ++ rest).head?,
        isDigitCode code = false ∧ code ≠ 46 := by
    cases isExponent : number.exponent with
    | none =>
        simp only [JsonNumber.exponentChars, isExponent]
        exact fun code isHead => ⟨(ends code isHead).1, (ends code isHead).2.1⟩
    | some exponent =>
        obtain ⟨upper, sign, digits⟩ := exponent
        cases upper <;>
          simp [JsonNumber.exponentChars, isExponent, JsonExponent.chars,
            isDigitCode]
  cases isFraction : number.fraction with
  | none =>
      simp only [JsonNumber.fractionChars, isFraction, codes_nil,
        List.nil_append, List.length_nil]
      unfold fractionLength
      split
      case h_1 behind shape =>
        have isPoint := (noDigit 46 (by rw [shape]; rfl)).2
        exact absurd rfl isPoint
      · rfl
  | some digits =>
      have taken :
          (codes digits.chars ++
              (codes number.exponentChars ++ rest)).takeWhile isDigitCode =
            codes digits.chars :=
        takeWhile_append_ends (isDigitCode_digits _)
          fun code isHead => (noDigit code isHead).1
      have some_digits : digits.chars.length ≠ 0 := by
        simp [Digits.chars]
      simp [JsonNumber.fractionChars, isFraction, fractionLength, taken,
        some_digits]

theorem exponentLength_chars
    {number : JsonNumber}
    {rest : Text}
    (ends : NumberEnds rest) :
    exponentLength (codes number.exponentChars ++ rest) =
      number.exponentChars.length := by
  cases isExponent : number.exponent with
  | none =>
      simp only [JsonNumber.exponentChars, isExponent, codes_nil,
        List.nil_append, List.length_nil]
      cases rest with
      | nil => rfl
      | cons next rest =>
          have isEnd := (ends next rfl).2.2
          simp [exponentLength, isEnd.1, isEnd.2]
  | some exponent =>
      obtain ⟨upper, sign, digits⟩ := exponent
      have taken :
          (codes digits.chars ++ rest).takeWhile isDigitCode =
            codes digits.chars :=
        takeWhile_append_ends (isDigitCode_digits _)
          fun code isHead => (ends code isHead).1
      have some_digits : digits.chars.length ≠ 0 := by
        simp [Digits.chars]
      have noSign :
          (codes digits.chars ++ rest).head? ≠ some 43 ∧
            (codes digits.chars ++ rest).head? ≠ some 45 := by
        have isDigit := isDigitCode_digitChar digits.first
        simp only [isDigitCode, Bool.and_eq_true, decide_eq_true_eq] at isDigit
        simp only [Digits.chars, List.map_cons, codes_cons, List.cons_append,
          List.head?_cons, ne_eq, Option.some.injEq]
        omega
      have length :
          ((codes digits.chars ++ rest).takeWhile isDigitCode).length =
            digits.chars.length := by
        rw [taken, length_codes]
      simp only [JsonNumber.exponentChars, isExponent, JsonExponent.chars,
        codes_cons, codes_append, List.cons_append, List.append_assoc]
      generalize codes digits.chars ++ rest = behind at length noSign
      cases upper <;> cases sign <;>
        simp [ExponentSign.chars, exponentLength, length, some_digits, noSign]

theorem integerLength_chars
    {number : JsonNumber}
    {rest : Text}
    (ends : ∀ code ∈ rest.head?, isDigitCode code = false) :
    integerLength (codes number.integerChars ++ rest) =
      some number.integerChars.length := by
  have signless :
      integerLength (codes number.integer.chars ++ rest) =
          some number.integer.chars.length ∧
        (codes number.integer.chars ++ rest).head? ≠ some 45 ∧
        integerLength (45 :: (codes number.integer.chars ++ rest)) =
          some (number.integer.chars.length + 1) := by
    cases number.integer with
    | zero =>
        simp [JsonInteger.chars, integerLength]
    | positive digits leading =>
        have taken :
            (codes digits.chars ++ rest).takeWhile isDigitCode =
              codes digits.chars :=
          takeWhile_append_ends (isDigitCode_digits _) ends
        have notZero :
            (digitChar digits.first).toNat ≠ 48 ∧
              (digitChar digits.first).toNat ≠ 45 := by
          generalize digits.first = first at leading
          revert first
          decide
        have length :
            ((codes digits.chars ++ rest).takeWhile isDigitCode).length =
              digits.chars.length := by
          rw [taken, length_codes]
        have some_digits : digits.chars.length ≠ 0 := by
          simp [Digits.chars]
        obtain ⟨first, more, shape, isFirst⟩ :
            ∃ first more,
              codes digits.chars ++ rest = first :: more ∧
                first = (digitChar digits.first).toNat :=
          ⟨_, _, rfl, rfl⟩
        rw [← isFirst] at notZero
        simp only [JsonInteger.chars]
        rw [shape] at length ⊢
        simp [integerLength, length, some_digits, notZero]
        omega
  cases negative : number.negative with
  | false =>
      simpa [JsonNumber.integerChars, negative] using signless.1
  | true =>
      simpa [JsonNumber.integerChars, negative] using signless.2.2

/-- Neither a fraction nor an exponent begins with a digit. -/
theorem noDigit_behind_integer
    (number : JsonNumber)
    {rest : Text}
    (ends : NumberEnds rest) :
    ∀ code ∈
        (codes number.fractionChars ++
          (codes number.exponentChars ++ rest)).head?,
      isDigitCode code = false := by
  cases isFraction : number.fraction with
  | some digits =>
      simp [JsonNumber.fractionChars, isFraction, isDigitCode]
  | none =>
      cases isExponent : number.exponent with
      | none =>
          simp only [JsonNumber.fractionChars, isFraction,
            JsonNumber.exponentChars, isExponent]
          exact fun code isHead => (ends code isHead).1
      | some exponent =>
          obtain ⟨upper, sign, digits⟩ := exponent
          cases upper <;>
            simp [JsonNumber.fractionChars, isFraction,
              JsonNumber.exponentChars, isExponent, JsonExponent.chars,
              isDigitCode]

/-- A token gives the text of its number, if it converts. -/
theorem numberText_token (python : PythonLibrary) (number : JsonNumber) :
    python.numberText number.token number.isFloat =
      if number.Converts then some (number.text python) else none := by
  rw [PythonLibrary.numberText, JsonNumber.text]
  cases isFloat : number.isFloat with
  | true =>
      have converts : number.Converts := .inl isFloat
      rw [if_pos converts]
      rfl
  | false =>
      simp only [Bool.false_eq_true, if_false]
      by_cases long : maxIntDigits < (number.token.filter isDigitCode).length
      · have refused : ¬ number.Converts := by
          rintro (float | short)
          · rw [isFloat] at float
            cases float
          · omega
        rw [if_pos long, if_neg refused]
      · have converts : number.Converts := .inr (Nat.not_lt.mp long)
        rw [if_neg long, if_pos converts]
        split <;> rfl

/-- The token of the number at the front, whether it is a float, and the rest. -/
def splitNumber (text : Text) : Option (Text × Bool × Text) := do
  let integer ← integerLength text
  let fraction := fractionLength (text.drop integer)
  let exponent := exponentLength (text.drop (integer + fraction))
  let length := integer + fraction + exponent
  some (text.take length, fraction ≠ 0 || exponent ≠ 0, text.drop length)

theorem scanNumber_eq (python : PythonLibrary) (text : Text) :
    scanNumber python text =
      (splitNumber text).bind fun split =>
        (python.numberText split.1 split.2.1).map fun number =>
          (.number number, split.2.2) := by
  unfold scanNumber splitNumber
  cases integerLength text with
  | none => rfl
  | some integer =>
      simp only [Option.bind_eq_bind, Option.bind_some, Option.map_eq_bind]
      rfl

/-- A number is split off at its end. -/
theorem splitNumber_chars
    (number : JsonNumber)
    {rest : Text}
    (ends : NumberEnds rest) :
    splitNumber (codes number.chars ++ rest) =
      some (number.token, number.isFloat, rest) := by
  have shape :
      codes number.chars ++ rest =
        codes number.integerChars ++ (codes number.fractionChars ++
          (codes number.exponentChars ++ rest)) := by
    simp [JsonNumber.chars]
  have integer :
      integerLength (codes number.integerChars ++
          (codes number.fractionChars ++
            (codes number.exponentChars ++ rest))) =
        some number.integerChars.length :=
    integerLength_chars (noDigit_behind_integer number ends)
  have behindInteger :
      (codes number.chars ++ rest).drop number.integerChars.length =
        codes number.fractionChars ++
          (codes number.exponentChars ++ rest) := by
    rw [shape, List.drop_left' (length_codes _)]
  have behindFraction :
      (codes number.chars ++ rest).drop
          (number.integerChars.length + number.fractionChars.length) =
        codes number.exponentChars ++ rest := by
    rw [← List.drop_drop, behindInteger, List.drop_left' (length_codes _)]
  have length :
      number.integerChars.length + number.fractionChars.length +
          number.exponentChars.length =
        (codes number.chars).length := by
    simp [JsonNumber.chars, Nat.add_assoc]
  have isFloat :
      (decide (number.fractionChars.length ≠ 0) ||
          decide (number.exponentChars.length ≠ 0)) =
        number.isFloat := by
    rw [JsonNumber.isFloat, JsonNumber.fractionChars,
      JsonNumber.exponentChars]
    cases number.fraction <;> cases number.exponent <;>
      simp [JsonExponent.chars]
  rw [shape] at behindInteger behindFraction ⊢
  simp only [splitNumber, integer, Option.bind_eq_bind, Option.bind_some,
    behindInteger, fractionLength_chars ends, behindFraction,
    exponentLength_chars ends, isFloat]
  have token : codes number.chars = number.token := rfl
  rw [← shape, length, List.take_left, List.drop_left, token]

/-- A number that converts is scanned to its end. -/
theorem scanNumber_chars
    (python : PythonLibrary)
    (number : JsonNumber)
    {rest : Text}
    (ends : NumberEnds rest) :
    scanNumber python (codes number.chars ++ rest) =
      if number.Converts then some (.number (number.text python), rest)
      else none := by
  rw [scanNumber_eq, splitNumber_chars number ends, Option.bind_some,
    numberText_token]
  split <;> rfl

/-! ## Values -/

/-- The value that is decoded. -/
def Scalar.decoded (python : PythonLibrary) : Scalar → JsonValue
  | .word .trueWord => .bool true
  | .word .falseWord => .bool false
  | .word .nullWord => .null
  | .number value => .number (value.text python)
  | .string value => .string value.text

def Json.decoded (python : PythonLibrary) : Json → JsonValue
  | .scalar leaf => leaf.decoded python
  | _ => .container

/-- The code points a value starts with. -/
def startsValue (code : Nat) : Bool :=
  isDigitCode code ||
    code ∈ [34, 45, 91, 123, 102, 110, 116]

theorem digitChar_startsValue (digit : Fin 10) :
    startsValue (digitChar digit).toNat = true := by
  rw [startsValue, isDigitCode_digitChar, Bool.true_or]

theorem JsonNumber.head_chars (number : JsonNumber) :
    ∃ first more,
      number.chars = first :: more ∧
        (first.toNat = 45 ∨ isDigitCode first.toNat) := by
  obtain ⟨negative, integer, fraction, exponent⟩ := number
  cases negative with
  | true => exact ⟨'-', _, rfl, .inl rfl⟩
  | false =>
      cases integer with
      | zero => exact ⟨'0', _, rfl, .inr rfl⟩
      | positive digits leading =>
          exact ⟨_, _, rfl, .inr (isDigitCode_digitChar digits.first)⟩

/-- What holds of digits, signs, points and exponent letters. -/
theorem JsonNumber.forall_chars
    {holds : Char → Prop}
    (ofDigit : ∀ digit, holds (digitChar digit))
    (ofOther : ∀ character ∈ ['-', '+', '.', 'e', 'E'], holds character)
    (number : JsonNumber) :
    ∀ character ∈ number.chars, holds character := by
  have ofDigits (digits : Digits) :
      ∀ character ∈ digits.chars, holds character := by
    intro character member
    obtain ⟨digit, -, rfl⟩ := List.mem_map.mp member
    exact ofDigit digit
  have integer : ∀ character ∈ number.integerChars, holds character := by
    refine List.forall_mem_append.mpr ⟨?_, ?_⟩
    · split
      · exact List.forall_mem_singleton.mpr (ofOther '-' (by simp))
      · nofun
    · cases number.integer with
      | zero => exact List.forall_mem_singleton.mpr (ofDigit 0)
      | positive digits leading => exact ofDigits digits
  have fraction : ∀ character ∈ number.fractionChars, holds character := by
    rw [fractionChars]
    cases number.fraction with
    | none => nofun
    | some digits =>
        exact List.forall_mem_cons.mpr
          ⟨ofOther '.' (by simp), ofDigits digits⟩
  have exponent : ∀ character ∈ number.exponentChars, holds character := by
    rw [exponentChars]
    cases number.exponent with
    | none => nofun
    | some exponent =>
        obtain ⟨upper, sign, digits⟩ := exponent
        refine List.forall_mem_cons.mpr ⟨?_, List.forall_mem_append.mpr
          ⟨?_, ofDigits digits⟩⟩
        · cases upper with
          | true => exact ofOther 'E' (by simp)
          | false => exact ofOther 'e' (by simp)
        · cases sign with
          | none => nofun
          | plus => exact List.forall_mem_singleton.mpr (ofOther '+' (by simp))
          | minus => exact List.forall_mem_singleton.mpr (ofOther '-' (by simp))
  exact List.forall_mem_append.mpr
    ⟨integer, List.forall_mem_append.mpr ⟨fraction, exponent⟩⟩

theorem Scalar.head_chars (scalar : Scalar) :
    ∃ first more,
      scalar.chars = first :: more ∧ startsValue first.toNat := by
  cases scalar with
  | word value => cases value <;> exact ⟨_, _, rfl, by decide⟩
  | string value => exact ⟨_, _, rfl, by decide⟩
  | number value =>
      obtain ⟨first, more, shape, starts⟩ := value.head_chars
      refine ⟨first, more, shape, ?_⟩
      rcases starts with isMinus | isDigit
      · rw [isMinus]
        rfl
      · rw [startsValue, isDigit, Bool.true_or]

theorem Json.head_chars (value : Json) :
    ∃ first more,
      value.chars = first :: more ∧ startsValue first.toNat := by
  cases value with
  | scalar scalar =>
      simpa only [Json.chars] using scalar.head_chars
  | emptyArray spaces => exact ⟨'[', _, rfl, by decide⟩
  | array elements => exact ⟨'[', _, rfl, by decide⟩
  | emptyObject spaces => exact ⟨'{', _, rfl, by decide⟩
  | object members => exact ⟨'{', _, rfl, by decide⟩

/-- What may follow a value: whitespace, a comma, a closing bracket, nothing. -/
def ValueEnds (rest : Text) : Prop :=
  ∀ code ∈ rest.head?,
    isJsonSpace code ∨ code = 44 ∨ code = 93 ∨ code = 125

theorem ValueEnds.numberEnds
    {rest : Text}
    (ends : ValueEnds rest) :
    NumberEnds rest := by
  intro code isHead
  have isEnd := ends code isHead
  simp only [isJsonSpace, Bool.or_eq_true, decide_eq_true_eq] at isEnd
  have options :
      code = 32 ∨ code = 9 ∨ code = 10 ∨ code = 13 ∨ code = 44 ∨
        code = 93 ∨ code = 125 := by
    omega
  rcases options with rfl | rfl | rfl | rfl | rfl | rfl | rfl <;> decide

theorem isJsonSpace_spaces (spaces : Spaces) :
    ∀ code ∈ codes spaces.chars, isJsonSpace code := by
  intro code member
  simp only [Spaces.chars, codes, List.map_map, List.mem_map] at member
  obtain ⟨blank, -, rfl⟩ := member
  cases blank <;> decide

/-- Whitespace is skipped up to what is none. -/
theorem skipSpaces_append
    {spaces : Spaces}
    {rest : Text}
    (noSpace : ∀ code ∈ rest.head?, isJsonSpace code = false) :
    skipSpaces (codes spaces.chars ++ rest) = rest := by
  rw [skipSpaces, List.dropWhile_append_of_pos (isJsonSpace_spaces spaces)]
  cases rest with
  | nil => rfl
  | cons next rest =>
      rw [List.dropWhile_cons, noSpace next (by simp)]
      simp

/-- A value behind whitespace. -/
theorem skipSpaces_value
    (spaces : Spaces)
    (value : Json)
    (rest : Text) :
    skipSpaces (codes spaces.chars ++ (codes value.chars ++ rest)) =
      codes value.chars ++ rest := by
  refine skipSpaces_append fun code isHead => ?_
  obtain ⟨first, more, shape, starts⟩ := value.head_chars
  rw [shape] at isHead
  simp only [codes_cons, List.cons_append, List.head?_cons,
    Option.mem_some] at isHead
  subst isHead
  revert starts
  generalize first.toNat = code
  simp only [startsValue, isDigitCode, isJsonSpace, List.mem_cons,
    List.not_mem_nil, or_false, Bool.or_eq_true, Bool.and_eq_true,
    decide_eq_true_eq, Bool.or_eq_false_iff, decide_eq_false_iff_not]
  omega

end PacketAudit
