import PacketAudit.Json.Tokens

namespace PacketAudit

/-!
# What the pattern matches

A match of `_JSON_FIELD` begins at a quote, reads up to the next quote that is
not escaped, and then needs a colon and a scalar.
-/

/-! ## Strings -/

theorem stringTail?_plain
    {bytes : Bytes}
    (isPlain : ∀ byte ∈ bytes, isPlainByte byte)
    (rest : Bytes) :
    stringTail? (bytes ++ rest) =
      (stringTail? rest).map (· + bytes.length) := by
  induction bytes with
  | nil => simp
  | cons byte bytes inductionHypothesis =>
      rw [List.forall_mem_cons] at isPlain
      obtain ⟨isThis, others⟩ := isPlain
      simp only [isPlainByte, Bool.and_eq_true, decide_eq_true_eq] at isThis
      have notControl : ¬ byte < 32 := UInt8.not_lt.mpr isThis.1.1
      rw [List.cons_append, stringTail?.eq_def]
      split
      case h_1 => simp_all
      case h_2 => simp_all
      case h_3 => simp_all
      case h_4 found behind _ _ _ same =>
        simp only [List.cons.injEq] at same
        obtain ⟨rfl, rfl⟩ := same
        rw [if_neg notControl, inductionHypothesis others]
        cases stringTail? rest with
        | none => rfl
        | some length => simp [Nat.add_assoc]
      case h_5 => simp_all

/-- A control character ends nothing. -/
theorem stringTail?_control
    {byte : UInt8}
    (isControl : byte < 32)
    (rest : Bytes) :
    stringTail? (byte :: rest) = none := by
  have isNot : byte ≠ 34 ∧ byte ≠ 92 := by
    constructor <;> (rintro rfl; exact absurd isControl (by decide))
  rw [stringTail?.eq_def]
  split
  case h_1 => simp_all
  case h_2 => simp_all
  case h_3 => simp_all
  case h_4 found behind _ _ _ same =>
    simp only [List.cons.injEq] at same
    obtain ⟨rfl, rfl⟩ := same
    exact if_pos isControl
  case h_5 => rfl

/-- A string ends at its closing quote. -/
theorem stringTail?_content (string : JsonString) (rest : Bytes) :
    stringTail? (string.bytes ++ 34 :: rest) =
      some (string.bytes.length + 1) := by
  induction string with
  | nil => rfl
  | cons unit string inductionHypothesis =>
      rw [JsonString.bytes_cons, List.append_assoc]
      have unitBytes := unit.unitBytes
      generalize encodeUtf8 unit.chars = bytes at unitBytes ⊢
      cases unitBytes with
      | plain isPlain =>
          rw [stringTail?_plain isPlain, inductionHypothesis]
          simp [Nat.add_comm, Nat.add_left_comm]
      | @escape letter digits noNewline isPlain =>
          have shape :
              stringTail? (92 :: letter :: (digits ++
                  (JsonString.bytes string ++ 34 :: rest))) =
                (stringTail? (digits ++
                  (JsonString.bytes string ++ 34 :: rest))).map
                    (· + 2) := by
            rw [stringTail?, if_neg noNewline]
          rw [List.cons_append, List.cons_append, shape,
            stringTail?_plain isPlain, inductionHypothesis]
          simp only [Option.map_some, List.length_append, List.length_cons,
            Option.some.injEq]
          omega

/-- A match needs the quote of a string and what follows a name. -/
theorem jsonMatchAt_quote
    {name after : Bytes}
    (isName :
      stringTail? (name ++ 34 :: after) = some (name.length + 1)) :
    jsonMatchAt (34 :: (name ++ 34 :: after)) =
      (matchValue? after).map fun found =>
        ⟨34 :: (name ++ [34]), name.length + 2 + found.1,
          (after.drop found.1).take found.2⟩ := by
  have shape :
      34 :: (name ++ 34 :: after) = (34 :: (name ++ [34])) ++ after := by
    simp
  have size : (34 :: (name ++ [34])).length = name.length + 1 + 1 := by
    simp
  have front :
      (34 :: (name ++ 34 :: after)).drop (name.length + 1 + 1) = after := by
    rw [shape, ← size, List.drop_left]
  have taken :
      (34 :: (name ++ 34 :: after)).take (name.length + 1 + 1) =
        34 :: (name ++ [34]) := by
    rw [shape, ← size, List.take_left]
  simp only [jsonMatchAt, isName, front, taken]
  cases matchValue? after with
  | none => rfl
  | some found =>
      simp only [Option.map_some]
      rw [← List.drop_drop, front]

theorem jsonMatchAt_content (string : JsonString) (after : Bytes) :
    jsonMatchAt (34 :: (string.bytes ++ 34 :: after)) =
      (matchValue? after).map fun found =>
        ⟨34 :: (string.bytes ++ [34]), string.bytes.length + 2 + found.1,
          (after.drop found.1).take found.2⟩ :=
  jsonMatchAt_quote (stringTail?_content string after)

/-! ## Scanning on -/

/-- Bytes that were matched are skipped. -/
theorem jsonMatchesFrom_skip
    (front rest : Bytes)
    (offset : Nat) :
    jsonMatchesFrom front.length offset (front ++ rest) =
      jsonMatchesFrom 0 (offset + front.length) rest := by
  induction front generalizing offset with
  | nil => rfl
  | cons byte front inductionHypothesis =>
      rw [List.length_cons, List.cons_append, jsonMatchesFrom,
        inductionHypothesis, Nat.add_assoc, Nat.add_comm 1]

theorem jsonMatchesFrom_noMatch
    {byte : UInt8}
    {rest : Bytes}
    (noMatch : jsonMatchAt (byte :: rest) = none)
    (offset : Nat) :
    jsonMatchesFrom 0 offset (byte :: rest) =
      jsonMatchesFrom 0 (offset + 1) rest := by
  rw [jsonMatchesFrom, noMatch]

theorem jsonMatchAt_noQuote
    {byte : UInt8}
    (noQuote : byte ≠ 34)
    (rest : Bytes) :
    jsonMatchAt (byte :: rest) = none := by
  unfold jsonMatchAt
  split
  case h_1 tail same =>
    simp only [List.cons.injEq] at same
    exact absurd same.1 noQuote
  case h_2 => rfl

/-- No match begins at bytes that are no quotes. -/
theorem jsonMatchesFrom_noQuote
    {bytes : Bytes}
    (noQuote : 34 ∉ bytes)
    (rest : Bytes)
    (offset : Nat) :
    jsonMatchesFrom 0 offset (bytes ++ rest) =
      jsonMatchesFrom 0 (offset + bytes.length) rest := by
  induction bytes generalizing offset with
  | nil => rfl
  | cons byte bytes inductionHypothesis =>
      rw [List.mem_cons, not_or] at noQuote
      rw [List.cons_append,
        jsonMatchesFrom_noMatch (jsonMatchAt_noQuote (Ne.symm noQuote.1) _),
        inductionHypothesis noQuote.2, List.length_cons, Nat.add_assoc,
        Nat.add_comm 1]

theorem noQuote_of_plain
    {bytes : Bytes}
    (isPlain : ∀ byte ∈ bytes, isPlainByte byte) :
    34 ∉ bytes := by
  intro member
  have quote := isPlain 34 member
  revert quote
  decide

/-- Nothing matches in a string that names no member with a scalar value. -/
theorem jsonMatchesFrom_content
    {after : Bytes}
    (noValue : matchValue? after = none)
    (string : JsonString)
    (offset : Nat) :
    jsonMatchesFrom 0 offset (string.bytes ++ 34 :: after) =
      jsonMatchesFrom 0 (offset + string.bytes.length) (34 :: after) := by
  induction string generalizing offset with
  | nil => rfl
  | cons unit string inductionHypothesis =>
      rw [JsonString.bytes_cons, List.append_assoc]
      have unitBytes := unit.unitBytes
      generalize encodeUtf8 unit.chars = bytes at unitBytes ⊢
      cases unitBytes with
      | plain isPlain =>
          rw [jsonMatchesFrom_noQuote (noQuote_of_plain isPlain),
            inductionHypothesis, List.length_append, Nat.add_assoc]
      | @escape letter digits noNewline isPlain =>
          have atLetter :
              jsonMatchAt (letter :: (digits ++
                (JsonString.bytes string ++ 34 :: after))) = none := by
            by_cases isQuote : letter = 34
            · -- From an escaped quote the name goes up to the closing one.
              have isName :
                  stringTail?
                      ((digits ++ JsonString.bytes string) ++ 34 :: after) =
                    some ((digits ++ JsonString.bytes string).length + 1) := by
                rw [List.append_assoc, stringTail?_plain isPlain,
                  stringTail?_content, Option.map_some, List.length_append]
                congr 1
                omega
              have matched := jsonMatchAt_quote isName
              rw [noValue, Option.map_none, List.append_assoc] at matched
              rw [isQuote]
              exact matched
            · exact jsonMatchAt_noQuote isQuote _
          rw [List.cons_append, List.cons_append,
            jsonMatchesFrom_noMatch (jsonMatchAt_noQuote (by decide) _),
            jsonMatchesFrom_noMatch atLetter,
            jsonMatchesFrom_noQuote (noQuote_of_plain isPlain),
            inductionHypothesis]
          congr 1
          simp only [List.length_append, List.length_cons]
          omega

/-- A string that names no such member leaves its closing quote. -/
theorem jsonMatchesFrom_loose
    {after : Bytes}
    (noValue : matchValue? after = none)
    (string : JsonString)
    (offset : Nat) :
    jsonMatchesFrom 0 offset (encodeUtf8 string.chars ++ after) =
      jsonMatchesFrom 0 (offset + string.bytes.length + 1) (34 :: after) := by
  have noMatch :
      jsonMatchAt (34 :: (string.bytes ++ 34 :: after)) = none := by
    rw [jsonMatchAt_content, noValue]
    rfl
  rw [string.encodeUtf8_chars, List.cons_append, List.append_assoc,
    List.singleton_append, jsonMatchesFrom_noMatch noMatch,
    jsonMatchesFrom_content noValue]
  congr 1
  omega

/-! ## Scalars -/

theorem map_toNat_encodeUtf8
    {chars : List Char}
    (isAscii : ∀ character ∈ chars, character.toNat < 128) :
    (encodeUtf8 chars).map UInt8.toNat = codes chars := by
  induction chars with
  | nil => rfl
  | cons first chars inductionHypothesis =>
      rw [List.forall_mem_cons] at isAscii
      rw [encodeUtf8_ascii isAscii.1, List.map_cons,
        inductionHypothesis isAscii.2, codes_cons, UInt8.toNat_ofNat',
        Nat.mod_eq_of_lt (by omega)]

theorem length_encodeUtf8_ascii
    {chars : List Char}
    (isAscii : ∀ character ∈ chars, character.toNat < 128) :
    (encodeUtf8 chars).length = chars.length := by
  have length := congrArg List.length (map_toNat_encodeUtf8 isAscii)
  simpa using length

theorem Neutral.isAscii
    {chars : List Char}
    (isNeutral : Neutral chars) :
    ∀ character ∈ chars, character.toNat < 128 :=
  fun character member => (isNeutral character member).1

/-- A number is matched to its end. -/
theorem matchNumber?_chars
    {number : JsonNumber}
    {rest : Bytes}
    (ends : NumberEnds (rest.map UInt8.toNat)) :
    matchNumber? (encodeUtf8 number.chars ++ rest) =
      some (encodeUtf8 number.chars).length := by
  have isAscii := (Neutral.number number).isAscii
  have noDigit := noDigit_behind_integer number ends
  rw [length_encodeUtf8_ascii isAscii, matchNumber?, List.map_append,
    map_toNat_encodeUtf8 isAscii]
  have shape :
      codes number.chars ++ rest.map UInt8.toNat =
        codes number.integerChars ++ (codes number.fractionChars ++
          (codes number.exponentChars ++ rest.map UInt8.toNat)) := by
    simp [JsonNumber.chars]
  have behindInteger :
      (codes number.chars ++ rest.map UInt8.toNat).drop
          number.integerChars.length =
        codes number.fractionChars ++
          (codes number.exponentChars ++ rest.map UInt8.toNat) := by
    rw [shape, List.drop_left' (length_codes _)]
  have behindFraction :
      (codes number.chars ++ rest.map UInt8.toNat).drop
          (number.integerChars.length + number.fractionChars.length) =
        codes number.exponentChars ++ rest.map UInt8.toNat := by
    rw [← List.drop_drop, behindInteger, List.drop_left' (length_codes _)]
  have length :
      number.integerChars.length + number.fractionChars.length +
          number.exponentChars.length =
        number.chars.length := by
    simp [JsonNumber.chars, Nat.add_assoc]
  have integer :
      let sign :=
        if (codes number.chars ++ rest.map UInt8.toNat).head? = some 45 then 1
        else 0
      ((((codes number.chars ++ rest.map UInt8.toNat).drop sign).takeWhile
          isDigitCode).length ≠ 0) ∧
        sign + (((codes number.chars ++ rest.map UInt8.toNat).drop
          sign).takeWhile isDigitCode).length =
          number.integerChars.length := by
    rw [shape]
    have digits :
        ((codes number.integer.chars ++ (codes number.fractionChars ++
            (codes number.exponentChars ++ rest.map UInt8.toNat))).takeWhile
              isDigitCode) =
          codes number.integer.chars := by
      refine takeWhile_append_ends ?_ noDigit
      cases number.integer with
      | zero => simp [JsonInteger.chars, isDigitCode]
      | positive some_digits leading => exact isDigitCode_digits _
    have nonempty : number.integer.chars.length ≠ 0 := by
      cases number.integer with
      | zero => simp [JsonInteger.chars]
      | positive some_digits leading =>
          simp [JsonInteger.chars, Digits.chars]
    have noSign :
        (codes number.integer.chars ++ (codes number.fractionChars ++
          (codes number.exponentChars ++ rest.map UInt8.toNat))).head? ≠
            some 45 := by
      cases number.integer with
      | zero => simp [JsonInteger.chars]
      | positive some_digits leading =>
          have isDigit := isDigitCode_digitChar some_digits.first
          simp only [isDigitCode, Bool.and_eq_true, decide_eq_true_eq]
            at isDigit
          simp only [JsonInteger.chars, Digits.chars, List.map_cons,
            codes_cons, List.cons_append, List.head?_cons, ne_eq,
            Option.some.injEq]
          omega
    have digitCount := congrArg List.length digits
    rw [length_codes] at digitCount
    cases negative : number.negative with
    | false =>
        simp only [JsonNumber.integerChars, negative, Bool.false_eq_true,
          if_false, List.nil_append, noSign, List.drop_zero, digitCount]
        exact ⟨nonempty, Nat.zero_add _⟩
    | true =>
        have minus : ('-').toNat = 45 := rfl
        simp only [JsonNumber.integerChars, negative, if_true,
          List.cons_append, List.nil_append, codes_cons, List.head?_cons,
          minus, List.drop_succ_cons, List.drop_zero, digitCount,
          List.length_cons]
        exact ⟨nonempty, Nat.add_comm 1 _⟩
  simp only at integer ⊢
  rw [if_neg integer.1, integer.2, behindInteger, fractionLength_chars ends,
    behindFraction, exponentLength_chars ends, length]

theorem matchNumber?_eq_none
    {first : UInt8}
    (notMinus : first.toNat ≠ 45)
    (notDigit : isDigitCode first.toNat = false)
    (rest : Bytes) :
    matchNumber? (first :: rest) = none := by
  simp [matchNumber?, notMinus, notDigit]

/-- A scalar is matched to its end. -/
theorem matchScalar?_chars
    {scalar : Scalar}
    {rest : Bytes}
    (ends : NumberEnds (rest.map UInt8.toNat)) :
    matchScalar? (encodeUtf8 scalar.chars ++ rest) =
      some (encodeUtf8 scalar.chars).length := by
  cases scalar with
  | string value =>
      rw [Scalar.chars, value.encodeUtf8_chars, List.cons_append,
        List.append_assoc, List.singleton_append, matchScalar?,
        stringTail?_content]
      simp
  | word value =>
      cases value <;>
        rfl
  | number value =>
      obtain ⟨first, more, shape, starts⟩ := value.head_chars
      have matched :
          matchNumber? (encodeUtf8 value.chars ++ rest) =
            some (encodeUtf8 value.chars).length :=
        matchNumber?_chars ends
      have isAscii : first.toNat < 128 :=
        (Neutral.number value).isAscii first (by rw [shape]; simp)
      simp only [Scalar.chars]
      rw [shape, encodeUtf8_ascii isAscii, List.cons_append] at matched ⊢
      have notQuote : UInt8.ofNat first.toNat ≠ 34 := by
        intro same
        have isQuote := congrArg UInt8.toNat same
        rw [UInt8.toNat_ofNat', Nat.mod_eq_of_lt (by omega)] at isQuote
        simp only [isDigitCode, Bool.and_eq_true, decide_eq_true_eq] at starts
        simp at isQuote
        omega
      unfold matchScalar?
      split
      case h_1 tail same =>
        simp only [List.cons.injEq] at same
        exact absurd same.1 notQuote
      case h_2 => rw [matched, Option.some_or]

end PacketAudit
