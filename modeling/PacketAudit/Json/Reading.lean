import PacketAudit.Json.Searching

namespace PacketAudit

/-!
# The search reads tokens

Two states of the search are followed over the tokens: it stands at a token, or
at the closing quote of a string before the tokens, which dangles there.
-/

section Reading

variable {python : PythonLibrary}

/-- The fields are those of the tokens just if no quote is mistaken. -/
def ReadsTokens (python : PythonLibrary) (tokens : List Token) : Prop :=
  ∀ {offset remaining : Nat},
    (tokenFields python offset tokens).length < remaining →
    (collectFields python remaining
        (jsonMatchesFrom 0 offset (tokensBytes tokens)) =
        some (tokenFields python offset tokens) ↔
      noneMistaken false tokens)

/-- The same behind a dangling quote and plain bytes. -/
def ReadsDangling (python : PythonLibrary) (tokens : List Token) : Prop :=
  ∀ {gap : JsonString} {offset remaining : Nat},
    (∀ byte ∈ gap.bytes, isPlainByte byte) →
    (tokenFields python (offset + 1 + gap.bytes.length) tokens).length <
      remaining →
    (collectFields python remaining
        (jsonMatchesFrom 0 offset
          (34 :: (gap.bytes ++ tokensBytes tokens))) =
        some (tokenFields python (offset + 1 + gap.bytes.length) tokens) ↔
      noneMistaken true tokens)

/-! ## A quote that dangles -/

/-- Without a match the search goes on behind the gap. -/
theorem jsonMatchesFrom_gap
    {gap : JsonString}
    (isPlain : ∀ byte ∈ gap.bytes, isPlainByte byte)
    {rest : Bytes}
    (noMatch : jsonMatchAt (34 :: (gap.bytes ++ rest)) = none)
    (offset : Nat) :
    jsonMatchesFrom 0 offset (34 :: (gap.bytes ++ rest)) =
      jsonMatchesFrom 0 (offset + 1 + gap.bytes.length) rest := by
  rw [jsonMatchesFrom_noMatch noMatch,
    jsonMatchesFrom_noQuote (noQuote_of_plain isPlain)]

theorem jsonMatchAt_noString
    {rest : Bytes}
    (noString : stringTail? rest = none) :
    jsonMatchAt (34 :: rest) = none := by
  rw [jsonMatchAt, noString]

/-- A value that is found in the wrong place shows. -/
theorem not_collected
    {gap string : JsonString}
    {after : Bytes}
    {start length offset remaining : Nat}
    (isValue :
      matchValue? (string.bytes ++ 34 :: after) = some (start, length))
    (inside : start ≤ string.bytes.length)
    (begins :
      ∀ first ∈ ((string.bytes ++ 34 :: after).drop start).head?,
        first.toNat = 34 ∨ first.toNat = 45 ∨ isDigitCode first.toNat)
    (noZero : ∀ byte ∈ string.bytes ++ 34 :: after, byte ≠ 0)
    {fields : List Field}
    (behind :
      ∀ field ∈ fields,
        offset + gap.bytes.length + string.bytes.length + 2 < field.start)
    (some_remaining : 0 < remaining) :
    collectFields python remaining
        (jsonMatchesFrom 0 offset
          (34 :: (gap.bytes ++ 34 :: (string.bytes ++ 34 :: after)))) ≠
      some fields := by
  intro collected
  obtain ⟨fewer, rfl⟩ := Nat.exists_eq_add_one_of_ne_zero
    (Nat.pos_iff_ne_zero.mp some_remaining)
  have matched := jsonMatchAt_content gap (string.bytes ++ 34 :: after)
  rw [isValue, Option.map_some] at matched
  rw [jsonMatchesFrom, matched] at collected
  have taken :
      ∀ byte ∈ ((string.bytes ++ 34 :: after).drop start).take length,
        byte ∈ string.bytes ++ 34 :: after :=
    fun byte member => List.mem_of_mem_drop (List.mem_of_mem_take member)
  have head :
      ∀ first ∈
          (((string.bytes ++ 34 :: after).drop start).take length).head?,
        first.toNat = 34 ∨ first.toNat = 45 ∨ isDigitCode first.toNat := by
    intro first isHead
    refine begins first ?_
    rw [List.head?_take] at isHead
    split at isHead
    · cases isHead
    · exact isHead
  obtain ⟨field, others, rfl, isStart, -⟩ :=
    exists_field
      (jsonStep_ne_skip head fun byte member => noZero byte (taken byte member))
      collected
  have isBehind := behind field (by simp)
  simp only at isStart
  omega

/-- A literal that is found in a string is passed over. -/
theorem collectFields_literal
    {gap string behind : JsonString}
    {front after : Bytes}
    {word : JsonWord}
    (isValue :
      matchValue? (string.bytes ++ 34 :: after) =
        some (front.length, (encodeUtf8 word.chars).length))
    (shape : string.bytes = front ++ (encodeUtf8 word.chars ++ behind.bytes))
    (offset remaining : Nat) :
    collectFields python remaining
        (jsonMatchesFrom 0 offset
          (34 :: (gap.bytes ++ 34 :: (string.bytes ++ 34 :: after)))) =
      collectFields python remaining
        (jsonMatchesFrom 0
          (offset + gap.bytes.length + 2 + front.length +
            (encodeUtf8 word.chars).length)
          (behind.bytes ++ 34 :: after)) := by
  cases remaining with
  | zero => rw [collectFields_zero, collectFields_zero]
  | succ remaining =>
      have matched := jsonMatchAt_content gap (string.bytes ++ 34 :: after)
      have covered :
          34 :: (gap.bytes ++ 34 :: (string.bytes ++ 34 :: after)) =
            (34 :: (gap.bytes ++ 34 :: (front ++ encodeUtf8 word.chars))) ++
              (behind.bytes ++ 34 :: after) := by
        simp [shape]
      have isWord :
          ((string.bytes ++ 34 :: after).drop front.length).take
              (encodeUtf8 word.chars).length =
            encodeUtf8 word.chars := by
        rw [shape, List.append_assoc, List.drop_left, List.append_assoc,
          List.take_left]
      rw [isValue, Option.map_some, isWord, covered] at matched
      have name :
          34 :: (gap.bytes ++ [34]) = encodeUtf8 gap.chars :=
        gap.encodeUtf8_chars.symm
      have size :
          (34 :: (gap.bytes ++ 34 :: (front ++ encodeUtf8 word.chars))).length =
            gap.bytes.length + 2 + front.length +
              (encodeUtf8 word.chars).length := by
        simp only [List.length_cons, List.length_append]
        omega
      rw [covered, jsonMatchesFrom_found matched size (List.cons_ne_nil _ _),
        size, collectFields_cons]
      simp only [name, jsonStep_word]
      simp only [Nat.add_assoc]

/-! ## Members -/

theorem tokensBytes_loose (string : JsonString) (rest : List Token) :
    tokensBytes (.loose string :: rest) =
      34 :: (string.bytes ++ 34 :: tokensBytes rest) := by
  simp [Token.bytes, string.encodeUtf8_chars]

theorem tokensBytes_scalarMember
    (name : JsonString)
    (behindName beforeValue : Spaces)
    (value : Scalar)
    (rest : List Token) :
    tokensBytes (.member name behindName beforeValue value :: rest) =
      34 :: (name.bytes ++ 34 :: (colonBytes behindName beforeValue ++
        (encodeUtf8 value.chars ++ tokensBytes rest))) := by
  simp [Token.bytes, encodeUtf8_nameChars]

/-- A member is matched as a whole. -/
theorem jsonMatchesFrom_member
    (name : JsonString)
    (behindName beforeValue : Spaces)
    {value : Scalar}
    {rest : List Token}
    (ends : NumberEnds ((tokensBytes rest).map UInt8.toNat))
    (offset : Nat) :
    jsonMatchesFrom 0 offset
        (tokensBytes (.member name behindName beforeValue value :: rest)) =
      ⟨encodeUtf8 name.chars,
          offset + byteSize (nameChars name behindName beforeValue),
          encodeUtf8 value.chars⟩ ::
        jsonMatchesFrom 0
          (offset +
            (Token.member name behindName beforeValue value).bytes.length)
          (tokensBytes rest) := by
  have matched :
      jsonMatchAt
          (tokensBytes (.member name behindName beforeValue value :: rest)) =
        some ⟨encodeUtf8 name.chars,
          byteSize (nameChars name behindName beforeValue),
          encodeUtf8 value.chars⟩ := by
    rw [tokensBytes_scalarMember]
    exact jsonMatchAt_member name behindName beforeValue ends
  rw [tokensBytes_cons] at matched ⊢
  refine jsonMatchesFrom_found matched ?_ ?_ offset
  · rw [Token.bytes, List.length_append]
    rfl
  · rw [Token.bytes, encodeUtf8_nameChars]
    exact List.cons_ne_nil _ _

/-- A member with a literal value is passed over. -/
theorem collectFields_word
    (name : JsonString)
    (behindName beforeValue : Spaces)
    {value : JsonWord}
    {rest : List Token}
    (ends : NumberEnds ((tokensBytes rest).map UInt8.toNat))
    (offset remaining : Nat) :
    collectFields python remaining
        (jsonMatchesFrom 0 offset
          (tokensBytes
            (.member name behindName beforeValue (.word value) :: rest))) =
      collectFields python remaining
        (jsonMatchesFrom 0
          (offset + (Token.member name behindName beforeValue
            (.word value)).bytes.length)
          (tokensBytes rest)) := by
  rw [jsonMatchesFrom_member name behindName beforeValue ends]
  cases remaining with
  | zero => rw [collectFields_zero, collectFields_zero]
  | succ remaining =>
      rw [collectFields_cons]
      simp only [Scalar.chars, jsonStep_word]

/-- Any other member has its field. -/
theorem collectFields_text
    (name : JsonString)
    (behindName beforeValue : Spaces)
    {value : Scalar}
    {text : Text}
    (isText : value.text python = some text)
    (converts : value.Converts)
    {rest : List Token}
    (ends : NumberEnds ((tokensBytes rest).map UInt8.toNat))
    (offset remaining : Nat) :
    collectFields python (remaining + 1)
        (jsonMatchesFrom 0 offset
          (tokensBytes
            (.member name behindName beforeValue value :: rest))) =
      (collectFields python remaining
        (jsonMatchesFrom 0
          (offset +
            (Token.member name behindName beforeValue value).bytes.length)
          (tokensBytes rest))).map
        (⟨name.text, text, codes value.chars,
          offset + byteSize (nameChars name behindName beforeValue),
          offset + byteSize (nameChars name behindName beforeValue) +
            byteSize value.chars⟩ :: ·) := by
  rw [jsonMatchesFrom_member name behindName beforeValue ends, collectFields_cons,
    jsonStep_text isText converts]

theorem tokenFields_word
    (name : JsonString)
    (behindName beforeValue : Spaces)
    (value : JsonWord)
    (rest : List Token)
    (offset : Nat) :
    tokenFields python offset
        (.member name behindName beforeValue (.word value) :: rest) =
      tokenFields python
        (offset + (Token.member name behindName beforeValue
          (.word value)).bytes.length)
        rest := by
  rw [tokenFields]
  rfl

theorem tokenFields_text
    (name : JsonString)
    (behindName beforeValue : Spaces)
    {value : Scalar}
    {text : Text}
    (isText : value.text python = some text)
    (rest : List Token)
    (offset : Nat) :
    tokenFields python offset
        (.member name behindName beforeValue value :: rest) =
      ⟨name.text, text, codes value.chars,
          offset + byteSize (nameChars name behindName beforeValue),
          offset + byteSize (nameChars name behindName beforeValue) +
            byteSize value.chars⟩ ::
        tokenFields python
          (offset +
            (Token.member name behindName beforeValue value).bytes.length)
          rest := by
  rw [tokenFields]
  simp only [Token.fields, memberFields, isText, Option.toList_some,
    List.map_cons, List.map_nil, List.singleton_append]
  rfl

/-- The fields of a string that is no name are those of what follows. -/
theorem tokenFields_loose
    (string : JsonString)
    (rest : List Token)
    (offset : Nat) :
    tokenFields python offset (.loose string :: rest) =
      tokenFields python (offset + string.bytes.length + 2) rest := by
  rw [tokenFields, Token.fields, List.nil_append, Token.bytes,
    string.encodeUtf8_chars]
  · congr 1
    simp [Nat.add_assoc]
  · intro _ _ _ _ isMember
    cases isMember

/-- A literal or another value. -/
theorem word_or_text (python : PythonLibrary) (value : Scalar) :
    (∃ word, value = .word word) ∨
      ∃ text, value.text python = some text := by
  cases value with
  | word word => exact .inl ⟨word, rfl⟩
  | number number => exact .inr ⟨_, rfl⟩
  | string string => exact .inr ⟨_, rfl⟩

theorem ReadsTokens.member
    {name : JsonString}
    {behindName beforeValue : Spaces}
    {value : Scalar}
    {rest : List Token}
    (converts : value.Converts)
    (ends : NumberEnds ((tokensBytes rest).map UInt8.toNat))
    (reads : ReadsTokens python rest) :
    ReadsTokens python
      (.member name behindName beforeValue value :: rest) := by
  intro offset remaining enough
  rw [noneMistaken_member]
  rcases word_or_text python value with ⟨word, rfl⟩ | ⟨text, isText⟩
  · rw [tokenFields_word] at enough ⊢
    rw [collectFields_word name behindName beforeValue ends]
    exact reads enough
  · rw [tokenFields_text name behindName beforeValue isText] at enough ⊢
    rw [List.length_cons] at enough
    obtain ⟨fewer, rfl⟩ := Nat.exists_eq_add_one_of_ne_zero
      (Nat.pos_iff_ne_zero.mp (Nat.zero_lt_of_lt enough))
    rw [collectFields_text name behindName beforeValue isText converts ends,
      ← reads (Nat.lt_of_succ_lt_succ enough)]
    simp

/-- The closing quote of a string dangles. -/
theorem ReadsDangling.closing
    {tokens : List Token}
    (dangles : ReadsDangling python tokens)
    {offset remaining : Nat}
    (enough : (tokenFields python (offset + 1) tokens).length < remaining) :
    collectFields python remaining
        (jsonMatchesFrom 0 offset (34 :: tokensBytes tokens)) =
        some (tokenFields python (offset + 1) tokens) ↔
      noneMistaken true tokens :=
  @dangles [] offset remaining (by nofun) enough

theorem ReadsTokens.loose
    {string : JsonString}
    {rest : List Token}
    (noValue : matchValue? (tokensBytes rest) = none)
    (dangles : ReadsDangling python rest) :
    ReadsTokens python (.loose string :: rest) := by
  intro offset remaining enough
  rw [tokenFields_loose] at enough ⊢
  rw [tokensBytes_cons, Token.bytes, jsonMatchesFrom_loose noValue,
    noneMistaken_loose]
  exact dangles.closing enough

theorem ReadsTokens.byte
    {value : UInt8}
    {rest : List Token}
    (isGap : isGapByte value)
    (reads : ReadsTokens python rest) :
    ReadsTokens python (.byte value :: rest) := by
  intro offset remaining enough
  have noQuote : 34 ∉ [value] := by
    rw [List.mem_singleton]
    rintro rfl
    exact absurd isGap (by decide)
  rw [tokensBytes_cons, Token.bytes, jsonMatchesFrom_noQuote noQuote,
    noneMistaken_byte, Bool.false_and]
  exact reads enough

/-! ## From a dangling quote -/

theorem JsonString.bytes_append (front rest : JsonString) :
    JsonString.bytes (front ++ rest) = front.bytes ++ rest.bytes := by
  simp [JsonString.bytes, content]

theorem ReadsDangling.nil : ReadsDangling python [] := by
  intro gap offset remaining isPlain enough
  have noMatch : jsonMatchAt (34 :: (gap.bytes ++ [])) = none := by
    refine jsonMatchAt_noString ?_
    rw [stringTail?_plain isPlain]
    rfl
  rw [tokensBytes_nil, jsonMatchesFrom_gap isPlain noMatch]
  cases remaining with
  | zero => cases enough
  | succ remaining => simp [jsonMatchesFrom, tokenFields]

theorem ReadsDangling.byte
    {value : UInt8}
    {rest : List Token}
    (isGap : isGapByte value)
    (reads : ReadsTokens python rest)
    (dangles : ReadsDangling python rest) :
    ReadsDangling python (.byte value :: rest) := by
  intro gap offset remaining isPlain enough
  by_cases notControl : 32 ≤ value
  · have isPlainByte := isPlainByte_of_gap isGap notControl
    obtain ⟨more, isMore⟩ :
        ∃ string : JsonString, string.bytes = [value] :=
      exists_string (List.forall_mem_singleton.mpr ⟨isGap, notControl⟩)
    have longer :
        JsonString.bytes (gap ++ more) = gap.bytes ++ [value] := by
      rw [JsonString.bytes_append, isMore]
    have size :
        offset + 1 + (JsonString.bytes (gap ++ more)).length =
          offset + 1 + gap.bytes.length + 1 := by
      rw [longer, List.length_append, ← Nat.add_assoc]
      rfl
    have stillPlain :
        ∀ byte ∈ JsonString.bytes (gap ++ more), PacketAudit.isPlainByte byte := by
      rw [longer]
      exact List.forall_mem_append.mpr
        ⟨isPlain, List.forall_mem_singleton.mpr isPlainByte⟩
    have reading := @dangles (gap ++ more) offset remaining stillPlain
    rw [size, longer, List.append_assoc] at reading
    rw [noneMistaken_byte, decide_eq_true notControl, Bool.true_and]
    exact reading enough
  · have noMatch :
        jsonMatchAt (34 :: (gap.bytes ++ tokensBytes (.byte value :: rest))) =
          none := by
      refine jsonMatchAt_noString ?_
      rw [stringTail?_plain isPlain, tokensBytes_cons, Token.bytes,
        List.singleton_append,
        stringTail?_control (UInt8.not_le.mp notControl)]
      rfl
    rw [jsonMatchesFrom_gap isPlain noMatch, noneMistaken_byte,
      decide_eq_false notControl, Bool.and_false]
    have reading := ReadsTokens.byte isGap reads enough
    rw [noneMistaken_byte, Bool.false_and] at reading
    exact reading

/-- A string that shows no value is read from its own quote. -/
theorem jsonMatchesFrom_noValue
    {gap string : JsonString}
    (isPlain : ∀ byte ∈ gap.bytes, isPlainByte byte)
    {after : Bytes}
    (noValue : matchValue? (string.bytes ++ 34 :: after) = none)
    (offset : Nat) :
    jsonMatchesFrom 0 offset
        (34 :: (gap.bytes ++ 34 :: (string.bytes ++ 34 :: after))) =
      jsonMatchesFrom 0 (offset + 1 + gap.bytes.length)
        (34 :: (string.bytes ++ 34 :: after)) := by
  refine jsonMatchesFrom_gap isPlain ?_ offset
  rw [jsonMatchAt_content, noValue]
  rfl

theorem ReadsDangling.loose
    {string : JsonString}
    {rest : List Token}
    (noValue : matchValue? (tokensBytes rest) = none)
    (later : Regular rest)
    (dangles : ReadsDangling python rest) :
    ReadsDangling python (.loose string :: rest) := by
  intro gap offset remaining isPlain enough
  have regular : Regular (.loose string :: rest) := .loose noValue later
  have noZero := regular.noZero
  have aligned := ReadsTokens.loose noValue dangles enough
  have behind :
      ∀ field ∈
          tokenFields python (offset + 1 + gap.bytes.length)
            (.loose string :: rest),
        offset + gap.bytes.length + string.bytes.length + 2 <
          field.start := by
    intro field member
    rw [tokenFields_loose] at member
    have isBehind := lt_tokenFields_start member
    omega
  have positive : 0 < remaining := Nat.zero_lt_of_lt enough
  rw [noneMistaken_loose] at aligned
  rw [noneMistaken_dangling_loose]
  rw [tokensBytes_loose] at aligned noZero ⊢
  rw [List.forall_mem_cons] at noZero
  cases mistaken string (tokensBytes rest) with
  | other shows noValue =>
      rw [jsonMatchesFrom_noValue isPlain noValue, shows]
      exact aligned
  | number shows isValue inside begins isNumber =>
      rw [shows]
      refine iff_of_false ?_ (by simp)
      refine not_collected isValue (Nat.le_of_lt inside) ?_ noZero.2 behind
        positive
      rw [begins]
      rintro _ ⟨⟩
      exact .inr isNumber
  | quote shows isValue =>
      have follows := later.isSome_stringTail?
      rw [shows]
      cases isString : stringTail? (tokensBytes rest) with
      | none =>
          rw [isString] at isValue follows
          simp only [← follows, Option.isSome_none, Bool.not_false,
            Bool.true_and]
          rw [jsonMatchesFrom_noValue isPlain isValue]
          exact aligned
      | some length =>
          rw [isString] at isValue follows
          refine iff_of_false ?_ (by simp [← follows])
          refine not_collected isValue (Nat.le_refl _) ?_ noZero.2 behind
            positive
          rw [List.drop_left]
          rintro _ ⟨⟩
          exact .inl rfl
  | @word front _ rear word shows isValue shape split =>
      have size := congrArg List.length shape
      simp only [List.length_append] at size
      have position :
          offset + gap.bytes.length + 2 + front.length +
              (encodeUtf8 word.chars).length + rear.bytes.length + 1 =
            offset + 1 + gap.bytes.length + string.bytes.length + 2 := by
        omega
      rw [tokenFields_loose] at enough ⊢
      rw [shows, collectFields_literal isValue shape,
        jsonMatchesFrom_content noValue]
      rw [← position] at enough ⊢
      exact dangles.closing enough

/-! ## A member behind a dangling quote -/

/-- Behind a name that shows a colon and nothing else, a string may follow. -/
theorem noneMistaken_quote
    {name : JsonString}
    (shows : opening name.bytes = .quote)
    (behindName beforeValue : Spaces)
    (value : Scalar)
    {rest : List Token}
    (later : Regular rest) :
    noneMistaken true (.member name behindName beforeValue value :: rest) =
      (!(stringTail? (colonBytes behindName beforeValue ++
          (encodeUtf8 value.chars ++ tokensBytes rest))).isSome &&
        noneMistaken false rest) := by
  have isGap := isGapByte_colonBytes behindName beforeValue
  have follows := later.isSome_stringTail?
  have beyond
      (isLiteral :
        ∀ byte ∈ encodeUtf8 value.chars, isGapByte byte ∧ 32 ≤ byte) :
      (stringTail? (encodeUtf8 value.chars ++ tokensBytes rest)).isSome =
        quoteFollows rest := by
    rw [← follows, stringTail?_plain, Option.isSome_map]
    intro byte member
    exact isPlainByte_of_gap (isLiteral byte member).1 (isLiteral byte member).2
  rw [noneMistaken_dangling_member]
  simp only [shows]
  cases unbroken : behindName.noControl && beforeValue.noControl with
  | false =>
      have broken : ¬ ∀ byte ∈ colonBytes behindName beforeValue, 32 ≤ byte := by
        rw [← unbroken_iff, unbroken]
        exact Bool.false_ne_true
      rw [stringTail?_broken isGap broken]
      cases value <;> simp
  | true =>
      have notControl := (unbroken_iff behindName beforeValue).mp unbroken
      have isPlain : ∀ byte ∈ colonBytes behindName beforeValue,
          isPlainByte byte :=
        fun byte member =>
          isPlainByte_of_gap (isGap byte member) (notControl byte member)
      rw [stringTail?_plain isPlain, Option.isSome_map]
      cases value with
      | string value =>
          rw [Scalar.chars, value.encodeUtf8_chars]
          simp [stringTail?]
      | number value =>
          rw [beyond (isPlainByte_number value)]
          simp
      | word value =>
          rw [beyond (isPlainByte_word value)]
          simp

/-- An escape that is no pair of surrogates separates what is around it. -/
theorem joinSurrogates_append
    (front : List CodeUnit)
    (code : Nat)
    (rest : List CodeUnit) :
    joinSurrogates (front ++ ⟨code, false⟩ :: rest) =
      joinSurrogates front ++ code :: joinSurrogates rest := by
  induction front using joinSurrogates.induct with
  | case1 high low front isPair inductionHypothesis =>
      simp only [List.cons_append, joinSurrogates, isPair, and_self, if_true,
        inductionHypothesis]
  | case2 high low front noPair inductionHypothesis =>
      rw [List.cons_append] at inductionHypothesis
      rw [List.cons_append, List.cons_append, joinSurrogates, if_neg noPair,
        inductionHypothesis, joinSurrogates, if_neg noPair]
      rfl
  | case3 last =>
      rw [List.singleton_append, joinSurrogates, if_neg (by simp)]
      cases rest with
      | nil => rfl
      | cons next rest =>
          rw [joinSurrogates, if_neg (by simp)]
          rfl
  | case4 =>
      cases rest with
      | nil => rfl
      | cons next rest =>
          rw [List.nil_append, joinSurrogates, if_neg (by simp)]
          rfl

/-- The first escaped quote in a string. -/
theorem exists_escapedQuote
    {string : JsonString}
    (hasQuote : 34 ∈ string.bytes) :
    ∃ front rear : JsonString,
      string = front ++ .short .quote :: rear ∧ 34 ∉ front.bytes := by
  induction string with
  | nil => cases hasQuote
  | cons unit string inductionHypothesis =>
      by_cases isQuote : unit = .short .quote
      · exact ⟨[], string, by rw [isQuote]; rfl, by nofun⟩
      have noQuote : 34 ∉ encodeUtf8 unit.chars := by
        cases unit with
        | plain plain =>
            refine noQuote_of_plain ?_
            rw [JsonUnit.chars, encodeUtf8_cons, encodeUtf8_nil,
              List.append_nil]
            exact plain.bytes
        | short escape =>
            cases escape with
            | quote => exact absurd rfl isQuote
            | _ => decide
        | unicode first second third fourth =>
            have digit (hex : HexDigit) :
                34 ≠ UInt8.ofNat hex.char.toNat := by
              intro same
              have isPlain := hex.isAscii.2
              rw [← same] at isPlain
              exact absurd isPlain (by decide)
            rw [JsonUnit.chars, encodeUtf8_ascii (by decide),
              encodeUtf8_ascii (by decide), encodeUtf8_ascii first.isAscii.1,
              encodeUtf8_ascii second.isAscii.1,
              encodeUtf8_ascii third.isAscii.1,
              encodeUtf8_ascii fourth.isAscii.1]
            simp [digit]
      rw [JsonString.bytes_cons, List.mem_append] at hasQuote
      obtain ⟨front, rear, split, isFirst⟩ :=
        inductionHypothesis (hasQuote.resolve_left noQuote)
      refine ⟨unit :: front, rear, by rw [split]; rfl, ?_⟩
      rw [JsonString.bytes_cons, List.mem_append, not_or]
      exact ⟨noQuote, isFirst⟩

/-- What stands before an escaped quote counts. -/
theorem length_text_rear (front rear : JsonString) :
    rear.text.length <
      (JsonString.text (front ++ .short .quote :: rear)).length := by
  have shape :
      JsonString.text (front ++ .short .quote :: rear) =
        front.text ++ 34 :: rear.text := by
    simp only [JsonString.text, List.map_append, List.map_cons]
    exact joinSurrogates_append _ 34 _
  rw [shape, List.length_append, List.length_cons]
  omega

/--
A name that shows a literal has its member read from an escaped quote behind
the literal, with a shorter name, or not at all.
-/
theorem ReadsDangling.member_word
    {gap name front rear : JsonString}
    {shown : Bytes}
    {word : JsonWord}
    {behindName beforeValue : Spaces}
    {value : Scalar}
    {rest : List Token}
    (converts : value.Converts)
    (ends : NumberEnds ((tokensBytes rest).map UInt8.toNat))
    (reads : ReadsTokens python rest)
    (dangles : ReadsDangling python rest)
    (shows : opening name.bytes = .word rear.bytes)
    (isValue :
      matchValue?
          (name.bytes ++ 34 :: (colonBytes behindName beforeValue ++
            (encodeUtf8 value.chars ++ tokensBytes rest))) =
        some (shown.length, (encodeUtf8 word.chars).length))
    (shape :
      name.bytes = shown ++ (encodeUtf8 word.chars ++ rear.bytes))
    (split : name = front ++ rear)
    {offset remaining : Nat}
    (enough :
      (tokenFields python (offset + 1 + gap.bytes.length)
        (.member name behindName beforeValue value :: rest)).length <
          remaining) :
    collectFields python remaining
        (jsonMatchesFrom 0 offset
          (34 :: (gap.bytes ++ tokensBytes
            (.member name behindName beforeValue value :: rest)))) =
        some (tokenFields python (offset + 1 + gap.bytes.length)
          (.member name behindName beforeValue value :: rest)) ↔
      noneMistaken true
        (.member name behindName beforeValue value :: rest) := by
  have size := congrArg List.length shape
  simp only [List.length_append] at size
  rw [noneMistaken_dangling_member]
  simp only [shows]
  rw [tokensBytes_scalarMember, collectFields_literal isValue shape]
  by_cases hasQuote : 34 ∈ rear.bytes
  · -- The member is read from an escaped quote of its name.
    obtain ⟨between, shorter, isRear, noQuote⟩ := exists_escapedQuote hasQuote
    have isBytes :
        rear.bytes = between.bytes ++ 92 :: 34 :: shorter.bytes := by
      rw [isRear, JsonString.bytes_append, JsonString.bytes_cons,
        JsonUnit.chars, encodeUtf8_ascii (by decide),
        encodeUtf8_ascii (by decide)]
      rfl
    have covered :
        rear.bytes ++ 34 :: (colonBytes behindName beforeValue ++
            (encodeUtf8 value.chars ++ tokensBytes rest)) =
          (between.bytes ++ [92]) ++ tokensBytes
            (.member shorter behindName beforeValue value :: rest) := by
      rw [tokensBytes_scalarMember, isBytes]
      simp
    have noQuote : 34 ∉ between.bytes ++ [92] := by
      rw [List.mem_append, not_or]
      exact ⟨noQuote, by decide⟩
    have rearSize := congrArg List.length isBytes
    simp only [List.length_append, List.length_cons] at rearSize
    have position :
        offset + gap.bytes.length + 2 + shown.length +
              (encodeUtf8 word.chars).length +
            (between.bytes ++ [92]).length +
              byteSize (nameChars shorter behindName beforeValue) =
          offset + 1 + gap.bytes.length +
            byteSize (nameChars name behindName beforeValue) := by
      rw [length_nameBytes, length_nameBytes, List.length_append,
        List.length_singleton]
      omega
    rw [covered, jsonMatchesFrom_noQuote noQuote]
    rcases word_or_text python value with ⟨literal, rfl⟩ | ⟨text, isText⟩
    · have memberEnd :
          offset + gap.bytes.length + 2 + shown.length +
                (encodeUtf8 word.chars).length +
              (between.bytes ++ [92]).length +
                (Token.member shorter behindName beforeValue
                  (.word literal)).bytes.length =
            offset + 1 + gap.bytes.length +
              (Token.member name behindName beforeValue
                (.word literal)).bytes.length := by
        simp only [Token.bytes, List.length_append] at position ⊢
        rw [byteSize, byteSize] at position
        omega
      rw [tokenFields_word] at enough ⊢
      rw [collectFields_word shorter behindName beforeValue ends, memberEnd]
      simp only [hasQuote, not_true_eq_false, decide_false, Bool.false_and]
      exact reads enough
    · have notRead :
          ¬ collectFields python remaining
              (jsonMatchesFrom 0
                (offset + gap.bytes.length + 2 + shown.length +
                  (encodeUtf8 word.chars).length +
                    (between.bytes ++ [92]).length)
                (tokensBytes
                  (.member shorter behindName beforeValue value :: rest))) =
            some (tokenFields python (offset + 1 + gap.bytes.length)
              (.member name behindName beforeValue value :: rest)) := by
        obtain ⟨fewer, rfl⟩ := Nat.exists_eq_add_one_of_ne_zero
          (Nat.pos_iff_ne_zero.mp (Nat.zero_lt_of_lt enough))
        rw [collectFields_text shorter behindName beforeValue isText converts
            ends,
          tokenFields_text name behindName beforeValue isText,
          Option.map_eq_some_iff]
        rintro ⟨others, -, same⟩
        have sameName : shorter.text = name.text := by
          injection same with isField
          exact congrArg Field.name isField
        have isShorter := length_text_rear (front ++ between) shorter
        rw [List.append_assoc, ← isRear, ← split, sameName] at isShorter
        exact Nat.lt_irrefl _ isShorter
      cases value with
      | word literal => cases isText
      | number _ | string _ => exact iff_of_false notRead Bool.false_ne_true
  · rw [jsonMatchesFrom_noQuote hasQuote]
    have isGap := isGapByte_colonBytes behindName beforeValue
    have noQuote : 34 ∉ colonBytes behindName beforeValue := by
      intro isQuote
      exact absurd (isGap 34 isQuote) (by decide)
    have position :
        offset + gap.bytes.length + 2 + shown.length +
              (encodeUtf8 word.chars).length + rear.bytes.length + 1 +
            (colonBytes behindName beforeValue).length =
          offset + 1 + gap.bytes.length +
            byteSize (nameChars name behindName beforeValue) := by
      rw [length_nameBytes]
      omega
    rcases word_or_text python value with ⟨literal, rfl⟩ | ⟨text, isText⟩
    · have isLiteral := isPlainByte_word literal
      have memberEnd :
          offset + gap.bytes.length + 2 + shown.length +
                (encodeUtf8 word.chars).length + rear.bytes.length + 1 +
              (colonBytes behindName beforeValue ++
                encodeUtf8 literal.chars).length =
            offset + 1 + gap.bytes.length +
              (Token.member name behindName beforeValue
                (.word literal)).bytes.length := by
        have isBytes :
            (Token.member name behindName beforeValue
                (.word literal)).bytes.length =
              byteSize (nameChars name behindName beforeValue) +
                (encodeUtf8 literal.chars).length := by
          rw [Token.bytes, List.length_append]
          rfl
        rw [isBytes, List.length_append]
        omega
      rw [tokenFields_word] at enough ⊢
      rw [← memberEnd] at enough ⊢
      simp only [hasQuote, not_false_eq_true, decide_true, Bool.true_and,
        Scalar.chars]
      rw [← List.append_assoc]
      cases unbroken : behindName.noControl && beforeValue.noControl with
      | true =>
          -- The closing quote of the name dangles.
          have notControl := (unbroken_iff behindName beforeValue).mp unbroken
          obtain ⟨string, isBytes⟩ :
              ∃ string : JsonString,
                string.bytes =
                  colonBytes behindName beforeValue ++
                    encodeUtf8 literal.chars :=
            exists_string (List.forall_mem_append.mpr
              ⟨fun byte member =>
                ⟨isGap byte member, notControl byte member⟩, isLiteral⟩)
          have isPlain : ∀ byte ∈ string.bytes, isPlainByte byte := by
            rw [isBytes, List.forall_mem_append]
            exact ⟨fun byte member =>
              isPlainByte_of_gap (isGap byte member) (notControl byte member),
              fun byte member => isPlainByte_of_gap
                (isLiteral byte member).1 (isLiteral byte member).2⟩
          rw [← isBytes] at enough ⊢
          exact dangles isPlain enough
      | false =>
          have broken :
              ¬ ∀ byte ∈ colonBytes behindName beforeValue, 32 ≤ byte := by
            rw [← unbroken_iff, unbroken]
            exact Bool.false_ne_true
          have noMatch :
              jsonMatchAt
                  (34 :: ((colonBytes behindName beforeValue ++
                    encodeUtf8 literal.chars) ++ tokensBytes rest)) =
                none := by
            refine jsonMatchAt_noString ?_
            rw [List.append_assoc]
            exact stringTail?_broken isGap broken _
          have noQuoteThere :
              34 ∉ colonBytes behindName beforeValue ++
                encodeUtf8 literal.chars := by
            rw [List.mem_append, not_or]
            refine ⟨noQuote, fun isQuote => ?_⟩
            exact absurd (isLiteral 34 isQuote).1 (by decide)
          rw [jsonMatchesFrom_noMatch noMatch,
            jsonMatchesFrom_noQuote noQuoteThere]
          exact reads enough
    · have notRead :
          ¬ collectFields python remaining
              (jsonMatchesFrom 0
                (offset + gap.bytes.length + 2 + shown.length +
                  (encodeUtf8 word.chars).length + rear.bytes.length)
                (34 :: (colonBytes behindName beforeValue ++
                  (encodeUtf8 value.chars ++ tokensBytes rest)))) =
            some (tokenFields python (offset + 1 + gap.bytes.length)
              (.member name behindName beforeValue value :: rest)) := by
        rw [tokenFields_text name behindName beforeValue isText]
        intro collected
        obtain ⟨source, isMatch, isStart⟩ :=
          exists_match collected (List.mem_cons_self ..)
        have beyond := lt_valueStart_of_noQuote noQuote isMatch
        simp only at isStart
        omega
      cases value with
      | word literal => cases isText
      | number _ | string _ => exact iff_of_false notRead Bool.false_ne_true

theorem ReadsDangling.member
    {name : JsonString}
    {behindName beforeValue : Spaces}
    {value : Scalar}
    {rest : List Token}
    (converts : value.Converts)
    (ends : NumberEnds ((tokensBytes rest).map UInt8.toNat))
    (later : Regular rest)
    (reads : ReadsTokens python rest)
    (dangles : ReadsDangling python rest) :
    ReadsDangling python
      (.member name behindName beforeValue value :: rest) := by
  intro gap offset remaining isPlain enough
  have regular :
      Regular (.member name behindName beforeValue value :: rest) :=
    .member converts ends later
  have noZero := regular.noZero
  have aligned := ReadsTokens.member converts ends reads enough
  have behind :
      ∀ field ∈
          tokenFields python (offset + 1 + gap.bytes.length)
            (.member name behindName beforeValue value :: rest),
        offset + gap.bytes.length + name.bytes.length + 2 <
          field.start := by
    intro field member
    rw [tokenFields] at member
    rcases List.mem_append.mp member with inToken | inRest
    · obtain ⟨text, -, rfl⟩ := List.mem_map.mp inToken
      simp only
      rw [length_nameBytes]
      omega
    · have isBehind := lt_tokenFields_start inRest
      have size := length_nameBytes name behindName beforeValue
      rw [byteSize] at size
      rw [Token.bytes, List.length_append] at isBehind
      omega
  have positive : 0 < remaining := Nat.zero_lt_of_lt enough
  cases mistaken name
      (colonBytes behindName beforeValue ++
        (encodeUtf8 value.chars ++ tokensBytes rest)) with
  | word shows isValue shape split =>
      exact member_word converts ends reads dangles shows isValue shape
        split enough
  | other shows noValue =>
      rw [noneMistaken_member] at aligned
      rw [noneMistaken_dangling_member]
      simp only [shows]
      rw [tokensBytes_scalarMember] at aligned ⊢
      rw [jsonMatchesFrom_noValue isPlain noValue]
      exact aligned
  | number shows isValue inside begins isNumber =>
      rw [noneMistaken_dangling_member]
      simp only [shows]
      rw [tokensBytes_scalarMember, List.forall_mem_cons] at noZero
      rw [tokensBytes_scalarMember]
      refine iff_of_false ?_ Bool.false_ne_true
      refine not_collected isValue (Nat.le_of_lt inside) ?_ noZero.2 behind
        positive
      rw [begins]
      rintro _ ⟨⟩
      exact .inr isNumber
  | quote shows isValue =>
      rw [noneMistaken_member] at aligned
      rw [noneMistaken_quote shows behindName beforeValue value later]
      rw [tokensBytes_scalarMember] at aligned ⊢
      rw [tokensBytes_scalarMember, List.forall_mem_cons] at noZero
      cases isString :
          stringTail? (colonBytes behindName beforeValue ++
            (encodeUtf8 value.chars ++ tokensBytes rest)) with
      | none =>
          rw [isString] at isValue
          rw [jsonMatchesFrom_noValue isPlain isValue]
          exact aligned
      | some length =>
          rw [isString] at isValue
          refine iff_of_false ?_ Bool.false_ne_true
          refine not_collected isValue (Nat.le_refl _) ?_ noZero.2 behind
            positive
          rw [List.drop_left]
          rintro _ ⟨⟩
          exact .inl rfl

/-- The search reads the tokens of a document right just if no quote is
mistaken. -/
theorem Regular.reads
    (python : PythonLibrary)
    {tokens : List Token}
    (regular : Regular tokens) :
    ReadsTokens python tokens ∧ ReadsDangling python tokens := by
  induction regular with
  | nil =>
      refine ⟨?_, ReadsDangling.nil⟩
      intro offset remaining enough
      cases remaining with
      | zero => cases enough
      | succ remaining =>
          simp [jsonMatchesFrom, tokenFields]
  | byte isGap later inductionHypothesis =>
      obtain ⟨reads, dangles⟩ := inductionHypothesis
      exact ⟨ReadsTokens.byte isGap reads,
        ReadsDangling.byte isGap reads dangles⟩
  | loose noValue later inductionHypothesis =>
      obtain ⟨-, dangles⟩ := inductionHypothesis
      exact ⟨ReadsTokens.loose noValue dangles,
        ReadsDangling.loose noValue later dangles⟩
  | member converts ends later inductionHypothesis =>
      obtain ⟨reads, dangles⟩ := inductionHypothesis
      exact ⟨ReadsTokens.member converts ends reads,
        ReadsDangling.member converts ends later reads dangles⟩

end Reading

end PacketAudit
