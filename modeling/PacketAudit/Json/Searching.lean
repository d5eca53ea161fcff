import PacketAudit.Json.Regular

namespace PacketAudit

/-!
# Matches and their fields

Where the matches of `_JSON_FIELD` lie, and what is known of the fields that
are collected from them.
-/

/-! ## The next quote -/

theorem isPlainByte_of_gap
    {byte : UInt8}
    (isGap : isGapByte byte)
    (notControl : 32 ≤ byte) :
    isPlainByte byte := by
  rw [isGapByte_iff] at isGap
  rw [isPlainByte_iff]
  exact ⟨UInt8.le_iff_toNat_le.mp notControl, isGap.2.2⟩

/-- A name does not reach beyond a control character. -/
theorem stringTail?_broken
    {bytes : Bytes}
    (isGap : ∀ byte ∈ bytes, isGapByte byte)
    (broken : ¬ ∀ byte ∈ bytes, 32 ≤ byte)
    (rest : Bytes) :
    stringTail? (bytes ++ rest) = none := by
  induction bytes with
  | nil => exact absurd (by nofun) broken
  | cons byte bytes inductionHypothesis =>
      rw [List.forall_mem_cons] at isGap broken
      by_cases notControl : 32 ≤ byte
      · have isPlain : ∀ found ∈ [byte], isPlainByte found :=
          List.forall_mem_singleton.mpr
            (isPlainByte_of_gap isGap.1 notControl)
        have later : ¬ ∀ byte ∈ bytes, 32 ≤ byte :=
          fun all => broken ⟨notControl, all⟩
        have step := stringTail?_plain isPlain (bytes ++ rest)
        rw [inductionHypothesis isGap.2 later] at step
        exact step
      · exact stringTail?_control (UInt8.not_le.mp notControl) _

/-- Whether a string is found from a dangling quote on. -/
theorem Regular.isSome_stringTail?
    {tokens : List Token}
    (regular : Regular tokens) :
    (stringTail? (tokensBytes tokens)).isSome = quoteFollows tokens := by
  induction regular with
  | nil => rfl
  | @byte value rest isGap later inductionHypothesis =>
      rw [quoteFollows, ← inductionHypothesis]
      by_cases notControl : 32 ≤ value
      · have isPlain : ∀ found ∈ [value], isPlainByte found :=
          List.forall_mem_singleton.mpr (isPlainByte_of_gap isGap notControl)
        rw [tokensBytes_cons, Token.bytes, stringTail?_plain isPlain,
          Option.isSome_map, decide_eq_true notControl, Bool.true_and]
      · rw [tokensBytes_cons, Token.bytes, List.singleton_append,
          stringTail?_control (UInt8.not_le.mp notControl),
          decide_eq_false notControl, Bool.false_and]
        rfl
  | @loose string rest noValue later inductionHypothesis =>
      rw [tokensBytes_cons, Token.bytes, string.encodeUtf8_chars]
      rfl
  | @member name behindName beforeValue value rest =>
      rw [tokensBytes_cons, Token.bytes, encodeUtf8_nameChars]
      rfl

theorem noControl_iff (spaces : Spaces) :
    spaces.noControl ↔ ∀ byte ∈ encodeUtf8 spaces.chars, 32 ≤ byte := by
  induction spaces with
  | nil => simp [Spaces.noControl, Spaces.chars]
  | cons blank spaces inductionHypothesis =>
      have isAscii : blank.char.toNat < 128 := by
        cases blank <;> decide
      have shape :
          encodeUtf8 (Spaces.chars (blank :: spaces)) =
            UInt8.ofNat blank.char.toNat ::
              encodeUtf8 (Spaces.chars spaces) :=
        encodeUtf8_ascii isAscii _
      rw [shape, List.forall_mem_cons, ← inductionHypothesis]
      simp only [Spaces.noControl, List.all_cons, Bool.and_eq_true]
      cases blank <;> simp [Space.char]

/-- No control character stands between a name and its value. -/
theorem unbroken_iff (behindName beforeValue : Spaces) :
    (behindName.noControl && beforeValue.noControl) = true ↔
      ∀ byte ∈ colonBytes behindName beforeValue, 32 ≤ byte := by
  rw [Bool.and_eq_true, noControl_iff, noControl_iff, colonBytes,
    List.forall_mem_append, List.forall_mem_cons]
  simp

theorem isGapByte_colonBytes (behindName beforeValue : Spaces) :
    ∀ byte ∈ colonBytes behindName beforeValue, isGapByte byte :=
  List.forall_mem_append.mpr ⟨(GapChars.spaces behindName).bytes,
    List.forall_mem_cons.mpr ⟨by decide, (GapChars.spaces beforeValue).bytes⟩⟩

/-- Numbers and words are plain bytes. -/
theorem isPlainByte_literal
    {chars : List Char}
    (isLiteral :
      ∀ character ∈ chars,
        32 ≤ character.toNat ∧ character.toNat < 128 ∧
          character.toNat ≠ 34 ∧ character.toNat ≠ 92) :
    ∀ byte ∈ encodeUtf8 chars, isGapByte byte ∧ 32 ≤ byte := by
  have isGap : GapChars chars := by
    intro character member
    obtain ⟨notControl, isAscii, isNot⟩ := isLiteral character member
    exact ⟨by omega, isAscii, isNot⟩
  intro byte member
  refine ⟨isGap.bytes byte member, ?_⟩
  obtain ⟨character, inChars, inBytes⟩ := List.mem_flatMap.mp member
  obtain ⟨notControl, isAscii, -⟩ := isLiteral character inChars
  rw [utf8EncodeChar_of_ascii isAscii, List.mem_singleton] at inBytes
  rw [inBytes, UInt8.le_iff_toNat_le, UInt8.toNat_ofNat',
    Nat.mod_eq_of_lt (by omega)]
  exact notControl

theorem isPlainByte_word (word : JsonWord) :
    ∀ byte ∈ encodeUtf8 word.chars, isGapByte byte ∧ 32 ≤ byte :=
  isPlainByte_literal (by cases word <;> simp [JsonWord.chars])

theorem isPlainByte_number (number : JsonNumber) :
    ∀ byte ∈ encodeUtf8 number.chars, isGapByte byte ∧ 32 ≤ byte := by
  refine isPlainByte_literal
    (number.forall_chars (fun digit => ?_) (by simp))
  have isDigit := isDigitCode_digitChar digit
  simp only [isDigitCode, Bool.and_eq_true, decide_eq_true_eq] at isDigit
  omega

/-- Such bytes are the content of a string. -/
theorem exists_string
    {bytes : Bytes}
    (isPlain : ∀ byte ∈ bytes, isGapByte byte ∧ 32 ≤ byte) :
    ∃ string : JsonString, string.bytes = bytes := by
  induction bytes with
  | nil => exact ⟨[], rfl⟩
  | cons byte bytes inductionHypothesis =>
      rw [List.forall_mem_cons] at isPlain
      obtain ⟨⟨isGap, notControl⟩, others⟩ := isPlain
      obtain ⟨string, isBytes⟩ := inductionHypothesis others
      rw [isGapByte_iff] at isGap
      have isCode := toNat_ofNat_ascii isGap.2.1
      have isUnit :
          32 ≤ (Char.ofNat byte.toNat).toNat ∧
            Char.ofNat byte.toNat ≠ '"' ∧
            Char.ofNat byte.toNat ≠ '\\' := by
        refine ⟨?_, fun same => ?_, fun same => ?_⟩
        · rw [isCode]
          exact UInt8.le_iff_toNat_le.mp notControl
        · rw [same] at isCode
          exact isGap.2.2.1 isCode.symm
        · rw [same] at isCode
          exact isGap.2.2.2 isCode.symm
      refine ⟨.plain ⟨_, isUnit.1, isUnit.2.1, isUnit.2.2⟩ :: string, ?_⟩
      rw [JsonString.bytes_cons, JsonUnit.chars,
        encodeUtf8_ascii (by rw [isCode]; exact isGap.2.1), isCode, isBytes,
        UInt8.ofNat_toNat]
      rfl

/-- Names and values hold no zero bytes. -/
theorem Regular.noZero
    {tokens : List Token}
    (regular : Regular tokens) :
    ∀ byte ∈ tokensBytes tokens, byte ≠ 0 := by
  induction regular with
  | nil => nofun
  | @byte value rest isGap later inductionHypothesis =>
      refine List.forall_mem_cons.mpr ⟨?_, inductionHypothesis⟩
      rintro rfl
      exact absurd isGap (by decide)
  | @loose string rest noValue later inductionHypothesis =>
      exact List.forall_mem_append.mpr
        ⟨(AllPrinted.string string).bytes, inductionHypothesis⟩
  | @member name behindName beforeValue value rest converts ends later
      inductionHypothesis =>
      exact List.forall_mem_append.mpr
        ⟨List.forall_mem_append.mpr
          ⟨(AllPrinted.name name behindName beforeValue).bytes,
            (AllPrinted.scalar value).bytes⟩,
          inductionHypothesis⟩

/-! ## Where matches lie -/

/-- A match takes what it covers. -/
theorem jsonMatchesFrom_found
    {front rest : Bytes}
    {found : JsonMatch}
    (isMatch : jsonMatchAt (front ++ rest) = some found)
    (size : front.length = found.stop)
    (nonempty : front ≠ [])
    (offset : Nat) :
    jsonMatchesFrom 0 offset (front ++ rest) =
      { found with valueStart := offset + found.valueStart } ::
        jsonMatchesFrom 0 (offset + front.length) rest := by
  obtain ⟨first, front, rfl⟩ := List.exists_cons_of_ne_nil nonempty
  rw [List.length_cons] at size
  have skip : found.stop - 1 = front.length := by
    omega
  rw [List.cons_append] at isMatch ⊢
  rw [jsonMatchesFrom, isMatch]
  simp only
  rw [skip, jsonMatchesFrom_skip, List.length_cons, Nat.add_assoc,
    Nat.add_comm 1]

theorem jsonMatchAt_some
    {data : Bytes}
    {found : JsonMatch}
    (isMatch : jsonMatchAt data = some found) :
    ∃ tail length,
      data = 34 :: tail ∧ stringTail? tail = some length ∧
        length < found.valueStart := by
  unfold jsonMatchAt at isMatch
  split at isMatch
  case h_1 tail =>
    split at isMatch
    case h_1 => cases isMatch
    case h_2 length isLength =>
      obtain ⟨value, -, rfl⟩ := Option.map_eq_some_iff.mp isMatch
      exact ⟨tail, length, rfl, isLength, by simp only; omega⟩
  case h_2 => cases isMatch

/-- Values start behind the bytes that are skipped. -/
theorem lt_valueStart
    {skip offset : Nat}
    {data : Bytes}
    {found : JsonMatch}
    (member : found ∈ jsonMatchesFrom skip offset data) :
    offset + skip < found.valueStart := by
  induction data generalizing skip offset with
  | nil => cases skip <;> cases member
  | cons byte rest inductionHypothesis =>
      cases skip with
      | succ skip =>
          have behind := inductionHypothesis member
          omega
      | zero =>
          rw [jsonMatchesFrom] at member
          split at member
          case h_1 =>
            have behind := inductionHypothesis member
            omega
          case h_2 first isMatch =>
            obtain ⟨-, _, -, -, positive⟩ := jsonMatchAt_some isMatch
            rcases List.mem_cons.mp member with rfl | inRest
            · simp only
              omega
            · have behind := inductionHypothesis inRest
              omega

theorem lt_stringTail?
    {front rest : Bytes}
    {length : Nat}
    (noQuote : 34 ∉ front)
    (found : stringTail? (front ++ rest) = some length) :
    front.length < length := by
  generalize shape : front ++ rest = data at found
  induction data using stringTail?.induct generalizing front length with
  | case1 rest =>
      cases front with
      | nil =>
          cases found
          exact Nat.one_pos
      | cons first front =>
          cases shape
          exact absurd (by simp) noQuote
  | case2 rest => cases found
  | case3 escaped rest noNewline inductionHypothesis =>
      rw [stringTail?, if_neg noNewline, Option.map_eq_some_iff] at found
      obtain ⟨behind, isBehind, rfl⟩ := found
      rcases front with _ | ⟨_, _ | ⟨_, front⟩⟩
      · simp
      · simp
      · cases shape
        rw [List.mem_cons, List.mem_cons, not_or, not_or] at noQuote
        have beyond := inductionHypothesis noQuote.2.2 rfl isBehind
        simp only [List.length_cons]
        omega
  | case4 => cases found
  | case5 byte rest _ _ _ isControl =>
      rw [stringTail?_control isControl] at found
      cases found
  | case6 byte rest noQuoteHere noEscape noBackslash isControl
      inductionHypothesis =>
      rw [stringTail?] at found
      · rw [if_neg isControl, Option.map_eq_some_iff] at found
        obtain ⟨behind, isBehind, rfl⟩ := found
        cases front with
        | nil => simp
        | cons first front =>
            cases shape
            rw [List.mem_cons, not_or] at noQuote
            have beyond := inductionHypothesis noQuote.2 rfl isBehind
            rw [List.length_cons]
            omega
      all_goals assumption
  | case7 => cases found

/-- A value that follows a quote starts behind the next one. -/
theorem lt_valueStart_of_noQuote
    {front rest : Bytes}
    {offset : Nat}
    {found : JsonMatch}
    (noQuote : 34 ∉ front)
    (member : found ∈ jsonMatchesFrom 0 offset (34 :: (front ++ rest))) :
    offset + 1 + front.length < found.valueStart := by
  cases isMatch : jsonMatchAt (34 :: (front ++ rest)) with
  | none =>
      rw [jsonMatchesFrom_noMatch isMatch, jsonMatchesFrom_noQuote noQuote]
        at member
      have behind := lt_valueStart member
      omega
  | some first =>
      obtain ⟨tail, length, shape, isLength, isBehind⟩ :=
        jsonMatchAt_some isMatch
      cases shape
      have beyond := lt_stringTail? noQuote isLength
      rw [jsonMatchesFrom, isMatch] at member
      rcases List.mem_cons.mp member with rfl | inRest
      · simp only
        omega
      · have behind := lt_valueStart inRest
        rw [JsonMatch.stop] at behind
        omega

/-! ## Collected fields -/

section Collected

variable {python : PythonLibrary}

/-- Each field is one of a match. -/
theorem exists_match
    {remaining : Nat}
    {found : List JsonMatch}
    {fields : List Field}
    (collected : collectFields python remaining found = some fields)
    {field : Field}
    (member : field ∈ fields) :
    ∃ source ∈ found, field.start = source.valueStart := by
  induction found generalizing remaining fields with
  | nil =>
      cases remaining <;> cases collected <;> cases member
  | cons source found inductionHypothesis =>
      cases remaining with
      | zero =>
          cases collected
          cases member
      | succ remaining =>
          rw [collectFields_cons] at collected
          split at collected
          case h_1 => cases collected
          case h_2 =>
            obtain ⟨other, inFound, isStart⟩ :=
              inductionHypothesis collected member
            exact ⟨other, List.mem_cons_of_mem _ inFound, isStart⟩
          case h_3 first appends =>
            obtain ⟨others, isOthers, rfl⟩ :=
              Option.map_eq_some_iff.mp collected
            rcases List.mem_cons.mp member with rfl | inOthers
            · exact ⟨source, by simp, (jsonStep_append appends).1⟩
            · obtain ⟨other, inFound, isStart⟩ :=
                inductionHypothesis isOthers inOthers
              exact ⟨other, List.mem_cons_of_mem _ inFound, isStart⟩

/-- A match that is not passed over has a field. -/
theorem exists_field
    {remaining : Nat}
    {source : JsonMatch}
    {found : List JsonMatch}
    {fields : List Field}
    (noSkip : jsonStep python source ≠ .skip)
    (collected :
      collectFields python (remaining + 1) (source :: found) =
        some fields) :
    ∃ field others,
      fields = field :: others ∧ field.start = source.valueStart ∧
        loads python source.name = some (.string field.name) := by
  rw [collectFields_cons] at collected
  split at collected
  case h_1 => cases collected
  case h_2 skips => exact absurd skips noSkip
  case h_3 field appends =>
    obtain ⟨others, -, rfl⟩ := Option.map_eq_some_iff.mp collected
    exact ⟨field, others, rfl, jsonStep_append appends⟩

/-- The fields of tokens start behind the first quote. -/
theorem lt_tokenFields_start
    {tokens : List Token}
    {offset : Nat}
    {field : Field}
    (member : field ∈ tokenFields python offset tokens) :
    offset < field.start := by
  induction tokens generalizing offset with
  | nil => cases member
  | cons token tokens inductionHypothesis =>
      rw [tokenFields] at member
      rcases List.mem_append.mp member with inToken | inTokens
      · cases token with
        | byte value => cases inToken
        | loose string => cases inToken
        | member name behindName beforeValue value =>
            obtain ⟨text, -, rfl⟩ := List.mem_map.mp inToken
            simp only
            rw [length_nameBytes]
            omega
      · have behind := inductionHypothesis inTokens
        omega

end Collected

end PacketAudit
