import PacketAudit.Json.Dumps

namespace PacketAudit

/-!
# What is written is read back

The text of a value is that of a document, and the document spells the value.
-/

/-! ## Code points -/

/-- Every code point is that of a character: there is no lone surrogate. -/
def AllChars (text : Text) : Prop :=
  ∀ code ∈ text, code.isValidChar

theorem toNat_ofNat
    {code : Nat}
    (isValid : code.isValidChar) :
    (Char.ofNat code).toNat = code := by
  rw [Char.ofNat, dif_pos isValid]
  exact Char.toNat_ofNatAux isValid

theorem ofNat_codes (chars : List Char) :
    (codes chars).map Char.ofNat = chars := by
  unfold codes
  rw [List.map_map]
  conv_rhs => rw [← List.map_id chars]
  exact List.map_congr_left fun character _ => Char.ofNat_toNat character

theorem allChars_codes (chars : List Char) : AllChars (codes chars) := by
  intro code member
  obtain ⟨character, -, rfl⟩ := List.mem_map.mp member
  exact character.valid

/-- A text without surrogates is encoded as its characters. -/
theorem encodeText_codes (chars : List Char) :
    encodeText (codes chars) = some (encodeUtf8 chars) := by
  rw [encodeText, if_pos, ofNat_codes]
  rw [List.all_eq_true]
  intro code member
  exact decide_eq_true (allChars_codes chars code member)

theorem encodeText_isSome {text : Text} :
    (encodeText text).isSome ↔ AllChars text := by
  unfold encodeText AllChars
  split
  case isTrue all => simpa using all
  case isFalse notAll => simpa using notAll

/-! ## Strings -/

theorem lowerHex_eq :
    ∀ value : Fin 16,
      (HexDigit.mk value false).char.toNat = lowerHex value := by
  decide

/-- What is written for a code point is a unit that is read as that. -/
theorem exists_unit
    {code : Nat}
    (isValid : code.isValidChar) :
    ∃ written : JsonUnit,
      codes written.chars = escapeCode code ∧
        written.codeUnit.code = code ∧
        (written.codeUnit.escaped → code < 32) := by
  unfold escapeCode
  split
  case h_1 => exact ⟨.short .quote, rfl, rfl, by decide⟩
  case h_2 => exact ⟨.short .backslash, rfl, rfl, by decide⟩
  case h_3 => exact ⟨.short .newline, rfl, rfl, by decide⟩
  case h_4 => exact ⟨.short .carriageReturn, rfl, rfl, by decide⟩
  case h_5 => exact ⟨.short .tab, rfl, rfl, by decide⟩
  case h_6 => exact ⟨.short .formFeed, rfl, rfl, by decide⟩
  case h_7 => exact ⟨.short .backspace, rfl, rfl, by decide⟩
  case h_8 notQuote notBackslash _ _ _ _ _ =>
    by_cases isControl : code < 32
    · rw [if_pos isControl]
      have high := lowerHex_eq ⟨code / 16, by omega⟩
      have low := lowerHex_eq ⟨code % 16, by omega⟩
      refine ⟨.unicode ⟨0, false⟩ ⟨0, false⟩ ⟨⟨code / 16, by omega⟩, false⟩
        ⟨⟨code % 16, by omega⟩, false⟩, ?_, ?_, fun _ => isControl⟩
      · simp only [JsonUnit.chars, codes_cons, codes_nil, high, low]
        rfl
      · simp only [JsonUnit.codeUnit]
        omega
    · rw [if_neg isControl]
      have same := toNat_ofNat isValid
      refine ⟨.plain ⟨Char.ofNat code, ?_, ?_, ?_⟩, ?_, same, ?_⟩
      · omega
      · rintro isQuote
        exact notQuote (same.symm.trans (congrArg Char.toNat isQuote))
      · rintro isBackslash
        exact notBackslash (same.symm.trans (congrArg Char.toNat isBackslash))
      · simp [JsonUnit.chars, same]
      · intro escaped
        cases escaped

/-- Only escaped surrogates are joined. -/
theorem joinSurrogates_of_low
    {units : List CodeUnit}
    (low : ∀ unit ∈ units, unit.escaped → unit.code < 32) :
    joinSurrogates units = units.map CodeUnit.code := by
  induction units using joinSurrogates.induct with
  | case1 high lower rest paired =>
      have small := low high (by simp) paired.1
      omega
  | case2 high lower rest unpaired inductionHypothesis =>
      rw [joinSurrogates, if_neg unpaired,
        inductionHypothesis fun unit member =>
          low unit (List.mem_cons_of_mem _ member)]
      rfl
  | case3 last => rfl
  | case4 => rfl

theorem isValidChar_of_escapeCode
    {code : Nat}
    (written : AllChars (escapeCode code)) :
    code.isValidChar := by
  by_cases small : code < 128
  · exact .inl (by omega)
  · refine written code ?_
    unfold escapeCode
    split <;> first | omega | skip
    rw [if_neg (by omega)]
    exact List.mem_singleton_self _

/-- What is written for a text is a string that is read as that. -/
theorem exists_spelledString
    {text : Text}
    (isValid : AllChars text) :
    ∃ string : JsonString,
      codes string.chars = encodeString text ∧ string.text = text := by
  have exists_units :
      ∃ string : JsonString,
        codes string.content = text.flatMap escapeCode ∧
          (string.map JsonUnit.codeUnit).map CodeUnit.code = text ∧
          ∀ unit ∈ string.map JsonUnit.codeUnit,
            unit.escaped → unit.code < 32 := by
    induction text with
    | nil => exact ⟨[], rfl, rfl, by simp⟩
    | cons code text inductionHypothesis =>
        obtain ⟨string, content, isText, low⟩ :=
          inductionHypothesis fun other member =>
            isValid other (List.mem_cons_of_mem _ member)
        obtain ⟨written, isChars, isCode, isLow⟩ :=
          exists_unit (isValid code List.mem_cons_self)
        refine ⟨written :: string, ?_, ?_, ?_⟩
        · rw [List.flatMap_cons, ← isChars, ← content, ← codes_append]
          rfl
        · rw [List.map_cons, List.map_cons, isText, isCode]
        · rw [List.map_cons, List.forall_mem_cons, isCode]
          exact ⟨isLow, low⟩
  obtain ⟨string, content, isText, low⟩ := exists_units
  refine ⟨string, ?_, ?_⟩
  · rw [JsonString.chars, codes_append, codes_cons, content]
    rfl
  · rw [JsonString.text, joinSurrogates_of_low low, isText]

theorem allChars_of_encodeString
    {text : Text}
    (written : AllChars (encodeString text)) :
    AllChars text := by
  intro code member
  refine isValidChar_of_escapeCode fun other inEscape => ?_
  refine written other (List.mem_cons_of_mem _ (List.mem_append_left _ ?_))
  exact List.mem_flatMap.mpr ⟨code, member, inEscape⟩

/-! ## Numbers -/

theorem digitChar_eq :
    ∀ digit : Fin 10, Nat.digitChar digit = digitChar digit := by
  decide

/-- Decimal digits without a leading zero. -/
theorem exists_integer (value : Nat) :
    ∃ integer : JsonInteger,
      integer.chars = Nat.toDigits 10 value ∧
        (0 < value → ∃ digits leading,
          integer = .positive digits leading) := by
  induction value using Nat.strongRecOn with
  | ind value inductionHypothesis =>
      rw [Nat.toDigits_eq_if (by decide)]
      by_cases small : value < 10
      · have digit := digitChar_eq ⟨value, small⟩
        dsimp only at digit
        rw [if_pos small, digit]
        rcases Nat.eq_zero_or_pos value with rfl | positive
        · exact ⟨.zero, rfl, by simp⟩
        · refine ⟨.positive ⟨⟨value, small⟩, []⟩ ?_, rfl,
            fun _ => ⟨_, _, rfl⟩⟩
          intro isZero
          exact positive.ne' (congrArg Fin.val isZero)
      · rw [if_neg small]
        obtain ⟨integer, isChars, isPositive⟩ :=
          inductionHypothesis (value / 10) (by omega)
        obtain ⟨⟨first, more⟩, leading, rfl⟩ := isPositive (by omega)
        have digit := digitChar_eq ⟨value % 10, by omega⟩
        dsimp only at digit
        refine ⟨.positive ⟨first, more ++ [⟨value % 10, by omega⟩]⟩ leading, ?_,
          fun _ => ⟨_, _, rfl⟩⟩
        rw [digit, ← isChars]
        simp [JsonInteger.chars, Digits.chars]

theorem isDigitCode_toDigits (value : Nat) :
    ∀ code ∈ codes (Nat.toDigits 10 value), isDigitCode code := by
  intro code member
  obtain ⟨digit, inDigits, rfl⟩ := List.mem_map.mp member
  have isDigit : digit.isDigit :=
    Nat.isDigit_of_mem_toDigits (by decide) (by decide) inDigits
  simpa [isDigitCode, Char.isDigit, UInt32.le_iff_toNat_le] using isDigit

theorem filter_intChars (value : Int) :
    ((codes (intChars value)).filter isDigitCode).length =
      (Nat.toDigits 10 value.natAbs).length := by
  have digits := List.filter_eq_self.mpr (isDigitCode_toDigits value.natAbs)
  unfold intChars
  split
  · rw [codes_append, List.filter_append, digits, List.length_append,
      length_codes]
    exact Nat.zero_add _
  · rw [List.nil_append, digits, length_codes]

theorem intValue_intChars (value : Int) :
    intValue (codes (intChars value)) = value := by
  have ofDigits (digits : Nat) :
      Nat.ofDigitChars 10 ((codes (Nat.toDigits 10 digits)).map Char.ofNat) 0 =
        digits := by
    rw [ofNat_codes, Nat.ofDigitChars_ten_toDigits]
  unfold intChars
  by_cases negative : value < 0
  · rw [if_pos negative]
    have isSign :
        intValue (codes (['-'] ++ Nat.toDigits 10 value.natAbs)) =
          -(Nat.ofDigitChars 10
            ((codes (Nat.toDigits 10 value.natAbs)).map Char.ofNat) 0 : Int) :=
      rfl
    rw [isSign, ofDigits]
    omega
  · rw [if_neg negative, List.nil_append]
    have noSign :
        (codes (Nat.toDigits 10 value.natAbs)).head? ≠ some 45 := by
      intro isSign
      have isDigit :=
        isDigitCode_toDigits value.natAbs 45 (List.mem_of_mem_head? isSign)
      cases isDigit
    rw [intValue, if_neg noSign]
    dsimp only
    rw [ofDigits]
    omega

/-- What is written for a number is a number that is read as that. -/
theorem exists_number
    (hooks : JsonHooks)
    {value : Int}
    {text : Text}
    (written : intText value = some text) :
    ∃ number : JsonNumber,
      codes number.chars = text ∧ number.value hooks = some (.int value) := by
  unfold intText at written
  split at written
  case isTrue => cases written
  case isFalse short =>
    obtain rfl := Option.some.inj written
    obtain ⟨integer, isChars, -⟩ := exists_integer value.natAbs
    have token :
        JsonNumber.chars ⟨decide (value < 0), integer, none, none⟩ =
          intChars value := by
      simp [JsonNumber.chars, JsonNumber.integerChars,
        JsonNumber.fractionChars, JsonNumber.exponentChars, isChars, intChars]
    refine ⟨⟨decide (value < 0), integer, none, none⟩, congrArg codes token, ?_⟩
    have isToken :
        JsonNumber.token ⟨decide (value < 0), integer, none, none⟩ =
          codes (intChars value) :=
      congrArg codes token
    rw [JsonNumber.value, isToken, JsonHooks.numberValue,
      if_neg (by simp [JsonNumber.isFloat]), filter_intChars, if_neg short, intValue_intChars]

/-! ## Values -/

mutual

/-- Names differ, and a float is a number that the hook takes for itself. -/
def PyValue.Faithful (hooks : JsonHooks) : PyValue → Prop
  | .float text =>
      ∃ number : JsonNumber,
        number.isFloat = true ∧ codes number.chars = text ∧
          hooks.parseFloat text = some text
  | .list items => FaithfulItems hooks items
  | .dict members =>
      (members.map Prod.fst).Nodup ∧ FaithfulMembers hooks members
  | _ => True

def FaithfulItems (hooks : JsonHooks) : List PyValue → Prop
  | [] => True
  | item :: rest => item.Faithful hooks ∧ FaithfulItems hooks rest

def FaithfulMembers (hooks : JsonHooks) : List (Text × PyValue) → Prop
  | [] => True
  | (_, value) :: rest => value.Faithful hooks ∧ FaithfulMembers hooks rest

end

mutual

/-- How deep lists and dicts are nested. -/
def PyValue.depth : PyValue → Nat
  | .list items => itemsDepth items + 1
  | .dict members => membersDepth members + 1
  | _ => 0

def itemsDepth : List PyValue → Nat
  | [] => 0
  | item :: rest => max item.depth (itemsDepth rest)

def membersDepth : List (Text × PyValue) → Nat
  | [] => 0
  | (_, value) :: rest => max value.depth (membersDepth rest)

end

/-- A tree spells the value that was written as this text. -/
structure Spelled
    (hooks : JsonHooks)
    (text : Text)
    (value : PyValue)
    (tree : Json) : Prop where
  chars : codes tree.chars = text
  spells : tree.value hooks = some value
  depth : tree.depth = value.depth

section RoundTrip

variable {hooks : JsonHooks}

theorem spelled_scalar
    {scalar : Scalar}
    {value : PyValue}
    (isValue : scalar.value hooks = some value)
    (flat : value.depth = 0) :
    Spelled hooks (codes scalar.chars) value (.scalar scalar) where
  chars := by rw [Json.chars]
  spells := by rw [Json.value, isValue]
  depth := by rw [Json.depth, flat]

mutual

/-- What is written for a value is a tree that spells it. -/
theorem exists_tree
    {value : PyValue}
    {text : Text}
    (faithful : value.Faithful hooks)
    (written : dumps value = some text)
    (isValid : AllChars text) :
    ∃ tree, Spelled hooks text value tree := by
  match value with
  | .none =>
      obtain rfl := Option.some.inj written
      exact ⟨_, @spelled_scalar hooks (.word .nullWord) _ rfl rfl⟩
  | .bool true =>
      obtain rfl := Option.some.inj written
      exact ⟨_, @spelled_scalar hooks (.word .trueWord) _ rfl rfl⟩
  | .bool false =>
      obtain rfl := Option.some.inj written
      exact ⟨_, @spelled_scalar hooks (.word .falseWord) _ rfl rfl⟩
  | .int value =>
      obtain ⟨number, isText, isValue⟩ := exists_number hooks written
      subst isText
      exact ⟨_, @spelled_scalar hooks (.number number) _ isValue rfl⟩
  | .float digits =>
      obtain rfl := Option.some.inj written
      obtain ⟨number, isFloat, isText, parsed⟩ := faithful
      subst isText
      refine ⟨_, @spelled_scalar hooks (.number number) _ ?_ rfl⟩
      have token : number.token = codes number.chars := rfl
      rw [Scalar.value, JsonNumber.value, isFloat, JsonHooks.numberValue,
        if_pos rfl, token, parsed]
      rfl
  | .str content =>
      obtain rfl := Option.some.inj written
      obtain ⟨string, isText, isContent⟩ :=
        exists_spelledString (allChars_of_encodeString isValid)
      refine ⟨_, isText ▸ @spelled_scalar hooks (.string string) _ ?_ rfl⟩
      rw [Scalar.value, isContent]
  | .bytes _ => cases written
  | .list [] =>
      obtain rfl := Option.some.inj written
      exact ⟨.emptyArray [], rfl, rfl, rfl⟩
  | .list (first :: rest) =>
      obtain ⟨inner, isInner, rfl⟩ := Option.map_eq_some_iff.mp written
      obtain ⟨elements, isText, isValue, isDepth⟩ :=
        exists_elements (List.cons_ne_nil _ _) faithful isInner fun code member =>
          isValid code (List.mem_cons_of_mem _ (List.mem_append_left _ member))
      refine ⟨.array elements, ?_, ?_, ?_⟩
      · rw [Json.chars, codes_cons, codes_append, isText]
        rfl
      · rw [Json.value, isValue]
        rfl
      · rw [Json.depth, isDepth, PyValue.depth]
  | .dict [] =>
      obtain rfl := Option.some.inj written
      exact ⟨.emptyObject [], rfl, rfl, rfl⟩
  | .dict (first :: rest) =>
      obtain ⟨inner, isInner, rfl⟩ := Option.map_eq_some_iff.mp written
      obtain ⟨different, faithful⟩ := faithful
      obtain ⟨members, isText, isValue, isDepth⟩ :=
        exists_members (List.cons_ne_nil _ _) faithful isInner fun code member =>
          isValid code (List.mem_cons_of_mem _ (List.mem_append_left _ member))
      refine ⟨.object members, ?_, ?_, ?_⟩
      · rw [Json.chars, codes_cons, codes_append, isText]
        rfl
      · rw [Json.value, isValue, Option.map_some, dictOf_of_nodup different]
      · rw [Json.depth, isDepth, PyValue.depth]

/-- What is written for the items of a list are elements that spell them. -/
theorem exists_elements
    {items : List PyValue}
    {text : Text}
    (nonempty : items ≠ [])
    (faithful : FaithfulItems hooks items)
    (written : dumpsItems items = some text)
    (isValid : AllChars text) :
    ∃ elements : Elements,
      codes elements.chars = text ∧
        elements.values hooks = some items ∧
        elements.depth = itemsDepth items := by
  match items with
  | [] => cases nonempty rfl
  | [item] =>
      obtain ⟨tree, isTree⟩ := exists_tree faithful.1 written isValid
      refine ⟨.last [] tree [], ?_, ?_, ?_⟩
      · rw [← isTree.chars]
        simp [Elements.chars, Spaces.chars]
      · rw [Elements.values, isTree.spells]
        rfl
      · simp [Elements.depth, itemsDepth, isTree.depth]
  | item :: second :: others =>
      obtain ⟨head, isHead, written⟩ := Option.bind_eq_some_iff.mp written
      obtain ⟨tail, isTail, written⟩ := Option.bind_eq_some_iff.mp written
      obtain rfl := Option.some.inj written
      obtain ⟨tree, isTree⟩ := exists_tree faithful.1 isHead fun code member =>
        isValid code (List.mem_append_left _ member)
      obtain ⟨elements, isText, isValue, isDepth⟩ :=
        exists_elements (List.cons_ne_nil _ _) faithful.2 isTail fun code member =>
          isValid code (List.mem_append_right _ (List.mem_cons_of_mem _ member))
      refine ⟨.more [] tree [] elements, ?_, ?_, ?_⟩
      · rw [← isTree.chars, ← isText]
        simp [Elements.chars, Spaces.chars]
      · rw [Elements.values, isTree.spells, isValue]
        rfl
      · rw [Elements.depth, isTree.depth, isDepth]
        rfl

/-- What is written for the members of a dict are members that spell them. -/
theorem exists_members
    {pairs : List (Text × PyValue)}
    {text : Text}
    (nonempty : pairs ≠ [])
    (faithful : FaithfulMembers hooks pairs)
    (written : dumpsMembers pairs = some text)
    (isValid : AllChars text) :
    ∃ members : Members,
      codes members.chars = text ∧
        members.pairs hooks = some pairs ∧
        members.depth = membersDepth pairs := by
  match pairs with
  | [] => cases nonempty rfl
  | [(name, value)] =>
      obtain ⟨inner, isInner, written⟩ := Option.bind_eq_some_iff.mp written
      obtain rfl := Option.some.inj written
      obtain ⟨tree, isTree⟩ := exists_tree faithful.1 isInner fun code member =>
        isValid code (List.mem_append_right _ (List.mem_cons_of_mem _ member))
      obtain ⟨string, isName, isText⟩ :=
        exists_spelledString (allChars_of_encodeString fun code member =>
          isValid code (List.mem_append_left _ member))
      refine ⟨.last [] string [] [] tree [], ?_, ?_, ?_⟩
      · rw [← isName, ← isTree.chars]
        simp [Members.chars, nameChars, Spaces.chars]
      · rw [Members.pairs, isTree.spells, isText]
        rfl
      · simp [Members.depth, membersDepth, isTree.depth]
  | (name, value) :: second :: others =>
      obtain ⟨head, isHead, written⟩ := Option.bind_eq_some_iff.mp written
      obtain ⟨tail, isTail, written⟩ := Option.bind_eq_some_iff.mp written
      obtain rfl := Option.some.inj written
      obtain ⟨tree, isTree⟩ := exists_tree faithful.1 isHead fun code member =>
        isValid code (by simp [member])
      obtain ⟨string, isName, isText⟩ :=
        exists_spelledString (allChars_of_encodeString fun code member =>
          isValid code (List.mem_append_left _ member))
      obtain ⟨members, isChars, isValue, isDepth⟩ :=
        exists_members (List.cons_ne_nil _ _) faithful.2 isTail fun code member =>
          isValid code (by simp [member])
      refine ⟨.more [] string [] [] tree [] members, ?_, ?_, ?_⟩
      · rw [← isName, ← isTree.chars, ← isChars]
        simp [Members.chars, nameChars, Spaces.chars]
      · rw [Members.pairs, isTree.spells, isValue, isText]
        rfl
      · rw [Members.depth, isTree.depth, isDepth]
        rfl

end

end RoundTrip

end PacketAudit
