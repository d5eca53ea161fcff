import PacketAudit.Json.Parsing

namespace PacketAudit

/-!
# What `json.loads` returns

The decoder with all that arrays and objects hold, and with the hooks for
numbers.  It reads the bytes of a document as the value the document spells.
-/

/-! ## Values -/

/-- A value as `json` knows it; a list stands for a tuple and a set as well. -/
inductive PyValue where
  | none
  | bool (value : Bool)
  | int (value : Int)
  /-- A `float`, as `repr` writes it. -/
  | float (text : Text)
  | str (text : Text)
  | bytes (value : Bytes)
  | list (items : List PyValue)
  /-- The pairs of a `dict` in the order of insertion. -/
  | dict (members : List (Text × PyValue))
  deriving Repr

/-- `parse_float` and `parse_constant`; they raise where they have no value. -/
structure JsonHooks where
  /-- The `repr` of the `float` that a token stands for. -/
  parseFloat : Text → Option Text
  parseConstant : Text → Option Text

/-- `dict[name] = value`. -/
def dictSet
    (name : Text)
    (value : PyValue) :
    List (Text × PyValue) → List (Text × PyValue)
  | [] => [(name, value)]
  | first :: rest =>
      if first.1 = name then (name, value) :: rest
      else first :: dictSet name value rest

/-- The `dict` of pairs that are set one after the other. -/
def dictOf (pairs : List (Text × PyValue)) : List (Text × PyValue) :=
  pairs.foldl (fun members pair => dictSet pair.1 pair.2 members) []

theorem dictSet_of_not_mem
    {name : Text}
    {members : List (Text × PyValue)}
    (isNew : name ∉ members.map Prod.fst)
    (value : PyValue) :
    dictSet name value members = members ++ [(name, value)] := by
  induction members with
  | nil => rfl
  | cons first rest inductionHypothesis =>
      rw [List.map_cons, List.mem_cons, not_or] at isNew
      rw [dictSet, if_neg (Ne.symm isNew.1), inductionHypothesis isNew.2]
      rfl

/-- Pairs with different names are the `dict` they are set in. -/
theorem dictOf_of_nodup
    {pairs : List (Text × PyValue)}
    (different : (pairs.map Prod.fst).Nodup) :
    dictOf pairs = pairs := by
  have setAll
      (members later : List (Text × PyValue))
      (different : ((members ++ later).map Prod.fst).Nodup) :
      later.foldl (fun members pair => dictSet pair.1 pair.2 members) members =
        members ++ later := by
    induction later generalizing members with
    | nil => exact (List.append_nil _).symm
    | cons first rest inductionHypothesis =>
        have isNew : first.1 ∉ members.map Prod.fst := by
          rw [List.map_append, List.nodup_append] at different
          intro member
          exact different.2.2 _ member _ List.mem_cons_self rfl
        rw [List.foldl_cons, dictSet_of_not_mem isNew, inductionHypothesis]
        · simp
        · simpa using different
  exact setAll [] pairs different

/-! ## Numbers -/

/-- `int` of a token. -/
def intValue (token : Text) : Int :=
  let digits (text : Text) := Nat.ofDigitChars 10 (text.map Char.ofNat) 0
  if token.head? = some 45 then -(digits token.tail : Int)
  else digits token

/-- The value of a number's token, if `int` or the hook converts it. -/
def JsonHooks.numberValue
    (hooks : JsonHooks)
    (token : Text)
    (isFloat : Bool) : Option PyValue :=
  if isFloat then (hooks.parseFloat token).map .float
  else if maxIntDigits < (token.filter isDigitCode).length then none
  else some (.int (intValue token))

/-! ## Scanning -/

/-- `_match_number`. -/
def scanNumberValue
    (hooks : JsonHooks)
    (text : Text) : Option (PyValue × Text) := do
  let (token, isFloat, rest) ← splitNumber text
  let number ← hooks.numberValue token isFloat
  some (number, rest)

/-- The words that are values, with the constants left to their hook. -/
def JsonHooks.words (hooks : JsonHooks) : List (Text × Option PyValue) := [
  (asciiText "null", some .none),
  (asciiText "true", some (.bool true)),
  (asciiText "false", some (.bool false)),
  (asciiText "NaN",
    (hooks.parseConstant (asciiText "NaN")).map .float),
  (asciiText "Infinity",
    (hooks.parseConstant (asciiText "Infinity")).map .float),
  (asciiText "-Infinity",
    (hooks.parseConstant (asciiText "-Infinity")).map .float)]

mutual

/-- `scan_once`. -/
def scanTree
    (hooks : JsonHooks) : (fuel : Nat) → Text → Option (PyValue × Text)
  | 0, _ => none
  | fuel + 1, text =>
      match text with
      | 34 :: rest => do
          let (units, behind) ← scanUnits rest
          some (.str (joinSurrogates units), behind)
      | 123 :: rest =>
          match skipSpaces rest with
          | 125 :: behind => some (.dict [], behind)
          | members =>
              (scanPairs hooks fuel members).map fun scanned =>
                (.dict (dictOf scanned.1), scanned.2)
      | 91 :: rest =>
          match skipSpaces rest with
          | 93 :: behind => some (.list [], behind)
          | elements =>
              (scanItems hooks fuel elements).map fun scanned =>
                (.list scanned.1, scanned.2)
      | other =>
          match hooks.words.find? fun word => word.1.isPrefixOf other with
          | some word =>
              word.2.map fun value => (value, other.drop word.1.length)
          | none => scanNumberValue hooks other

/-- The loop of `_parse_array`, from an element on. -/
def scanItems
    (hooks : JsonHooks) :
    (fuel : Nat) → Text → Option (List PyValue × Text)
  | 0, _ => none
  | fuel + 1, text => do
      let (value, behind) ← scanTree hooks fuel text
      match skipSpaces behind with
      | 93 :: rest => some ([value], rest)
      | 44 :: rest =>
          (scanItems hooks fuel (skipSpaces rest)).map fun scanned =>
            (value :: scanned.1, scanned.2)
      | _ => none

/-- The loop of `_parse_object`, from a name on. -/
def scanPairs
    (hooks : JsonHooks) :
    (fuel : Nat) → Text → Option (List (Text × PyValue) × Text)
  | 0, _ => none
  | fuel + 1, text =>
      match text with
      | 34 :: rest => do
          let (units, behindName) ← scanUnits rest
          match skipSpaces behindName with
          | 58 :: beforeValue => do
              let (value, behind) ←
                scanTree hooks fuel (skipSpaces beforeValue)
              match skipSpaces behind with
              | 125 :: rest => some ([(joinSurrogates units, value)], rest)
              | 44 :: rest =>
                  (scanPairs hooks fuel (skipSpaces rest)).map fun scanned =>
                    ((joinSurrogates units, value) :: scanned.1, scanned.2)
              | _ => none
          | _ => none
      | _ => none

end

/-- `json.loads` of bytes. -/
def loadsValue
    (python : PythonLibrary)
    (hooks : JsonHooks)
    (data : Bytes) : Option PyValue := do
  let text ← python.decode data
  let (value, behind) ← scanTree hooks (text.length + 1) (skipSpaces text)
  if skipSpaces behind = [] then some value else none

/-! ## The value of a document -/

section Values

variable (hooks : JsonHooks)

/-- The value of a number. -/
def JsonNumber.value (number : JsonNumber) : Option PyValue :=
  hooks.numberValue number.token number.isFloat

/-- The value of a scalar. -/
def Scalar.value : Scalar → Option PyValue
  | .word .trueWord => some (.bool true)
  | .word .falseWord => some (.bool false)
  | .word .nullWord => some .none
  | .number leaf => leaf.value hooks
  | .string leaf => some (.str leaf.text)

mutual

/-- The value that a tree spells, unless a number has none. -/
def Json.value : Json → Option PyValue
  | .scalar scalar => scalar.value hooks
  | .emptyArray _ => some (.list [])
  | .array elements => elements.values.map .list
  | .emptyObject _ => some (.dict [])
  | .object members => members.pairs.map fun pairs => .dict (dictOf pairs)

def Elements.values : Elements → Option (List PyValue)
  | .last _ value _ => value.value.map fun item => [item]
  | .more _ value _ rest => do
      let item ← value.value
      let later ← rest.values
      some (item :: later)

def Members.pairs : Members → Option (List (Text × PyValue))
  | .last _ name _ _ value _ =>
      value.value.map fun item => [(name.text, item)]
  | .more _ name _ _ value _ rest => do
      let item ← value.value
      let later ← rest.pairs
      some ((name.text, item) :: later)

end

end Values

section Reading

variable {hooks : JsonHooks}

/-! ## Every document is read -/

/-- The words are looked for in the same way whatever the hooks are. -/
theorem findWord_eq_none
    {text : Text}
    (noWord : (jsonWords.find? fun word => word.1.isPrefixOf text) = none) :
    (hooks.words.find? fun word => word.1.isPrefixOf text) = none := by
  have same : hooks.words.map Prod.fst = jsonWords.map Prod.fst := rfl
  rw [List.find?_eq_none] at noWord ⊢
  intro word member
  have inWords : word.1 ∈ jsonWords.map Prod.fst :=
    same ▸ List.mem_map_of_mem member
  obtain ⟨other, otherMember, isWord⟩ := List.mem_map.mp inWords
  rw [← isWord]
  exact noWord other otherMember

theorem scanTree_other
    {first : Nat}
    {rest : Text}
    (fuel : Nat)
    (notQuote : first ≠ 34)
    (notBrace : first ≠ 123)
    (notBracket : first ≠ 91) :
    scanTree hooks (fuel + 1) (first :: rest) =
      match hooks.words.find? fun word =>
          word.1.isPrefixOf (first :: rest) with
      | some word =>
          word.2.map fun value =>
            (value, (first :: rest).drop word.1.length)
      | none => scanNumberValue hooks (first :: rest) := by
  rw [scanTree.eq_def]
  simp only
  split
  · simp_all
  · simp_all
  · simp_all
  · rfl

theorem findWord_value (value : JsonWord) (rest : Text) :
    (hooks.words.find? fun word =>
        word.1.isPrefixOf (codes value.chars ++ rest)) =
      some (codes value.chars, (Scalar.word value).value hooks) := by
  cases value <;> rfl

/-- The first member of an object starts with a quote. -/
theorem Members.skipSpaces_chars (members : Members) (rest : Text) :
    ∃ more, skipSpaces (codes members.chars ++ rest) = 34 :: more := by
  cases members with
  | last before name behindName beforeValue value behind =>
      simp only [Members.chars, nameChars, codes_append, List.append_assoc,
        skipSpaces_name]
      exact ⟨_, rfl⟩
  | more before name behindName beforeValue value behind others =>
      simp only [Members.chars, nameChars, codes_append, List.append_assoc,
        skipSpaces_name]
      exact ⟨_, rfl⟩

/-- A scalar is read up to its end. -/
theorem scanTree_scalar
    (scalar : Scalar)
    {rest : Text}
    (fuel : Nat)
    (ends : ValueEnds rest) :
    scanTree hooks (fuel + 1) (codes scalar.chars ++ rest) =
      (scalar.value hooks).map fun value => (value, rest) := by
  cases scalar with
  | string value =>
      have shape :
          codes (Scalar.string value).chars ++ rest =
            34 :: (codes value.content ++ 34 :: rest) := by
        simp [Scalar.chars, JsonString.chars]
      rw [shape]
      simp [scanTree, scanUnits_content, Scalar.value, JsonString.text]
  | word value =>
      obtain ⟨first, more, shape, other⟩ :
          ∃ first more,
            codes (Scalar.word value).chars ++ rest = first :: more ∧
              (first ≠ 34 ∧ first ≠ 123 ∧ first ≠ 91) := by
        cases value <;> exact ⟨_, _, rfl, by decide⟩
      have found := @findWord_value hooks value rest
      have behind :
          (codes value.chars ++ rest).drop (codes value.chars).length =
            rest :=
        List.drop_left
      simp only [Scalar.chars] at shape ⊢
      rw [shape] at found behind ⊢
      rw [scanTree_other fuel other.1 other.2.1 other.2.2, found]
      simp only [behind]
  | number value =>
      obtain ⟨first, more, shape, starts⟩ := value.head_chars
      have other : first.toNat ≠ 34 ∧ first.toNat ≠ 123 ∧ first.toNat ≠ 91 := by
        simp only [isDigitCode, Bool.and_eq_true, decide_eq_true_eq] at starts
        omega
      have notWord := @findWord_eq_none hooks _ (findWord_number value rest)
      have split := splitNumber_chars value ends.numberEnds
      simp only [Scalar.chars]
      rw [shape, codes_cons, List.cons_append] at notWord split ⊢
      rw [scanTree_other fuel other.1 other.2.1 other.2.2, notWord]
      simp only [scanNumberValue, split, Option.bind_eq_bind,
        Option.bind_some, Scalar.value, JsonNumber.value, Option.map_eq_bind]
      rfl

mutual

/-- A value is read up to its end. -/
theorem Json.scanTree_chars
    (value : Json)
    {fuel : Nat}
    {rest : Text}
    (ends : ValueEnds rest)
    (enough : value.chars.length ≤ fuel) :
    scanTree hooks fuel (codes value.chars ++ rest) =
      (value.value hooks).map fun read => (read, rest) := by
  obtain ⟨fuel, rfl⟩ : ∃ fewer, fuel = fewer + 1 := by
    obtain ⟨first, more, shape, -⟩ := value.head_chars
    rw [shape, List.length_cons] at enough
    exact Nat.exists_eq_add_one_of_ne_zero (by omega)
  match value with
  | .scalar leaf =>
      simp only [Json.chars, Json.value]
      exact scanTree_scalar leaf fuel ends
  | .emptyArray spaces =>
      have behind := skipSpaces_delimiter spaces (.inr (.inl rfl)) rest
      simp [Json.chars, scanTree, behind, Json.value]
  | .emptyObject spaces =>
      have behind := skipSpaces_delimiter spaces (.inr (.inr (.inl rfl))) rest
      simp [Json.chars, scanTree, behind, Json.value]
  | .array elements =>
      simp only [Json.chars, List.length_cons, List.length_append,
        List.length_nil] at enough
      have scanned :=
        elements.scanItems_chars rest
          (show elements.chars.length + 1 ≤ fuel by omega)
      obtain ⟨first, more, shape, starts⟩ :=
        elements.skipSpaces_chars (93 :: rest)
      rw [startsValue_iff] at starts
      rw [shape] at scanned
      have whole :
          codes (Json.array elements).chars ++ rest =
            91 :: (codes elements.chars ++ 93 :: rest) := by
        simp [Json.chars]
      rw [whole, scanTree]
      simp only [shape]
      split
      case h_1 same =>
        simp only [List.cons.injEq] at same
        omega
      case h_2 =>
        rw [scanned, Json.value, Option.map_map, Option.map_map]
        rfl
  | .object members =>
      simp only [Json.chars, List.length_cons, List.length_append,
        List.length_nil] at enough
      have scanned :=
        members.scanPairs_chars rest
          (show members.chars.length + 1 ≤ fuel by omega)
      obtain ⟨more, shape⟩ := members.skipSpaces_chars (125 :: rest)
      rw [shape] at scanned
      have whole :
          codes (Json.object members).chars ++ rest =
            123 :: (codes members.chars ++ 125 :: rest) := by
        simp [Json.chars]
      rw [whole, scanTree]
      simp only [shape]
      rw [scanned, Json.value, Option.map_map, Option.map_map]
      rfl

/-- The elements of an array are read up to behind its bracket. -/
theorem Elements.scanItems_chars
    (elements : Elements)
    (rest : Text)
    {fuel : Nat}
    (enough : elements.chars.length + 1 ≤ fuel) :
    scanItems hooks fuel
        (skipSpaces (codes elements.chars ++ 93 :: rest)) =
      (elements.values hooks).map fun items => (items, rest) := by
  obtain ⟨fuel, rfl⟩ : ∃ fewer, fuel = fewer + 1 :=
    Nat.exists_eq_add_one_of_ne_zero (by omega)
  match elements with
  | .last before value behind =>
      simp only [Elements.chars, List.length_append] at enough
      have scanned :=
        value.scanTree_chars
          (valueEnds_spaces behind (.inr (.inl rfl)) rest)
          (show value.chars.length ≤ fuel by omega)
      simp only [Elements.chars, codes_append, List.append_assoc,
        skipSpaces_value, scanItems, scanned, Elements.values]
      cases value.value hooks with
      | none => rfl
      | some item =>
          simp [skipSpaces_delimiter behind (.inr (.inl rfl)) rest]
  | .more before value behind others =>
      simp only [Elements.chars, List.length_append, List.length_cons]
        at enough
      have scanned :=
        value.scanTree_chars
          (valueEnds_spaces behind (.inl rfl)
            (codes others.chars ++ 93 :: rest))
          (show value.chars.length ≤ fuel by omega)
      have later :=
        others.scanItems_chars rest
          (show others.chars.length + 1 ≤ fuel by
            obtain ⟨first, more, shape, -⟩ := value.head_chars
            rw [shape, List.length_cons] at enough
            omega)
      have comma : (',').toNat = 44 := rfl
      simp only [Elements.chars, codes_append, codes_cons, List.append_assoc,
        List.cons_append, skipSpaces_value, comma, scanItems, scanned,
        Elements.values]
      cases value.value hooks with
      | none => rfl
      | some item =>
          simp only [Option.map_some, Option.bind_eq_bind, Option.bind_some,
            skipSpaces_delimiter behind (.inl rfl)
              (codes others.chars ++ 93 :: rest), later]
          cases others.values hooks <;> rfl

/-- The members of an object are read up to behind its brace. -/
theorem Members.scanPairs_chars
    (members : Members)
    (rest : Text)
    {fuel : Nat}
    (enough : members.chars.length + 1 ≤ fuel) :
    scanPairs hooks fuel
        (skipSpaces (codes members.chars ++ 125 :: rest)) =
      (members.pairs hooks).map fun pairs => (pairs, rest) := by
  obtain ⟨fuel, rfl⟩ : ∃ fewer, fuel = fewer + 1 :=
    Nat.exists_eq_add_one_of_ne_zero (by omega)
  have colon : (':').toNat = 58 := rfl
  have comma : (',').toNat = 44 := rfl
  match members with
  | .last before name behindName beforeValue value behind =>
      simp only [Members.chars, List.length_append] at enough
      have scanned :=
        value.scanTree_chars
          (valueEnds_spaces behind (.inr (.inr rfl)) rest)
          (show value.chars.length ≤ fuel by omega)
      simp only [Members.chars, nameChars, codes_append, codes_cons,
        List.append_assoc, List.cons_append, skipSpaces_name, colon,
        scanPairs, scanUnits_content, Option.bind_eq_bind,
        Option.bind_some, skipSpaces_delimiter behindName
          (.inr (.inr (.inr rfl))), skipSpaces_value, scanned, Members.pairs]
      cases value.value hooks with
      | none => rfl
      | some item =>
          simp [skipSpaces_delimiter behind (.inr (.inr (.inl rfl))) rest,
            JsonString.text]
  | .more before name behindName beforeValue value behind others =>
      simp only [Members.chars, List.length_append, List.length_cons]
        at enough
      have scanned :=
        value.scanTree_chars
          (valueEnds_spaces behind (.inl rfl)
            (codes others.chars ++ 125 :: rest))
          (show value.chars.length ≤ fuel by omega)
      have later :=
        others.scanPairs_chars rest
          (show others.chars.length + 1 ≤ fuel by
            obtain ⟨first, more, shape, -⟩ := value.head_chars
            rw [shape, List.length_cons] at enough
            omega)
      simp only [Members.chars, nameChars, codes_append, codes_cons,
        List.append_assoc, List.cons_append, skipSpaces_name, colon, comma,
        scanPairs, scanUnits_content, Option.bind_eq_bind,
        Option.bind_some, skipSpaces_delimiter behindName
          (.inr (.inr (.inr rfl))), skipSpaces_value, scanned, Members.pairs]
      cases value.value hooks with
      | none => rfl
      | some item =>
          simp only [Option.map_some, Option.bind_some,
            skipSpaces_delimiter behind (.inl rfl)
              (codes others.chars ++ 125 :: rest), later]
          cases others.pairs hooks <;> rfl

end

/-- The decoder reads a document as the value that it spells. -/
theorem loadsValue_document
    (python : PythonLibrary)
    (document : JsonDocument) :
    loadsValue python hooks document.data = document.value.value hooks := by
  have decoded := document.decode_data python
  have skipped :
      skipSpaces (codes document.chars) =
        codes document.value.chars ++ codes document.behind.chars := by
    simp only [JsonDocument.chars, codes_append, skipSpaces_value]
  have ends : ValueEnds (codes document.behind.chars) := by
    intro code isHead
    exact .inl (isJsonSpace_spaces document.behind code
      (List.mem_of_mem_head? isHead))
  have enough :
      document.value.chars.length ≤ (codes document.chars).length + 1 := by
    simp only [JsonDocument.chars, length_codes, List.length_append]
    omega
  have scanned :=
    @Json.scanTree_chars hooks document.value _ _ ends enough
  have nothing : skipSpaces (codes document.behind.chars) = [] := by
    rw [skipSpaces, List.dropWhile_eq_nil_iff]
    exact isJsonSpace_spaces document.behind
  simp only [loadsValue, decoded, Option.bind_eq_bind, Option.bind_some,
    skipped, scanned]
  cases document.value.value hooks <;> simp [nothing]

end Reading

end PacketAudit
