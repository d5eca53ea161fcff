import PacketAudit.Json.Reading

namespace PacketAudit

/-!
# When the fields are those of the document

`json_fields` returns the string and number members of a document just if every
integer converts and the pattern takes no closing quote for an opening one so
that it shows.
-/

theorem JsonDocument.length_tokenFields
    (python : PythonLibrary)
    (document : JsonDocument) :
    (tokenFields python 0 document.tokens).length ≤
      document.value.scalarMembers := by
  rw [document.tokenFields_tokens]
  exact document.value.length_fields python _

/-- The fields of a document are returned just if all of it is read right. -/
theorem json_fields_exact_iff
    (python : PythonLibrary)
    (document : JsonDocument)
    (within : document.value.depth ≤ 32)
    (few : document.value.scalarMembers < 256) :
    jsonFields python document.data = some (document.fields python) ↔
      document.value.Converts ∧ noneMistaken false document.tokens := by
  have notDeep :
      nestingExceeds maxJsonNesting 0 false false document.data = false := by
    rw [nestingExceeds_document document (by decide), maxJsonNesting]
    exact decide_eq_false (by omega)
  rw [jsonFields, notDeep, loads_document]
  by_cases converts : document.value.Converts
  · have enough :
        (tokenFields python 0 document.tokens).length < maxFields :=
      Nat.lt_of_le_of_lt (document.length_tokenFields python) few
    have reads :=
      ((JsonDocument.regular converts).reads python).1 enough
    rw [document.tokensBytes_tokens, document.tokenFields_tokens] at reads
    simp only [Bool.false_eq_true, if_false, converts, true_and,
      if_true]
    exact reads
  · simp [converts]

/-- A library in which `str(float(token))` is the token. -/
def plainFloats : PythonLibrary where
  floatText token := token
  decodeWide _ _ := none

/-- A character that a string holds as it is. -/
def plainUnit
    (character : Char)
    (isPlain :
      32 ≤ character.toNat ∧ character ≠ '"' ∧ character ≠ '\\') :
    JsonUnit :=
  .plain ⟨character, isPlain.1, isPlain.2.1, isPlain.2.2⟩

theorem one_isDigit : 1 < 10 := by decide

theorem five_isDigit : 5 < 10 := by decide

theorem one_leads : (⟨⟨1, one_isDigit⟩, []⟩ : Digits).first ≠ 0 := by
  decide

/-- `{"a": 1.5, "b": ["e", null], "c": "d"}`. -/
def mixedDocument : JsonDocument where
  before := []
  value :=
    .object
      (.more [] [plainUnit 'a' (by decide)] [] [.space]
        (.scalar (.number ⟨false,
          .positive ⟨⟨1, one_isDigit⟩, []⟩ one_leads,
          some ⟨⟨5, five_isDigit⟩, []⟩, none⟩)) []
      (.more [.space] [plainUnit 'b' (by decide)] [] [.space]
        (.array
          (.more [] (.scalar (.string [plainUnit 'e' (by decide)])) []
          (.last [.space] (.scalar (.word .nullWord)) []))) []
      (.last [.space] [plainUnit 'c' (by decide)] [] [.space]
        (.scalar (.string [plainUnit 'd' (by decide)])) [])))
  behind := []

theorem mixedDocument_fields :
    mixedDocument.data =
        ascii
          "\x7b\"a\": 1.5, \"b\": [\"e\", null], \"c\": \"d\"\x7d" ∧
      jsonFields plainFloats mixedDocument.data =
        some (mixedDocument.fields plainFloats) :=
  ⟨by decide +kernel,
    (json_fields_exact_iff plainFloats mixedDocument (by decide)
      (by decide)).mpr ⟨by decide, by decide +kernel⟩⟩

/-- `["k", ":", "v"]`. -/
def separatorDocument : JsonDocument where
  before := []
  value :=
    .array
      (.more [] (.scalar (.string [plainUnit 'k' (by decide)])) []
      (.more [.space] (.scalar (.string [plainUnit ':' (by decide)])) []
      (.last [.space] (.scalar (.string [plainUnit 'v' (by decide)])) [])))
  behind := []

/-- An array of three strings has no member, and yet a field. -/
theorem separatorDocument_fields :
    separatorDocument.value.depth ≤ 32 ∧
      separatorDocument.value.scalarMembers < 256 ∧
      separatorDocument.data = ascii "[\"k\", \":\", \"v\"]" ∧
      separatorDocument.fields plainFloats = [] ∧
      jsonFields plainFloats separatorDocument.data =
        some [⟨asciiText ", ", asciiText ", ", asciiText "\", \"", 8, 12⟩] := by
  decide +kernel

end PacketAudit
