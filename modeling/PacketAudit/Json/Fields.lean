import PacketAudit.Json.Loads

namespace PacketAudit

/-!
# The fields of a JSON body

`json_fields` of `http_forms.py`: the guard against deep nesting, the decoder,
and the search for `_JSON_FIELD` in the bytes.
-/

/-! ## Nesting -/

/-- The loop of the guard: does the depth go beyond the limit? -/
def nestingExceeds
    (limit : Int) : (depth : Int) → (inString escaped : Bool) → Bytes → Bool
  | _, _, _, [] => false
  | depth, true, true, _ :: rest => nestingExceeds limit depth true false rest
  | depth, true, false, value :: rest =>
      if value = 92 then nestingExceeds limit depth true true rest
      else nestingExceeds limit depth (value ≠ 34) false rest
  | depth, false, escaped, value :: rest =>
      if value = 34 then
        nestingExceeds limit depth true escaped rest
      else if value = 91 ∨ value = 123 then
        if limit < depth + 1 then true
        else nestingExceeds limit (depth + 1) false escaped rest
      else if value = 93 ∨ value = 125 then
        nestingExceeds limit (depth - 1) false escaped rest
      else
        nestingExceeds limit depth false escaped rest

/-- The bound of `json_fields` on the nesting. -/
def maxJsonNesting : Int := 32

/-! ## The pattern -/

/--
The length of a match of a string of `_JSON_FIELD` behind its opening quote.
The alternatives exclude each other, so that nothing is tried twice.
-/
def stringTail? : Bytes → Option Nat
  | 34 :: _ => some 1
  | 92 :: escaped :: rest =>
      if escaped = 10 then none else (stringTail? rest).map (· + 2)
  | [92] => none
  | byte :: rest =>
      if byte < 32 then none else (stringTail? rest).map (· + 1)
  | [] => none

/-- `-?\d+(?:\.\d+)?(?:[eE][+-]?\d+)?`. -/
def matchNumber? (data : Bytes) : Option Nat :=
  let codes := data.map UInt8.toNat
  let sign := if codes.head? = some 45 then 1 else 0
  let digits := ((codes.drop sign).takeWhile isDigitCode).length
  if digits = 0 then
    none
  else
    let integer := sign + digits
    let fraction := fractionLength (codes.drop integer)
    some (integer + fraction +
      exponentLength (codes.drop (integer + fraction)))

/-- `true|false|null`. -/
def matchWord? (data : Bytes) : Option Nat :=
  (["true", "false", "null"].map ascii).findSome? fun word =>
    if word.isPrefixOf data then some word.length else none

/-- The second group of `_JSON_FIELD`. -/
def matchScalar? (data : Bytes) : Option Nat :=
  match data with
  | 34 :: tail => (stringTail? tail).map (· + 1)
  | _ => (matchNumber? data).or (matchWord? data)

/-- `\s*:\s*` and the second group: where it starts, and its length. -/
def matchValue? (data : Bytes) : Option (Nat × Nat) :=
  let before := (data.takeWhile isSpaceByte).length
  match data.drop before with
  | 58 :: rest =>
      let behind := (rest.takeWhile isSpaceByte).length
      (matchScalar? (rest.drop behind)).map fun length =>
        (before + 1 + behind, length)
  | _ => none

/-- The groups of a match, the second with its start. -/
structure JsonMatch where
  name : Bytes
  valueStart : Nat
  value : Bytes
  deriving Repr, DecidableEq

/-- `match.end(2)`. -/
def JsonMatch.stop (found : JsonMatch) : Nat :=
  found.valueStart + found.value.length

/-- `_JSON_FIELD` at the first byte. -/
def jsonMatchAt (data : Bytes) : Option JsonMatch :=
  match data with
  | 34 :: tail =>
      match stringTail? tail with
      | none => none
      | some length =>
          let nameLength := length + 1
          (matchValue? (data.drop nameLength)).map fun found =>
            let valueStart := nameLength + found.1
            ⟨data.take nameLength, valueStart,
              (data.drop valueStart).take found.2⟩
  | _ => none

/-- `_JSON_FIELD.finditer`, `skip` bytes on; `offset` is that of the data. -/
def jsonMatchesFrom : (skip offset : Nat) → Bytes → List JsonMatch
  | _, _, [] => []
  | skip + 1, offset, _ :: rest => jsonMatchesFrom skip (offset + 1) rest
  | 0, offset, byte :: rest =>
      match jsonMatchAt (byte :: rest) with
      | none => jsonMatchesFrom 0 (offset + 1) rest
      | some found =>
          { found with valueStart := offset + found.valueStart } ::
            jsonMatchesFrom (found.stop - 1) (offset + 1) rest

/-- `_JSON_FIELD.finditer`. -/
def jsonMatches (data : Bytes) : List JsonMatch :=
  jsonMatchesFrom 0 0 data

/-! ## Fields -/

/-- What the loop does with a match: it raises, goes on, or appends a field. -/
inductive JsonStep where
  | raise
  | skip
  | append (field : Field)
  deriving Repr, DecidableEq

/-- The body of the loop. -/
def jsonStep (python : PythonLibrary) (found : JsonMatch) : JsonStep :=
  match loads python found.name, loads python found.value,
      decodeUtf8 found.value with
  | some (.string name), some (.string value), some encoded
  | some (.string name), some (.number value), some encoded =>
      .append ⟨name, value, encoded, found.valueStart, found.stop⟩
  | some (.string _), some .null, _ | some (.string _), some (.bool _), _ =>
      .skip
  | _, _, _ => .raise

/-- The loop, while `remaining` more fields may be appended. -/
def collectFields
    (python : PythonLibrary) :
    (remaining : Nat) → List JsonMatch → Option (List Field)
  | 0, _ => some []
  | _ + 1, [] => some []
  | remaining + 1, found :: later =>
      match jsonStep python found with
      | .raise => none
      | .skip => collectFields python (remaining + 1) later
      | .append field =>
          (collectFields python remaining later).map (field :: ·)

@[simp] theorem collectFields_zero
    (python : PythonLibrary)
    (found : List JsonMatch) :
    collectFields python 0 found = some [] := by
  cases found <;> rfl

@[simp] theorem collectFields_nil (python : PythonLibrary) (remaining : Nat) :
    collectFields python remaining [] = some [] := by
  cases remaining <;> rfl

theorem collectFields_cons
    (python : PythonLibrary)
    (remaining : Nat)
    (found : JsonMatch)
    (later : List JsonMatch) :
    collectFields python (remaining + 1) (found :: later) =
      match jsonStep python found with
      | .raise => none
      | .skip => collectFields python (remaining + 1) later
      | .append field =>
          (collectFields python remaining later).map (field :: ·) := rfl

/-- `json_fields`; `none` where it raises. -/
def jsonFields (python : PythonLibrary) (data : Bytes) : Option (List Field) :=
  if nestingExceeds maxJsonNesting 0 false false data then none
  else
    match loads python data with
    | none => none
    | some _ => collectFields python maxFields (jsonMatches data)

end PacketAudit
