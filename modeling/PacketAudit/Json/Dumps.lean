import PacketAudit.Json.Nesting
import PacketAudit.Json.Values

namespace PacketAudit

/-!
# `write_json_line`

`_json_safe` and `json.dumps` of `writer.py`, and the line that is written.  It
is a document that `json.loads` reads as the value that was written.
-/

/-! ## Values that JSON has -/

/-- `bytes.hex` of half a byte. -/
def lowerHex (value : Nat) : Nat :=
  if value < 10 then 48 + value else 87 + value

/-- `bytes.hex`. -/
def hexText (value : Bytes) : Text :=
  value.flatMap fun byte =>
    [lowerHex (byte.toNat / 16), lowerHex (byte.toNat % 16)]

mutual

/-- `_json_safe`; the names of a `dict` are texts already. -/
def jsonSafe : PyValue → PyValue
  | .bytes value =>
      .dict [(asciiText "encoding", .str (asciiText "hex")),
        (asciiText "value", .str (hexText value))]
  | .dict members => .dict (jsonSafeMembers members)
  | .list items => .list (jsonSafeItems items)
  | .none => .none
  | .bool value => .bool value
  | .int value => .int value
  | .float text => .float text
  | .str text => .str text

def jsonSafeItems : List PyValue → List PyValue
  | [] => []
  | item :: rest => jsonSafe item :: jsonSafeItems rest

def jsonSafeMembers : List (Text × PyValue) → List (Text × PyValue)
  | [] => []
  | (name, value) :: rest => (name, jsonSafe value) :: jsonSafeMembers rest

end

/-! ## Texts -/

/-- `ESCAPE_DCT`, for a text that is not restricted to ASCII. -/
def escapeCode (code : Nat) : Text :=
  match code with
  | 34 => [92, 34]
  | 92 => [92, 92]
  | 10 => [92, 110]
  | 13 => [92, 114]
  | 9 => [92, 116]
  | 12 => [92, 102]
  | 8 => [92, 98]
  | code =>
      if code < 32 then
        [92, 117, 48, 48, lowerHex (code / 16), lowerHex (code % 16)]
      else
        [code]

/-- `encode_basestring`. -/
def encodeString (text : Text) : Text :=
  34 :: (text.flatMap escapeCode ++ [34])

/-- A number in decimal. -/
def intChars (value : Int) : List Char :=
  (if value < 0 then ['-'] else []) ++ Nat.toDigits 10 value.natAbs

/-- `int.__repr__`, which raises on too many digits. -/
def intText (value : Int) : Option Text :=
  if maxIntDigits < (Nat.toDigits 10 value.natAbs).length then none
  else some (codes (intChars value))

mutual

/-- `json.dumps`, with the separators `,` and `:`. -/
def dumps : PyValue → Option Text
  | .none => some (asciiText "null")
  | .bool true => some (asciiText "true")
  | .bool false => some (asciiText "false")
  | .int value => intText value
  | .float text => some text
  | .str text => some (encodeString text)
  | .bytes _ => none
  | .list items => (dumpsItems items).map fun text => 91 :: (text ++ [93])
  | .dict members =>
      (dumpsMembers members).map fun text => 123 :: (text ++ [125])

/-- The items of a list, with the separators between them. -/
def dumpsItems : List PyValue → Option Text
  | [] => some []
  | [item] => dumps item
  | item :: rest => do
      let first ← dumps item
      let later ← dumpsItems rest
      some (first ++ 44 :: later)

/-- The members of a `dict`, with the separators between them. -/
def dumpsMembers : List (Text × PyValue) → Option Text
  | [] => some []
  | [(name, value)] => do
      let first ← dumps value
      some (encodeString name ++ 58 :: first)
  | (name, value) :: rest => do
      let first ← dumps value
      let later ← dumpsMembers rest
      some (encodeString name ++ 58 :: (first ++ 44 :: later))

end

/-- `encode("utf-8")`, which raises on a surrogate. -/
def encodeText (text : Text) : Option Bytes :=
  if text.all fun code => decide code.isValidChar then
    some (encodeUtf8 (text.map Char.ofNat))
  else
    none

/-- The bytes `write_json_line` appends to the file, unless it raises. -/
def writeJsonLine (value : PyValue) : Option Bytes := do
  let text ← dumps (jsonSafe value)
  encodeText (text ++ [10])

end PacketAudit
