import PacketAudit.Http.Forms

namespace PacketAudit

/-!
# `json.loads`

The decoder of the standard library, as far as `json_fields` sees it: which
texts it accepts, and the value of a text that is a string, a number or a
literal.  What an array or an object holds is not read.
-/

/-! ## Decoding bytes -/

/-- The encodings of `json.detect_encoding`. -/
inductive JsonEncoding where
  | utf8
  | utf8Sig
  | utf16
  | utf16Be
  | utf16Le
  | utf32
  | utf32Be
  | utf32Le
  deriving Repr, DecidableEq

/-- What is not modelled of the standard library. -/
structure PythonLibrary where
  /-- `str(float(token))`. -/
  floatText : Text → Text
  /-- The decoders for UTF-16 and UTF-32. -/
  decodeWide : JsonEncoding → Bytes → Option Text

/-- `json.detect_encoding`. -/
def detectEncoding (data : Bytes) : JsonEncoding :=
  if [0, 0, 0xFE, 0xFF].isPrefixOf data ∨
      [0xFF, 0xFE, 0, 0].isPrefixOf data then
    .utf32
  else if [0xFE, 0xFF].isPrefixOf data ∨ [0xFF, 0xFE].isPrefixOf data then
    .utf16
  else if [0xEF, 0xBB, 0xBF].isPrefixOf data then
    .utf8Sig
  else
    match data with
    | first :: second :: third :: fourth :: _ =>
        if first = 0 then (if second ≠ 0 then .utf16Be else .utf32Be)
        else if second = 0 then
          (if third ≠ 0 ∨ fourth ≠ 0 then .utf16Le else .utf32Le)
        else .utf8
    | [first, second] =>
        if first = 0 then .utf16Be
        else if second = 0 then .utf16Le
        else .utf8
    | _ => .utf8

/-- An encoded surrogate, which `surrogatepass` lets through. -/
def encodedSurrogate? (data : Bytes) : Option Nat :=
  match data with
  | 0xED :: second :: third :: _ =>
      if 0xA0 ≤ second ∧ second ≤ 0xBF ∧ 0x80 ≤ third ∧ third ≤ 0xBF then
        some (0xD000 + second.toNat % 64 * 64 + third.toNat % 64)
      else
        none
  | _ => none

/-- UTF-8 decoding of at most `rounds` characters. -/
def decodeUtf8From (surrogatePass : Bool) : (rounds : Nat) → Bytes → Option Text
  | _, [] => some []
  | 0, _ :: _ => none
  | rounds + 1, first :: rest =>
      match (first :: rest).toByteArray.utf8DecodeChar? 0 with
      | some character =>
          (decodeUtf8From surrogatePass rounds
            ((first :: rest).drop character.utf8Size)).map
              (character.toNat :: ·)
      | none =>
          if surrogatePass then do
            let surrogate ← encodedSurrogate? (first :: rest)
            let later ← decodeUtf8From surrogatePass rounds (rest.drop 2)
            some (surrogate :: later)
          else
            none

/-- `decode("utf-8")`. -/
def decodeUtf8 (data : Bytes) : Option Text :=
  decodeUtf8From false data.length data

/-- `s.decode(detect_encoding(s), "surrogatepass")`. -/
def PythonLibrary.decode
    (python : PythonLibrary)
    (data : Bytes) : Option Text :=
  match detectEncoding data with
  | .utf8 => decodeUtf8From true data.length data
  | .utf8Sig => decodeUtf8From true data.length (data.drop 3)
  | wide => python.decodeWide wide data

/-! ## Scanning strings -/

/-- A code unit of a string, with whether a `\u` escape stands for it. -/
structure CodeUnit where
  code : Nat
  escaped : Bool
  deriving Repr, DecidableEq

/-- The value of a hexadecimal digit of a text. -/
def hexCode? (code : Nat) : Option Nat :=
  if 48 ≤ code ∧ code ≤ 57 then some (code - 48)
  else if 65 ≤ code ∧ code ≤ 70 then some (code - 55)
  else if 97 ≤ code ∧ code ≤ 102 then some (code - 87)
  else none

/-- The value of the four digits of a `\u` escape. -/
def hexUnit? (first second third fourth : Nat) : Option Nat := do
  let firstDigit ← hexCode? first
  let secondDigit ← hexCode? second
  let thirdDigit ← hexCode? third
  let fourthDigit ← hexCode? fourth
  some (((firstDigit * 16 + secondDigit) * 16 + thirdDigit) * 16 + fourthDigit)

/-- `_json.scanner`'s table of the other escapes. -/
def escapedCode? (letter : Nat) : Option Nat :=
  match letter with
  | 34 => some 34
  | 92 => some 92
  | 47 => some 47
  | 98 => some 8
  | 102 => some 12
  | 110 => some 10
  | 114 => some 13
  | 116 => some 9
  | _ => none

/-- The units of a string behind its opening quote, and what follows it. -/
def scanUnits : Text → Option (List CodeUnit × Text)
  | 34 :: rest => some ([], rest)
  | 92 :: 117 :: first :: second :: third :: fourth :: rest => do
      let code ← hexUnit? first second third fourth
      let (units, behind) ← scanUnits rest
      some (⟨code, true⟩ :: units, behind)
  | 92 :: letter :: rest => do
      let code ← escapedCode? letter
      let (units, behind) ← scanUnits rest
      some (⟨code, false⟩ :: units, behind)
  | [92] => none
  | code :: rest =>
      if code < 32 then
        none
      else do
        let (units, behind) ← scanUnits rest
        some (⟨code, false⟩ :: units, behind)
  | [] => none

/-- Escaped surrogates of a pair are joined. -/
def joinSurrogates : List CodeUnit → Text
  | high :: low :: rest =>
      if high.escaped ∧ low.escaped ∧ 0xD800 ≤ high.code ∧
          high.code ≤ 0xDBFF ∧ 0xDC00 ≤ low.code ∧ low.code ≤ 0xDFFF then
        (0x10000 + (high.code - 0xD800) * 1024 + (low.code - 0xDC00)) ::
          joinSurrogates rest
      else
        high.code :: joinSurrogates (low :: rest)
  | [last] => [last.code]
  | [] => []

/-! ## Scanning values -/

/-- A decoded value; what a container holds is left out. -/
inductive JsonValue where
  | null
  | bool (value : Bool)
  | number (text : Text)
  | string (text : Text)
  | container
  deriving Repr, DecidableEq

/-- The code points of an ASCII text. -/
def asciiText (text : String) : Text :=
  text.toList.map Char.toNat

/-- The whitespace of JSON. -/
def isJsonSpace (code : Nat) : Bool :=
  code = 32 || code = 9 || code = 10 || code = 13

/-- What follows the whitespace at the front. -/
def skipSpaces (text : Text) : Text :=
  text.dropWhile isJsonSpace

def isDigitCode (code : Nat) : Bool :=
  48 ≤ code && code ≤ 57

/-- How many code points a fraction takes. -/
def fractionLength (text : Text) : Nat :=
  match text with
  | 46 :: rest =>
      let digits := (rest.takeWhile isDigitCode).length
      if digits = 0 then 0 else digits + 1
  | _ => 0

/-- How many code points an exponent takes. -/
def exponentLength (text : Text) : Nat :=
  match text with
  | letter :: rest =>
      if letter = 101 ∨ letter = 69 then
        let sign := if rest.head? = some 43 ∨ rest.head? = some 45 then 1 else 0
        let digits := ((rest.drop sign).takeWhile isDigitCode).length
        if digits = 0 then 0 else digits + sign + 1
      else
        0
  | [] => 0

/-- How many code points the integer part of a number takes. -/
def integerLength (text : Text) : Option Nat :=
  let sign := if text.head? = some 45 then 1 else 0
  let unsigned := text.drop sign
  match unsigned with
  | 48 :: _ => some (sign + 1)
  | _ =>
      let digits := (unsigned.takeWhile isDigitCode).length
      if digits = 0 then none else some (sign + digits)

/-- The most digits that `int` converts. -/
def maxIntDigits : Nat := 4300

/-- `str` of the number that a token stands for, if `int` converts it. -/
def PythonLibrary.numberText
    (python : PythonLibrary)
    (token : Text)
    (isFloat : Bool) : Option Text :=
  if isFloat then some (python.floatText token)
  else if maxIntDigits < (token.filter isDigitCode).length then none
  -- A token has no leading zeros.
  else if token = asciiText "-0" then some (asciiText "0")
  else some token

/-- `_match_number`. -/
def scanNumber
    (python : PythonLibrary)
    (text : Text) : Option (JsonValue × Text) := do
  let integer ← integerLength text
  let fraction := fractionLength (text.drop integer)
  let exponent := exponentLength (text.drop (integer + fraction))
  let length := integer + fraction + exponent
  let number ←
    python.numberText (text.take length) (fraction ≠ 0 || exponent ≠ 0)
  some (.number number, text.drop length)

/-- The words that are values by themselves, as `scan_once` tries them. -/
def jsonWords : List (Text × JsonValue) := [
  (asciiText "null", .null),
  (asciiText "true", .bool true),
  (asciiText "false", .bool false),
  (asciiText "NaN", .number (asciiText "nan")),
  (asciiText "Infinity", .number (asciiText "inf")),
  (asciiText "-Infinity", .number (asciiText "-inf"))]

mutual

/-- `scan_once`. -/
def scanValue
    (python : PythonLibrary) : (fuel : Nat) → Text → Option (JsonValue × Text)
  | 0, _ => none
  | fuel + 1, text =>
      match text with
      | 34 :: rest => do
          let (units, behind) ← scanUnits rest
          some (.string (joinSurrogates units), behind)
      | 123 :: rest =>
          match skipSpaces rest with
          | 125 :: behind => some (.container, behind)
          | members =>
              (scanMembers python fuel members).map fun behind =>
                (.container, behind)
      | 91 :: rest =>
          match skipSpaces rest with
          | 93 :: behind => some (.container, behind)
          | elements =>
              (scanElements python fuel elements).map fun behind =>
                (.container, behind)
      | other =>
          match jsonWords.find? fun word => word.1.isPrefixOf other with
          | some word => some (word.2, other.drop word.1.length)
          | none => scanNumber python other

/-- The loop of `_parse_array`, from an element on. -/
def scanElements
    (python : PythonLibrary) : (fuel : Nat) → Text → Option Text
  | 0, _ => none
  | fuel + 1, text => do
      let (_, behind) ← scanValue python fuel text
      match skipSpaces behind with
      | 93 :: rest => some rest
      | 44 :: rest => scanElements python fuel (skipSpaces rest)
      | _ => none

/-- The loop of `_parse_object`, from a name on. -/
def scanMembers
    (python : PythonLibrary) : (fuel : Nat) → Text → Option Text
  | 0, _ => none
  | fuel + 1, text =>
      match text with
      | 34 :: rest => do
          let (_, behindName) ← scanUnits rest
          match skipSpaces behindName with
          | 58 :: value => do
              let (_, behind) ← scanValue python fuel (skipSpaces value)
              match skipSpaces behind with
              | 125 :: rest => some rest
              | 44 :: rest => scanMembers python fuel (skipSpaces rest)
              | _ => none
          | _ => none
      | _ => none

end

/-- `json.loads` of bytes. -/
def loads (python : PythonLibrary) (data : Bytes) : Option JsonValue := do
  let text ← python.decode data
  let (value, behind) ←
    scanValue python (text.length + 1) (skipSpaces text)
  if skipSpaces behind = [] then some value else none

end PacketAudit
