import PacketAudit.Json.Fields

namespace PacketAudit

/-!
# JSON documents

Documents as syntax trees that keep every character, so that each tree stands
for one text and each valid text has a tree, and what their object members are.
-/

/-! ## Leaves -/

/-- A character that a string may hold as it is. -/
structure PlainChar where
  character : Char
  notControl : 32 ≤ character.toNat
  notQuote : character ≠ '"'
  notBackslash : character ≠ '\\'

/-- The escapes with a letter. -/
inductive ShortEscape where
  | quote
  | backslash
  | slash
  | backspace
  | formFeed
  | newline
  | carriageReturn
  | tab
  deriving Repr, DecidableEq

namespace ShortEscape

/-- The letter behind the backslash. -/
def letter : ShortEscape → Char
  | quote => '"'
  | backslash => '\\'
  | slash => '/'
  | backspace => 'b'
  | formFeed => 'f'
  | newline => 'n'
  | carriageReturn => 'r'
  | tab => 't'

/-- The code point that the escape stands for. -/
def code : ShortEscape → Nat
  | quote => 34
  | backslash => 92
  | slash => 47
  | backspace => 8
  | formFeed => 12
  | newline => 10
  | carriageReturn => 13
  | tab => 9

end ShortEscape

/-- A hexadecimal digit in either case. -/
structure HexDigit where
  value : Fin 16
  upper : Bool
  deriving Repr, DecidableEq

def HexDigit.char (digit : HexDigit) : Char :=
  if digit.value < 10 then Char.ofNat (48 + digit.value)
  else if digit.upper then Char.ofNat (55 + digit.value)
  else Char.ofNat (87 + digit.value)

/-- A character or an escape of a string. -/
inductive JsonUnit where
  | plain (character : PlainChar)
  | short (escape : ShortEscape)
  | unicode (first second third fourth : HexDigit)

namespace JsonUnit

def chars : JsonUnit → List Char
  | plain character => [character.character]
  | short escape => ['\\', escape.letter]
  | unicode first second third fourth =>
      ['\\', 'u', first.char, second.char, third.char, fourth.char]

/-- The code unit that the characters stand for. -/
def codeUnit : JsonUnit → CodeUnit
  | plain character => ⟨character.character.toNat, false⟩
  | short escape => ⟨escape.code, false⟩
  | unicode first second third fourth =>
      ⟨((first.value * 16 + second.value) * 16 + third.value) * 16 +
        fourth.value, true⟩

end JsonUnit

/-- The content of a string. -/
abbrev JsonString := List JsonUnit

namespace JsonString

/-- The characters between the quotes. -/
def content (string : JsonString) : List Char :=
  string.flatMap JsonUnit.chars

def chars (string : JsonString) : List Char :=
  '"' :: string.content ++ ['"']

/-- The decoded string. -/
def text (string : JsonString) : Text :=
  joinSurrogates (string.map JsonUnit.codeUnit)

end JsonString

/-- A digit. -/
def digitChar (digit : Fin 10) : Char :=
  Char.ofNat (48 + digit)

/-- One digit or more. -/
structure Digits where
  first : Fin 10
  more : List (Fin 10)
  deriving Repr, DecidableEq

def Digits.chars (digits : Digits) : List Char :=
  (digits.first :: digits.more).map digitChar

/-- The integer part of a number, which has no leading zeros. -/
inductive JsonInteger where
  | zero
  | positive (digits : Digits) (leading : digits.first ≠ 0)
  deriving Repr, DecidableEq

def JsonInteger.chars : JsonInteger → List Char
  | zero => ['0']
  | positive digits _ => digits.chars

/-- The sign of an exponent. -/
inductive ExponentSign where
  | none
  | plus
  | minus
  deriving Repr, DecidableEq

def ExponentSign.chars : ExponentSign → List Char
  | none => []
  | plus => ['+']
  | minus => ['-']

/-- An exponent. -/
structure JsonExponent where
  upper : Bool
  sign : ExponentSign
  digits : Digits
  deriving Repr, DecidableEq

def JsonExponent.chars (exponent : JsonExponent) : List Char :=
  (if exponent.upper then 'E' else 'e') ::
    (exponent.sign.chars ++ exponent.digits.chars)

/-- A number. -/
structure JsonNumber where
  negative : Bool
  integer : JsonInteger
  fraction : Option Digits
  exponent : Option JsonExponent
  deriving Repr, DecidableEq

namespace JsonNumber

def fractionChars (number : JsonNumber) : List Char :=
  match number.fraction with
  | none => []
  | some digits => '.' :: digits.chars

def exponentChars (number : JsonNumber) : List Char :=
  match number.exponent with
  | none => []
  | some exponent => exponent.chars

def integerChars (number : JsonNumber) : List Char :=
  (if number.negative then ['-'] else []) ++ number.integer.chars

def chars (number : JsonNumber) : List Char :=
  number.integerChars ++ (number.fractionChars ++ number.exponentChars)

/-- Python reads the number as a `float`. -/
def isFloat (number : JsonNumber) : Bool :=
  number.fraction.isSome || number.exponent.isSome

/-- The code points of the number. -/
def token (number : JsonNumber) : Text :=
  number.chars.map Char.toNat

/-- The number in decimal, or as `float` writes it. -/
def text (python : PythonLibrary) (number : JsonNumber) : Text :=
  if number.isFloat then python.floatText number.token
  else if number.token = asciiText "-0" then asciiText "0"
  else number.token

/-- The number is no integer of too many digits for `int`. -/
def Converts (number : JsonNumber) : Prop :=
  number.isFloat ∨
    (number.token.filter isDigitCode).length ≤ maxIntDigits

end JsonNumber

/-- The values that are words. -/
inductive JsonWord where
  | trueWord
  | falseWord
  | nullWord
  deriving Repr, DecidableEq

def JsonWord.chars : JsonWord → List Char
  | trueWord => "true".toList
  | falseWord => "false".toList
  | nullWord => "null".toList

/-- A value without further values in it. -/
inductive Scalar where
  | word (value : JsonWord)
  | number (value : JsonNumber)
  | string (value : JsonString)

namespace Scalar

def chars : Scalar → List Char
  | .word value => value.chars
  | .number value => value.chars
  | .string value => value.chars

/-- The decoded value of a number or a string. -/
def text (python : PythonLibrary) : Scalar → Option Text
  | .word _ => none
  | .number value => some (value.text python)
  | .string value => some value.text

/-- Every integer converts. -/
def Converts : Scalar → Prop
  | .number value => value.Converts
  | _ => True

end Scalar

/-- Whitespace between tokens. -/
inductive Space where
  | space
  | tab
  | newline
  | carriageReturn
  deriving Repr, DecidableEq

def Space.char : Space → Char
  | space => ' '
  | tab => '\t'
  | newline => '\n'
  | carriageReturn => '\r'

abbrev Spaces := List Space

def Spaces.chars (spaces : Spaces) : List Char :=
  spaces.map Space.char

/-! ## Trees -/

mutual

/-- A value. -/
inductive Json where
  | scalar (scalar : Scalar)
  | emptyArray (spaces : Spaces)
  | array (elements : Elements)
  | emptyObject (spaces : Spaces)
  | object (members : Members)

/-- The elements of an array, with the whitespace around each. -/
inductive Elements where
  | last (before : Spaces) (value : Json) (behind : Spaces)
  | more (before : Spaces) (value : Json) (behind : Spaces) (rest : Elements)

/-- The members of an object. -/
inductive Members where
  | last
      (before : Spaces)
      (name : JsonString)
      (behindName beforeValue : Spaces)
      (value : Json)
      (behind : Spaces)
  | more
      (before : Spaces)
      (name : JsonString)
      (behindName beforeValue : Spaces)
      (value : Json)
      (behind : Spaces)
      (rest : Members)

end

/-- The characters of a member's name up to its value. -/
def nameChars
    (name : JsonString)
    (behindName beforeValue : Spaces) : List Char :=
  name.chars ++ (behindName.chars ++ ':' :: beforeValue.chars)

mutual

def Json.chars : Json → List Char
  | .scalar scalar => scalar.chars
  | .emptyArray spaces => '[' :: (spaces.chars ++ [']'])
  | .array elements => '[' :: (elements.chars ++ [']'])
  | .emptyObject spaces => '{' :: (spaces.chars ++ ['}'])
  | .object members => '{' :: (members.chars ++ ['}'])

def Elements.chars : Elements → List Char
  | .last before value behind =>
      before.chars ++ (value.chars ++ behind.chars)
  | .more before value behind rest =>
      before.chars ++ (value.chars ++ (behind.chars ++ ',' :: rest.chars))

def Members.chars : Members → List Char
  | .last before name behindName beforeValue value behind =>
      before.chars ++ (nameChars name behindName beforeValue ++
        (value.chars ++ behind.chars))
  | .more before name behindName beforeValue value behind rest =>
      before.chars ++ (nameChars name behindName beforeValue ++
        (value.chars ++ (behind.chars ++ ',' :: rest.chars)))

end

mutual

/-- How deep arrays and objects are nested. -/
def Json.depth : Json → Nat
  | .scalar _ => 0
  | .emptyArray _ => 1
  | .array elements => elements.depth + 1
  | .emptyObject _ => 1
  | .object members => members.depth + 1

def Elements.depth : Elements → Nat
  | .last _ value _ => value.depth
  | .more _ value _ rest => max value.depth rest.depth

def Members.depth : Members → Nat
  | .last _ _ _ _ value _ => value.depth
  | .more _ _ _ _ value _ rest => max value.depth rest.depth

end

mutual

/-- Every integer of the value converts. -/
def Json.Converts : Json → Prop
  | .scalar scalar => scalar.Converts
  | .emptyArray _ => True
  | .array elements => elements.Converts
  | .emptyObject _ => True
  | .object members => members.Converts

def Elements.Converts : Elements → Prop
  | .last _ value _ => value.Converts
  | .more _ value _ rest => value.Converts ∧ rest.Converts

def Members.Converts : Members → Prop
  | .last _ _ _ _ value _ => value.Converts
  | .more _ _ _ _ value _ rest => value.Converts ∧ rest.Converts

end

instance (number : JsonNumber) : Decidable number.Converts :=
  inferInstanceAs (Decidable (_ ∨ _))

instance (leaf : Scalar) : Decidable leaf.Converts :=
  match leaf with
  | .number value => inferInstanceAs (Decidable value.Converts)
  | .word _ | .string _ => inferInstanceAs (Decidable True)

mutual

/-- Whether every integer converts can be computed. -/
def Json.decideConverts : (value : Json) → Decidable value.Converts
  | .scalar scalar => inferInstanceAs (Decidable scalar.Converts)
  | .emptyArray _ | .emptyObject _ => inferInstanceAs (Decidable True)
  | .array elements => elements.decideConverts
  | .object members => members.decideConverts

def Elements.decideConverts :
    (elements : Elements) → Decidable elements.Converts
  | .last _ value _ => value.decideConverts
  | .more _ value _ rest =>
      @instDecidableAnd _ _ value.decideConverts rest.decideConverts

def Members.decideConverts : (members : Members) → Decidable members.Converts
  | .last _ _ _ _ value _ => value.decideConverts
  | .more _ _ _ _ value _ rest =>
      @instDecidableAnd _ _ value.decideConverts rest.decideConverts

end

instance (value : Json) : Decidable value.Converts :=
  value.decideConverts

instance (elements : Elements) : Decidable elements.Converts :=
  elements.decideConverts

instance (members : Members) : Decidable members.Converts :=
  members.decideConverts

/-! ## Members with a scalar value -/

/-- Whether a member with this value counts as a scalar member. -/
def Json.isScalar : Json → Bool
  | .scalar _ => true
  | _ => false

mutual

/-- How many object members have a scalar value. -/
def Json.scalarMembers : Json → Nat
  | .scalar _ => 0
  | .emptyArray _ => 0
  | .array elements => elements.scalarMembers
  | .emptyObject _ => 0
  | .object members => members.scalarMembers

def Elements.scalarMembers : Elements → Nat
  | .last _ value _ => value.scalarMembers
  | .more _ value _ rest => value.scalarMembers + rest.scalarMembers

def Members.scalarMembers : Members → Nat
  | .last _ _ _ _ value _ => value.isScalar.toNat + value.scalarMembers
  | .more _ _ _ _ value _ rest =>
      value.isScalar.toNat + value.scalarMembers + rest.scalarMembers

end

/-- The bytes of characters. -/
def encodeUtf8 (chars : List Char) : Bytes :=
  chars.flatMap String.utf8EncodeChar

/-- How many bytes characters take. -/
def byteSize (chars : List Char) : Nat :=
  (encodeUtf8 chars).length

/-- The field of a member whose value is a string or a number. -/
def memberFields
    (python : PythonLibrary)
    (name : JsonString)
    (value : Json)
    (start : Nat) : List Field :=
  match value with
  | .scalar scalar =>
      (scalar.text python).toList.map fun text =>
        ⟨name.text, text, scalar.chars.map Char.toNat, start,
          start + byteSize scalar.chars⟩
  | _ => []

mutual

/-- The string and number members in the value, in order. -/
def Json.fields (python : PythonLibrary) : (start : Nat) → Json → List Field
  | _, .scalar _ => []
  | _, .emptyArray _ => []
  | start, .array elements => elements.fields python (start + 1)
  | _, .emptyObject _ => []
  | start, .object members => members.fields python (start + 1)

def Elements.fields
    (python : PythonLibrary) : (start : Nat) → Elements → List Field
  | start, .last before value _ =>
      value.fields python (start + byteSize before.chars)
  | start, .more before value behind rest =>
      value.fields python (start + byteSize before.chars) ++
        rest.fields python
          (start + byteSize before.chars + byteSize value.chars +
            byteSize behind.chars + 1)

def Members.fields
    (python : PythonLibrary) : (start : Nat) → Members → List Field
  | start, .last before name behindName beforeValue value _ =>
      let valueStart :=
        start + byteSize before.chars +
          byteSize (nameChars name behindName beforeValue)
      memberFields python name value valueStart ++
        value.fields python valueStart
  | start, .more before name behindName beforeValue value behind rest =>
      let valueStart :=
        start + byteSize before.chars +
          byteSize (nameChars name behindName beforeValue)
      memberFields python name value valueStart ++
        (value.fields python valueStart ++
          rest.fields python
            (valueStart + byteSize value.chars + byteSize behind.chars + 1))

end

/-- A document: a value with whitespace around it. -/
structure JsonDocument where
  before : Spaces
  value : Json
  behind : Spaces

namespace JsonDocument

def chars (document : JsonDocument) : List Char :=
  document.before.chars ++ (document.value.chars ++ document.behind.chars)

/-- The document in UTF-8. -/
def data (document : JsonDocument) : Bytes :=
  encodeUtf8 document.chars

/-- What `json_fields` is to return. -/
def fields (python : PythonLibrary) (document : JsonDocument) : List Field :=
  document.value.fields python (byteSize document.before.chars)

end JsonDocument

end PacketAudit
