import PacketAudit.Http.Framer
import PacketAudit.Detector.Correlation

namespace PacketAudit

open Library

/-!
# Form fields

`form_fields` of `http_forms.py`, `Message.wire_span`, and the finding that
`_scan_http_message` emits for a field of a body.
-/

/-! ## Texts -/

/-- The code points of a `str`, which may hold lone surrogates. -/
abbrev Text := List Nat

/-- A text without surrogates, as a string. -/
def Text.toString (text : Text) : String :=
  String.ofList (text.map Char.ofNat)

/-- The continuation bytes behind a first byte, and the bounds of the first. -/
def utf8Shape (first : UInt8) : Option (Nat × UInt8 × UInt8) :=
  if first < 0x80 then some (0, 0x80, 0xBF)
  else if 0xC2 ≤ first ∧ first ≤ 0xDF then some (1, 0x80, 0xBF)
  else if first = 0xE0 then some (2, 0xA0, 0xBF)
  else if first = 0xED then some (2, 0x80, 0x9F)
  else if 0xE1 ≤ first ∧ first ≤ 0xEF then some (2, 0x80, 0xBF)
  else if first = 0xF0 then some (3, 0x90, 0xBF)
  else if 0xF1 ≤ first ∧ first ≤ 0xF3 then some (3, 0x80, 0xBF)
  else if first = 0xF4 then some (3, 0x80, 0x8F)
  else none

/-- How many of the continuation bytes are there. -/
def utf8Run (shape : Nat × UInt8 × UInt8) (rest : Bytes) : Nat :=
  match shape, rest with
  | (count + 1, low, high), second :: later =>
      if low ≤ second ∧ second ≤ high then
        1 + ((later.take count).takeWhile fun byte =>
          0x80 ≤ byte && byte ≤ 0xBF).length
      else
        0
  | _, _ => 0

/-- The code point that a first byte and its continuation bytes encode. -/
def utf8CodePoint (first : UInt8) (continuation : Bytes) : Nat :=
  let lead :=
    if continuation.isEmpty then first.toNat
    else first.toNat % 2 ^ (6 - continuation.length)
  continuation.foldl (fun value byte => value * 64 + byte.toNat % 64) lead

/-- `decode("utf-8", "replace")` of at most `rounds` characters. -/
def decodeReplaceFrom : (rounds : Nat) → Bytes → Text
  | 0, _ => []
  | _ + 1, [] => []
  | rounds + 1, first :: rest =>
      match utf8Shape first with
      | none => 0xFFFD :: decodeReplaceFrom rounds rest
      | some shape =>
          let run := utf8Run shape rest
          -- What is there of a sequence that breaks off is replaced as one.
          (if run = shape.1 then utf8CodePoint first (rest.take run)
            else 0xFFFD) :: decodeReplaceFrom rounds (rest.drop run)

/-- `decode("utf-8", "replace")`. -/
def decodeReplace (data : Bytes) : Text :=
  decodeReplaceFrom data.length data

/-- The byte that two hexadecimal digits behind a percent sign stand for. -/
def percentByte? (sign high low : Nat) : Option UInt8 := do
  guard (sign = 37)
  let highDigit ← hexDigit? (UInt8.ofNat high)
  let lowDigit ← hexDigit? (UInt8.ofNat low)
  some (UInt8.ofNat (highDigit * 16 + lowDigit))

/-- `urllib.parse.unquote_to_bytes` of an ASCII text. -/
def unquoteToBytes : Text → Bytes
  | sign :: high :: low :: behind =>
      match percentByte? sign high low with
      | some byte => byte :: unquoteToBytes behind
      | none => UInt8.ofNat sign :: unquoteToBytes (high :: low :: behind)
  | code :: rest => UInt8.ofNat code :: unquoteToBytes rest
  | [] => []

/-- The characters of `_asciire`. -/
def isAsciiCode (code : Nat) : Bool :=
  code < 128

/-- `urllib.parse.unquote`. -/
def unquote (text : Text) : Text :=
  (text.splitBy fun left right => isAsciiCode left = isAsciiCode right).flatMap
    fun part =>
      if part.all isAsciiCode then decodeReplace (unquoteToBytes part)
      else part

/-- `urllib.parse.unquote_plus`. -/
def unquotePlus (text : Text) : Text :=
  unquote (text.map fun code => if code = 43 then 32 else code)

/-! ## Fields -/

/-- `Field`. -/
structure Field where
  name : Text
  value : Text
  encoded : Text
  start : Nat
  stop : Nat
  deriving Repr, DecidableEq

/-- The positions of a match of the pattern of `form_fields`. -/
structure FormMatch where
  nameStart : Nat
  valueStart : Nat
  stop : Nat
  deriving Repr, DecidableEq

/-- `[^=&;]`. -/
def isFormNameByte (byte : UInt8) : Bool :=
  byte ≠ 61 && byte ≠ 38 && byte ≠ 59

/-- `[^&;]`. -/
def isFormValueByte (byte : UInt8) : Bool :=
  byte ≠ 38 && byte ≠ 59

/-- The pattern behind its first alternatives. -/
def formGroupsAt (data : Bytes) (nameStart : Nat) : Option FormMatch :=
  let name := (data.drop nameStart).takeWhile isFormNameByte
  let equals := nameStart + name.length
  -- No shorter name has the equals sign behind it.
  if 1 ≤ name.length ∧ name.length ≤ 256 ∧ data[equals]? = some 61 then
    let value :=
      ((data.drop (equals + 1)).takeWhile isFormValueByte).take 8192
    some ⟨nameStart, equals + 1, equals + 1 + value.length⟩
  else
    none

/-- The pattern at a position: `^` first, then a separator. -/
def formMatchAt (data : Bytes) (position : Nat) : Option FormMatch :=
  (if position = 0 then formGroupsAt data 0 else none).or
    (if data[position]? = some 38 ∨ data[position]? = some 59 then
        formGroupsAt data (position + 1)
      else none)

/-- `re.finditer` from a position on, for at most `rounds` matches. -/
def formMatchesFrom (data : Bytes) : (rounds position : Nat) → List FormMatch
  | 0, _ => []
  | rounds + 1, position =>
      match
        (List.range' position (data.length - position)).findSome?
          (formMatchAt data) with
      | none => []
      | some found => found :: formMatchesFrom data rounds found.stop

/-- `re.finditer`. -/
def formMatches (data : Bytes) : List FormMatch :=
  formMatchesFrom data data.length 0

/-- The field of a match, unless `form_fields` skips it. -/
def formField
    (data : Bytes)
    (complete : Bool)
    (found : FormMatch) : Option Field :=
  let matched := data.extract found.valueStart found.stop
  if found.stop < data.length ∧
      data[found.stop]? ≠ some 38 ∧ data[found.stop]? ≠ some 59 then
    none
  else if complete = false ∧ found.stop = data.length ∧
      ¬ matched.any isSpaceByte then
    none
  else
    let raw :=
      if complete then matched
      else matched.takeWhile fun byte => !isSpaceByte byte
    let name :=
      decodeReplace (data.extract found.nameStart (found.valueStart - 1))
    let encoded := decodeReplace raw
    some {
      name := unquotePlus name
      value := unquotePlus encoded
      encoded := encoded
      start := found.valueStart
      stop := found.valueStart + raw.length
    }

/-- `_MAX_FIELDS`. -/
def maxFields : Nat := 256

/-- `form_fields`. -/
def formFields (data : Bytes) (complete : Bool) : List Field :=
  ((formMatches data).filterMap (formField data complete)).take maxFields

namespace Message

/-- `Message.wire_span`. -/
def wireSpan (start stop : Nat) (message : Message) : Nat × Nat :=
  let first :=
    match message.bodySpans.find? fun span =>
        span.left ≤ start && start < span.right with
    | some span => span.wire + start - span.left
    | none => message.headerEnd
  let last :=
    match message.bodySpans.find? fun span =>
        span.left < stop && stop ≤ span.right with
    | some span => span.wire + stop - span.left
    | none => first
  (first, last)

/-- The context in which `_scan_http_message` scans a message. -/
def context
    (context : Detector.ScanContext)
    (message : Message) : Detector.ScanContext :=
  { context with
    baseOffset := context.baseOffset.map (· + message.start)
    data :=
      context.data.extract message.start (message.start + message.stop) }

open Detector in
/-- The arguments of `_emit` for a sensitive field of a form body. -/
def formEmission
    (limits : DetectorLimits)
    (context : ScanContext)
    (usernames : List Field)
    (value : Field)
    (message : Message) : Emission :=
  let span := message.wireSpan value.start value.stop
  let companion :=
    match usernames with
    | [companion] =>
        some (companion, message.wireSpan companion.start companion.stop)
    | _ => none
  {
    detector := "sensitive_field"
    start := span.1
    stop := span.2
    category := "credential"
    protocol := "http"
    materialType := "sensitive_field"
    material := .dict
      ([(.text "name", .text value.name.toString),
          (.text "encoded_value", .text value.encoded.toString),
          (.text "value", .text value.value.toString),
          (.text "source", .text "form")] ++
        match companion with
        | some (companion, _) =>
            [(.text "username", .text companion.value.toString),
              (.text "username_field", .text companion.name.toString)]
        | none => [])
    confidence := "high"
    -- A truth value is a number to Python.
    fields :=
      [("http_body_complete", .number (if message.complete then 1 else 0)),
        ("http_content_type", .text message.contentType)] ++
      match companion with
      | some (_, userSpan) =>
          match context.baseOffset with
          | some baseOffset =>
              [("username_stream_offset", .number (baseOffset + userSpan.1))]
          | none => []
      | none =>
          if usernames.isEmpty then []
          else
            [("username_context", .text ("multiple username fields; " ++
              "association not inferred"))]
    limitations :=
      ["Field name indicates sensitivity; this request does not establish " ++
        "authentication success."] ++
      (if usernames.isEmpty then []
        else
          ["Companion username is contextual data from the same query/body; " ++
            "the application relationship was not validated."]) ++
      (if message.complete then []
        else
          ["HTTP body has no declared length; only delimiter-terminated " ++
            "values were interpreted."])
    packetIdsOverride :=
      companion.map fun found =>
        combineProvenance limits.maxPacketIdsPerFinding
          [context.provenance limits span.1 span.2,
            context.provenance limits found.2.1 found.2.2]
  }

end Message

end PacketAudit
