import PacketAudit.Library.Spelling
import PacketAudit.Packets.Fields
import PacketAudit.Json.Loads

namespace PacketAudit

/-!
# MQTT CONNECT packets

The readers of `mqtt.py`.  A position moves through the data, and each reader
is given the end of the section it may read.
-/

open Library

/-- The exceptions of the parser, and those its subscripts and asserts have. -/
inductive MqttFault where
  /-- `MalformedMQTT` with its message. -/
  | malformed (message : String)
  /-- `MQTTConnectLimit` with its message. -/
  | limit (message : String)
  /-- `IndexError` of a byte subscript. -/
  | index
  /-- `AssertionError`. -/
  | assertion
  deriving Repr, DecidableEq

/-- `MAX_CONNECT_BYTES`. -/
def maxConnectBytes : Nat := 128 * 1024

/-- `data[position]`. -/
def octetAt (data : Bytes) (position : Nat) : Except MqttFault Nat :=
  match data[position]? with
  | some octet => .ok octet.toNat
  | none => .error .index

/-- `if condition: raise MalformedMQTT(message)`. -/
def malformedIf
    (condition : Prop)
    [Decidable condition]
    (message : String) : Except MqttFault Unit :=
  if condition then .error (.malformed message) else .ok ()

/-! ## Variable byte integers -/

/-- The loop of `_varint`; the rounds left give its `width`. -/
def varintLoop (data : Bytes) (stop : Nat) :
    (rounds position value multiplier : Nat) →
    Except MqttFault (Option (Nat × Nat))
  | 0, _, _, _ =>
      .error (.malformed "variable byte integer exceeds four bytes")
  | rounds + 1, position, value, multiplier => do
      if stop ≤ position then
        return none
      let octet ← octetAt data position
      let position := position + 1
      let value := value + (octet &&& 0x7F) * multiplier
      if octet < 0x80 then
        let width := 4 - rounds
        malformedIf (1 < width ∧ value < 128 ^ (width - 1))
          "non-minimal variable byte integer"
        return some (value, position)
      varintLoop data stop rounds position value (multiplier * 128)

/-- `_varint`: the number and the position behind it, if the data has it all. -/
def varint
    (data : Bytes)
    (position stop : Nat) : Except MqttFault (Option (Nat × Nat)) :=
  varintLoop data stop 4 position 0 1

/-! ## Fields -/

/-- What `_field` returns. -/
structure MqttField where
  raw : Bytes
  decoded : Option Text
  start : Nat
  after : Nat
  deriving Repr, DecidableEq

/-- `_field`: a string or binary data behind its two-byte length. -/
def field
    (data : Bytes)
    (position stop : Nat)
    (utf8 : Bool) : Except MqttFault MqttField := do
  malformedIf (stop < position + 2) "missing length-prefixed field"
  let length := bigEndian (data.extract position (position + 2))
  let start := position + 2
  let after := start + length
  malformedIf (stop < after) "field exceeds declared section"
  let raw := data.extract start after
  if utf8 = false then
    return ⟨raw, none, start, after⟩
  match decodeUtf8 raw with
  | none => .error (.malformed "invalid UTF-8 string")
  | some decoded =>
      malformedIf (0 ∈ decoded) "null in UTF-8 string"
      return ⟨raw, some decoded, start, after⟩

/-! ## Properties -/

/-- The kinds of values a property can have. -/
inductive PropertyKind where
  | u16
  | u32
  | bool
  | pair
  | string
  | binary
  deriving Repr, DecidableEq

/-- The width of the numeric kinds. -/
def PropertyKind.width? :
    PropertyKind → Option Nat
  | .u16 => some 2
  | .u32 => some 4
  | .bool => some 1
  | _ => none

/-- `_CONNECT_PROPERTIES`. -/
def connectPropertyKind? :
    Nat → Option PropertyKind
  | 0x11 => some .u32
  | 0x21 => some .u16
  | 0x27 => some .u32
  | 0x22 => some .u16
  | 0x19 => some .bool
  | 0x17 => some .bool
  | 0x26 => some .pair
  | 0x15 => some .string
  | 0x16 => some .binary
  | _ => none

/-- `_WILL_PROPERTIES`. -/
def willPropertyKind? :
    Nat → Option PropertyKind
  | 0x18 => some .u32
  | 0x01 => some .bool
  | 0x02 => some .u32
  | 0x03 => some .string
  | 0x08 => some .string
  | 0x09 => some .binary
  | 0x26 => some .pair
  | _ => none

/-- `_WILL_PROPERTIES if will else _CONNECT_PROPERTIES`. -/
def allowedKind? (will : Bool) : Nat → Option PropertyKind :=
  if will then willPropertyKind? else connectPropertyKind?

/-- `_Properties`. -/
structure Properties where
  stop : Nat
  authenticationMethod : Option Text := none
  authenticationData : Option Bytes := none
  authenticationMethodSpan : Option (Nat × Nat) := none
  authenticationDataSpan : Option (Nat × Nat) := none
  deriving Repr, DecidableEq

/-- The variables of the loop of `_properties`. -/
structure PropertyScan where
  cursor : Nat
  seen : List Nat := []
  authMethod : Option Text := none
  authData : Option Bytes := none
  methodSpan : Option (Nat × Nat) := none
  dataSpan : Option (Nat × Nat) := none
  deriving Repr, DecidableEq

/-- The numeric branch: the position behind the value of a property. -/
def readNumber
    (data : Bytes)
    (stop : Nat)
    (will : Bool)
    (identifier : Nat)
    (kind : PropertyKind)
    (width cursor : Nat) : Except MqttFault Nat := do
  malformedIf (stop < cursor + width) "truncated numeric property"
  let value := bigEndian (data.extract cursor (cursor + width))
  malformedIf (kind = .bool ∧ value ≠ 0 ∧ value ≠ 1)
    "invalid boolean property"
  malformedIf
    (will = false ∧ (identifier = 0x21 ∨ identifier = 0x27) ∧ value = 0)
    "zero not allowed for this property"
  return cursor + width

/-- The branches of `_properties` that read the value of a property. -/
def readValue
    (data : Bytes)
    (stop : Nat)
    (will : Bool)
    (scan : PropertyScan)
    (identifier : Nat)
    (kind : PropertyKind) : Except MqttFault PropertyScan := do
  let propertyStart := scan.cursor
  let cursor := scan.cursor + 1
  let seen := identifier :: scan.seen
  match kind.width? with
  | some width =>
      let cursor ← readNumber data stop will identifier kind width cursor
      return { scan with cursor := cursor, seen := seen }
  | none =>
      if kind = .pair then
        let name ← field data cursor stop true
        let value ← field data name.after stop true
        return { scan with cursor := value.after, seen := seen }
      let read ← field data cursor stop (kind = .string)
      -- `not decoded`: no text was decoded, or an empty one
      malformedIf
        (will = true ∧ identifier = 0x08 ∧ read.decoded.getD [] = [])
        "empty response topic"
      let span := (propertyStart, read.after)
      if will = false ∧ identifier = 0x15 then
        return { scan with
          cursor := read.after
          seen := seen
          authMethod := read.decoded
          methodSpan := some span
        }
      if will = false ∧ identifier = 0x16 then
        return { scan with
          cursor := read.after
          seen := seen
          authData := some read.raw
          dataSpan := some span
        }
      return { scan with cursor := read.after, seen := seen }

/-- One round of the loop of `_properties`. -/
def readProperty
    (data : Bytes)
    (stop : Nat)
    (will : Bool)
    (scan : PropertyScan) : Except MqttFault PropertyScan := do
  let identifier ← octetAt data scan.cursor
  match allowedKind? will identifier with
  | none => .error (.malformed "unknown or repeated property")
  | some kind =>
      malformedIf (identifier ∈ scan.seen ∧ identifier ≠ 0x26)
        "unknown or repeated property"
      readValue data stop will scan identifier kind

/-- `while cursor < end`; every round reads at least the identifier. -/
def propertyLoop
    (data : Bytes)
    (stop : Nat)
    (will : Bool) :
    (rounds : Nat) →
    PropertyScan →
    Except MqttFault PropertyScan
  | 0, scan => .ok scan
  | rounds + 1, scan =>
      if scan.cursor < stop then do
        let next ← readProperty data stop will scan
        propertyLoop data stop will rounds next
      else
        .ok scan

/-- `_properties`. -/
def properties
    (data : Bytes)
    (position frameEnd : Nat)
    (will : Bool) : Except MqttFault Properties := do
  match ← varint data position frameEnd with
  | none => .error (.malformed "missing property length")
  | some (size, cursor) =>
      let stop := cursor + size
      malformedIf (frameEnd < stop) "properties exceed CONNECT frame"
      let scan ← propertyLoop data stop will size { cursor := cursor }
      malformedIf (will = false ∧ 0x16 ∈ scan.seen ∧ 0x15 ∉ scan.seen)
        "authentication data without method"
      return {
        stop := stop
        authenticationMethod := scan.authMethod
        authenticationData := scan.authData
        authenticationMethodSpan := scan.methodSpan
        authenticationDataSpan := scan.dataSpan
      }

/-! ## The parser -/

/-- `MQTTConnect`. -/
structure MqttConnect where
  version : Nat
  frameEnd : Nat
  clientId : Text
  username : Option Text
  password : Option Bytes
  credentialStart : Option Nat
  credentialEnd : Option Nat
  authenticationMethod : Option Text := none
  authenticationData : Option Bytes := none
  authenticationMethodSpan : Option (Nat × Nat) := none
  authenticationDataSpan : Option (Nat × Nat) := none
  deriving Repr, DecidableEq

/-- `b"\x00\x04MQTT"`. -/
def protocolName : Bytes :=
  [0x00, 0x04, 0x4D, 0x51, 0x54, 0x54]

/-- The flags of a CONNECT packet the parser uses later. -/
structure ConnectFlags where
  will : Bool
  username : Bool
  password : Bool
  deriving Repr, DecidableEq

/-- The checks of the flags of a CONNECT packet. -/
def readFlags (version flags : Nat) : Except MqttFault ConnectFlags := do
  malformedIf (flags &&& 1 ≠ 0) "reserved CONNECT flag set"
  let will := decide (flags &&& 0x04 ≠ 0)
  let willQos := (flags >>> 3) &&& 3
  malformedIf
    ((will = false ∧ flags &&& 0x38 ≠ 0) ∨ (will = true ∧ willQos = 3))
    "invalid Will flags"
  let usernameFlag := decide (flags &&& 0x80 ≠ 0)
  let passwordFlag := decide (flags &&& 0x40 ≠ 0)
  malformedIf (version = 4 ∧ passwordFlag = true ∧ usernameFlag = false)
    "MQTT 3.1.1 requires username with password"
  return ⟨will, usernameFlag, passwordFlag⟩

/-- The properties MQTT 5 has at this position, and older packets do not. -/
def optionalProperties
    (data : Bytes)
    (version cursor frameEnd : Nat)
    (will : Bool) : Except MqttFault Properties :=
  if version = 5 then
    properties data cursor frameEnd will
  else
    .ok { stop := cursor }

/-- The fields of a Will: the position behind them. -/
def readWill
    (data : Bytes)
    (version cursor frameEnd : Nat) : Except MqttFault Nat := do
  let willProperties ← optionalProperties data version cursor frameEnd true
  let topic ← field data willProperties.stop frameEnd true
  malformedIf (topic.decoded.getD [] = []) "empty Will topic"
  let message ← field data topic.after frameEnd false
  return message.after

/-- The Will behind its flag: the position behind it. -/
def optionalWill
    (data : Bytes)
    (present : Bool)
    (version cursor frameEnd : Nat) : Except MqttFault Nat :=
  if present then
    readWill data version cursor frameEnd
  else
    .ok cursor

/-- A field that is there when its flag is set, and the position behind it. -/
def readOptional
    (data : Bytes)
    (present : Bool)
    (cursor frameEnd : Nat)
    (utf8 : Bool) : Except MqttFault (Option MqttField × Nat) :=
  if present then do
    let read ← field data cursor frameEnd utf8
    return (some read, read.after)
  else
    .ok (none, cursor)

/-- `parse_mqtt_connect` behind the fixed header, on a complete frame. -/
def parseFrame
    (data : Bytes)
    (cursor frameEnd : Nat) : Except MqttFault MqttConnect := do
  malformedIf
    (frameEnd < cursor + 10 ∨ data.extract cursor (cursor + 6) ≠ protocolName)
    "invalid MQTT protocol name or variable header"
  let version ← octetAt data (cursor + 6)
  malformedIf (version ≠ 4 ∧ version ≠ 5) "unsupported MQTT protocol level"
  let flagOctet ← octetAt data (cursor + 7)
  let flags ← readFlags version flagOctet
  let cursor := cursor + 10
  let connectProperties ←
    optionalProperties data version cursor frameEnd false
  let client ← field data connectProperties.stop frameEnd true
  match client.decoded with
  | none => .error .assertion
  | some clientId =>
      let cursor ←
        optionalWill data flags.will version client.after frameEnd
      let (username, afterUsername) ←
        readOptional data flags.username cursor frameEnd true
      let (password, afterPassword) ←
        readOptional data flags.password afterUsername frameEnd false
      malformedIf (afterPassword ≠ frameEnd)
        "CONNECT contains unclaimed payload bytes"
      return {
        version := version
        frameEnd := frameEnd
        clientId := clientId
        username := username.bind MqttField.decoded
        password := password.map MqttField.raw
        credentialStart :=
          if username.isSome then some cursor
          else if password.isSome then some afterUsername
          else none
        credentialEnd :=
          if password.isSome then some afterPassword
          else if username.isSome then some afterUsername
          else none
        authenticationMethod := connectProperties.authenticationMethod
        authenticationData := connectProperties.authenticationData
        authenticationMethodSpan := connectProperties.authenticationMethodSpan
        authenticationDataSpan := connectProperties.authenticationDataSpan
      }

/-- `parse_mqtt_connect`. -/
def parseMqttConnect (data : Bytes) : Except MqttFault (Option MqttConnect) := do
  if data = [] then
    return none
  let header ← octetAt data 0
  malformedIf (header ≠ 0x10) "not a CONNECT fixed header"
  match ← varint data 1 data.length with
  | none => return none
  | some (remaining, cursor) =>
      let frameEnd := cursor + remaining
      if maxConnectBytes < frameEnd then
        .error (.limit "CONNECT exceeds supported frame bound")
      else if data.length < frameEnd then
        return none
      else
        some <$> parseFrame data cursor frameEnd

end PacketAudit
