import PacketAudit.Cleartext.Redis
import PacketAudit.Library.Resuming
import PacketAudit.Packets.Fields

namespace PacketAudit

/-!
# The PostgreSQL recognizers

`scan_postgres` and `scan_postgres_authentication` of `cleartext.py` with the
message reader they share.
-/

open Library

/-- `MAX_PG_FRAME_BYTES`. -/
def maxPgFrameBytes : Nat := 16 * 1024 * 1024

/-- `UNKNOWN_POSTGRES_METHOD`. -/
def unknownPostgresMethod : String :=
  "method not established without server auth request"

/-- `_FRONTEND_TAGS`. -/
def frontendTags : Bytes := ascii "BCDEFHPSXQdcfp"

/-- `_BACKEND_TAGS`. -/
def backendTags : Bytes := ascii "RKEANSTDCIZ123nsGtHVWcdv"

/-- A message of `_pg_frame`: its end, its tag (0 for none) and its payload. -/
structure PgFrame where
  stop : Nat
  tag : UInt8
  payload : Bytes
  deriving Repr, DecidableEq

/--
A refused SSL or GSS upgrade at the start of the data: the byte `N` before a
complete authentication message.
-/
def refusedNegotiation (data : Bytes) : Bool :=
  decide (10 ≤ data.length) && decide (data.take 2 = ascii "NR") &&
    decide (8 ≤ bigEndian (data.extract 2 6)) &&
    decide (bigEndian (data.extract 2 6) ≤ maxAuthMessageBytes) &&
    decide (2 + bigEndian (data.extract 2 6) ≤ data.length)

/-- A startup packet or negotiation request, which has no tag. -/
def pgStartup (data : Bytes) (cursor : Nat) : Option PgFrame :=
  if data.length - cursor < 8 then
    none
  else
    let length := bigEndian (data.extract cursor (cursor + 4))
    let code := bigEndian (data.extract (cursor + 4) (cursor + 8))
    let startup := code >>> 16 = 3 ∧ 9 ≤ length
    let special :=
      (code = 80877103 ∨ code = 80877104) ∧ length = 8 ∨
        code = 80877102 ∧ length = 16
    if ¬ (startup ∨ special) ∨ maxPgFrameBytes < length ∨
        data.length - cursor < length then
      none
    else if startup ∧ data[cursor + length - 1]? ≠ some 0 then
      none
    else
      some ⟨cursor + length, 0, []⟩

/-- The tags of one side's messages. -/
def pgTags : (backend : Bool) → Bytes
  | true => backendTags
  | false => frontendTags

/-- The tag whose payload is wanted, `R` or `p`. -/
def wantedTag : (backend : Bool) → UInt8
  | true => 82
  | false => 112

/-- A message with a tag and a length. -/
def pgMessage
    (data : Bytes)
    (cursor : Nat)
    (backend : Bool)
    (tag : UInt8) : Option PgFrame :=
  if tag ∉ pgTags backend then
    none
  else
    let length := bigEndian (data.extract (cursor + 1) (cursor + 5))
    let stop := cursor + 1 + length
    if length < 4 ∨ maxPgFrameBytes < length ∨ data.length < stop then
      none
    else
      some ⟨stop, tag,
        if tag = wantedTag backend ∧ length ≤ maxAuthMessageBytes then
          data.extract (cursor + 5) stop
        else
          []⟩

/-- `_pg_frame`. -/
def pgFrame (data : Bytes) (cursor : Nat) (backend : Bool) : Option PgFrame :=
  match data[cursor]? with
  | none => none
  | some tag =>
      if data.length - cursor < 5 then
        none
      else if backend ∧ cursor = 0 ∧ refusedNegotiation data then
        some ⟨1, 0, []⟩
      else if ¬ backend ∧ tag = 0 then
        pgStartup data cursor
      else
        pgMessage data cursor backend tag

/-! ## Client messages -/

/-- An ASCII hexadecimal digit. -/
def isHexDigit (byte : UInt8) : Bool :=
  isDigit byte || decide (65 ≤ byte ∧ byte ≤ 70) ||
    decide (97 ≤ byte ∧ byte ≤ 102)

/-- `md5[0-9a-fA-F]{32}`, all of the value. -/
def isMd5Response (value : Bytes) : Bool :=
  decide (value.take 3 = ascii "md5") && decide (value.length = 35) &&
    (value.drop 3).all isHexDigit

/-- The record of a `p` message under the authentication method. -/
def passwordRecords
    (start : Nat)
    (frame : PgFrame)
    (authenticationMethod : Option Nat) : List CleartextRecord :=
  if frame.tag ≠ 112 ∨
      ¬ (authenticationMethod = none ∨ authenticationMethod = some 3) then
    []
  else if maxFieldBytes + 5 < frame.stop - start - 1 then
    [coverageRecord start frame.stop "postgresql"
      "postgres_password_field_limit"]
  else if frame.payload.getLast? ≠ some 0 ∨
      0 ∈ frame.payload.dropLast then
    if authenticationMethod = some 3 then
      [coverageRecord start frame.stop "postgresql"
        "postgres_cleartext_password_malformed"]
    else
      []
  else
    let value := frame.payload.dropLast
    if authenticationMethod = none ∧ isMd5Response value then
      []
    else if authenticationMethod = some 3 then
      [⟨start, frame.stop, .postgresCleartextPassword (cleartextValue value),
        []⟩]
    else
      [⟨start, frame.stop, .postgresPasswordMessage (cleartextValue value),
        [unknownPostgresMethod]⟩]

/-- One round of the client scan. -/
def postgresFrame
    (authenticationMethod : Option Nat)
    (data : Bytes)
    (cursor : Nat) : Option (List CleartextRecord × Nat) :=
  (pgFrame data cursor false).map fun frame =>
    (passwordRecords cursor frame authenticationMethod, frame.stop)

/-- `scan_postgres`. -/
def scanPostgres
    (data : Bytes)
    (authenticationMethod : Option Nat) : List CleartextRecord × Nat :=
  scanFrom (postgresFrame authenticationMethod) data data.length 0

/-! ## Server messages -/

/-- `names`: the authentication methods that are recognized. -/
def authenticationName : Nat → Option String
  | 0 => some "ok"
  | 2 => some "kerberos_v5"
  | 3 => some "cleartext"
  | 5 => some "md5"
  | 6 => some "scm"
  | 7 => some "gss"
  | 8 => some "gss_continue"
  | 9 => some "sspi"
  | 10 => some "sasl"
  | 11 => some "sasl_continue"
  | 12 => some "sasl_final"
  | _ => none

/-- The SASL mechanisms are named and closed as they should be. -/
def validMechanisms (mechanisms : Bytes) : Bool :=
  decide (mechanisms.drop (mechanisms.length - 2) = [0, 0]) &&
    ((mechanisms.take (mechanisms.length - 2)).splitOn 0).all fun item =>
      !item.isEmpty && decide (item.length ≤ 128) &&
        item.all fun byte => decide (33 ≤ byte ∧ byte ≤ 126)

/-- The payload of an authentication request has its method's shape. -/
def validRequest (method : Nat) (payload : Bytes) : Bool :=
  if method ∈ [0, 2, 3, 6, 7, 9] then
    decide (payload.length = 4)
  else if method = 5 then
    decide (payload.length = 8)
  else if method ∈ [8, 11, 12] then
    decide (4 < payload.length)
  else if method = 10 then
    validMechanisms (payload.drop 4)
  else
    false

/-- The method of an authentication request, if it is a valid one. -/
def requestedMethod (payload : Bytes) : Option (Nat × String) :=
  if payload.length < 4 then
    none
  else
    let method := bigEndian (payload.take 4)
    match authenticationName method with
    | none => none
    | some name =>
        if validRequest method payload then some (method, name) else none

/-- The record of an `R` message. -/
def authenticationRecords
    (start : Nat)
    (frame : PgFrame) : List CleartextRecord :=
  if frame.tag ≠ 82 then
    []
  else
    match requestedMethod frame.payload with
    | none =>
        [⟨start, frame.stop,
          .postgresAuthenticationRequest none "invalid"
            (some "postgres_authentication_invalid"),
          ["invalid or unsupported server authentication request; " ++
            "previous method invalidated"]⟩]
    | some (method, name) =>
        [⟨start, frame.stop,
          .postgresAuthenticationRequest (some method) name none, []⟩]

/-- One round of the server scan. -/
def postgresAuthenticationFrame
    (data : Bytes)
    (cursor : Nat) : Option (List CleartextRecord × Nat) :=
  (pgFrame data cursor true).map fun frame =>
    (authenticationRecords cursor frame, frame.stop)

/-- `scan_postgres_authentication`. -/
def scanPostgresAuthentication (data : Bytes) : List CleartextRecord × Nat :=
  scanFrom postgresAuthenticationFrame data data.length 0

end PacketAudit
