import PacketAudit.Library.Search
import PacketAudit.Models

namespace PacketAudit

/-!
# The Redis recognizer

`scan_redis` of `cleartext.py` with the frame parser below it.  Positions are
indices into the scanned window, as in the source.
-/

open Library

/-- `MAX_FIELD_BYTES`. -/
def maxFieldBytes : Nat := 8192

/-- `MAX_AUTH_MESSAGE_BYTES`. -/
def maxAuthMessageBytes : Nat := 32768

/-- `MAX_RESP_ARGUMENTS`. -/
def maxRespArguments : Nat := 128

/-- `b"\r\n"`. -/
def crlf : Bytes := [13, 10]

/-- `bytes.upper` of one byte. -/
def upperByte (byte : UInt8) : UInt8 :=
  if 97 ≤ byte ∧ byte ≤ 122 then byte - 32 else byte

/-- `bytes.upper`. -/
def upper (data : Bytes) : Bytes :=
  data.map upperByte

/-- The ASCII bytes of a text. -/
def ascii (text : String) : Bytes :=
  text.toList.map fun character => UInt8.ofNat character.toNat

/-- A decoded text, or the raw bytes when they are not UTF-8. -/
inductive CleartextValue where
  | text (value : String)
  | bytes (value : Bytes)
  deriving DecidableEq

/-- `_value`. -/
def cleartextValue (raw : Bytes) : CleartextValue :=
  match String.fromUTF8? ⟨raw.toArray⟩ with
  | some text => .text text
  | none => .bytes raw

/-- The `material` of a record, one constructor for each `kind`. -/
inductive CleartextMaterial where
  /-- `cleartext_coverage`. -/
  | coverage (protocol reason : String)
  /-- `redis_auth`. -/
  | redisAuth (command : String) (username password : CleartextValue)
  /-- `postgres_cleartext_password`, under authentication method 3. -/
  | postgresCleartextPassword (password : CleartextValue)
  /-- `postgres_password_message`, under no known method. -/
  | postgresPasswordMessage (passwordMessage : CleartextValue)
  /-- `postgres_authentication_request`. -/
  | postgresAuthenticationRequest
      (method : Option Nat)
      (name : String)
      (coverageReason : Option String)
  deriving DecidableEq

/-- `CleartextRecord`. -/
structure CleartextRecord where
  start : Nat
  stop : Nat
  material : CleartextMaterial
  limitations : List String := []
  deriving DecidableEq

/-- `_coverage`. -/
def coverageRecord
    (start stop : Nat)
    (protocol reason : String) : CleartextRecord where
  start := start
  stop := stop
  material := .coverage protocol reason
  limitations := [reason.replace "_" " "]

/-! ## Frames -/

/-- `int` of ASCII digits. -/
def decimalValue (raw : Bytes) : Nat :=
  raw.foldl (fun value byte => value * 10 + (byte.toNat - 48)) 0

/-- The byte is an ASCII digit. -/
def isDigit (byte : UInt8) : Bool :=
  decide (48 ≤ byte ∧ byte ≤ 57)

/-- `_decimal_line`: the number of a line and the position after it. -/
def decimalLine (data : Bytes) (start : Nat) : Option (Nat × Nat) :=
  match findSub crlf data start (start + 13) with
  | none => none
  | some stop =>
      let raw := data.extract start stop
      if raw.isEmpty ∨ 10 < raw.length ∨ ¬ raw.all isDigit then none
      else some (decimalValue raw, stop + 2)

/-- A parsed command: its end, its arguments if in limits, its flag. -/
structure RespCommand where
  cursor : Nat
  arguments : Option (List Bytes)
  authLimit : Bool
  deriving Repr, DecidableEq

/-- `known_auth_command`, from the first argument. -/
def isAuthCommand (argument : Bytes) : Bool :=
  decide (upper argument = ascii "AUTH" ∨ upper argument = ascii "HELLO")

/-- The argument loop of `_resp_command`, from an argument on. -/
def respArguments
    (data : Bytes)
    (start : Nat) :
    (remaining cursor : Nat) →
      (first : Bool) →
      (arguments : Option (List Bytes)) →
      (knownAuthCommand : Bool) →
      Option RespCommand
  | 0, cursor, _, arguments, knownAuthCommand =>
      some ⟨cursor, arguments, knownAuthCommand && arguments.isNone⟩
  | remaining + 1, cursor, first, arguments, knownAuthCommand =>
      if data[cursor]? ≠ some 36 then
        none
      else
        match decimalLine data (cursor + 1) with
        | none => none
        | some (size, begin) =>
            let stop := begin + size
            if data.length < stop + 2 ∨
                data.extract stop (stop + 2) ≠ crlf then
              none
            else
              respArguments data start remaining (stop + 2) false
                (if maxFieldBytes < size ∨
                    maxAuthMessageBytes < stop + 2 - start then
                  none
                else
                  arguments.map (· ++ [data.extract begin stop]))
                (if first ∧ size ≤ 5 then
                  isAuthCommand (data.extract begin stop)
                else
                  knownAuthCommand)

/-- `_resp_command`. -/
def respCommand (data : Bytes) (start : Nat) : Option RespCommand :=
  match decimalLine data (start + 1) with
  | none => none
  | some (count, cursor) =>
      if ¬ (1 ≤ count ∧ count ≤ maxRespArguments) then none
      else respArguments data start count cursor true (some []) false

/-! ## Inline commands -/

/-- A byte of `b" \t"`. -/
def isBlank (byte : UInt8) : Bool :=
  decide (byte = 32 ∨ byte = 9)

/-- Add an argument unless a limit is reached. -/
def pushArgument
    (arguments : List Bytes)
    (argument : Bytes) : Option (List Bytes) :=
  if maxFieldBytes < argument.length ∨
      maxRespArguments ≤ arguments.length then
    none
  else
    some (arguments ++ [argument])

/-- The token loop of `_inline_arguments` over the rest of a line. -/
def inlineTokens :
    (rounds : Nat) → (rest : Bytes) → (arguments : List Bytes) →
      Option (List Bytes)
  | 0, _, arguments => some arguments
  | rounds + 1, rest, arguments =>
      match rest.dropWhile isBlank with
      | [] => some arguments
      | first :: following =>
          if first = 34 ∨ first = 39 then
            let argument := following.takeWhile (· ≠ first)
            match following.dropWhile (· ≠ first) with
            | [] => none
            | _ :: after =>
                if 92 ∈ argument ∨ after.head?.any (fun byte =>
                    !isBlank byte) then
                  none
                else
                  (pushArgument arguments argument).bind
                    (inlineTokens rounds after)
          else
            let token := first :: following
            let argument := token.takeWhile fun byte => !isBlank byte
            if 39 ∈ argument ∨ 34 ∈ argument ∨ 92 ∈ argument then
              none
            else
              (pushArgument arguments argument).bind
                (inlineTokens rounds
                  (token.dropWhile fun byte => !isBlank byte))

/-- `_inline_arguments`.  A token takes at least one byte of the line. -/
def inlineArguments (line : Bytes) : Option (List Bytes) :=
  if maxAuthMessageBytes < line.length ∨
      line.any (fun byte => decide (byte < 32 ∧ byte ≠ 9)) then
    none
  else
    inlineTokens (line.length + 1) line []

/-- The bytes `bytes.lstrip` removes. -/
def isSpace (byte : UInt8) : Bool :=
  decide (byte = 32 ∨ (9 ≤ byte ∧ byte ≤ 13))

/-- An inline line starts with `AUTH` or `HELLO` and a blank. -/
def startsLikeAuth (line : Bytes) : Bool :=
  [ascii "AUTH ", ascii "AUTH\t", ascii "HELLO ", ascii "HELLO\t"].any
    fun start => start.isPrefixOf (upper (line.dropWhile isSpace))

/-! ## Interpretation -/

/-- The option loop of a HELLO command. -/
def helloOptions :
    (options : List Bytes) →
      (credentials : Option (Bytes × Bytes)) →
      (setnameSeen : Bool) →
      Option (Option (Bytes × Bytes))
  | [], credentials, _ => some credentials
  | option :: rest, credentials, setnameSeen =>
      if upper option = ascii "AUTH" ∧ 2 ≤ rest.length ∧
          credentials = none then
        match rest with
        | username :: password :: rest =>
            helloOptions rest (some (username, password)) setnameSeen
        | _ => none
      else if upper option = ascii "SETNAME" ∧ 1 ≤ rest.length ∧
          ¬ setnameSeen then
        match rest with
        | _ :: rest => helloOptions rest credentials true
        | [] => none
      else
        none

theorem helloOptions_cons
    (option : Bytes)
    (rest : List Bytes)
    (credentials : Option (Bytes × Bytes))
    (setnameSeen : Bool) :
    helloOptions (option :: rest) credentials setnameSeen =
      if upper option = ascii "AUTH" ∧ 2 ≤ rest.length ∧
          credentials = none then
        match rest with
        | username :: password :: rest =>
            helloOptions rest (some (username, password)) setnameSeen
        | _ => none
      else if upper option = ascii "SETNAME" ∧ 1 ≤ rest.length ∧
          ¬ setnameSeen then
        match rest with
        | _ :: rest => helloOptions rest credentials true
        | [] => none
      else
        none := by
  cases rest with
  | nil => rfl
  | cons _ rest => cases rest <;> rfl

/-- `_redis_material`. -/
def redisMaterial (arguments : List Bytes) : Option CleartextMaterial :=
  match arguments with
  | [] => none
  | name :: rest =>
      let command := upper name
      let credentials : Option (Bytes × Bytes) :=
        if command = ascii "AUTH" ∧
            (arguments.length = 2 ∨ arguments.length = 3) then
          match rest with
          | [password] => some (ascii "default", password)
          | [username, password] => some (username, password)
          | _ => none
        else if command = ascii "HELLO" ∧ 5 ≤ arguments.length then
          match rest with
          | version :: options =>
              if version = ascii "2" ∨ version = ascii "3" then
                (helloOptions options none false).join
              else
                none
          | [] => none
        else
          none
      credentials.map fun (username, password) =>
        .redisAuth (if command = ascii "AUTH" then "AUTH" else "HELLO AUTH")
          (cleartextValue username) (cleartextValue password)

/-- The records of one array, bulk or inline frame with its arguments. -/
def argumentRecords
    (start stop : Nat)
    (arguments : Option (List Bytes)) : List CleartextRecord :=
  match arguments with
  | none => []
  | some arguments =>
      match redisMaterial arguments with
      | some material => [⟨start, stop, material, []⟩]
      | none =>
          if arguments.head?.any (fun name => upper name = ascii "AUTH") then
            [coverageRecord start stop "redis" "redis_auth_invalid_arguments"]
          else
            []

/-- One round of the scan: the records of a frame and the end of it. -/
def redisFrame
    (data : Bytes)
    (cursor : Nat) : Option (List CleartextRecord × Nat) :=
  match data[cursor]? with
  | none => none
  | some first =>
      if first = 42 then
        (respCommand data cursor).map fun parsed =>
          ((if parsed.authLimit then
              [coverageRecord cursor parsed.cursor "redis"
                "redis_auth_field_or_message_limit"]
            else []) ++
            argumentRecords cursor parsed.cursor parsed.arguments,
            parsed.cursor)
      else if first = 36 ∨ first = 33 ∨ first = 61 then
        match decimalLine data (cursor + 1) with
        | none => none
        | some (size, begin) =>
            let stop := begin + size
            if data.length < stop + 2 ∨
                data.extract stop (stop + 2) ≠ crlf then
              none
            else
              some ([], stop + 2)
      else
        match findSub crlf data cursor data.length with
        | none => none
        | some stop =>
            let line := data.extract cursor stop
            match inlineArguments line with
            | some arguments =>
                some (argumentRecords cursor (stop + 2) (some arguments),
                  stop + 2)
            | none =>
                if startsLikeAuth line then
                  some
                    ([coverageRecord cursor (stop + 2) "redis"
                      "redis_auth_unsupported_inline"], stop + 2)
                else
                  none

/-- The scan from a cursor on; every frame takes at least one byte. -/
def scanRedisFrom
    (data : Bytes) :
    (rounds cursor : Nat) → List CleartextRecord × Nat
  | 0, cursor => ([], cursor)
  | rounds + 1, cursor =>
      match redisFrame data cursor with
      | none => ([], cursor)
      | some (records, next) =>
          let rest := scanRedisFrom data rounds next
          (records ++ rest.1, rest.2)

/-- `scan_redis`. -/
def scanRedis (data : Bytes) : List CleartextRecord × Nat :=
  scanRedisFrom data data.length 0

end PacketAudit
