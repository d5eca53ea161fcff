import PacketAudit.Cleartext.Resumption

namespace PacketAudit

/-!
# The PostgreSQL recognizer on encoded messages

A client's messages, each valid by itself.  `scan_postgres` stops at their
boundaries and reports every password message by its own payload, unless a
startup message has the largest length there is: its length then does not start
with the zero byte by which startup messages are told apart.
-/

open Library

/-- A frontend message whose length field is within the limit. -/
inductive PgMessage where
  | sslRequest
  | gssRequest
  | cancelRequest
      (target : Bytes)
      (isTarget : target.length = 8)
  | startup
      (minor : UInt16)
      (parameters : Bytes)
      (fits : parameters.length + 9 ≤ maxPgFrameBytes)
  | tagged
      (tag : UInt8)
      (payload : Bytes)
      (known : tag ∈ frontendTags)
      (fits : payload.length + 4 ≤ maxPgFrameBytes)

/-- The only value of a payload that is one NUL-terminated string. -/
def terminatedString (payload : Bytes) : Option Bytes :=
  if payload.getLast? = some 0 ∧ 0 ∉ payload.dropLast then
    some payload.dropLast
  else
    none

theorem terminatedString_eq_some
    {payload value : Bytes} :
    terminatedString payload = some value ↔
      payload = value ++ [0] ∧ 0 ∉ value := by
  unfold terminatedString
  constructor
  · intro found
    split at found
    case isTrue terminated =>
      cases found
      exact ⟨(List.dropLast_append_getLast? 0 terminated.1).symm,
        terminated.2⟩
    case isFalse => cases found
  · rintro ⟨rfl, noZero⟩
    simp [noZero]

/-- What a password message reports under the authentication method. -/
def reportedPassword
    (authenticationMethod : Option Nat)
    (start stop : Nat)
    (payload : Bytes) : List CleartextRecord :=
  if authenticationMethod ≠ none ∧ authenticationMethod ≠ some 3 then
    []
  else if maxFieldBytes + 1 < payload.length then
    [coverageRecord start stop "postgresql" "postgres_password_field_limit"]
  else
    match authenticationMethod, terminatedString payload with
    | none, none => []
    | none, some value =>
        if isMd5Response value then
          []
        else
          [⟨start, stop, .postgresPasswordMessage (cleartextValue value),
            [unknownPostgresMethod]⟩]
    | some _, none =>
        [coverageRecord start stop "postgresql"
          "postgres_cleartext_password_malformed"]
    | some _, some value =>
        [⟨start, stop, .postgresCleartextPassword (cleartextValue value), []⟩]

namespace PgMessage

/-- The message as the client sends it. -/
def bytes : PgMessage → Bytes
  | sslRequest => bigEndianBytes 4 8 ++ bigEndianBytes 4 80877103
  | gssRequest => bigEndianBytes 4 8 ++ bigEndianBytes 4 80877104
  | cancelRequest target _ =>
      bigEndianBytes 4 16 ++ (bigEndianBytes 4 80877102 ++ target)
  | startup minor parameters _ =>
      bigEndianBytes 4 (parameters.length + 9) ++
        (bigEndianBytes 4 (3 * 65536 + minor.toNat) ++ (parameters ++ [0]))
  | tagged tag payload _ _ =>
      tag :: (bigEndianBytes 4 (payload.length + 4) ++ payload)

/-- The records of a message whose frame starts at this position. -/
def records
    (authenticationMethod : Option Nat)
    (start : Nat)
    (message : PgMessage) : List CleartextRecord :=
  match message with
  | tagged tag payload _ _ =>
      if tag = 112 then
        reportedPassword authenticationMethod start
          (start + message.bytes.length) payload
      else
        []
  | _ => []

/-- A startup message as long as the limit allows. -/
def IsLongestStartup : PgMessage → Prop
  | startup _ parameters _ => parameters.length + 9 = maxPgFrameBytes
  | _ => False

instance (message : PgMessage) : Decidable message.IsLongestStartup :=
  match message with
  | startup _ parameters _ =>
      inferInstanceAs (Decidable (parameters.length + 9 = maxPgFrameBytes))
  | sslRequest => inferInstanceAs (Decidable False)
  | gssRequest => inferInstanceAs (Decidable False)
  | cancelRequest _ _ => inferInstanceAs (Decidable False)
  | tagged _ _ _ _ => inferInstanceAs (Decidable False)

end PgMessage

/-! ## One message -/

/-- A kept payload is judged as the payload of the message is. -/
theorem passwordRecords_eq_reported
    (authenticationMethod : Option Nat)
    (start : Nat)
    {payload kept : Bytes}
    (isKept : payload.length ≤ maxFieldBytes + 1 → kept = payload) :
    passwordRecords start ⟨start + (payload.length + 5), 112, kept⟩
        authenticationMethod =
      reportedPassword authenticationMethod start
        (start + (payload.length + 5)) payload := by
  have isOver :
      maxFieldBytes + 5 < start + (payload.length + 5) - start - 1 ↔
        maxFieldBytes + 1 < payload.length := by
    omega
  unfold passwordRecords reportedPassword
  simp only [ne_eq, not_true, false_or, not_or, isOver]
  by_cases other :
      ¬ authenticationMethod = none ∧ ¬ authenticationMethod = some 3
  · rw [if_pos other, if_pos other]
  rw [if_neg other, if_neg other]
  by_cases tooLong : maxFieldBytes + 1 < payload.length
  · rw [if_pos tooLong, if_pos tooLong]
  rw [if_neg tooLong, if_neg tooLong, isKept (Nat.not_lt.mp tooLong)]
  by_cases terminated :
      payload.getLast? = some 0 ∧ 0 ∉ payload.dropLast
  · have isString :
        terminatedString payload = some payload.dropLast :=
      if_pos terminated
    have notBroken :
        ¬ (¬ payload.getLast? = some 0 ∨ 0 ∈ payload.dropLast) := by
      rintro (isOpen | zero)
      · exact isOpen terminated.1
      · exact terminated.2 zero
    rw [isString, if_neg notBroken]
    cases authenticationMethod with
    | none => simp
    | some method =>
        have isThree : method = 3 := by simpa using other
        simp [isThree]
  · have noString : terminatedString payload = none := if_neg terminated
    have broken :
        ¬ payload.getLast? = some 0 ∨ 0 ∈ payload.dropLast := by
      by_contra closed
      rw [not_or, not_not] at closed
      exact terminated closed
    rw [noString, if_pos broken]
    cases authenticationMethod with
    | none => simp
    | some method =>
        have isThree : method = 3 := by simpa using other
        simp [isThree]

theorem reportedPassword_placed
    (authenticationMethod : Option Nat)
    (offset start stop : Nat)
    (payload : Bytes) :
    (reportedPassword authenticationMethod start stop payload).map
        (CleartextRecord.shift offset) =
      reportedPassword authenticationMethod (offset + start) (offset + stop)
        payload := by
  unfold reportedPassword
  split
  case isTrue => rfl
  case isFalse =>
    split
    case isTrue => rfl
    case isFalse =>
      split
      case h_2 => split <;> rfl
      all_goals rfl

theorem PgMessage.records_placed
    (authenticationMethod : Option Nat)
    (offset : Nat)
    (message : PgMessage) :
    (message.records authenticationMethod 0).map
        (CleartextRecord.shift offset) =
      message.records authenticationMethod offset := by
  cases message with
  | tagged tag payload known fits =>
      simp only [records]
      split
      case isTrue => rw [reportedPassword_placed, Nat.add_zero, Nat.zero_add]
      case isFalse => rfl
  | _ => rfl

theorem PgMessage.length_bytes_pos (message : PgMessage) :
    0 < message.bytes.length := by
  cases message with
  | tagged tag payload known fits => simp [bytes]
  | _ => simp [bytes, length_bigEndianBytes]

/-- The four bytes of a number in front of others. -/
theorem extract_bigEndianBytes
    (front rest : Bytes)
    {value : Nat}
    (small : value < 256 ^ 4) :
    bigEndian
        ((front ++ (bigEndianBytes 4 value ++ rest)).extract front.length
          (front.length + 4)) =
      value := by
  rw [extract_append_front front (bigEndianBytes 4 value) rest rfl
    (by rw [length_bigEndianBytes]), bigEndian_bigEndianBytes,
    Nat.mod_eq_of_lt small]

/-- An untagged message below the limit is recognized by its code. -/
theorem postgresFrame_untagged
    (authenticationMethod : Option Nat)
    {length code : Nat}
    {body : Bytes}
    (isLength : length = body.length + 8)
    (shorter : length < maxPgFrameBytes)
    (smallCode : code < 256 ^ 4)
    (valid :
      (code >>> 16 = 3 ∧ body.getLast? = some 0) ∨
        (code = 80877103 ∨ code = 80877104) ∧ length = 8 ∨
        code = 80877102 ∧ length = 16) :
    postgresFrame authenticationMethod
        (bigEndianBytes 4 length ++ (bigEndianBytes 4 code ++ body)) 0 =
      some ([],
        (bigEndianBytes 4 length ++
          (bigEndianBytes 4 code ++ body)).length) := by
  have below : length < 256 ^ 3 := shorter
  have firstByte : bigEndianBytes 4 length = 0 :: bigEndianBytes 3 length := by
    rw [bigEndianBytes_succ, Nat.div_eq_of_lt below]
    rfl
  have size :
      (bigEndianBytes 4 length ++ (bigEndianBytes 4 code ++ body)).length =
        length := by
    simp only [List.length_append, length_bigEndianBytes]
    omega
  have lengthField :
      bigEndian
          ((bigEndianBytes 4 length ++
            (bigEndianBytes 4 code ++ body)).extract 0 4) =
        length :=
    extract_bigEndianBytes [] _ (by omega)
  have codeField :=
    extract_bigEndianBytes (bigEndianBytes 4 length) body smallCode
  rw [length_bigEndianBytes] at codeField
  have first :
      (bigEndianBytes 4 length ++ (bigEndianBytes 4 code ++ body))[0]? =
        some 0 := by
    rw [firstByte]
    rfl
  have last :
      (bigEndianBytes 4 length ++
          (bigEndianBytes 4 code ++ body))[length - 1]? =
        (bigEndianBytes 4 length ++
          (bigEndianBytes 4 code ++ body)).getLast? := by
    rw [List.getLast?_eq_getElem?, size]
  unfold postgresFrame
  rw [pgFrame_eq_plain (by simp), size]
  unfold pgPlainFrame
  simp only [first, size]
  rw [if_neg (by omega), if_pos (by simp)]
  unfold pgStartup
  simp only [size, Nat.zero_add, Nat.sub_zero, lengthField, codeField, last]
  have known :
      code >>> 16 = 3 ∧ 9 ≤ length ∨
        (code = 80877103 ∨ code = 80877104) ∧ length = 8 ∨
          code = 80877102 ∧ length = 16 := by
    rcases valid with ⟨isThree, closed⟩ | special
    · refine .inl ⟨isThree, ?_⟩
      cases body with
      | nil => cases closed
      | cons byte others =>
          rw [List.length_cons] at isLength
          omega
    · exact .inr special
  have closed :
      ¬ ((code >>> 16 = 3 ∧ 9 ≤ length) ∧
        (bigEndianBytes 4 length ++
          (bigEndianBytes 4 code ++ body)).getLast? ≠ some 0) := by
    rintro ⟨⟨isThree, _⟩, isOpen⟩
    rcases valid with ⟨_, closed⟩ | ⟨rfl | rfl, _⟩ | ⟨rfl, _⟩
    · exact isOpen (by simp [List.getLast?_append, closed])
    all_goals cases isThree
  rw [if_neg (by omega), if_neg (by omega), if_neg closed]
  rfl

/-- A tagged message is taken whole, whatever its payload is. -/
theorem pgFrame_tagged
    {tag : UInt8}
    {payload : Bytes}
    (known : tag ∈ frontendTags)
    (fits : payload.length + 4 ≤ maxPgFrameBytes) :
    pgFrame (tag :: (bigEndianBytes 4 (payload.length + 4) ++ payload)) 0
        false =
      some
        ⟨payload.length + 5, tag,
          if tag = 112 ∧ payload.length + 4 ≤ maxAuthMessageBytes then payload
          else []⟩ := by
  have nonzero : ¬ tag = 0 := by
    rintro rfl
    exact absurd known (by decide)
  have size :
      (tag :: (bigEndianBytes 4 (payload.length + 4) ++ payload)).length =
        payload.length + 5 := by
    simp only [List.length_cons, List.length_append, length_bigEndianBytes]
    omega
  have lengthField :
      bigEndian
          ((tag ::
            (bigEndianBytes 4 (payload.length + 4) ++ payload)).extract 1 5) =
        payload.length + 4 :=
    extract_bigEndianBytes [tag] payload
      (lt_of_le_of_lt fits (by decide))
  have body :
      (tag :: (bigEndianBytes 4 (payload.length + 4) ++ payload)).extract 5
          (payload.length + 5) =
        payload := by
    have behind :=
      extract_append_front
        (tag :: bigEndianBytes 4 (payload.length + 4)) payload []
        (show 5 = _ by rw [List.length_cons, length_bigEndianBytes])
        (show payload.length + 5 = _ by
          rw [List.length_cons, length_bigEndianBytes]
          omega)
    simpa using behind
  rw [pgFrame_eq_plain (by simp)]
  unfold pgPlainFrame
  simp only [List.getElem?_cons_zero, size]
  rw [if_neg (by omega), if_neg (by simp [nonzero])]
  unfold pgMessage
  have stop : 1 + (payload.length + 4) = payload.length + 5 := by omega
  simp only [Nat.zero_add, lengthField, size, stop, pgTags, wantedTag, body]
  rw [if_neg (not_not.mpr known), if_neg (by omega)]

/-- A message of another length than the largest is read whole. -/
theorem PgMessage.postgresFrame_bytes
    (authenticationMethod : Option Nat)
    {message : PgMessage}
    (shorter : ¬ message.IsLongestStartup) :
    postgresFrame authenticationMethod message.bytes 0 =
      some (message.records authenticationMethod 0, message.bytes.length) := by
  cases message with
  | sslRequest =>
      exact postgresFrame_untagged authenticationMethod
        (show 8 = ([] : Bytes).length + 8 from rfl) (by decide) (by decide)
        (by decide)
  | gssRequest =>
      exact postgresFrame_untagged authenticationMethod
        (show 8 = ([] : Bytes).length + 8 from rfl) (by decide) (by decide)
        (by decide)
  | cancelRequest target isTarget =>
      exact postgresFrame_untagged authenticationMethod
        (by rw [isTarget]) (by decide) (by decide) (.inr (.inr ⟨rfl, rfl⟩))
  | startup minor parameters fits =>
      have smallMinor := minor.toNat_lt
      have isThree : (3 * 65536 + minor.toNat) >>> 16 = 3 := by
        rw [Nat.shiftRight_eq_div_pow]
        omega
      have different : parameters.length + 9 ≠ maxPgFrameBytes := shorter
      exact postgresFrame_untagged authenticationMethod
        (by rw [List.length_append, List.length_singleton]) (by omega)
        (by omega) (.inl ⟨isThree, by simp⟩)
  | tagged tag payload known fits =>
      have size :
          (tagged tag payload known fits).bytes.length =
            payload.length + 5 := by
        simp only [bytes, List.length_cons, List.length_append,
          length_bigEndianBytes]
        omega
      unfold postgresFrame
      rw [size, bytes, pgFrame_tagged known fits]
      simp only [Option.map_some, records, size]
      by_cases isPassword : tag = 112
      · subst isPassword
        have isKept :
            payload.length ≤ maxFieldBytes + 1 →
              (if payload.length + 4 ≤ maxAuthMessageBytes then payload
                else []) = payload := by
          intro short
          unfold maxFieldBytes at short
          unfold maxAuthMessageBytes
          rw [if_pos (by omega)]
        have reported :=
          passwordRecords_eq_reported authenticationMethod 0 isKept
        simpa using reported
      · simp [passwordRecords, isPassword]

/-- The longest startup message starts with a byte that is no tag. -/
theorem PgMessage.postgresFrame_longest
    (authenticationMethod : Option Nat)
    {message : PgMessage}
    (rest : Bytes)
    (longest : message.IsLongestStartup) :
    postgresFrame authenticationMethod (message.bytes ++ rest) 0 = none := by
  cases message with
  | startup minor parameters fits =>
      have isLongest : parameters.length + 9 = maxPgFrameBytes := longest
      have firstByte :
          bigEndianBytes 4 (parameters.length + 9) = [1, 0, 0, 0] := by
        rw [isLongest]
        decide
      unfold postgresFrame
      rw [pgFrame_eq_plain (by simp), bytes, firstByte]
      unfold pgPlainFrame
      simp only [List.cons_append, List.getElem?_cons_zero]
      split
      case isTrue => rfl
      case isFalse =>
        rw [if_neg (by decide)]
        unfold pgMessage
        rw [if_pos (by decide)]
        rfl
  | sslRequest => exact longest.elim
  | gssRequest => exact longest.elim
  | cancelRequest target isTarget => exact longest.elim
  | tagged tag payload known fits => exact longest.elim

/-! ## Sequences of messages -/

/--
`scan_postgres` reads a client's messages whole, and reports each by its own
payload, exactly when no startup message has the largest length.
-/
theorem scanPostgres_encoded_iff
    (authenticationMethod : Option Nat)
    (messages : List PgMessage) :
    scanPostgres (messages.flatMap PgMessage.bytes) authenticationMethod =
        (recordsFrom PgMessage.bytes
            (PgMessage.records authenticationMethod) 0 messages,
          (messages.flatMap PgMessage.bytes).length) ↔
      ∀ message ∈ messages, ¬ message.IsLongestStartup := by
  have enough :
      messages.length ≤ (messages.flatMap PgMessage.bytes).length := by
    induction messages with
    | nil => exact le_refl _
    | cons message rest inductionHypothesis =>
        have positive := message.length_bytes_pos
        rw [List.flatMap_cons, List.length_append, List.length_cons]
        omega
  exact
    (postgresFrame_laws authenticationMethod).scanFrom_encoded_iff
      PgMessage.length_bytes_pos
      (PgMessage.records_placed authenticationMethod)
      (fun _ shorter =>
        PgMessage.postgresFrame_bytes authenticationMethod shorter)
      (fun _ rest longest =>
        PgMessage.postgresFrame_longest authenticationMethod rest
          (not_not.mp longest))
      [] enough

/-- Behind the longest startup message nothing is read. -/
theorem scanPostgres_longest
    (authenticationMethod : Option Nat)
    {message : PgMessage}
    (longest : message.IsLongestStartup)
    (rest : Bytes) :
    scanPostgres (message.bytes ++ rest) authenticationMethod = ([], 0) := by
  unfold scanPostgres
  cases (message.bytes ++ rest).length with
  | zero => rfl
  | succ rounds =>
      rw [scanFrom_succ, PgMessage.postgresFrame_longest authenticationMethod rest
        longest]

/-- A startup message of exactly `MAX_PG_FRAME_BYTES`. -/
def longestStartup : PgMessage :=
  .startup 0 (List.replicate (maxPgFrameBytes - 9) 0) (by
    rw [List.length_replicate]
    decide)

/-- The cleartext password `pw`. -/
def shortPassword : PgMessage :=
  .tagged 112 [112, 119, 0] (by decide) (by decide)

/-- A password behind the longest startup message is not reported. -/
theorem longestStartup_hides_password :
    scanPostgres ([longestStartup, shortPassword].flatMap PgMessage.bytes)
        (some 3) ≠
      (recordsFrom PgMessage.bytes (PgMessage.records (some 3)) 0
          [longestStartup, shortPassword],
        ([longestStartup, shortPassword].flatMap PgMessage.bytes).length) := by
  have longest : longestStartup.IsLongestStartup := by
    change (List.replicate (maxPgFrameBytes - 9) (0 : UInt8)).length + 9 = _
    rw [List.length_replicate]
    decide
  have positive := longestStartup.length_bytes_pos
  rw [List.flatMap_cons, scanPostgres_longest (some 3) longest]
  intro same
  have sameEnd := congrArg Prod.snd same
  simp only [List.length_append] at sameEnd
  omega

end PacketAudit
