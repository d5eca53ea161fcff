import PacketAudit.Cleartext.Postgres

namespace PacketAudit

/-!
# Recognizers can be resumed

Every frame reader below the recognizers looks only ahead of its cursor, takes
at least one byte, and is not changed by further data once it found a frame.
The scan functions can therefore be resumed behind what they consumed.
-/

open Library

/-- The record at its place behind an offset. -/
def CleartextRecord.shift
    (offset : Nat)
    (record : CleartextRecord) : CleartextRecord :=
  { record with
    start := offset + record.start
    stop := offset + record.stop }

theorem CleartextRecord.shift_shift
    (outer inner : Nat)
    (record : CleartextRecord) :
    (record.shift inner).shift outer = record.shift (outer + inner) := by
  simp [CleartextRecord.shift, Nat.add_assoc]

theorem CleartextRecord.map_shift_zero (records : List CleartextRecord) :
    records.map (CleartextRecord.shift 0) = records := by
  have same : CleartextRecord.shift 0 = id := by
    funext record
    simp [CleartextRecord.shift]
  rw [same, List.map_id]

theorem coverageRecord_shift
    (offset start stop : Nat)
    (protocol reason : String) :
    (coverageRecord start stop protocol reason).shift offset =
      coverageRecord (offset + start) (offset + stop) protocol reason := rfl

/-! ## Reading bytes -/

section Reading

variable (front rest : Bytes)

theorem getElem?_append_add (index : Nat) :
    (front ++ rest)[front.length + index]? = rest[index]? := by
  rw [List.getElem?_append_right (by omega)]
  congr 1
  omega

theorem extract_append_of_le
    {data : Bytes}
    (more : Bytes)
    {first last : Nat}
    (inside : last ≤ data.length) :
    (data ++ more).extract first last = data.extract first last :=
  extract_of_isPrefix (List.prefix_append data more) inside

end Reading

/-! ## Redis -/

theorem decimalLine_bounds
    {data : Bytes}
    {start value next : Nat}
    (read : decimalLine data start = some (value, next)) :
    start < next ∧ next ≤ data.length := by
  unfold decimalLine at read
  cases found : findSub crlf data start (start + 13) with
  | none => simp [found] at read
  | some stop =>
      obtain ⟨⟨fromStart, inside⟩, -, -⟩ := findSub_eq_some.mp found
      have crlfLength : crlf.length = 2 := rfl
      simp only [found] at read
      split at read
      · cases read
      · cases read
        omega

theorem decimalLine_append
    {data : Bytes}
    {start : Nat}
    {found : Nat × Nat}
    (more : Bytes)
    (read : decimalLine data start = some found) :
    decimalLine (data ++ more) start = some found := by
  unfold decimalLine at read ⊢
  cases located : findSub crlf data start (start + 13) with
  | none => simp [located] at read
  | some stop =>
      obtain ⟨⟨-, inside⟩, -, -⟩ := findSub_eq_some.mp located
      rw [findSub_append located more (by rw [List.length_append]; omega)]
      simp only [located] at read ⊢
      rw [extract_append_of_le more (by omega)]
      exact read

theorem decimalLine_front
    (front rest : Bytes)
    (start : Nat) :
    decimalLine (front ++ rest) (front.length + start) =
      (decimalLine rest start).map fun found =>
        (found.1, front.length + found.2) := by
  unfold decimalLine
  rw [Nat.add_assoc, findSub_append_front]
  cases located : findSub crlf rest start (start + 13) with
  | none => rfl
  | some stop =>
      simp only [Option.map_some, extract_append_add]
      split
      · rfl
      · simp [Nat.add_assoc]

/-- A parsed command behind an offset. -/
def RespCommand.shift
    (offset : Nat)
    (command : RespCommand) : RespCommand :=
  { command with cursor := offset + command.cursor }

section Arguments

variable
  {data : Bytes}
  {start remaining cursor : Nat}
  {first knownAuthCommand : Bool}
  {arguments : Option (List Bytes)}
  {parsed : RespCommand}

theorem respArguments_bounds
    (inside : cursor ≤ data.length)
    (read :
      respArguments data start remaining cursor first arguments
        knownAuthCommand = some parsed) :
    cursor ≤ parsed.cursor ∧ parsed.cursor ≤ data.length := by
  induction remaining generalizing cursor first arguments
      knownAuthCommand with
  | zero =>
      cases read
      exact ⟨le_refl _, inside⟩
  | succ remaining inductionHypothesis =>
      unfold respArguments at read
      split at read
      · cases read
      · split at read
        · cases read
        · rename_i size begin isLine
          have bounds := decimalLine_bounds isLine
          simp only at read
          split at read
          · cases read
          · rename_i fits
            have later := inductionHypothesis (by omega) read
            omega

theorem respArguments_append
    (more : Bytes)
    (read :
      respArguments data start remaining cursor first arguments
        knownAuthCommand = some parsed) :
    respArguments (data ++ more) start remaining cursor first arguments
      knownAuthCommand = some parsed := by
  induction remaining generalizing cursor first arguments
      knownAuthCommand with
  | zero =>
      exact read
  | succ remaining inductionHypothesis =>
      unfold respArguments at read ⊢
      split at read
      case isTrue => cases read
      case isFalse isBulk =>
        have sameByte : (data ++ more)[cursor]? = some 36 := by
          rw [List.getElem?_append_left]
          · simpa using isBulk
          · by_contra behind
            rw [List.getElem?_eq_none (by omega)] at isBulk
            simp at isBulk
        rw [if_neg (by simp [sameByte])]
        split at read
        case h_1 => cases read
        case h_2 size begin isLine =>
          rw [decimalLine_append more isLine]
          simp only at read ⊢
          split at read
          case isTrue => cases read
          case isFalse fits =>
            rw [not_or, Nat.not_lt] at fits
            rw [if_neg, extract_append_of_le more (by omega)]
            · exact inductionHypothesis read
            · rw [extract_append_of_le more (by omega), not_or, Nat.not_lt,
                List.length_append]
              exact ⟨by omega, fits.2⟩

theorem respArguments_front
    (front rest : Bytes) :
    respArguments (front ++ rest) (front.length + start) remaining
        (front.length + cursor) first arguments knownAuthCommand =
      (respArguments rest start remaining cursor first arguments
        knownAuthCommand).map (RespCommand.shift front.length) := by
  induction remaining generalizing cursor first arguments
      knownAuthCommand with
  | zero =>
      rfl
  | succ remaining inductionHypothesis =>
      unfold respArguments
      rw [getElem?_append_add]
      split
      case isTrue => rfl
      case isFalse =>
        rw [Nat.add_assoc, decimalLine_front]
        cases isLine : decimalLine rest (cursor + 1) with
        | none => rfl
        | some found =>
            obtain ⟨size, begin⟩ := found
            have message :
                front.length + (begin + size + 2) - (front.length + start) =
                  begin + size + 2 - start := by
              omega
            have fits :
                (front ++ rest).length <
                    front.length + (begin + size + 2) ↔
                  rest.length < begin + size + 2 := by
              rw [List.length_append]
              omega
            simp only [Option.map_some, Nat.add_assoc, extract_append_add]
            simp only [← Nat.add_assoc begin size 2] at message fits ⊢
            rw [message]
            simp only [fits]
            split
            case isTrue => rfl
            case isFalse => exact inductionHypothesis

end Arguments

theorem respCommand_bounds
    {data : Bytes}
    {start : Nat}
    {parsed : RespCommand}
    (read : respCommand data start = some parsed) :
    start < parsed.cursor ∧ parsed.cursor ≤ data.length := by
  unfold respCommand at read
  split at read
  · cases read
  · rename_i count cursor isLine
    have bounds := decimalLine_bounds isLine
    split at read
    · cases read
    · have later := respArguments_bounds bounds.2 read
      omega

theorem respCommand_append
    {data : Bytes}
    {start : Nat}
    {parsed : RespCommand}
    (more : Bytes)
    (read : respCommand data start = some parsed) :
    respCommand (data ++ more) start = some parsed := by
  unfold respCommand at read ⊢
  split at read
  case h_1 => cases read
  case h_2 count cursor isLine =>
    rw [decimalLine_append more isLine]
    simp only
    split at read
    case isTrue => cases read
    case isFalse inRange =>
      rw [if_neg inRange]
      exact respArguments_append more read

theorem respCommand_front
    (front rest : Bytes)
    (start : Nat) :
    respCommand (front ++ rest) (front.length + start) =
      (respCommand rest start).map (RespCommand.shift front.length) := by
  unfold respCommand
  rw [Nat.add_assoc, decimalLine_front]
  cases isLine : decimalLine rest (start + 1) with
  | none => rfl
  | some found =>
      simp only [Option.map_some]
      split
      · rfl
      · exact respArguments_front front rest

theorem argumentRecords_shift
    (offset start stop : Nat)
    (arguments : Option (List Bytes)) :
    (argumentRecords start stop arguments).map
        (CleartextRecord.shift offset) =
      argumentRecords (offset + start) (offset + stop) arguments := by
  unfold argumentRecords
  split
  · rfl
  · split
    · rfl
    · split <;> rfl

/-- The end of a line found in the data stays its end in more data. -/
theorem findLine_append
    {data : Bytes}
    {cursor stop : Nat}
    (more : Bytes)
    (found : findSub crlf data cursor data.length = some stop) :
    findSub crlf (data ++ more) cursor (data ++ more).length = some stop :=
  findSub_append found more (by rw [List.length_append]; omega)

theorem redisFrame_laws :
    FrameLaws CleartextRecord.shift redisFrame where
  advances data cursor records next read := by
    have crlfLength : crlf.length = 2 := rfl
    unfold redisFrame at read
    split at read
    case h_1 => cases read
    case h_2 first isFirst =>
      split at read
      case isTrue =>
        obtain ⟨parsed, command, same⟩ := Option.map_eq_some_iff.mp read
        cases same
        exact respCommand_bounds command
      case isFalse =>
        split at read
        case isTrue =>
          split at read
          case h_1 => cases read
          case h_2 size begin isLine =>
            have bounds := decimalLine_bounds isLine
            simp only at read
            split at read
            case isTrue => cases read
            case isFalse fits =>
              cases read
              omega
        case isFalse =>
          split at read
          case h_1 => cases read
          case h_2 stop found =>
            obtain ⟨⟨fromStart, inside⟩, -, -⟩ := findSub_eq_some.mp found
            simp only at read
            split at read
            case h_1 =>
              cases read
              omega
            case h_2 =>
              split at read
              case isTrue =>
                cases read
                omega
              case isFalse => cases read
  extend {data cursor found} more read := by
    unfold redisFrame at read ⊢
    cases isFirst : data[cursor]? with
    | none => simp [isFirst] at read
    | some first =>
        have inside : cursor < data.length :=
          (List.getElem?_eq_some_iff.mp isFirst).1
        rw [List.getElem?_append_left inside]
        simp only [isFirst] at read ⊢
        split at read
        case isTrue isArray =>
          rw [if_pos isArray]
          obtain ⟨parsed, command, same⟩ := Option.map_eq_some_iff.mp read
          rw [respCommand_append more command, ← same]
          rfl
        case isFalse notArray =>
          rw [if_neg notArray]
          split at read
          case isTrue isBulk =>
            rw [if_pos isBulk]
            split at read
            case h_1 => cases read
            case h_2 size begin isLine =>
              rw [decimalLine_append more isLine]
              simp only at read ⊢
              split at read
              case isTrue => cases read
              case isFalse fits =>
                rw [not_or, Nat.not_lt] at fits
                rw [if_neg]
                · exact read
                · rw [extract_append_of_le more (by omega), not_or,
                    Nat.not_lt, List.length_append]
                  exact ⟨by omega, fits.2⟩
          case isFalse notBulk =>
            rw [if_neg notBulk]
            split at read
            case h_1 => cases read
            case h_2 stop located =>
              obtain ⟨⟨-, within⟩, -, -⟩ := findSub_eq_some.mp located
              rw [findLine_append more located]
              simp only at read ⊢
              rw [extract_append_of_le more (by omega)]
              exact read
  ahead front rest cursor := by
    unfold redisFrame
    rw [getElem?_append_add]
    cases isFirst : rest[cursor]? with
    | none => rfl
    | some first =>
        simp only
        split
        case isTrue =>
          rw [respCommand_front, Option.map_map, Option.map_map]
          congr 1
          funext parsed
          obtain ⟨stop, arguments, limit⟩ := parsed
          cases limit <;>
            simp [RespCommand.shift, shiftFound, argumentRecords_shift,
              coverageRecord_shift]
        case isFalse =>
          split
          case isTrue =>
            rw [Nat.add_assoc, decimalLine_front]
            cases isLine : decimalLine rest (cursor + 1) with
            | none => rfl
            | some found =>
                have fits :
                    (front ++ rest).length <
                        front.length + (found.2 + found.1 + 2) ↔
                      rest.length < found.2 + found.1 + 2 := by
                  rw [List.length_append]
                  omega
                simp only [Option.map_some, Nat.add_assoc,
                  extract_append_add]
                simp only [← Nat.add_assoc found.2 found.1 2, fits]
                split <;> rfl
          case isFalse =>
            rw [List.length_append, findSub_append_front]
            cases located : findSub crlf rest cursor rest.length with
            | none => rfl
            | some stop =>
                simp only [Option.map_some, extract_append_add]
                split
                case h_1 =>
                  simp [shiftFound, argumentRecords_shift, Nat.add_assoc]
                case h_2 =>
                  split
                  case isTrue =>
                    simp [shiftFound, coverageRecord_shift, Nat.add_assoc]
                  case isFalse => rfl

/-- The scan of the source is the scan over its frames. -/
theorem scanRedis_eq (data : Bytes) :
    scanRedis data = scanFrom redisFrame data data.length 0 := by
  have loops
      (rounds cursor : Nat) :
      scanRedisFrom data rounds cursor =
        scanFrom redisFrame data rounds cursor := by
    induction rounds generalizing cursor with
    | zero =>
        rfl
    | succ rounds inductionHypothesis =>
        rw [scanRedisFrom, scanFrom_succ]
        cases redisFrame data cursor with
        | none => rfl
        | some found => simp only [inductionHypothesis]
  exact loops data.length 0

theorem scanRedis_composes
    (first more : Bytes) :
    ComposesAt scanRedis CleartextRecord.shift first more := by
  have composes := redisFrame_laws.composes first more
  rw [show scanRedis = fun data => scanFrom redisFrame data data.length 0 from
    funext scanRedis_eq]
  exact composes

/-! ## PostgreSQL -/

/-- A message behind an offset. -/
def PgFrame.shift (offset : Nat) (frame : PgFrame) : PgFrame :=
  { frame with stop := offset + frame.stop }

section Messages

variable
  {data : Bytes}
  {cursor : Nat}
  {backend : Bool}
  {tag : UInt8}
  {frame : PgFrame}

theorem pgStartup_bounds
    (read : pgStartup data cursor = some frame) :
    cursor < frame.stop ∧ frame.stop ≤ data.length := by
  unfold pgStartup at read
  split at read
  case isTrue => cases read
  case isFalse long =>
    simp only at read
    split at read
    case isTrue => cases read
    case isFalse fits =>
      split at read
      case isTrue => cases read
      case isFalse =>
        cases read
        simp only
        omega

theorem pgStartup_append
    (more : Bytes)
    (read : pgStartup data cursor = some frame) :
    pgStartup (data ++ more) cursor = some frame := by
  unfold pgStartup at read ⊢
  split at read
  case isTrue => cases read
  case isFalse long =>
    rw [if_neg (by rw [List.length_append]; omega)]
    simp only at read ⊢
    rw [extract_append_of_le more (by omega),
      extract_append_of_le more (by omega)]
    split at read
    case isTrue => cases read
    case isFalse fits =>
      simp only [not_or, Nat.not_lt] at fits
      have fitsMore :
          bigEndian (data.extract cursor (cursor + 4)) ≤
            (data ++ more).length - cursor := by
        rw [List.length_append]
        omega
      rw [if_neg (by
        simp only [not_or, Nat.not_lt]
        exact ⟨fits.1, fits.2.1, fitsMore⟩)]
      split at read
      case isTrue => cases read
      case isFalse closed =>
        rw [if_neg]
        · exact read
        · rintro ⟨startup, isOpen⟩
          apply closed
          refine ⟨startup, ?_⟩
          rwa [List.getElem?_append_left (by omega)] at isOpen

theorem pgStartup_front
    (front rest : Bytes) :
    pgStartup (front ++ rest) (front.length + cursor) =
      (pgStartup rest cursor).map (PgFrame.shift front.length) := by
  have remaining :
      (front ++ rest).length - (front.length + cursor) =
        rest.length - cursor := by
    rw [List.length_append]
    omega
  unfold pgStartup
  rw [remaining]
  split
  case isTrue => rfl
  case isFalse =>
    simp only [Nat.add_assoc, extract_append_add]
    split
    case isTrue => rfl
    case isFalse fits =>
      have positive :
          0 < bigEndian (rest.extract cursor (cursor + 4)) := by
        omega
      have last :
          front.length +
              (cursor + bigEndian (rest.extract cursor (cursor + 4))) - 1 =
            front.length +
              (cursor + bigEndian (rest.extract cursor (cursor + 4)) - 1) := by
        omega
      rw [last, getElem?_append_add]
      split <;> rfl

theorem pgMessage_bounds
    (read : pgMessage data cursor backend tag = some frame) :
    cursor + 5 ≤ frame.stop ∧ frame.stop ≤ data.length := by
  unfold pgMessage at read
  split at read
  case isTrue => cases read
  case isFalse =>
    simp only at read
    split at read
    case isTrue => cases read
    case isFalse fits =>
      cases read
      simp only
      omega

theorem pgMessage_append
    (more : Bytes)
    (read : pgMessage data cursor backend tag = some frame) :
    pgMessage (data ++ more) cursor backend tag = some frame := by
  have bounds := pgMessage_bounds read
  unfold pgMessage at read ⊢
  split at read
  case isTrue => cases read
  case isFalse known =>
    rw [if_neg known]
    simp only at read ⊢
    rw [extract_append_of_le more (by omega)]
    split at read
    case isTrue => cases read
    case isFalse fits =>
      rw [not_or, not_or, Nat.not_lt, Nat.not_lt, Nat.not_lt] at fits
      rw [if_neg (by rw [List.length_append]; omega),
        extract_append_of_le more fits.2.2]
      exact read

theorem pgMessage_front
    (front rest : Bytes) :
    pgMessage (front ++ rest) (front.length + cursor) backend tag =
      (pgMessage rest cursor backend tag).map
        (PgFrame.shift front.length) := by
  unfold pgMessage
  split
  case isTrue => rfl
  case isFalse =>
    have fits
        (stop : Nat) :
        (front ++ rest).length < front.length + stop ↔
          rest.length < stop := by
      rw [List.length_append]
      omega
    simp only [Nat.add_assoc, extract_append_add, fits]
    split <;> rfl

end Messages

/-- `_pg_frame` away from a refused negotiation. -/
def pgPlainFrame
    (backend : Bool)
    (data : Bytes)
    (cursor : Nat) : Option PgFrame :=
  match data[cursor]? with
  | none => none
  | some tag =>
      if data.length - cursor < 5 then
        none
      else if ¬ backend ∧ tag = 0 then
        pgStartup data cursor
      else
        pgMessage data cursor backend tag

theorem pgFrame_eq_plain
    {data : Bytes}
    {cursor : Nat}
    {backend : Bool}
    (plain :
      ¬ (backend = true ∧ cursor = 0 ∧ refusedNegotiation data = true)) :
    pgFrame data cursor backend = pgPlainFrame backend data cursor := by
  unfold pgFrame pgPlainFrame
  cases data[cursor]? with
  | none => rfl
  | some tag => simp only [if_neg plain]

section Plain

variable
  {backend : Bool}
  {data : Bytes}
  {cursor : Nat}
  {frame : PgFrame}

theorem pgPlainFrame_bounds
    (read : pgPlainFrame backend data cursor = some frame) :
    cursor < frame.stop ∧ frame.stop ≤ data.length := by
  unfold pgPlainFrame at read
  split at read
  case h_1 => cases read
  case h_2 tag isTag =>
    split at read
    case isTrue => cases read
    case isFalse =>
      split at read
      case isTrue => exact pgStartup_bounds read
      case isFalse =>
        have bounds := pgMessage_bounds read
        omega

theorem pgPlainFrame_append
    (more : Bytes)
    (read : pgPlainFrame backend data cursor = some frame) :
    pgPlainFrame backend (data ++ more) cursor = some frame := by
  unfold pgPlainFrame at read ⊢
  cases isTag : data[cursor]? with
  | none => simp [isTag] at read
  | some tag =>
      have inside : cursor < data.length :=
        (List.getElem?_eq_some_iff.mp isTag).1
      rw [List.getElem?_append_left inside]
      simp only [isTag] at read ⊢
      split at read
      case isTrue => cases read
      case isFalse long =>
        rw [if_neg (by rw [List.length_append]; omega)]
        split at read
        case isTrue untagged =>
          rw [if_pos untagged]
          exact pgStartup_append more read
        case isFalse tagged =>
          rw [if_neg tagged]
          exact pgMessage_append more read

theorem pgPlainFrame_front
    (front rest : Bytes) :
    pgPlainFrame backend (front ++ rest) (front.length + cursor) =
      (pgPlainFrame backend rest cursor).map
        (PgFrame.shift front.length) := by
  have remaining :
      (front ++ rest).length - (front.length + cursor) =
        rest.length - cursor := by
    rw [List.length_append]
    omega
  unfold pgPlainFrame
  rw [getElem?_append_add, remaining]
  cases rest[cursor]? with
  | none => rfl
  | some tag =>
      simp only
      split
      case isTrue => rfl
      case isFalse =>
        split
        case isTrue => exact pgStartup_front front rest
        case isFalse => exact pgMessage_front front rest

end Plain

/-- The records of a message do not depend on its place. -/
def PlaceFree (records : Nat → PgFrame → List CleartextRecord) : Prop :=
  ∀ offset start frame,
    (records start frame).map (CleartextRecord.shift offset) =
      records (offset + start) (frame.shift offset)

/-- Readers of plain messages can be resumed. -/
theorem plainFrame_laws
    (backend : Bool)
    {records : Nat → PgFrame → List CleartextRecord}
    (placeFree : PlaceFree records) :
    FrameLaws CleartextRecord.shift fun data cursor =>
      (pgPlainFrame backend data cursor).map fun frame =>
        (records cursor frame, frame.stop) where
  advances _ _ _ _ read := by
    obtain ⟨frame, isFrame, same⟩ := Option.map_eq_some_iff.mp read
    cases same
    exact pgPlainFrame_bounds isFrame
  extend more read := by
    obtain ⟨frame, isFrame, same⟩ := Option.map_eq_some_iff.mp read
    rw [pgPlainFrame_append more isFrame, ← same]
    rfl
  ahead front rest cursor := by
    rw [pgPlainFrame_front, Option.map_map, Option.map_map]
    congr 1
    funext frame
    have moved := placeFree front.length cursor frame
    simp only [Function.comp_apply, shiftFound, moved]
    rfl

theorem passwordRecords_placeFree (authenticationMethod : Option Nat) :
    PlaceFree fun start frame =>
      passwordRecords start frame authenticationMethod := by
  rintro offset start ⟨stop, tag, payload⟩
  have sameLength : offset + stop - (offset + start) = stop - start := by
    omega
  change
    (passwordRecords start ⟨stop, tag, payload⟩ authenticationMethod).map _ =
      passwordRecords (offset + start) ⟨offset + stop, tag, payload⟩
        authenticationMethod
  unfold passwordRecords
  simp only [sameLength]
  split
  case isTrue => rfl
  case isFalse =>
    split
    case isTrue => rfl
    case isFalse =>
      split
      case isTrue => split <;> rfl
      case isFalse =>
        split
        case isTrue => rfl
        case isFalse => split <;> rfl

theorem authenticationRecords_placeFree :
    PlaceFree authenticationRecords := by
  rintro offset start ⟨stop, tag, payload⟩
  change
    (authenticationRecords start ⟨stop, tag, payload⟩).map _ =
      authenticationRecords (offset + start) ⟨offset + stop, tag, payload⟩
  unfold authenticationRecords
  simp only
  split
  case isTrue => rfl
  case isFalse =>
    cases requestedMethod payload with
    | none => rfl
    | some found => rfl

theorem postgresFrame_laws (authenticationMethod : Option Nat) :
    FrameLaws CleartextRecord.shift (postgresFrame authenticationMethod) := by
  have plain :
      postgresFrame authenticationMethod = fun data cursor =>
        (pgPlainFrame false data cursor).map fun frame =>
          (passwordRecords cursor frame authenticationMethod, frame.stop) := by
    funext data cursor
    unfold postgresFrame
    rw [pgFrame_eq_plain (by simp)]
  rw [plain]
  exact plainFrame_laws false (passwordRecords_placeFree authenticationMethod)

theorem scanPostgres_composes
    (authenticationMethod : Option Nat)
    (first more : Bytes) :
    ComposesAt (fun data => scanPostgres data authenticationMethod)
      CleartextRecord.shift first more :=
  (postgresFrame_laws authenticationMethod).composes first more

end PacketAudit
