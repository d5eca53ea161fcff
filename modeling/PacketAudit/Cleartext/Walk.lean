import PacketAudit.Cleartext.Resumption

namespace PacketAudit

/-!
# The cursors of the cleartext scanner

`_scan_cleartext` of `detectors.py`: a recognizer per direction, resumed at a
cursor over successive windows of the stream.  What it passes to `_emit` and
which statistics it counts are returned, in order.
-/

open Library

/-- The `kind` of a material. -/
def CleartextMaterial.kind : CleartextMaterial → String
  | .coverage _ _ => "cleartext_coverage"
  | .redisAuth _ _ _ => "redis_auth"
  | .postgresCleartextPassword _ => "postgres_cleartext_password"
  | .postgresPasswordMessage _ => "postgres_password_message"
  | .postgresAuthenticationRequest _ _ _ => "postgres_authentication_request"

/-- The part of `_FlowState` that `_scan_cleartext` reads and writes. -/
structure CleartextState where
  cursors : Direction → Option Nat := fun _ => none
  blocked : Direction → Bool := fun _ => false
  postgresMethod : Option Nat := none

/-- The part of `_ScanContext` that `_scan_cleartext` reads. -/
structure CleartextContext where
  flow : FlowKey
  direction : Direction
  baseOffset : Option Nat
  data : Bytes

/-- The parsers `_scan_cleartext` chooses from. -/
inductive CleartextParser where
  | redis
  | postgresAuthentication
  | postgres
  deriving Repr, DecidableEq

namespace CleartextParser

/-- The protocol name that goes with a parser. -/
def protocol : CleartextParser → String
  | redis => "redis"
  | postgresAuthentication => "postgresql"
  | postgres => "postgresql"

/-- Only the client parser of PostgreSQL takes the method. -/
def scan
    (parser : CleartextParser)
    (postgresMethod : Option Nat)
    (data : Bytes) : List CleartextRecord × Nat :=
  match parser with
  | redis => scanRedis data
  | postgresAuthentication => scanPostgresAuthentication data
  | postgres => scanPostgres data postgresMethod

/-- The parser for a direction of a flow, by the well-known ports. -/
def forDirection
    (flow : FlowKey)
    (direction : Direction) : Option CleartextParser :=
  let ends : Endpoint × Endpoint :=
    match direction with
    | .aToB => (flow.endpointA, flow.endpointB)
    | .bToA => (flow.endpointB, flow.endpointA)
  if ends.2.port = 6379 then some redis
  else if ends.1.port = 5432 then some postgresAuthentication
  else if ends.2.port = 5432 then some postgres
  else none

end CleartextParser

/-- The arguments of one call of `_emit`. -/
structure CleartextEmission where
  detector : String
  start : Nat
  stop : Nat
  category : String
  protocol : String
  material : CleartextMaterial
  confidence : String
  limitations : List String
  deriving DecidableEq

/-- What a call of `_scan_cleartext` does; record positions are absolute. -/
structure CleartextOutcome where
  state : CleartextState
  records : List CleartextRecord := []
  emissions : List CleartextEmission := []
  counted : List String := []

/-- The body of the loop over the records. -/
def handleCleartextRecord
    (protocol : String)
    (relative : Nat)
    (outcome : CleartextOutcome)
    (record : CleartextRecord) : CleartextOutcome :=
  match record.material with
  | .coverage _ reason =>
      { outcome with
        counted := outcome.counted ++ ["coverage_cleartext_" ++ reason] }
  | .postgresAuthenticationRequest method _ coverageReason =>
      { outcome with
        state := { outcome.state with postgresMethod := method }
        counted :=
          outcome.counted ++
            (coverageReason.map ("coverage_cleartext_" ++ ·)).toList }
  | material =>
      let unknown := material.kind = "postgres_password_message"
      { outcome with
        counted :=
          outcome.counted ++
            (if unknown then ["coverage_postgres_auth_method_unknown"]
            else [])
        emissions := outcome.emissions ++ [{
          detector := material.kind
          start := relative + record.start
          stop := relative + record.stop
          category := if unknown then "authentication" else "credential"
          protocol := protocol
          material := material
          confidence := if unknown then "medium" else "confirmed"
          limitations :=
            record.limitations ++
              ["Observed submission does not demonstrate " ++
                "authentication success."]
        }] }

/-- `_scan_cleartext`. -/
def scanCleartext
    (context : CleartextContext)
    (state : CleartextState) : CleartextOutcome :=
  match context.baseOffset,
      CleartextParser.forDirection context.flow context.direction with
  | some baseOffset, some parser =>
      if state.blocked context.direction then
        { state := state }
      else
        let cursor := (state.cursors context.direction).getD baseOffset
        if cursor < baseOffset then
          { state := {
              state with
              blocked := Function.update state.blocked context.direction true
            }
            counted := ["coverage_cleartext_frame_boundary_lost"] }
        else
          let relative := cursor - baseOffset
          let found :=
            parser.scan state.postgresMethod (context.data.drop relative)
          found.1.foldl (handleCleartextRecord parser.protocol relative) {
            state := {
              state with
              cursors :=
                Function.update state.cursors context.direction
                  (some (cursor + found.2))
            }
            records := found.1.map (CleartextRecord.shift cursor)
          }
  | _, _ => { state := state }

/-! ## Walking over a stream -/

/-- A window of a stream, from its base to its end. -/
structure StreamWindow where
  base : Nat
  stop : Nat
  deriving Repr, DecidableEq

/-- The records of successive calls on windows of one direction. -/
def scanWindows
    (flow : FlowKey)
    (direction : Direction)
    (stream : Bytes) :
    List StreamWindow → CleartextState → List CleartextRecord × CleartextState
  | [], state => ([], state)
  | window :: later, state =>
      let outcome :=
        scanCleartext
          ⟨flow, direction, some window.base,
            stream.extract window.base window.stop⟩ state
      let rest := scanWindows flow direction stream later outcome.state
      (outcome.records ++ rest.1, rest.2)

/-- Every window still holds the bytes that were not consumed before. -/
def KeepsUnconsumed
    (flow : FlowKey)
    (direction : Direction)
    (stream : Bytes) :
    List StreamWindow → CleartextState → Prop
  | [], _ => True
  | window :: later, state =>
      (∀ cursor, state.cursors direction = some cursor →
        window.base ≤ cursor) ∧
        KeepsUnconsumed flow direction stream later
          (scanCleartext
            ⟨flow, direction, some window.base,
              stream.extract window.base window.stop⟩ state).state

/-! ## What a call changes -/

/-- The method in force after authentication requests were seen. -/
def methodAfter
    (records : List CleartextRecord)
    (before : Option Nat) : Option Nat :=
  records.foldl
    (fun method record =>
      match record.material with
      | .postgresAuthenticationRequest requested _ _ => requested
      | _ => method)
    before

theorem handleRecords_kept
    (protocol : String)
    (relative : Nat)
    (records : List CleartextRecord)
    (outcome : CleartextOutcome) :
    let final :=
      records.foldl (handleCleartextRecord protocol relative) outcome
    final.records = outcome.records ∧
      final.state = {
        outcome.state with
        postgresMethod := methodAfter records outcome.state.postgresMethod
      } := by
  induction records generalizing outcome with
  | nil =>
      exact ⟨rfl, rfl⟩
  | cons record rest inductionHypothesis =>
      have step :
          let next := handleCleartextRecord protocol relative outcome record
          next.records = outcome.records ∧
            next.state = {
              outcome.state with
              postgresMethod :=
                methodAfter [record] outcome.state.postgresMethod
            } := by
        simp only [handleCleartextRecord, methodAfter, List.foldl_cons,
          List.foldl_nil]
        cases record.material <;> exact ⟨rfl, rfl⟩
      obtain ⟨sameRecords, sameState⟩ :=
        inductionHypothesis
          (handleCleartextRecord protocol relative outcome record)
      refine ⟨sameRecords.trans step.1, sameState.trans ?_⟩
      rw [step.2]
      rfl

/-- A call on a window that still holds what was not consumed. -/
theorem scanCleartext_window
    {flow : FlowKey}
    {direction : Direction}
    {parser : CleartextParser}
    (chosen : CleartextParser.forDirection flow direction = some parser)
    {state : CleartextState}
    (unblocked : state.blocked direction = false)
    {window : StreamWindow}
    {cursor : Nat}
    (isCursor : (state.cursors direction).getD window.base = cursor)
    (holds : window.base ≤ cursor)
    (stream : Bytes) :
    let found :=
      parser.scan state.postgresMethod (stream.extract cursor window.stop)
    let outcome :=
      scanCleartext
        ⟨flow, direction, some window.base,
          stream.extract window.base window.stop⟩ state
    outcome.records = found.1.map (CleartextRecord.shift cursor) ∧
      outcome.state.cursors direction = some (cursor + found.2) ∧
      outcome.state.blocked direction = false ∧
      outcome.state.postgresMethod =
        methodAfter found.1 state.postgresMethod := by
  intro found outcome
  have sameData :
      (stream.extract window.base window.stop).drop (cursor - window.base) =
        stream.extract cursor window.stop := by
    rw [drop_extract]
    congr 1
    omega
  have kept :=
    handleRecords_kept parser.protocol (cursor - window.base) found.1 {
      state := {
        state with
        cursors :=
          Function.update state.cursors direction (some (cursor + found.2))
      }
      records := found.1.map (CleartextRecord.shift cursor)
    }
  have same :
      outcome =
        found.1.foldl
          (handleCleartextRecord parser.protocol (cursor - window.base)) {
            state := {
              state with
              cursors :=
                Function.update state.cursors direction
                  (some (cursor + found.2))
            }
            records := found.1.map (CleartextRecord.shift cursor)
          } := by
    simp only [outcome, found, scanCleartext, chosen, unblocked, isCursor,
      Bool.false_eq_true, ↓reduceIte, if_neg (Nat.not_lt.mpr holds),
      sameData]
  rw [same, kept.1, kept.2]
  exact ⟨rfl, Function.update_self _ _ _, unblocked, rfl⟩

/-- The client parser of PostgreSQL sees no authentication request. -/
theorem methodAfter_scanPostgres
    (data : Bytes)
    (method before : Option Nat) :
    methodAfter (scanPostgres data method).1 before = before := by
  have noRequest
      {record : CleartextRecord}
      (member : record ∈ (scanPostgres data method).1)
      (requested : Option Nat)
      (name : String)
      (reason : Option String) :
      record.material ≠
        .postgresAuthenticationRequest requested name reason := by
    obtain ⟨position, records, next, read, inFrame⟩ := mem_scanFrom member
    obtain ⟨frame, -, same⟩ := Option.map_eq_some_iff.mp read
    cases same
    unfold passwordRecords at inFrame
    split at inFrame
    case isTrue => cases inFrame
    case isFalse =>
      split at inFrame
      case isTrue =>
        obtain rfl := List.mem_singleton.mp inFrame
        simp [coverageRecord]
      case isFalse =>
        split at inFrame
        case isTrue =>
          split at inFrame
          · obtain rfl := List.mem_singleton.mp inFrame
            simp [coverageRecord]
          · cases inFrame
        case isFalse =>
          simp only at inFrame
          split at inFrame
          · cases inFrame
          · split at inFrame
            · obtain rfl := List.mem_singleton.mp inFrame
              simp
            · obtain rfl := List.mem_singleton.mp inFrame
              simp
  generalize (scanPostgres data method).1 = records at noRequest
  induction records generalizing before with
  | nil =>
      rfl
  | cons record rest inductionHypothesis =>
      have first :
          methodAfter [record] before = before := by
        unfold methodAfter
        simp only [List.foldl_cons, List.foldl_nil]
        split
        case h_1 requested name reason isRequest =>
          exact (noRequest List.mem_cons_self _ _ _ isRequest).elim
        case h_2 => rfl
      have later :=
        inductionHypothesis before fun member =>
          noRequest (List.mem_cons_of_mem _ member)
      rw [show methodAfter (record :: rest) before =
        methodAfter rest (methodAfter [record] before) from rfl, first, later]

/-- A parser scans the same way after a call as before it. -/
theorem CleartextParser.scan_methodAfter
    (parser : CleartextParser)
    (method : Option Nat)
    (data : Bytes) :
    parser.scan (methodAfter (parser.scan method data).1 method) =
      parser.scan method := by
  cases parser with
  | redis => rfl
  | postgresAuthentication => rfl
  | postgres =>
      funext later
      simp only [CleartextParser.scan, methodAfter_scanPostgres]

/-- The calls of a walk resume the parser at its cursor. -/
theorem scanWindows_eq_resumeAll
    {flow : FlowKey}
    {direction : Direction}
    {parser : CleartextParser}
    (chosen : CleartextParser.forDirection flow direction = some parser)
    {stream : Bytes}
    {windows : List StreamWindow}
    {state : CleartextState}
    (unblocked : state.blocked direction = false)
    {cursor : Nat}
    (isCursor : state.cursors direction = some cursor)
    (keeps : KeepsUnconsumed flow direction stream windows state) :
    let walked := scanWindows flow direction stream windows state
    let resumed :=
      resumeAll (parser.scan state.postgresMethod) CleartextRecord.shift
        stream (windows.map StreamWindow.stop) cursor
    walked.1 = resumed.1 ∧ walked.2.cursors direction = some resumed.2 := by
  induction windows generalizing state cursor with
  | nil =>
      exact ⟨rfl, isCursor⟩
  | cons window later inductionHypothesis =>
      obtain ⟨holds, keepsLater⟩ := keeps
      obtain ⟨records, nextCursor, nextUnblocked, nextMethod⟩ :=
        scanCleartext_window chosen unblocked (by rw [isCursor]; rfl)
          (holds cursor isCursor) stream
      have onward :=
        inductionHypothesis nextUnblocked nextCursor keepsLater
      rw [nextMethod, parser.scan_methodAfter] at onward
      simp only [scanWindows, List.map_cons, resumeAll, records]
      exact ⟨by rw [onward.1], onward.2⟩

/-- The state of a direction that was not scanned yet. -/
structure CleartextState.Fresh
    (direction : Direction)
    (state : CleartextState) : Prop where
  cursor : state.cursors direction = none
  unblocked : state.blocked direction = false

/--
Where every window resumes the scan of what came before, a walk finds what one
scan of the stream finds.
-/
theorem scanWindows_of_resumes
    {flow : FlowKey}
    {direction : Direction}
    {parser : CleartextParser}
    (chosen : CleartextParser.forDirection flow direction = some parser)
    {stream : Bytes}
    {first : StreamWindow}
    {later : List StreamWindow}
    {state : CleartextState}
    (fresh : state.Fresh direction)
    (keeps : KeepsUnconsumed flow direction stream (first :: later) state)
    (resumes :
      List.IsChain
        (Resumes (parser.scan state.postgresMethod) CleartextRecord.shift
          stream first.base)
        (first.stop :: later.map StreamWindow.stop))
    (notBefore : first.base ≤ first.stop) :
    let walked := scanWindows flow direction stream (first :: later) state
    let last := (later.map StreamWindow.stop).getLastD first.stop
    let whole :=
      parser.scan state.postgresMethod (stream.extract first.base last)
    walked.1 = whole.1.map (CleartextRecord.shift first.base) ∧
      walked.2.cursors direction = some (first.base + whole.2) := by
  obtain ⟨-, keepsLater⟩ := keeps
  obtain ⟨records, nextCursor, nextUnblocked, nextMethod⟩ :=
    scanCleartext_window chosen fresh.unblocked (by rw [fresh.cursor]; rfl)
      (le_refl first.base) stream
  have onward :=
    scanWindows_eq_resumeAll chosen nextUnblocked nextCursor keepsLater
  rw [nextMethod, parser.scan_methodAfter] at onward
  have whole :=
    resumeAll_of_resumes CleartextRecord.shift_shift notBefore resumes
  simp only [shiftFound, Prod.mk.injEq] at whole
  simp only [scanWindows, records]
  exact ⟨by rw [onward.1]; exact whole.1, by rw [onward.2, whole.2]⟩

/-! ## The law of the client scanners -/

/-- The scans of the two client protocols. -/
def CleartextParser.isClient : CleartextParser → Bool
  | redis => true
  | postgresAuthentication => false
  | postgres => true

theorem CleartextParser.composes
    {parser : CleartextParser}
    (isClient : parser.isClient = true)
    (method : Option Nat)
    (first more : Bytes) :
    ComposesAt (parser.scan method) CleartextRecord.shift first more := by
  cases parser with
  | redis => exact scanRedis_composes first more
  | postgresAuthentication => cases isClient
  | postgres => exact scanPostgres_composes method first more

/-- The ends of a list of windows do not decrease. -/
def EndsGrow (windows : List StreamWindow) : Prop :=
  (windows.map StreamWindow.stop).IsChain (· ≤ ·)

/--
The client scanners can be resumed behind what they consumed, and the records
a walk of the cursor finds do not depend on how the stream is segmented.
-/
theorem client_scanners_compose :
    (∀ first more, ComposesAt scanRedis CleartextRecord.shift first more) ∧
      (∀ method first more,
        ComposesAt (fun data => scanPostgres data method)
          CleartextRecord.shift first more) ∧
      ∀ (flow : FlowKey) (direction : Direction) (parser : CleartextParser)
        (stream : Bytes) (first : StreamWindow) (later : List StreamWindow)
        (state : CleartextState),
        CleartextParser.forDirection flow direction = some parser →
        parser.isClient = true →
        state.Fresh direction →
        first.base ≤ first.stop →
        EndsGrow (first :: later) →
        KeepsUnconsumed flow direction stream (first :: later) state →
        let walked := scanWindows flow direction stream (first :: later) state
        let last := (later.map StreamWindow.stop).getLastD first.stop
        let whole :=
          parser.scan state.postgresMethod (stream.extract first.base last)
        walked.1 = whole.1.map (CleartextRecord.shift first.base) ∧
          walked.2.cursors direction = some (first.base + whole.2) := by
  refine ⟨scanRedis_composes, scanPostgres_composes, ?_⟩
  intro flow direction parser stream first later state chosen isClient fresh
    notBefore grow keeps
  apply scanWindows_of_resumes chosen fresh keeps _ notBefore
  apply List.IsChain.imp _ grow
  intro middle stop before
  exact ⟨before, parser.composes isClient state.postgresMethod _ _⟩

/-- An inline PING and a password split over two windows are both found. -/
theorem splitPassword_found :
    let flow : FlowKey := ⟨6, ⟨"10.0.0.1", 1234⟩, ⟨"10.0.0.2", 6379⟩, "eth0", []⟩
    let stream := ascii "PING\r\nAUTH x\r\n"
    let walked := scanWindows flow .aToB stream [⟨0, 9⟩, ⟨4, 14⟩] {}
    walked.1.map CleartextRecord.start = [6] ∧
      walked.1 =
        (scanRedis (stream.extract 0 14)).1.map
          (CleartextRecord.shift 0) := by
  intro flow stream walked
  have walk :=
    client_scanners_compose.2.2 flow .aToB .redis stream ⟨0, 9⟩ [⟨4, 14⟩] {}
      (by decide) rfl ⟨rfl, rfl⟩ (by decide) (by simp [EndsGrow])
      ⟨by simp, by
        intro cursor isCursor
        have isSix :
            (scanCleartext ⟨flow, .aToB, some 0, stream.extract 0 9⟩
              {}).state.cursors .aToB = some 6 := by
          decide +kernel
        rw [isSix] at isCursor
        cases isCursor
        decide, trivial⟩
  exact ⟨by decide +kernel, walk.1⟩

end PacketAudit
