import PacketAudit.Cleartext.Walk

namespace PacketAudit

/-!
# The negotiation reply of a PostgreSQL server

A refused encryption request is answered by the byte `N` without a message
around it.  The server scan accepts it at the start of what it is given, so
that a resumed scan may accept one where a scan of the whole stream stops.
-/

open Library

/-- The end of a sequence of complete server messages. -/
inductive MessageEnd (data : Bytes) : Nat → Prop where
  | start : MessageEnd data 0
  | next
      {cursor : Nat}
      {frame : PgFrame}
      (before : MessageEnd data cursor)
      (read : pgFrame data cursor true = some frame) :
      MessageEnd data frame.stop

/--
Some complete messages of the first part are directly followed by the byte `N`
and a complete authentication message.
-/
def NegotiatesAgain (first more : Bytes) : Prop :=
  ∃ position,
    0 < position ∧ MessageEnd first position ∧
      refusedNegotiation ((first ++ more).drop position) = true

/-! ## The refused negotiation is no message -/

theorem refusedNegotiation_append
    {data : Bytes}
    (refused : refusedNegotiation data = true)
    (more : Bytes) :
    refusedNegotiation (data ++ more) = true := by
  simp only [refusedNegotiation, Bool.and_eq_true, decide_eq_true_eq]
    at refused ⊢
  obtain ⟨⟨⟨⟨long, letters⟩, atLeast⟩, atMost⟩, complete⟩ := refused
  rw [extract_append_of_le more (by omega),
    List.take_append_of_le_length (by omega), List.length_append]
  exact ⟨⟨⟨⟨by omega, letters⟩, atLeast⟩, atMost⟩, by omega⟩

/-- Read as a message, `NR` would have a length beyond every limit. -/
theorem pgPlainFrame_of_refused
    {data part : Bytes}
    (refused : refusedNegotiation data = true)
    (isPrefix : part <+: data) :
    pgPlainFrame true part 0 = none := by
  simp only [refusedNegotiation, Bool.and_eq_true, decide_eq_true_eq]
    at refused
  obtain ⟨⟨⟨⟨-, letters⟩, -⟩, -⟩, -⟩ := refused
  obtain ⟨more, rfl⟩ := isPrefix
  match part with
  | [] => rfl
  | [_] => rfl
  | [_, _] => rfl
  | [_, _, _] => rfl
  | [_, _, _, _] => rfl
  | first :: second :: third :: fourth :: fifth :: rest =>
      simp only [List.cons_append, List.take_succ_cons, List.take_zero]
        at letters
      obtain ⟨rfl, rfl⟩ : first = 78 ∧ second = 82 := by
        have isText : ascii "NR" = [78, 82] := by decide
        rw [isText] at letters
        simpa using letters
      have long : maxPgFrameBytes < bigEndian [82, third, fourth, fifth] := by
        simp only [bigEndian, List.foldl_cons, List.foldl_nil,
          maxPgFrameBytes, show (82 : UInt8).toNat = 82 from rfl]
        omega
      have notShort :
          ¬ bigEndian [82, third, fourth, fifth] ≤ maxPgFrameBytes :=
        Nat.not_le.mpr long
      simp [pgPlainFrame, pgMessage, notShort]

theorem pgPlainFrame_behind
    {first more : Bytes}
    {position : Nat}
    (inside : position ≤ first.length)
    (refused :
      refusedNegotiation ((first ++ more).drop position) = true) :
    pgPlainFrame true first position = none := by
  have shape : first.take position ++ first.drop position = first :=
    List.take_append_drop _ _
  have frontLength : (first.take position).length = position := by
    simp [inside]
  have moved :=
    @pgPlainFrame_front true 0 (first.take position) (first.drop position)
  rw [shape, frontLength, Nat.add_zero] at moved
  have isPrefix :
      first.drop position <+: (first ++ more).drop position := by
    rw [List.drop_append_of_le_length inside]
    exact List.prefix_append _ _
  rw [moved, pgPlainFrame_of_refused refused isPrefix]
  rfl

/-! ## The scan around the reply -/

/-- A server frame away from a refused negotiation. -/
def plainAuthenticationFrame
    (data : Bytes)
    (cursor : Nat) : Option (List CleartextRecord × Nat) :=
  (pgPlainFrame true data cursor).map fun frame =>
    (authenticationRecords cursor frame, frame.stop)

theorem plainAuthenticationFrame_laws :
    FrameLaws CleartextRecord.shift plainAuthenticationFrame :=
  plainFrame_laws true authenticationRecords_placeFree

theorem pgFrame_of_refused
    {data : Bytes}
    (refused : refusedNegotiation data = true) :
    pgFrame data 0 true = some ⟨1, 0, []⟩ := by
  have long : 10 ≤ data.length := by
    simp only [refusedNegotiation, Bool.and_eq_true, decide_eq_true_eq]
      at refused
    exact refused.1.1.1.1
  cases data with
  | nil => simp at long
  | cons first rest =>
      have enough : ¬ rest.length + 1 - 0 < 5 := by
        rw [List.length_cons] at long
        omega
      simp [pgFrame, refused]
      omega

/-- Where the plain messages of the data begin. -/
def negotiatedBytes (data : Bytes) : Nat :=
  if refusedNegotiation data then 1 else 0

/-- The scan is a scan of plain messages behind a refused negotiation. -/
theorem scanPostgresAuthentication_eq (data : Bytes) :
    scanPostgresAuthentication data =
      scanFrom plainAuthenticationFrame data data.length
        (negotiatedBytes data) := by
  have behind
      {rounds cursor : Nat}
      (positive : 0 < cursor) :
      scanFrom postgresAuthenticationFrame data rounds cursor =
        scanFrom plainAuthenticationFrame data rounds cursor := by
    induction rounds generalizing cursor with
    | zero =>
        rfl
    | succ rounds inductionHypothesis =>
        have sameFrame :
            postgresAuthenticationFrame data cursor =
              plainAuthenticationFrame data cursor := by
          unfold postgresAuthenticationFrame plainAuthenticationFrame
          rw [pgFrame_eq_plain (by omega)]
        rw [scanFrom_succ, scanFrom_succ, sameFrame]
        cases read : plainAuthenticationFrame data cursor with
        | none => rfl
        | some found =>
            have moves :=
              plainAuthenticationFrame_laws.advances _ _ _ _ read
            simp only
            rw [inductionHypothesis (by omega)]
  unfold scanPostgresAuthentication negotiatedBytes
  cases refused : refusedNegotiation data with
  | true =>
      have reply :
          postgresAuthenticationFrame data 0 = some ([], 1) := by
        unfold postgresAuthenticationFrame
        rw [pgFrame_of_refused refused]
        rfl
      cases data with
      | nil => cases refused
      | cons first rest =>
          have enough :=
            plainAuthenticationFrame_laws.advances.scanFrom_rounds
              (show (first :: rest).length - 1 ≤ rest.length by simp)
              (show (first :: rest).length - 1 ≤ rest.length + 1 by simp)
          simp only [List.length_cons, ↓reduceIte]
          rw [← enough, ← behind Nat.one_pos]
          rw [scanFrom_succ, reply]
          rfl
  | false =>
      have sameFrame :
          postgresAuthenticationFrame data 0 =
            plainAuthenticationFrame data 0 := by
        unfold postgresAuthenticationFrame plainAuthenticationFrame
        rw [pgFrame_eq_plain (by simp [refused])]
      simp only [Bool.false_eq_true, ↓reduceIte]
      cases data.length with
      | zero => rfl
      | succ rounds =>
          rw [scanFrom_succ, scanFrom_succ, sameFrame]
          cases read : plainAuthenticationFrame data 0 with
          | none => rfl
          | some found =>
              have moves :=
                plainAuthenticationFrame_laws.advances _ _ _ _ read
              simp only
              rw [behind (by omega)]

/-! ## When the server scan can be resumed -/

/-- What was consumed ends a sequence of messages. -/
theorem messageEnd_scanPostgresAuthentication (data : Bytes) :
    MessageEnd data (scanPostgresAuthentication data).2 := by
  have goesOn
      {rounds cursor : Nat}
      (isEnd : MessageEnd data cursor) :
      MessageEnd data
        (scanFrom postgresAuthenticationFrame data rounds cursor).2 := by
    induction rounds generalizing cursor with
    | zero =>
        exact isEnd
    | succ rounds inductionHypothesis =>
        rw [scanFrom_succ]
        cases read : postgresAuthenticationFrame data cursor with
        | none => exact isEnd
        | some found =>
            obtain ⟨frame, isFrame, same⟩ := Option.map_eq_some_iff.mp read
            cases same
            exact inductionHypothesis (isEnd.next isFrame)
  exact goesOn .start

theorem postgresAuthenticationFrame_advances :
    Advances postgresAuthenticationFrame := by
  intro data cursor records next read
  obtain ⟨frame, isFrame, same⟩ := Option.map_eq_some_iff.mp read
  cases same
  by_cases replied :
      true = true ∧ cursor = 0 ∧ refusedNegotiation data = true
  · obtain ⟨-, rfl, refused⟩ := replied
    rw [pgFrame_of_refused refused] at isFrame
    cases isFrame
    simp only [refusedNegotiation, Bool.and_eq_true, decide_eq_true_eq]
      at refused
    simp only
    omega
  · rw [pgFrame_eq_plain replied] at isFrame
    exact pgPlainFrame_bounds isFrame

/-- The scan passes every message end. -/
theorem scan_from_messageEnd
    {data : Bytes}
    {position : Nat}
    (isEnd : MessageEnd data position) :
    position ≤ data.length ∧
      (scanFrom postgresAuthenticationFrame data data.length position).2 =
        (scanPostgresAuthentication data).2 := by
  induction isEnd with
  | start =>
      exact ⟨Nat.zero_le _, rfl⟩
  | @next cursor frame before read inductionHypothesis =>
      have isFrame :
          postgresAuthenticationFrame data cursor =
            some (authenticationRecords cursor frame, frame.stop) := by
        unfold postgresAuthenticationFrame
        rw [read]
        rfl
      have moves :=
        postgresAuthenticationFrame_advances _ _ _ _ isFrame
      have enough :=
        postgresAuthenticationFrame_advances.scanFrom_rounds
          (show data.length - cursor ≤ data.length by omega)
          (show data.length - cursor ≤ data.length + 1 by omega)
      have step := inductionHypothesis.2
      rw [enough] at step
      rw [scanFrom_succ, isFrame] at step
      exact ⟨moves.2, step⟩

/-- A reply right behind a message end is where the scan stops. -/
theorem consumed_eq_of_refused
    {first more : Bytes}
    {position : Nat}
    (positive : 0 < position)
    (isEnd : MessageEnd first position)
    (refused :
      refusedNegotiation ((first ++ more).drop position) = true) :
    (scanPostgresAuthentication first).2 = position := by
  obtain ⟨inside, passes⟩ := scan_from_messageEnd isEnd
  have noFrame : postgresAuthenticationFrame first position = none := by
    unfold postgresAuthenticationFrame
    rw [pgFrame_eq_plain (by omega), pgPlainFrame_behind inside refused]
    rfl
  rw [← passes]
  cases first.length with
  | zero => rfl
  | succ rounds =>
      rw [scanFrom_succ, noFrame]

/-- A reply comes again exactly where the scan of the first part ends. -/
theorem negotiatesAgain_iff (first more : Bytes) :
    NegotiatesAgain first more ↔
      0 < (scanPostgresAuthentication first).2 ∧
        refusedNegotiation
          ((first ++ more).drop (scanPostgresAuthentication first).2) =
            true := by
  constructor
  · rintro ⟨position, positive, isEnd, refused⟩
    rw [consumed_eq_of_refused positive isEnd refused]
    exact ⟨positive, refused⟩
  · rintro ⟨positive, refused⟩
    exact ⟨_, positive, messageEnd_scanPostgresAuthentication first, refused⟩

/-- More data does not move the first plain message of consumed data. -/
theorem negotiatedBytes_append
    {first : Bytes}
    (more : Bytes)
    (positive : 0 < (scanPostgresAuthentication first).2) :
    negotiatedBytes (first ++ more) = negotiatedBytes first := by
  unfold negotiatedBytes
  cases refused : refusedNegotiation first with
  | true => rw [refusedNegotiation_append refused more]
  | false =>
      cases refusedLater : refusedNegotiation (first ++ more) with
      | false => rfl
      | true =>
          have noFrame :
              plainAuthenticationFrame first 0 = none := by
            unfold plainAuthenticationFrame
            rw [pgPlainFrame_of_refused refusedLater
              (List.prefix_append first more)]
            rfl
          have consumed := scanPostgresAuthentication_eq first
          unfold negotiatedBytes at consumed
          rw [refused] at consumed
          rw [consumed] at positive
          cases length : first.length with
          | zero => simp [length] at positive
          | succ rounds => simp [length, scanFrom_succ, noFrame] at positive

/-- The scan of the server side composes unless a reply comes again. -/
theorem scanPostgresAuthentication_composes_iff
    (first more : Bytes) :
    ComposesAt scanPostgresAuthentication CleartextRecord.shift first more ↔
      ¬ NegotiatesAgain first more := by
  have laws := plainAuthenticationFrame_laws
  rw [negotiatesAgain_iff]
  rcases Nat.eq_zero_or_pos (scanPostgresAuthentication first).2 with
    still | positive
  · have nothing : scanPostgresAuthentication first = ([], 0) :=
      postgresAuthenticationFrame_advances.scanFrom_still still
    simp [ComposesAt, appendFound, shiftFound, nothing,
      CleartextRecord.map_shift_zero]
  · have inside : negotiatedBytes first ≤ first.length := by
      unfold negotiatedBytes
      split
      · have nonempty : first ≠ [] := by
          rintro rfl
          simp [scanPostgresAuthentication] at positive
        exact List.length_pos_iff.mpr nonempty
      · exact Nat.zero_le _
    have whole := laws.scanFrom_resumed first more inside
    rw [← scanPostgresAuthentication_eq first,
      ← negotiatedBytes_append more positive,
      ← scanPostgresAuthentication_eq (first ++ more)] at whole
    simp only at whole
    generalize restIs :
      (first ++ more).drop (scanPostgresAuthentication first).2 = rest
        at whole
    cases refused : refusedNegotiation rest with
    | false =>
        have resumed := scanPostgresAuthentication_eq rest
        unfold negotiatedBytes at resumed
        simp only [refused, Bool.false_eq_true, ↓reduceIte] at resumed
        refine iff_of_true ?_ (by simp)
        unfold ComposesAt
        rw [restIs, resumed]
        exact whole
    | true =>
        refine iff_of_false ?_ (by simp [positive])
        intro composes
        unfold ComposesAt at composes
        rw [restIs, whole] at composes
        -- The scan of the stream stops where the resumed scan goes on.
        have stops :
            scanFrom plainAuthenticationFrame rest rest.length 0 =
              ([], 0) := by
          have noFrame : plainAuthenticationFrame rest 0 = none := by
            unfold plainAuthenticationFrame
            rw [pgPlainFrame_of_refused refused (List.prefix_refl rest)]
            rfl
          cases rest.length with
          | zero => rfl
          | succ rounds =>
              rw [scanFrom_succ, noFrame]
        have goesOn : 1 ≤ (scanPostgresAuthentication rest).2 := by
          have nonempty : 1 ≤ rest.length := by
            simp only [refusedNegotiation, Bool.and_eq_true,
              decide_eq_true_eq] at refused
            omega
          rw [scanPostgresAuthentication_eq rest]
          unfold negotiatedBytes
          rw [refused]
          exact (laws.advances.scanFrom_bounds nonempty).1
        have ends := congrArg Prod.snd composes
        simp only [appendFound, shiftFound, stops] at ends
        omega

/-! ## The method of a server stream -/

theorem methodAfter_append
    (first second : List CleartextRecord)
    (before : Option Nat) :
    methodAfter (first ++ second) before =
      methodAfter second (methodAfter first before) :=
  List.foldl_append

theorem methodAfter_shift
    (offset : Nat)
    (records : List CleartextRecord)
    (before : Option Nat) :
    methodAfter (records.map (CleartextRecord.shift offset)) before =
      methodAfter records before := by
  unfold methodAfter
  rw [List.foldl_map]
  rfl

/-- A walk leaves the method that its records ask for. -/
theorem postgresMethod_scanWindows
    {flow : FlowKey}
    {direction : Direction}
    {parser : CleartextParser}
    (chosen : CleartextParser.forDirection flow direction = some parser)
    {stream : Bytes}
    {windows : List StreamWindow}
    {state : CleartextState}
    (unblocked : state.blocked direction = false)
    (keeps : KeepsUnconsumed flow direction stream windows state) :
    let walked := scanWindows flow direction stream windows state
    walked.2.postgresMethod = methodAfter walked.1 state.postgresMethod := by
  induction windows generalizing state with
  | nil =>
      rfl
  | cons window later inductionHypothesis =>
      obtain ⟨holds, keepsLater⟩ := keeps
      have inWindow :
          window.base ≤ (state.cursors direction).getD window.base := by
        cases isCursor : state.cursors direction with
        | none => exact le_refl _
        | some cursor => exact holds cursor isCursor
      obtain ⟨records, -, nextUnblocked, nextMethod⟩ :=
        scanCleartext_window chosen unblocked rfl inWindow stream
      have onward := inductionHypothesis nextUnblocked keepsLater
      rw [nextMethod] at onward
      simp only [scanWindows, records, methodAfter_append, methodAfter_shift]
      exact onward

/--
The server scan composes exactly where no reply `N` comes again right behind
complete messages; a walk whose windows are cut nowhere else finds the requests
and leaves the method of one scan of the stream.
-/
theorem server_scanner_composes
    (first more : Bytes)
    (flow : FlowKey)
    (direction : Direction)
    (stream : Bytes)
    (window : StreamWindow)
    (later : List StreamWindow)
    (state : CleartextState) :
    (ComposesAt scanPostgresAuthentication CleartextRecord.shift first more ↔
        ¬ NegotiatesAgain first more) ∧
      (CleartextParser.forDirection flow direction =
          some .postgresAuthentication →
        state.Fresh direction →
        window.base ≤ window.stop →
        ((window :: later).map StreamWindow.stop).IsChain
          (fun middle stop =>
            middle ≤ stop ∧
              ¬ NegotiatesAgain (stream.extract window.base middle)
                (stream.extract middle stop)) →
        KeepsUnconsumed flow direction stream (window :: later) state →
        let walked := scanWindows flow direction stream (window :: later) state
        let last := (later.map StreamWindow.stop).getLastD window.stop
        let whole := scanPostgresAuthentication (stream.extract window.base last)
        walked.1 = whole.1.map (CleartextRecord.shift window.base) ∧
          walked.2.postgresMethod =
            methodAfter whole.1 state.postgresMethod) := by
  refine ⟨scanPostgresAuthentication_composes_iff first more, ?_⟩
  intro chosen fresh notBefore cuts keeps
  have resumes :
      List.IsChain
        (Resumes scanPostgresAuthentication CleartextRecord.shift stream
          window.base)
        (window.stop :: later.map StreamWindow.stop) := by
    apply List.IsChain.imp _ cuts
    rintro middle stop ⟨before, noReply⟩
    exact ⟨before,
      (scanPostgresAuthentication_composes_iff _ _).mpr noReply⟩
  have walk := scanWindows_of_resumes chosen fresh keeps resumes notBefore
  have method := postgresMethod_scanWindows chosen fresh.unblocked keeps
  refine ⟨walk.1, ?_⟩
  rw [method, walk.1, methodAfter_shift]
  rfl

/-- `ReadyForQuery`, then the byte `N` and a request for a cleartext password. -/
def lateReply : Bytes × Bytes :=
  ([90, 0, 0, 0, 5, 73], [78, 82, 0, 0, 0, 8, 0, 0, 0, 3])

/-- Cut behind the first message, the stream asks for a password; whole, not. -/
theorem lateReply_not_composed :
    let flow : FlowKey := ⟨6, ⟨"10.0.0.1", 1234⟩, ⟨"10.0.0.2", 5432⟩, "eth0", []⟩
    let stream := lateReply.1 ++ lateReply.2
    ¬ ComposesAt scanPostgresAuthentication CleartextRecord.shift lateReply.1
        lateReply.2 ∧
      (scanWindows flow .bToA stream [⟨0, 6⟩, ⟨0, 16⟩] {}).2.postgresMethod =
        some 3 ∧
      (scanWindows flow .bToA stream [⟨0, 16⟩] {}).2.postgresMethod = none := by
  intro flow stream
  refine ⟨?_, ?_, ?_⟩
  · unfold ComposesAt
    decide +kernel
  · decide +kernel
  · decide +kernel

end PacketAudit
