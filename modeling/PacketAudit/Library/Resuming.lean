import PacketAudit.Library.Incremental

namespace PacketAudit.Library

/-!
# Scanning a stream with a cursor

A scan steps over complete frames and returns their records and the end of the
last one.  A frame reader that looks only ahead of its cursor, and that no
further data changes once it found a frame, can be resumed behind what a scan
consumed: `FrameLaws.composes`.  `resumeAll` is the walk of a cursor over
successive windows of a stream.
-/

variable {α ρ : Type}

/-- The records of the frames from a cursor on, and the end of the last one. -/
def scanFrom
    (frame : List α → Nat → Option (List ρ × Nat))
    (data : List α) :
    (rounds cursor : Nat) → List ρ × Nat
  | 0, cursor => ([], cursor)
  | rounds + 1, cursor =>
      match frame data cursor with
      | none => ([], cursor)
      | some (records, next) =>
          let rest := scanFrom frame data rounds next
          (records ++ rest.1, rest.2)

@[simp] theorem scanFrom_zero
    (frame : List α → Nat → Option (List ρ × Nat))
    (data : List α)
    (cursor : Nat) :
    scanFrom frame data 0 cursor = ([], cursor) := rfl

theorem scanFrom_succ
    (frame : List α → Nat → Option (List ρ × Nat))
    (data : List α)
    (rounds cursor : Nat) :
    scanFrom frame data (rounds + 1) cursor =
      match frame data cursor with
      | none => ([], cursor)
      | some (records, next) =>
          (records ++ (scanFrom frame data rounds next).1,
            (scanFrom frame data rounds next).2) := rfl

/-- What was found, moved by an offset. -/
def shiftFound
    (shift : Nat → ρ → ρ)
    (offset : Nat)
    (found : List ρ × Nat) : List ρ × Nat :=
  (found.1.map (shift offset), offset + found.2)

/-- Go on with what was found behind what was found before. -/
def appendFound
    (shift : Nat → ρ → ρ)
    (first rest : List ρ × Nat) : List ρ × Nat :=
  (first.1 ++ (shiftFound shift first.2 rest).1,
    (shiftFound shift first.2 rest).2)

/-- Scanning more is the same as resuming behind what was consumed. -/
def ComposesAt
    (scan : List α → List ρ × Nat)
    (shift : Nat → ρ → ρ)
    (first more : List α) : Prop :=
  scan (first ++ more) =
    appendFound shift (scan first)
      (scan ((first ++ more).drop (scan first).2))

/-- Every frame takes an element and ends inside the data. -/
def Advances (frame : List α → Nat → Option (List ρ × Nat)) : Prop :=
  ∀ data cursor records next,
    frame data cursor = some (records, next) →
    cursor < next ∧ next ≤ data.length

/-- A frame reader looks only ahead and is not changed by further data. -/
structure FrameLaws
    (shift : Nat → ρ → ρ)
    (frame : List α → Nat → Option (List ρ × Nat)) : Prop where
  advances : Advances frame
  extend :
    ∀ {data cursor found} more,
      frame data cursor = some found →
      frame (data ++ more) cursor = some found
  ahead :
    ∀ front rest cursor,
      frame (front ++ rest) (front.length + cursor) =
        (frame rest cursor).map (shiftFound shift front.length)

section Scans

variable
  {shift : Nat → ρ → ρ}
  {frame : List α → Nat → Option (List ρ × Nat)}

/-- Every record of a scan is a record of one of its frames. -/
theorem mem_scanFrom
    {data : List α}
    {rounds cursor : Nat}
    {record : ρ}
    (member : record ∈ (scanFrom frame data rounds cursor).1) :
    ∃ position records next,
      frame data position = some (records, next) ∧ record ∈ records := by
  induction rounds generalizing cursor with
  | zero =>
      cases member
  | succ rounds inductionHypothesis =>
      rw [scanFrom_succ] at member
      cases read : frame data cursor with
      | none => simp [read] at member
      | some found =>
          simp only [read, List.mem_append] at member
          rcases member with inFrame | inRest
          · exact ⟨cursor, found.1, found.2, read, inFrame⟩
          · exact inductionHypothesis inRest

/-- A scan ends inside its data, not before its start. -/
theorem Advances.scanFrom_bounds
    (advances : Advances frame)
    {data : List α}
    {rounds cursor : Nat}
    (inside : cursor ≤ data.length) :
    cursor ≤ (scanFrom frame data rounds cursor).2 ∧
      (scanFrom frame data rounds cursor).2 ≤ data.length := by
  induction rounds generalizing cursor with
  | zero =>
      exact ⟨le_refl _, inside⟩
  | succ rounds inductionHypothesis =>
      rw [scanFrom_succ]
      cases read : frame data cursor with
      | none => exact ⟨le_refl _, inside⟩
      | some found =>
          have moves := advances _ _ _ _ read
          have later := inductionHypothesis moves.2
          exact ⟨by simp only; omega, later.2⟩

/-- Every frame takes an element, so that further rounds find nothing. -/
theorem Advances.scanFrom_rounds
    (advances : Advances frame)
    {data : List α}
    {rounds others cursor : Nat}
    (enough : data.length - cursor ≤ rounds)
    (otherEnough : data.length - cursor ≤ others) :
    scanFrom frame data rounds cursor =
      scanFrom frame data others cursor := by
  have spent
      {cursor others : Nat}
      (none : data.length - cursor ≤ 0) :
      scanFrom frame data others cursor = ([], cursor) := by
    cases others with
    | zero => rfl
    | succ others =>
        rw [scanFrom_succ]
        cases read : frame data cursor with
        | none => rfl
        | some found =>
            have moves := advances _ _ _ _ read
            omega
  induction rounds generalizing others cursor with
  | zero =>
      rw [spent enough, spent enough]
  | succ rounds inductionHypothesis =>
      cases others with
      | zero => rw [spent otherEnough, spent otherEnough]
      | succ others =>
          rw [scanFrom_succ, scanFrom_succ]
          cases read : frame data cursor with
          | none => rfl
          | some found =>
              have moves := advances _ _ _ _ read
              have sameRest :
                  scanFrom frame data rounds found.2 =
                    scanFrom frame data others found.2 :=
                inductionHypothesis (by omega) (by omega)
              simp only [sameRest]

/-- A scan that did not move found nothing. -/
theorem Advances.scanFrom_still
    (advances : Advances frame)
    {data : List α}
    {rounds cursor : Nat}
    (still : (scanFrom frame data rounds cursor).2 = cursor) :
    scanFrom frame data rounds cursor = ([], cursor) := by
  cases rounds with
  | zero => rfl
  | succ rounds =>
      rw [scanFrom_succ] at still ⊢
      cases read : frame data cursor with
      | none => rfl
      | some found =>
          have moves := advances _ _ _ _ read
          have later :
              found.2 ≤ (scanFrom frame data rounds found.2).2 :=
            (advances.scanFrom_bounds moves.2).1
          simp only [read] at still
          omega

/-- A scan behind a front is a scan of the rest. -/
theorem FrameLaws.scanFrom_front
    (laws : FrameLaws shift frame)
    (front rest : List α)
    (rounds cursor : Nat) :
    scanFrom frame (front ++ rest) rounds (front.length + cursor) =
      shiftFound shift front.length
        (scanFrom frame rest rounds cursor) := by
  induction rounds generalizing cursor with
  | zero =>
      rfl
  | succ rounds inductionHypothesis =>
      rw [scanFrom_succ, scanFrom_succ, laws.ahead]
      cases read : frame rest cursor with
      | none => rfl
      | some found =>
          simp only [Option.map_some, shiftFound]
          rw [inductionHypothesis]
          simp [shiftFound]

/-- With more data a scan goes on behind what it found before. -/
theorem FrameLaws.scanFrom_append
    (laws : FrameLaws shift frame)
    (first more : List α)
    {rounds cursor later : Nat}
    (enough : first.length - cursor ≤ rounds)
    (laterEnough : (first ++ more).length - cursor ≤ later) :
    let found := scanFrom frame first rounds cursor
    let rest := scanFrom frame (first ++ more) later found.2
    scanFrom frame (first ++ more) later cursor =
      (found.1 ++ rest.1, rest.2) := by
  induction rounds generalizing cursor with
  | zero =>
      rfl
  | succ rounds inductionHypothesis =>
      cases read : frame first cursor with
      | none => simp [scanFrom_succ, read]
      | some found =>
          obtain ⟨records, next⟩ := found
          have moves := laws.advances _ _ _ _ read
          have longer : first.length ≤ (first ++ more).length := by simp
          obtain ⟨fewer, rfl⟩ : ∃ fewer, later = fewer + 1 :=
            ⟨later - 1, by omega⟩
          have sameStep :
              scanFrom frame (first ++ more) (fewer + 1) cursor =
                (records ++
                    (scanFrom frame (first ++ more) (fewer + 1) next).1,
                  (scanFrom frame (first ++ more) (fewer + 1) next).2) := by
            rw [laws.advances.scanFrom_rounds
              (show (first ++ more).length - next ≤ fewer + 1 by omega)
              (show (first ++ more).length - next ≤ fewer by omega)]
            rw [scanFrom_succ, laws.extend more read]
          have onward :=
            inductionHypothesis
              (show first.length - next ≤ rounds by omega)
              (show (first ++ more).length - next ≤ fewer + 1 by omega)
          simp only at onward
          rw [sameStep, onward]
          simp [scanFrom_succ, read]

/-- A scan of more data goes on with a scan of what was not consumed. -/
theorem FrameLaws.scanFrom_resumed
    (laws : FrameLaws shift frame)
    (first more : List α)
    {cursor : Nat}
    (inside : cursor ≤ first.length) :
    let found := scanFrom frame first first.length cursor
    let rest := (first ++ more).drop found.2
    scanFrom frame (first ++ more) (first ++ more).length cursor =
      appendFound shift found (scanFrom frame rest rest.length 0) := by
  intro found rest
  have bounds : found.2 ≤ first.length :=
    (laws.advances.scanFrom_bounds inside).2
  have whole :=
    laws.scanFrom_append first more
      (show first.length - cursor ≤ first.length by omega)
      (show (first ++ more).length - cursor ≤ (first ++ more).length by omega)
  have shape : (first ++ more).take found.2 ++ rest = first ++ more :=
    List.take_append_drop _ _
  have frontLength : ((first ++ more).take found.2).length = found.2 := by
    simp only [List.length_take, List.length_append]
    omega
  have resumed :=
    laws.scanFrom_front ((first ++ more).take found.2) rest
      (first ++ more).length 0
  rw [shape, frontLength, Nat.add_zero] at resumed
  have fewerRounds :
      scanFrom frame rest (first ++ more).length 0 =
        scanFrom frame rest rest.length 0 := by
    apply laws.advances.scanFrom_rounds
    · simp only [rest, List.length_drop]
      omega
    · omega
  rw [fewerRounds] at resumed
  rw [whole, resumed]
  rfl

/-- A scan can be resumed behind what it consumed. -/
theorem FrameLaws.composes
    (laws : FrameLaws shift frame)
    (first more : List α) :
    ComposesAt (fun data => scanFrom frame data data.length 0) shift first
      more :=
  laws.scanFrom_resumed first more (Nat.zero_le _)

/-- The records of items that stand one after another from a position on. -/
def recordsFrom
    {β : Type}
    (encode : β → List α)
    (records : Nat → β → List ρ) :
    (start : Nat) → List β → List ρ
  | _, [] => []
  | start, item :: rest =>
      records start item ++
        recordsFrom encode records (start + (encode item).length) rest

/--
Where the reader reads some items whole and stops at the others, a scan reads a
sequence of items whole exactly when it has none of the others.
-/
theorem FrameLaws.scanFrom_encoded_iff
    (laws : FrameLaws shift frame)
    {β : Type}
    {encode : β → List α}
    {records : Nat → β → List ρ}
    {Readable : β → Prop}
    (nonempty : ∀ item, 0 < (encode item).length)
    (placed :
      ∀ offset item,
        (records 0 item).map (shift offset) = records offset item)
    (reads :
      ∀ item,
        Readable item →
        frame (encode item) 0 = some (records 0 item, (encode item).length))
    (stops :
      ∀ item rest,
        ¬ Readable item →
        frame (encode item ++ rest) 0 = none)
    {items : List β}
    (front : List α)
    {rounds : Nat}
    (enough : items.length ≤ rounds) :
    scanFrom frame (front ++ items.flatMap encode) rounds front.length =
        (recordsFrom encode records front.length items,
          (front ++ items.flatMap encode).length) ↔
      ∀ item ∈ items, Readable item := by
  induction items generalizing front rounds with
  | nil =>
      have nothing : frame (front ++ []) front.length = none := by
        cases read : frame (front ++ []) front.length with
        | none => rfl
        | some found =>
            have moves := laws.advances _ _ _ _ read
            simp only [List.append_nil] at moves
            omega
      cases rounds with
      | zero => simp [recordsFrom]
      | succ rounds =>
          simp only [List.flatMap_nil, scanFrom_succ, nothing]
          simp [recordsFrom]
  | cons item rest inductionHypothesis =>
      obtain ⟨rounds, rfl⟩ : ∃ later, rounds = later + 1 :=
        ⟨rounds - 1, by simp at enough; omega⟩
      have here :=
        laws.ahead front (encode item ++ rest.flatMap encode) 0
      rw [Nat.add_zero] at here
      rw [List.flatMap_cons, scanFrom_succ, here]
      by_cases readable : Readable item
      · have later :=
          inductionHypothesis (front ++ encode item)
            (by simpa using enough)
        rw [List.append_assoc, List.length_append] at later
        rw [laws.extend _ (reads item readable)]
        simp only [Option.map_some, shiftFound, placed, recordsFrom,
          List.forall_mem_cons, readable, true_and, ← later,
          List.append_cancel_left_eq, Prod.ext_iff]
      · have positive := nonempty item
        rw [stops item _ readable]
        constructor
        · intro same
          have sameEnd := congrArg Prod.snd same
          simp only [Option.map_none, List.length_append] at sameEnd
          omega
        · intro all
          exact absurd (all item List.mem_cons_self) readable

end Scans

/-! ## Walking over a stream -/

/-- The records a cursor finds in windows of a stream, and where it ends. -/
def resumeAll
    (scan : List α → List ρ × Nat)
    (shift : Nat → ρ → ρ)
    (stream : List α) :
    (ends : List Nat) → (cursor : Nat) → List ρ × Nat
  | [], cursor => ([], cursor)
  | stop :: later, cursor =>
      let found := scan (stream.extract cursor stop)
      let rest := resumeAll scan shift stream later (cursor + found.2)
      (found.1.map (shift cursor) ++ rest.1, rest.2)

theorem drop_extract
    (stream : List α)
    (start stop count : Nat) :
    (stream.extract start stop).drop count =
      stream.extract (start + count) stop := by
  simp only [List.extract_eq_take_drop, List.drop_take, List.drop_drop]
  congr 1
  omega

/-- A window may be added to what a scan of a part of the stream found. -/
def Resumes
    (scan : List α → List ρ × Nat)
    (shift : Nat → ρ → ρ)
    (stream : List α)
    (start middle stop : Nat) : Prop :=
  middle ≤ stop ∧
    ComposesAt scan shift (stream.extract start middle)
      (stream.extract middle stop)

/--
Where every window resumes the scan of the part before it, the cursor finds
what one scan of all of it finds.
-/
theorem resumeAll_of_resumes
    {scan : List α → List ρ × Nat}
    {shift : Nat → ρ → ρ}
    (shift_shift :
      ∀ outer inner record,
        shift outer (shift inner record) = shift (outer + inner) record)
    {stream : List α}
    {start middle : Nat}
    (notBefore : start ≤ middle)
    {ends : List Nat}
    (resumes :
      List.IsChain (Resumes scan shift stream start) (middle :: ends)) :
    let found := scan (stream.extract start middle)
    let rest := resumeAll scan shift stream ends (start + found.2)
    let whole := scan (stream.extract start (ends.getLastD middle))
    (found.1.map (shift start) ++ rest.1, rest.2) =
      shiftFound shift start whole := by
  induction ends generalizing middle with
  | nil =>
      simp [resumeAll, shiftFound]
  | cons stop later inductionHypothesis =>
      obtain ⟨⟨before, composes⟩, chain⟩ := List.isChain_cons_cons.mp resumes
      have onward := inductionHypothesis (notBefore.trans before) chain
      unfold ComposesAt at composes
      rw [extract_append_extract stream notBefore before, drop_extract]
        at composes
      simp only [composes, appendFound, shiftFound, List.map_append,
        List.map_map] at onward
      have shifts
          (offset : Nat) :
          shift start ∘ shift offset = shift (start + offset) := by
        funext record
        exact shift_shift start offset record
      rw [shifts, ← Nat.add_assoc] at onward
      simp only [resumeAll, List.getLastD_cons]
      rw [← List.append_assoc]
      exact onward

end PacketAudit.Library
