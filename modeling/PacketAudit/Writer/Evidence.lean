import PacketAudit.Dashboard.Delivery
import PacketAudit.Json.Exact
import PacketAudit.Json.WrittenLines
import PacketAudit.Library.PlacedLines
import PacketAudit.Writer.Runs

namespace PacketAudit

/-!
# From the writer to the dashboard

The dashboard reads, while it grows, the file that the writer writes.  What it
shows of a finding is what was written, and it shows each finding once.
-/

open Library

/-! ## The decoder of the dashboard -/

/-- `_finite_float` and `_reject_nonfinite`. -/
def dashboardHooks (python : PythonLibrary) : JsonHooks where
  parseFloat token :=
    let text := python.floatText token
    if text ∈ [asciiText "inf", asciiText "-inf", asciiText "nan"] then none
    else some text
  parseConstant _ := none

/-- `json.loads` on a line in `read_page`, cut down to objects. -/
def loadsRecord
    (python : PythonLibrary)
    (line : Bytes) : Option (List (Text × PyValue)) :=
  match loadsValue python (dashboardHooks python) line with
  | some (.dict members) => some members
  | _ => none

/-- A record with a line break, bytes and a list in it. -/
def mixedRecord : PyValue :=
  .dict [(asciiText "line", .str [34, 10, 8364]),
    (asciiText "raw", .bytes [0, 255]), (asciiText "ids", .list [.int (-12)])]

/-- A lone surrogate, which a JSON body may spell, cannot be written. -/
example : writeJsonLine (.str [0xD800]) = none := by
  decide

/-! ## Records of the evidence file -/

/-- A record that can be written. -/
structure EvidenceRecord (python : PythonLibrary) where
  members : List (Text × PyValue)
  faithful : (PyValue.dict members).Faithful (dashboardHooks python)
  writable : (PyValue.dict members).Writable

namespace EvidenceRecord

variable {python : PythonLibrary}

/-- The line that is written for the record. -/
def line (record : EvidenceRecord python) : Bytes :=
  (writeJsonLine (.dict record.members)).get
    ((writeJsonLine_isSome _).mpr record.writable)

/-- What the dashboard shows of the record, unless it skips it. -/
def shown (record : EvidenceRecord python) : Option (List (Text × PyValue)) :=
  if record.line.length ≤ maxReadBytes ∧
      (jsonSafe (.dict record.members)).depth ≤ maxJsonDepth then
    some (jsonSafeMembers record.members)
  else
    none

theorem exists_body (record : EvidenceRecord python) :
    ∃ body,
      IsLine newlineByte body record.line ∧
        LineOf python (dashboardHooks python) (.dict record.members) body := by
  obtain ⟨body, isLine, isLineOf⟩ :=
    lineOf_writeJsonLine python record.faithful (Option.some_get _).symm
  exact ⟨body, ⟨isLine, isLineOf.oneLine⟩, isLineOf⟩

/-- Where a record is written the dashboard finds just this record. -/
theorem deliveredRecord_placed
    {records : List (EvidenceRecord python)}
    {position : Nat}
    {record : EvidenceRecord python}
    (member : (position, record) ∈ placeLines line 0 records) :
    deliveredRecord (loadsRecord python) (records.flatMap line) position =
      record.shown := by
  obtain ⟨body, isLine, isLineOf⟩ := record.exists_body
  obtain ⟨ends, isBody⟩ := lineEnd_placed member isLine
  have length : record.line.length = body.length + 1 := by
    rw [isLine.shape, List.length_append, List.length_singleton]
  have taken : position + body.length + 1 - position = record.line.length := by
    omega
  have loaded :
      lineRecord (loadsRecord python) body =
        if (jsonSafe (.dict record.members)).depth ≤ maxJsonDepth then
          some (jsonSafeMembers record.members)
        else none := by
    rw [lineRecord, isLineOf.depth, loadsRecord, isLineOf.loads]
    by_cases flat :
        (jsonSafe (.dict record.members)).depth ≤ maxJsonDepth
    · rw [if_pos (decide_eq_true flat), if_pos flat]
      rfl
    · rw [if_neg flat, decide_eq_false flat]
      rfl
  rw [deliveredRecord, ends]
  simp only
  rw [isBody, taken, loaded, shown]
  by_cases fits : record.line.length ≤ maxReadBytes
  · rw [if_pos fits]
    simp only [fits, true_and]
  · rw [if_neg fits, if_neg fun both => fits both.1]

end EvidenceRecord

/-! ## Delivery -/

section Delivery

variable {python : PythonLibrary}
variable {records : List (EvidenceRecord python)}

/-- The records whose lines start between two positions of the file. -/
def recordsBetween
    (records : List (EvidenceRecord python))
    (first last : Nat) : List (EvidenceRecord python) :=
  ((placeLines EvidenceRecord.line 0 records).filter fun placed =>
    decide (first ≤ placed.1 ∧ placed.1 < last)).map Prod.snd

/-- Pages of the file of these records account for the records themselves. -/
theorem PageAccounts.shown
    {first last skipped : Nat}
    {shown : List (List (Text × PyValue))}
    (accounts :
      PageAccounts (loadsRecord python) (records.flatMap EvidenceRecord.line)
        first last shown skipped)
    (notBefore : first ≤ last)
    (inside : last ≤ (records.flatMap EvidenceRecord.line).length) :
    shown =
        (recordsBetween records first last).filterMap EvidenceRecord.shown ∧
      skipped =
        (recordsBetween records first last).countP fun record =>
          record.shown.isNone := by
  have starts :=
    lineStarts_placed
      (fun record _ => record.exists_body.imp fun _ both => both.1)
      notBefore inside
  have delivered
      {placed : Nat × EvidenceRecord python}
      (member :
        placed ∈ (placeLines EvidenceRecord.line 0 records).filter
          fun placed => decide (first ≤ placed.1 ∧ placed.1 < last)) :
      deliveredRecord (loadsRecord python)
          (records.flatMap EvidenceRecord.line) placed.1 =
        placed.2.shown :=
    EvidenceRecord.deliveredRecord_placed (List.mem_of_mem_filter member)
  constructor
  · rw [accounts.records, starts, recordsBetween, List.filterMap_map,
      List.filterMap_map]
    exact List.filterMap_congr fun placed member => delivered member
  · rw [accounts.skipped, starts, recordsBetween, List.countP_map,
      List.countP_map]
    refine List.countP_congr fun placed member => ?_
    simp only [Function.comp_apply]
    rw [delivered member]

namespace Writer

variable {ρ : Type}
variable {puts : List (Put (EvidenceRecord python) ρ)}
variable {system : System (EvidenceRecord python) ρ}

/--
While the writer fills a new file, and whatever else goes on, the pages that
the dashboard reads behind its first one show every finding whose line starts
between their cursors: once, in the order in which the findings were put, and
with what was written of it.  They skip just the lines that are too long or
nest too deep.
-/
theorem written_findings_shown_once
    (steps :
      Steps (System.Step EvidenceRecord.line) (System.start []) puts system)
    {identity : Nat × Nat}
    {file : EvidenceFile}
    {limit : Int}
    {later : List (EvidenceFile × Int)}
    (grows : GrowsAlong identity [] ((file, limit) :: later))
    (isWritten :
      finalContent file.content later <+: system.process.findingsFile) :
    ∃ found page pages start stop,
      found <+: findingsOf (puts.filterMap Put.finding?) ∧
        system.process.findingsFile = found.flatMap EvidenceRecord.line ∧
        readPages (loadsRecord python) ((file, limit) :: later) none =
          .ok (page :: pages, some stop) ∧
        page.cursor = some start ∧ start.offset ≤ stop.offset ∧
        stop.offset ≤ (finalContent file.content later).length ∧
        pages.flatMap Page.records =
          (recordsBetween found start.offset stop.offset).filterMap
            EvidenceRecord.shown ∧
        (pages.map Page.skipped).sum =
          (recordsBetween found start.offset stop.offset).countP fun record =>
            record.shown.isNone := by
  obtain ⟨findings, operations, lines, received, -, reports, -, -⟩ :=
    accounted_of_steps steps
  have isFile :
      system.process.findingsFile =
        (findingsOf findings).flatMap EvidenceRecord.line :=
    reports.findingsFile
  obtain ⟨page, pages, start, stop, arePages, isStart, forward, inside,
    accounts⟩ := @readPages_account _ (loadsRecord python) _ _ _ _ grows
  obtain ⟨more, grown⟩ := isWritten
  have whole := accounts.grow inside more
  have bound :
      stop.offset ≤
        ((findingsOf findings).flatMap EvidenceRecord.line).length := by
    rw [← isFile, ← grown, List.length_append]
    omega
  rw [grown, isFile] at whole
  obtain ⟨shown, skipped⟩ := whole.shown forward bound
  exact ⟨findingsOf findings, page, pages, start, stop,
    received.isPrefix.filterMap _, isFile, arePages, isStart, forward, inside,
    shown, skipped⟩

end Writer

end Delivery

/-! ## A new file -/

/-- A record that only names something. -/
def namedRecord (name : String) : EvidenceRecord plainFloats where
  members := [(asciiText "name", .str (asciiText name))]
  faithful := ⟨List.nodup_singleton _, trivial, trivial⟩
  writable := ⟨allChars_asciiText _, allChars_asciiText _, trivial⟩

namespace Writer

/-- Two findings are put; the writer gets both. -/
def namedMoves : List (Move (EvidenceRecord plainFloats) Nat) :=
  [.put (.finding (.finding (namedRecord "one"))), .get, .pass, .goOn false,
    .put (.finding (.finding (namedRecord "two"))), .get]

/-- What is put. -/
def namedPuts : List (Put (EvidenceRecord plainFloats) Nat) :=
  [.finding (.finding (namedRecord "one")),
    .finding (.finding (namedRecord "two"))]

/-- The system when both findings are written. -/
def namedSystem : System (EvidenceRecord plainFloats) Nat where
  findingQueue := []
  operationQueue := []
  process := {
    phase := .operations drainRounds
    findingsStopped := false
    operationsStopped := false
    findingsWritten := 2
    operationsWritten := 1
    digested := (namedRecord "one").line ++ (namedRecord "two").line
    findingsFile := (namedRecord "one").line ++ (namedRecord "two").line
    operationsFile := [.started]
    controls := [.ready 0 1]
  }

/-- The dashboard reads again when the second finding is written. -/
def namedRequests : List (EvidenceFile × Int) :=
  [(evidenceOf ((namedRecord "one").line ++ (namedRecord "two").line), 1)]

theorem namedFindings_shown_once :
    ∃ found page pages start stop,
      found <+: findingsOf (namedPuts.filterMap Put.finding?) ∧
        namedSystem.process.findingsFile =
          found.flatMap EvidenceRecord.line ∧
        readPages (loadsRecord plainFloats)
            ((evidenceOf (namedRecord "one").line, 1) :: namedRequests) none =
          .ok (page :: pages, some stop) ∧
        page.cursor = some start ∧ start.offset ≤ stop.offset ∧
        stop.offset ≤
          (finalContent (namedRecord "one").line namedRequests).length ∧
        pages.flatMap Page.records =
          (recordsBetween found start.offset stop.offset).filterMap
            EvidenceRecord.shown ∧
        (pages.map Page.skipped).sum =
          (recordsBetween found start.offset stop.offset).countP fun record =>
            record.shown.isNone :=
  @written_findings_shown_once plainFloats Nat namedPuts namedSystem
    (System.steps_of_run
      (rfl :
        System.run? EvidenceRecord.line namedMoves (System.start []) =
          some ⟨namedSystem, namedPuts⟩))
    (1, 2) (evidenceOf (namedRecord "one").line) 1 namedRequests
    ⟨grows_evidenceOf [] (namedRecord "one").line,
      grows_evidenceOf (namedRecord "one").line (namedRecord "two").line,
      trivial⟩
    (List.prefix_refl _)

end Writer

end PacketAudit
