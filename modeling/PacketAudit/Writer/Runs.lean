import PacketAudit.Library.Sentinel
import PacketAudit.Writer.Process

namespace PacketAudit.Writer

/-!
# What the writer has written

In every state of every run the files hold what was received so far, in the
order in which it was put, each item once; at the end that is all that was put
in front of the stop items.
-/

open Library

variable {φ ρ : Type}

/-! ## Steps -/

/-- What a step does, by the place in the loop at which it is taken. -/
inductive Stepped
    (lineOf : φ → Bytes)
    (system : System φ ρ) :
    Move φ ρ → List (Put φ ρ) → System φ ρ → Prop where
  | put (item : Put φ ρ) :
      Stepped lineOf system (.put item) [item] (system.put item)
  | getFinding
      (item : FindingItem φ)
      (rest : List (FindingItem φ))
      (phase : system.process.phase = .findings)
      (wanted : system.process.findingsStopped = false)
      (queue : system.findingQueue = item :: rest) :
      Stepped lineOf system .get [] {
        system with
        findingQueue := rest
        process :=
          { system.process.receiveFinding lineOf item with
            phase := .operations drainRounds } }
  | getOperation
      (left : Nat)
      (item : OperationItem ρ)
      (rest : List (OperationItem ρ))
      (phase : system.process.phase = .operations (left + 1))
      (wanted : system.process.operationsStopped = false)
      (queue : system.operationQueue = item :: rest) :
      Stepped lineOf system .get [] {
        system with
        operationQueue := rest
        process := system.process.receiveOperation left item }
  | passFindings
      (phase : system.process.phase = .findings) :
      Stepped lineOf system .pass [] {
        system with
        process := { system.process with phase := .operations drainRounds } }
  | passOperations
      (left : Nat)
      (phase : system.process.phase = .operations left) :
      Stepped lineOf system .pass [] {
        system with
        process := { system.process with phase := .heartbeat } }
  | goOn
      (due : Bool)
      (phase : system.process.phase = .heartbeat) :
      Stepped lineOf system (.goOn due) [] {
        system with
        process := (system.process.beat due).finishRound }

theorem stepped
    {lineOf : φ → Bytes}
    {system next : System φ ρ}
    {move : Move φ ρ}
    {puts : List (Put φ ρ)}
    (step : system.step? lineOf move = some ⟨next, puts⟩) :
    Stepped lineOf system move puts next := by
  cases move with
  | put item =>
      obtain ⟨rfl, rfl⟩ := Outcome.mk.inj (Option.some.inj step)
      exact .put item
  | get =>
      obtain ⟨reached, gets, isStep⟩ := Option.map_eq_some_iff.mp step
      obtain ⟨rfl, rfl⟩ := Outcome.mk.inj isStep
      unfold System.get? at gets
      split at gets
      case h_1 phase =>
        split at gets
        case h_1 item rest wanted queue =>
          obtain rfl := Option.some.inj gets
          exact .getFinding item rest phase wanted queue
        case h_2 => cases gets
      case h_2 left phase =>
        split at gets
        case h_1 item rest wanted queue =>
          obtain rfl := Option.some.inj gets
          exact .getOperation left item rest phase wanted queue
        case h_2 => cases gets
      case h_3 => cases gets
  | pass =>
      obtain ⟨reached, passes, isStep⟩ := Option.map_eq_some_iff.mp step
      obtain ⟨rfl, rfl⟩ := Outcome.mk.inj isStep
      unfold System.pass? at passes
      split at passes
      case h_1 phase =>
        obtain rfl := Option.some.inj passes
        exact .passFindings phase
      case h_2 left phase =>
        obtain rfl := Option.some.inj passes
        exact .passOperations left phase
      case h_3 => cases passes
  | goOn due =>
      obtain ⟨reached, goes, isStep⟩ := Option.map_eq_some_iff.mp step
      obtain ⟨rfl, rfl⟩ := Outcome.mk.inj isStep
      unfold System.goOn? at goes
      split at goes
      case h_1 phase =>
        obtain rfl := Option.some.inj goes
        exact .goOn due phase
      case h_2 => cases goes

/-! ## What has been written -/

/-- The finding of an item. -/
def FindingItem.finding? : FindingItem φ → Option φ
  | .finding found => some found
  | _ => none

/-- The type of an item that is rejected. -/
def FindingItem.rejected? : FindingItem φ → Option String
  | .other typeName => some typeName
  | _ => none

/-- The record of an item. -/
def OperationItem.record? : OperationItem ρ → Option ρ
  | .record written => some written
  | .stop => none

/-- What was put into the finding queue. -/
def Put.finding? : Put φ ρ → Option (FindingItem φ)
  | .finding item => some item
  | .operation _ => none

/-- What was put into the operational queue. -/
def Put.operation? : Put φ ρ → Option (OperationItem ρ)
  | .operation item => some item
  | .finding _ => none

/-- The record a line of the operations file was written for. -/
def OperationLine.record? : OperationLine ρ → Option ρ
  | .record written => some written
  | _ => none

/-- The rejected item a line of the operations file was written for. -/
def OperationLine.rejected? : OperationLine ρ → Option String
  | .rejected typeName => some typeName
  | _ => none

/-- The findings among items. -/
def findingsOf (items : List (FindingItem φ)) : List φ :=
  items.filterMap FindingItem.finding?

/-- The lines of the findings among items. -/
def findingLines
    (lineOf : φ → Bytes)
    (items : List (FindingItem φ)) : Bytes :=
  (findingsOf items).flatMap lineOf

/-- The files and the counters of the process stand for these items. -/
structure Reports
    (lineOf : φ → Bytes)
    (before : Bytes)
    (findings : List (FindingItem φ))
    (operations : List (OperationItem ρ))
    (lines : List (OperationLine ρ))
    (process : Process ρ) : Prop where
  findingsFile :
    process.findingsFile = before ++ findingLines lineOf findings
  digested : process.digested = findingLines lineOf findings
  findingsWritten : process.findingsWritten = (findingsOf findings).length
  records :
    lines.filterMap OperationLine.record? =
      operations.filterMap OperationItem.record?
  rejected :
    lines.filterMap OperationLine.rejected? =
      findings.filterMap FindingItem.rejected?
  operationsWritten :
    process.operationsWritten = process.operationsFile.length

/-- The account of a run: what was put, what is queued and what is written. -/
def Accounted
    (lineOf : φ → Bytes)
    (before : Bytes)
    (puts : List (Put φ ρ))
    (system : System φ ρ) : Prop :=
  ∃ findings operations lines,
    Received .stop (puts.filterMap Put.finding?) system.findingQueue findings
        system.process.findingsStopped ∧
      Received .stop (puts.filterMap Put.operation?) system.operationQueue
        operations system.process.operationsStopped ∧
      Reports lineOf before findings operations lines system.process ∧
      system.process.operationsFile =
        .started :: (lines ++
          if system.process.phase = .done then
            [.stopped system.process.findingsWritten system.process.digested]
          else []) ∧
      (system.process.phase = .done →
        system.process.findingsStopped = true ∧
          system.process.operationsStopped = true)

/-- The line an item of the finding queue adds to the operations file. -/
def FindingItem.written : FindingItem φ → List (OperationLine ρ)
  | .other typeName => [.rejected typeName]
  | _ => []

/-- The line an item of the operational queue adds. -/
def OperationItem.written : OperationItem ρ → List (OperationLine ρ)
  | .record written => [.record written]
  | .stop => []

section Accounting

variable {lineOf : φ → Bytes}
variable {before : Bytes}
variable {findings : List (FindingItem φ)}
variable {operations : List (OperationItem ρ)}
variable {lines : List (OperationLine ρ)}
variable {process : Process ρ}

theorem operationsFile_receiveFinding (item : FindingItem φ) :
    (process.receiveFinding lineOf item).operationsFile =
      process.operationsFile ++ item.written := by
  cases item <;> simp [Process.receiveFinding, FindingItem.written]

theorem operationsFile_receiveOperation
    (left : Nat)
    (item : OperationItem ρ) :
    (process.receiveOperation left item).operationsFile =
      process.operationsFile ++ item.written := by
  cases item <;> simp [Process.receiveOperation, OperationItem.written]

/-- An item of the finding queue is written where it belongs. -/
theorem Reports.receiveFinding
    (reports : Reports lineOf before findings operations lines process)
    (item : FindingItem φ)
    (phase : Phase) :
    Reports lineOf before (findings ++ [item]) operations
      (lines ++ item.written)
      { process.receiveFinding lineOf item with phase } := by
  obtain ⟨findingsFile, digested, findingsWritten, records, rejected,
    operationsWritten⟩ := reports
  unfold findingLines findingsOf at findingsFile digested
  unfold findingsOf at findingsWritten
  constructor <;> cases item <;>
    simp [findingLines, findingsOf, Process.receiveFinding,
      FindingItem.finding?, FindingItem.rejected?, FindingItem.written,
      OperationLine.record?, OperationLine.rejected?, *]

/-- An item of the operational queue is written where it belongs. -/
theorem Reports.receiveOperation
    (reports : Reports lineOf before findings operations lines process)
    (left : Nat)
    (item : OperationItem ρ) :
    Reports lineOf before findings (operations ++ [item])
      (lines ++ item.written) (process.receiveOperation left item) := by
  obtain ⟨findingsFile, digested, findingsWritten, records, rejected,
    operationsWritten⟩ := reports
  constructor <;> cases item <;>
    simp [Process.receiveOperation, OperationItem.record?,
      OperationItem.written, OperationLine.record?, OperationLine.rejected?, *]

/-- Only the files and the counters matter. -/
theorem Reports.congr
    (reports : Reports lineOf before findings operations lines process)
    {other : Process ρ}
    (findingsFile : other.findingsFile = process.findingsFile)
    (digested : other.digested = process.digested)
    (findingsWritten : other.findingsWritten = process.findingsWritten)
    (operationsWritten :
      other.operationsWritten = other.operationsFile.length) :
    Reports lineOf before findings operations lines other where
  findingsFile := findingsFile.trans reports.findingsFile
  digested := digested.trans reports.digested
  findingsWritten := findingsWritten.trans reports.findingsWritten
  records := reports.records
  rejected := reports.rejected
  operationsWritten := operationsWritten

end Accounting

/-! ## Runs -/

section Runs

variable {lineOf : φ → Bytes}
variable {before : Bytes}
variable {puts : List (Put φ ρ)}
variable {system next : System φ ρ}

theorem accounted_start :
    Accounted lineOf before [] (System.start before : System φ ρ) :=
  ⟨[], [], [], .start _, .start _,
    ⟨(List.append_nil _).symm, rfl, rfl, rfl, rfl, rfl⟩, rfl,
    fun isDone => by cases isDone⟩

/-- Before the loop ends the operations file has the lines written so far. -/
theorem operationsFile_running
    {lines : List (OperationLine ρ)}
    (running : system.process.phase ≠ .done)
    (isFile :
      system.process.operationsFile =
        .started :: (lines ++
          if system.process.phase = .done then
            [.stopped system.process.findingsWritten system.process.digested]
          else [])) :
    system.process.operationsFile = .started :: lines := by
  rw [if_neg running, List.append_nil] at isFile
  exact isFile

/-- The account of a process that is still in its loop. -/
theorem accounted_running
    {findings : List (FindingItem φ)}
    {operations : List (OperationItem ρ)}
    {lines : List (OperationLine ρ)}
    (running : system.process.phase ≠ .done)
    (findingsReceived :
      Received .stop (puts.filterMap Put.finding?) system.findingQueue findings
        system.process.findingsStopped)
    (operationsReceived :
      Received .stop (puts.filterMap Put.operation?) system.operationQueue
        operations system.process.operationsStopped)
    (reports :
      Reports lineOf before findings operations lines system.process)
    (isFile : system.process.operationsFile = .started :: lines) :
    Accounted lineOf before puts system := by
  refine ⟨findings, operations, lines, findingsReceived, operationsReceived,
    reports, ?_, fun isDone => absurd isDone running⟩
  rw [if_neg running, List.append_nil]
  exact isFile

/-- Every step keeps the account. -/
theorem Accounted.step
    (accounted : Accounted lineOf before puts system)
    {more : List (Put φ ρ)}
    (step : system.Step lineOf more next) :
    Accounted lineOf before (puts ++ more) next := by
  obtain ⟨findings, operations, lines, findingsReceived, operationsReceived,
    reports, isFile, stopped⟩ := accounted
  obtain ⟨move, step⟩ := step
  cases stepped step with
  | put item =>
      cases item with
      | finding item =>
          refine ⟨findings, operations, lines, ?_, ?_, reports, isFile,
            stopped⟩
          · rw [List.filterMap_append]
            exact findingsReceived.put item
          · rw [List.filterMap_append]
            exact (List.append_nil _).symm ▸ operationsReceived
      | operation item =>
          refine ⟨findings, operations, lines, ?_, ?_, reports, isFile,
            stopped⟩
          · rw [List.filterMap_append]
            exact (List.append_nil _).symm ▸ findingsReceived
          · rw [List.filterMap_append]
            exact operationsReceived.put item
  | getFinding item rest phase wanted queue =>
      have isRunning : system.process.phase ≠ .done := by simp [phase]
      have isLines := operationsFile_running isRunning isFile
      rw [queue, wanted] at findingsReceived
      rw [List.append_nil]
      by_cases isStop : item = .stop
      · subst isStop
        exact accounted_running (by simp)
          findingsReceived.getStop operationsReceived
          (reports.congr rfl rfl rfl reports.operationsWritten) isLines
      · have unstopped :
            (system.process.receiveFinding lineOf item).findingsStopped =
              false := by
          cases item with
          | stop => exact absurd rfl isStop
          | finding found => exact wanted
          | other typeName => exact wanted
        have others :
            (system.process.receiveFinding lineOf item).operationsStopped =
              system.process.operationsStopped := by
          cases item <;> rfl
        have received := findingsReceived.get isStop
        rw [← unstopped] at received
        rw [← others] at operationsReceived
        exact accounted_running (by simp) received
          operationsReceived (reports.receiveFinding item _)
          ((operationsFile_receiveFinding item).trans
            (congrArg (· ++ item.written) isLines))
  | getOperation left item rest phase wanted queue =>
      have isRunning : system.process.phase ≠ .done := by simp [phase]
      have isLines := operationsFile_running isRunning isFile
      rw [queue, wanted] at operationsReceived
      rw [List.append_nil]
      cases item with
      | stop =>
          exact accounted_running
            (by simp [Process.receiveOperation])
            findingsReceived operationsReceived.getStop
            (reports.congr rfl rfl rfl reports.operationsWritten) isLines
      | record written =>
          have received := operationsReceived.get (by simp)
          rw [← wanted] at received
          exact accounted_running
            (by simp [Process.receiveOperation])
            findingsReceived received
            (reports.receiveOperation left (.record written))
            ((operationsFile_receiveOperation left (.record written)).trans
              (congrArg (· ++ OperationItem.written (.record written)) isLines))
  | passFindings phase =>
      have isRunning : system.process.phase ≠ .done := by simp [phase]
      have isLines := operationsFile_running isRunning isFile
      rw [List.append_nil]
      exact accounted_running (by simp) findingsReceived operationsReceived
        (reports.congr rfl rfl rfl reports.operationsWritten) isLines
  | passOperations left phase =>
      have isRunning : system.process.phase ≠ .done := by simp [phase]
      have isLines := operationsFile_running isRunning isFile
      rw [List.append_nil]
      exact accounted_running (by simp) findingsReceived operationsReceived
        (reports.congr rfl rfl rfl reports.operationsWritten) isLines
  | goOn due phase =>
      have isRunning : system.process.phase ≠ .done := by simp [phase]
      have isLines := operationsFile_running isRunning isFile
      rw [List.append_nil]
      have beaten :
          ∃ controls,
            system.process.beat due = { system.process with controls } := by
        unfold Process.beat
        cases due with
        | false => exact ⟨_, rfl⟩
        | true => exact ⟨_, rfl⟩
      obtain ⟨controls, isBeaten⟩ := beaten
      rw [isBeaten]
      unfold Process.finishRound
      dsimp only
      split
      case isTrue bothStopped =>
        rw [Bool.and_eq_true] at bothStopped
        refine ⟨findings, operations, lines, findingsReceived,
          operationsReceived, reports.congr rfl rfl rfl ?_, ?_,
          fun _ => bothStopped⟩
        · dsimp only
          rw [reports.operationsWritten, List.length_append,
            List.length_singleton]
        · dsimp only
          rw [if_pos rfl, isLines, List.cons_append]
      case isFalse =>
        exact accounted_running (by simp)
          findingsReceived operationsReceived
          (reports.congr rfl rfl rfl reports.operationsWritten) isLines

/-- The account of every run. -/
theorem accounted_of_steps
    (steps : Steps (System.Step lineOf) (System.start before) puts system) :
    Accounted lineOf before puts system :=
  steps.invariant (motive := Accounted lineOf before)
    (fun accounted step => accounted.step step) accounted_start

end Runs

/-! ## At the end -/

/-- What was put into the finding queue in front of its stop item. -/
def findingsInFront
    [DecidableEq φ]
    (puts : List (Put φ ρ)) : List (FindingItem φ) :=
  beforeStop .stop (puts.filterMap Put.finding?)

/-- What was put into the operational queue in front of its stop item. -/
def operationsInFront
    [DecidableEq ρ]
    (puts : List (Put φ ρ)) : List (OperationItem ρ) :=
  beforeStop .stop (puts.filterMap Put.operation?)

/-- A finding and something else are put before and after a record. -/
def mixedMoves : List (Move Nat Nat) :=
  [.put (.finding (.finding 7)), .get, .put (.operation (.record 1)), .pass,
    .goOn true, .put (.finding (.other "str")), .put (.operation .stop), .get,
    .get, .get, .put (.finding .stop), .goOn false, .get, .pass,
    .put (.finding (.finding 8)), .goOn false]

/-- A line for a number. -/
def numberLine (number : Nat) : Bytes :=
  [UInt8.ofNat number, 0x0A]

/-- What is put in such a run. -/
def mixedPuts : List (Put Nat Nat) :=
  [.finding (.finding 7), .operation (.record 1), .finding (.other "str"),
    .operation .stop, .finding .stop, .finding (.finding 8)]

/-- The system at its end. -/
def mixedEnd : System Nat Nat where
  findingQueue := [.finding 8]
  operationQueue := []
  process := {
    phase := .done
    findingsStopped := true
    operationsStopped := true
    findingsWritten := 1
    operationsWritten := 4
    digested := [7, 0x0A]
    findingsFile := [7, 0x0A]
    operationsFile :=
      [.started, .rejected "str", .record 1, .stopped 1 [7, 0x0A]]
    controls := [.ready 0 1, .heartbeat 1 1, .stopped 1 4 [7, 0x0A]]
  }

end PacketAudit.Writer
