import PacketAudit.Library.Trace
import PacketAudit.Models

namespace PacketAudit.Writer

/-!
# The evidence writer

`writer_process` drains two queues that any number of other processes put
items into.  Its loop is cut where it waits for a queue, and between these
places puts of the others come at any time.
-/

open Library

/-! ## Items and lines -/

/-- An item of the finding queue. -/
inductive FindingItem (φ : Type) where
  /-- `STOP_SENTINEL`. -/
  | stop
  | finding (finding : φ)
  /-- Anything else, with the name of its type. -/
  | other (typeName : String)
  deriving Repr, DecidableEq

/-- An item of the operational queue. -/
inductive OperationItem (ρ : Type) where
  /-- `STOP_SENTINEL`. -/
  | stop
  | record (record : ρ)
  deriving Repr, DecidableEq

/-- A line of the operations file. -/
inductive OperationLine (ρ : Type) where
  /-- `writer_started`. -/
  | started
  /-- `writer_rejected_item`. -/
  | rejected (typeName : String)
  | record (record : ρ)
  /-- `writer_stopped`; the digest is that of these bytes. -/
  | stopped (findingsWritten : Nat) (digested : Bytes)
  deriving Repr, DecidableEq

/-- A message of `control`. -/
inductive Control where
  | ready (findingsWritten operationsWritten : Nat)
  | heartbeat (findingsWritten operationsWritten : Nat)
  | stopped (findingsWritten operationsWritten : Nat) (digested : Bytes)
  deriving Repr, DecidableEq

/-- Where the loop stands. -/
inductive Phase where
  /-- In front of `finding_queue.get`. -/
  | findings
  /-- In front of `operational_queue.get_nowait`, with the rounds left. -/
  | operations (left : Nat)
  /-- Behind both queues. -/
  | heartbeat
  /-- Behind the loop, and all that follows it. -/
  | done
  deriving Repr, DecidableEq

/-! ## The process -/

/-- The variables of `writer_process`, its files and what it has sent. -/
structure Process (ρ : Type) where
  phase : Phase
  findingsStopped : Bool
  operationsStopped : Bool
  findingsWritten : Nat
  operationsWritten : Nat
  digested : Bytes
  findingsFile : Bytes
  operationsFile : List (OperationLine ρ)
  controls : List Control
  deriving Repr, DecidableEq

namespace Process

variable {φ ρ : Type}

/-- The process in front of its loop; the findings are appended to a file. -/
def start (before : Bytes) : Process ρ where
  phase := .findings
  findingsStopped := false
  operationsStopped := false
  findingsWritten := 0
  operationsWritten := 1
  digested := []
  findingsFile := before
  operationsFile := [.started]
  controls := [.ready 0 1]

/-- What an item of the finding queue does; a finding is written as a line. -/
def receiveFinding
    (lineOf : φ → Bytes)
    (item : FindingItem φ)
    (process : Process ρ) : Process ρ :=
  match item with
  | .stop => { process with findingsStopped := true }
  | .finding finding =>
      { process with
        findingsFile := process.findingsFile ++ lineOf finding
        digested := process.digested ++ lineOf finding
        findingsWritten := process.findingsWritten + 1 }
  | .other typeName =>
      { process with
        operationsFile := process.operationsFile ++ [.rejected typeName]
        operationsWritten := process.operationsWritten + 1 }

/-- What an item of the operational queue does in the round it is got in. -/
def receiveOperation
    (left : Nat)
    (item : OperationItem ρ)
    (process : Process ρ) : Process ρ :=
  match item with
  | .stop => { process with operationsStopped := true, phase := .heartbeat }
  | .record record =>
      { process with
        operationsFile := process.operationsFile ++ [.record record]
        operationsWritten := process.operationsWritten + 1
        phase := .operations left }

/-- `control("heartbeat", …)`, if one is due. -/
def beat (due : Bool) (process : Process ρ) : Process ρ :=
  if due then
    { process with
      controls :=
        process.controls ++
          [.heartbeat process.findingsWritten process.operationsWritten] }
  else
    process

/-- Once both queues have stopped, the loop ends. -/
def finishRound (process : Process ρ) : Process ρ :=
  if process.findingsStopped && process.operationsStopped then
    { process with
      operationsFile :=
        process.operationsFile ++
          [.stopped process.findingsWritten process.digested]
      operationsWritten := process.operationsWritten + 1
      controls :=
        process.controls ++
          [.stopped process.findingsWritten (process.operationsWritten + 1)
            process.digested]
      phase := .done }
  else
    { process with phase := .findings }

end Process

/-! ## The process and its queues -/

/-- The queues and the writer. -/
structure System (φ ρ : Type) where
  findingQueue : List (FindingItem φ)
  operationQueue : List (OperationItem ρ)
  process : Process ρ
  deriving Repr, DecidableEq

/-- An item that one of the other processes puts. -/
inductive Put (φ ρ : Type) where
  | finding (item : FindingItem φ)
  | operation (item : OperationItem ρ)
  deriving Repr, DecidableEq

/-- A step of one of the processes. -/
inductive Move (φ ρ : Type) where
  | put (item : Put φ ρ)
  /-- The writer gets the first item of the queue it stands at. -/
  | get
  /-- It gets none: it does not want one, or `queue.Empty` is raised. -/
  | pass
  /-- It goes on behind both queues, where a heartbeat may be due. -/
  | goOn (due : Bool)
  deriving Repr, DecidableEq

/-- How many items of the operational queue are drained in a row. -/
def drainRounds : Nat := 256

namespace System

variable {φ ρ : Type}

/-- The writer in front of its loop, and empty queues. -/
def start (before : Bytes) : System φ ρ where
  findingQueue := []
  operationQueue := []
  process := .start before

/-- Another process puts an item. -/
def put (item : Put φ ρ) (system : System φ ρ) : System φ ρ :=
  match item with
  | .finding item =>
      { system with findingQueue := system.findingQueue ++ [item] }
  | .operation item =>
      { system with operationQueue := system.operationQueue ++ [item] }

/-- The writer gets an item. -/
def get?
    (lineOf : φ → Bytes)
    (system : System φ ρ) : Option (System φ ρ) :=
  match system.process.phase with
  | .findings =>
      match system.process.findingsStopped, system.findingQueue with
      | false, item :: rest =>
          some { system with
            findingQueue := rest
            process :=
              { system.process.receiveFinding lineOf item with
                phase := .operations drainRounds } }
      | _, _ => none
  | .operations (left + 1) =>
      match system.process.operationsStopped, system.operationQueue with
      | false, item :: rest =>
          some { system with
            operationQueue := rest
            process := system.process.receiveOperation left item }
      | _, _ => none
  | _ => none

/-- The writer leaves the queue it stands at. -/
def pass? (system : System φ ρ) : Option (System φ ρ) :=
  match system.process.phase with
  | .findings =>
      some { system with
        process := { system.process with phase := .operations drainRounds } }
  | .operations _ =>
      some { system with
        process := { system.process with phase := .heartbeat } }
  | _ => none

/-- The writer goes on behind both queues. -/
def goOn? (due : Bool) (system : System φ ρ) : Option (System φ ρ) :=
  match system.process.phase with
  | .heartbeat =>
      some { system with process := (system.process.beat due).finishRound }
  | _ => none

/-- A step, if it is possible; its event is what is put. -/
def step?
    (lineOf : φ → Bytes)
    (move : Move φ ρ)
    (system : System φ ρ) : Option (Outcome (System φ ρ) (Put φ ρ)) :=
  match move with
  | .put item => some ⟨system.put item, [item]⟩
  | .get => (system.get? lineOf).map .quiet
  | .pass => system.pass?.map .quiet
  | .goOn due => (system.goOn? due).map .quiet

/-- The steps of the writer and of the others, in any order. -/
def Step
    (lineOf : φ → Bytes)
    (system : System φ ρ)
    (puts : List (Put φ ρ))
    (next : System φ ρ) : Prop :=
  ∃ move, system.step? lineOf move = some ⟨next, puts⟩

/-- One step after the other, if all of them are possible. -/
def run?
    (lineOf : φ → Bytes) :
    List (Move φ ρ) →
    System φ ρ →
    Option (Outcome (System φ ρ) (Put φ ρ))
  | [], system => some (.quiet system)
  | move :: rest, system => do
      let first ← system.step? lineOf move
      let last ← run? lineOf rest first.state
      some ⟨last.state, first.events ++ last.events⟩

theorem steps_of_run
    {lineOf : φ → Bytes}
    {moves : List (Move φ ρ)}
    {system next : System φ ρ}
    {puts : List (Put φ ρ)}
    (runs : run? lineOf moves system = some ⟨next, puts⟩) :
    Steps (Step lineOf) system puts next := by
  induction moves generalizing system puts with
  | nil =>
      obtain ⟨rfl, rfl⟩ := Outcome.mk.inj (Option.some.inj runs)
      exact .refl _
  | cons move rest inductionHypothesis =>
      obtain ⟨first, isFirst, runs⟩ := Option.bind_eq_some_iff.mp runs
      obtain ⟨last, isLast, runs⟩ := Option.bind_eq_some_iff.mp runs
      obtain ⟨rfl, rfl⟩ := Outcome.mk.inj (Option.some.inj runs)
      exact (Steps.single ⟨move, isFirst⟩).trans (inductionHypothesis isLast)

end System

end PacketAudit.Writer
