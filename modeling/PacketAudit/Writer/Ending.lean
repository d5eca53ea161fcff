import PacketAudit.Writer.Runs

namespace PacketAudit.Writer

/-!
# The writer ends

Once a stop item was put into both queues, every step of the writer brings it
closer to its end, whatever the others still put; an `Empty` in front of a
queue that is not empty is the only thing that can hold it up.
-/

open Library

variable {φ ρ : Type}

/-! ## How far the end is -/

/-- How many items a reader still gets, the sentinel included. -/
def itemsLeft
    {ι : Type}
    [DecidableEq ι]
    (stop : ι)
    (stopped : Bool)
    (queue : List ι) : Nat :=
  if stopped then 0 else (beforeStop stop queue).length + 1

section ItemsLeft

variable {ι : Type}
variable [DecidableEq ι]
variable {stop item : ι}
variable {queue : List ι}

/-- What is put behind the sentinel does not count. -/
theorem itemsLeft_put
    {stopped : Bool}
    (queued : stopped = false → stop ∈ queue)
    (item : ι) :
    itemsLeft stop stopped (queue ++ [item]) =
      itemsLeft stop stopped queue := by
  unfold itemsLeft
  cases stopped with
  | true => rfl
  | false =>
      have isQueued := queued rfl
      have same :
          beforeStop stop (queue ++ [item]) = beforeStop stop queue := by
        unfold beforeStop
        induction queue with
        | nil => cases isQueued
        | cons first rest inductionHypothesis =>
            rw [List.cons_append, List.takeWhile_cons, List.takeWhile_cons]
            by_cases isStop : first = stop
            · simp [isStop]
            · have inRest :=
                (List.mem_cons.mp isQueued).resolve_left (Ne.symm isStop)
              rw [inductionHypothesis (fun _ => inRest) inRest]
      rw [same]

/-- An item that is taken counts no more. -/
theorem itemsLeft_get
    (notStop : item ≠ stop) :
    itemsLeft stop false (item :: queue) = itemsLeft stop false queue + 1 := by
  unfold itemsLeft beforeStop
  rw [List.takeWhile_cons]
  simp [notStop]

theorem itemsLeft_pos : 0 < itemsLeft stop false queue :=
  Nat.succ_pos _

end ItemsLeft

section Ending

variable [DecidableEq φ]
variable [DecidableEq ρ]

/-- The steps without an item that may follow in a round. -/
def phaseLeft (process : Process ρ) : Nat :=
  match process.phase with
  | .findings => if process.findingsStopped then 1 else 0
  | .operations 0 => 3
  | .operations (_ + 1) => if process.operationsStopped then 3 else 0
  | .heartbeat => 2
  | .done => 0

/-- How many items of the finding queue the writer still gets. -/
def findingsLeft (system : System φ ρ) : Nat :=
  itemsLeft .stop system.process.findingsStopped system.findingQueue

/-- How many items of the operational queue it still gets. -/
def operationsLeft (system : System φ ρ) : Nat :=
  itemsLeft .stop system.process.operationsStopped system.operationQueue

/-- A bound on the steps of the writer up to its end. -/
def stepsLeft (system : System φ ρ) : Nat :=
  4 * (findingsLeft system + operationsLeft system) +
    phaseLeft system.process

/-- In front of the queues one of them has not stopped. -/
def Loops (system : System φ ρ) : Prop :=
  system.process.phase = .findings →
  (system.process.findingsStopped && system.process.operationsStopped) = false

/-- A stop item is queued or was received, in both queues. -/
structure Ends (system : System φ ρ) : Prop where
  findings :
    system.process.findingsStopped = false → .stop ∈ system.findingQueue
  operations :
    system.process.operationsStopped = false → .stop ∈ system.operationQueue
  loops : Loops system

/-- The writer leaves a queue only if there is nothing to get from it. -/
def Prompt
    (lineOf : φ → Bytes)
    (system : System φ ρ)
    (move : Move φ ρ) : Prop :=
  move = .pass → system.get? lineOf = none

/-- A step of the writer, not of the others. -/
def Move.isWriters : Move φ ρ → Bool
  | .put _ => false
  | _ => true

variable {lineOf : φ → Bytes}
variable {system next : System φ ρ}
variable {move : Move φ ρ}
variable {puts : List (Put φ ρ)}

/-- What the others put changes nothing about the end. -/
theorem Ends.put
    (ends : Ends system)
    (item : Put φ ρ) :
    Ends (system.put item) ∧
      stepsLeft (system.put item) = stepsLeft system := by
  cases item with
  | finding item =>
      refine ⟨⟨?_, ends.operations, ends.loops⟩, ?_⟩
      · intro unstopped
        exact List.mem_append_left _ (ends.findings unstopped)
      · unfold stepsLeft findingsLeft System.put
        dsimp only
        rw [itemsLeft_put ends.findings]
        rfl
  | operation item =>
      refine ⟨⟨ends.findings, ?_, ends.loops⟩, ?_⟩
      · intro unstopped
        exact List.mem_append_left _ (ends.operations unstopped)
      · unfold stepsLeft operationsLeft System.put
        dsimp only
        rw [itemsLeft_put ends.operations]
        rfl

omit [DecidableEq φ] [DecidableEq ρ] in
theorem phaseLeft_le (process : Process ρ) :
    phaseLeft process ≤ 3 := by
  unfold phaseLeft
  split
  · split <;> decide
  · exact le_rfl
  · split <;> decide
  · decide
  · decide

/-- With an item less the end is nearer. -/
theorem stepsLeft_lt
    (fewer :
      findingsLeft next + operationsLeft next + 1 ≤
        findingsLeft system + operationsLeft system) :
    stepsLeft next < stepsLeft system := by
  have few := phaseLeft_le next.process
  unfold stepsLeft
  omega

/-- So it is with less left of the round. -/
theorem stepsLeft_lt_of_phase
    (findings : findingsLeft next = findingsLeft system)
    (operations : operationsLeft next = operationsLeft system)
    (less : phaseLeft next.process < phaseLeft system.process) :
    stepsLeft next < stepsLeft system := by
  unfold stepsLeft
  omega

omit [DecidableEq φ] [DecidableEq ρ] in
/-- The writer leaves the finding queue promptly only once it has stopped. -/
theorem findingsStopped_of_prompt
    (phase : system.process.phase = .findings)
    (queued :
      system.process.findingsStopped = false → .stop ∈ system.findingQueue)
    (nothing : system.get? lineOf = none) :
    system.process.findingsStopped = true := by
  by_contra wanted
  rw [Bool.not_eq_true] at wanted
  obtain ⟨item, rest, queue⟩ :=
    List.exists_cons_of_ne_nil (List.ne_nil_of_mem (queued wanted))
  unfold System.get? at nothing
  rw [phase] at nothing
  simp [wanted, queue] at nothing

omit [DecidableEq φ] [DecidableEq ρ] in
/-- So it does with the operational queue, but for the bound on its loop. -/
theorem operationsStopped_of_prompt
    {left : Nat}
    (phase : system.process.phase = .operations (left + 1))
    (queued :
      system.process.operationsStopped = false →
      .stop ∈ system.operationQueue)
    (nothing : system.get? lineOf = none) :
    system.process.operationsStopped = true := by
  by_contra wanted
  rw [Bool.not_eq_true] at wanted
  obtain ⟨item, rest, queue⟩ :=
    List.exists_cons_of_ne_nil (List.ne_nil_of_mem (queued wanted))
  unfold System.get? at nothing
  rw [phase] at nothing
  simp [wanted, queue] at nothing

omit [DecidableEq φ] [DecidableEq ρ] in
/-- A round ends in front of the queues, or the loop ends. -/
theorem finishRound_beat (due : Bool) (process : Process ρ) :
    let finished := (process.beat due).finishRound
    finished.findingsStopped = process.findingsStopped ∧
      finished.operationsStopped = process.operationsStopped ∧
      finished.phase =
        if process.findingsStopped && process.operationsStopped then .done
        else .findings := by
  have same :
      (process.beat due).findingsStopped = process.findingsStopped ∧
        (process.beat due).operationsStopped = process.operationsStopped := by
    unfold Process.beat
    cases due with
    | false => exact ⟨rfl, rfl⟩
    | true => exact ⟨rfl, rfl⟩
  unfold Process.finishRound
  rw [same.1, same.2]
  split
  · exact ⟨rfl, rfl, rfl⟩
  · exact ⟨rfl, rfl, rfl⟩

/-- Every prompt step of the writer brings it closer to its end. -/
theorem Ends.step
    (ends : Ends system)
    (prompt : Prompt lineOf system move)
    (isWriters : move.isWriters = true)
    (step : system.step? lineOf move = some ⟨next, puts⟩) :
    Ends next ∧ stepsLeft next < stepsLeft system := by
  obtain ⟨findings, operations, loops⟩ := ends
  cases stepped step with
  | put item =>
      cases isWriters
  | getFinding item rest phase wanted queue =>
      have isLeft :
          findingsLeft system = itemsLeft .stop false (item :: rest) := by
        unfold findingsLeft
        rw [queue, wanted]
      by_cases isStop : item = .stop
      · subst isStop
        refine ⟨⟨?_, operations, ?_⟩, stepsLeft_lt ?_⟩
        · intro unstopped
          cases unstopped
        · intro isFindings
          cases isFindings
        · have fewer :=
            @itemsLeft_pos _ _ (FindingItem.stop : FindingItem φ)
              (.stop :: rest)
          rw [isLeft]
          change 0 + operationsLeft system + 1 ≤ _
          omega
      · have same :
            (system.process.receiveFinding lineOf item).findingsStopped =
                false ∧
              (system.process.receiveFinding lineOf item).operationsStopped =
                system.process.operationsStopped := by
          cases item with
          | stop => exact absurd rfl isStop
          | finding found => exact ⟨wanted, rfl⟩
          | other typeName => exact ⟨wanted, rfl⟩
        refine ⟨⟨?_, ?_, ?_⟩, stepsLeft_lt ?_⟩
        · intro unstopped
          have queued := findings wanted
          rw [queue] at queued
          exact (List.mem_cons.mp queued).resolve_left (Ne.symm isStop)
        · intro unstopped
          exact operations (same.2.symm.trans unstopped)
        · intro isFindings
          cases isFindings
        · rw [isLeft, itemsLeft_get isStop]
          unfold findingsLeft operationsLeft
          dsimp only
          rw [same.1, same.2]
          omega
  | getOperation left item rest phase wanted queue =>
      have isLeft :
          operationsLeft system = itemsLeft .stop false (item :: rest) := by
        unfold operationsLeft
        rw [queue, wanted]
      cases item with
      | stop =>
          refine ⟨⟨findings, ?_, ?_⟩, stepsLeft_lt ?_⟩
          · intro unstopped
            cases unstopped
          · intro isFindings
            cases isFindings
          · have fewer :=
              @itemsLeft_pos _ _ (OperationItem.stop : OperationItem ρ)
                (.stop :: rest)
            rw [isLeft]
            change findingsLeft system + 0 + 1 ≤ _
            omega
      | record written =>
          refine ⟨⟨findings, ?_, ?_⟩, stepsLeft_lt ?_⟩
          · intro unstopped
            have queued := operations wanted
            rw [queue] at queued
            exact (List.mem_cons.mp queued).resolve_left (by simp)
          · intro isFindings
            cases isFindings
          · rw [isLeft, itemsLeft_get (by simp), ← wanted]
            change findingsLeft system + itemsLeft _ _ _ + 1 ≤ _
            rfl
  | passFindings phase =>
      have isStopped := findingsStopped_of_prompt phase findings (prompt rfl)
      have unstopped : system.process.operationsStopped = false := by
        have notBoth := loops phase
        rw [isStopped, Bool.true_and] at notBoth
        exact notBoth
      refine ⟨⟨findings, operations, ?_⟩, stepsLeft_lt_of_phase rfl rfl ?_⟩
      · intro isFindings
        cases isFindings
      · unfold phaseLeft drainRounds
        simp [phase, isStopped, unstopped]
  | passOperations left phase =>
      refine ⟨⟨findings, operations, ?_⟩, stepsLeft_lt_of_phase rfl rfl ?_⟩
      · intro isFindings
        cases isFindings
      · unfold phaseLeft
        cases left with
        | zero => simp [phase]
        | succ left =>
            have isStopped :=
              operationsStopped_of_prompt phase operations (prompt rfl)
            simp [phase, isStopped]
  | goOn due phase =>
      obtain ⟨isFindings, isOperations, isPhase⟩ :=
        finishRound_beat due system.process
      refine ⟨⟨?_, ?_, ?_⟩, stepsLeft_lt_of_phase ?_ ?_ ?_⟩
      · exact fun unstopped => findings (isFindings.symm.trans unstopped)
      · exact fun unstopped => operations (isOperations.symm.trans unstopped)
      · intro inFront
        dsimp only at inFront ⊢
        rw [isPhase] at inFront
        rw [isFindings, isOperations]
        split at inFront
        · cases inFront
        · exact Bool.eq_false_of_not_eq_true ‹_›
      · unfold findingsLeft
        dsimp only
        rw [isFindings]
      · unfold operationsLeft
        dsimp only
        rw [isOperations]
      · have before : phaseLeft system.process = 2 := by
          unfold phaseLeft
          rw [phase]
        rw [before]
        unfold phaseLeft
        dsimp only
        rw [isPhase]
        cases system.process.findingsStopped &&
            system.process.operationsStopped with
        | true => exact Nat.two_pos
        | false =>
            simp only [Bool.false_eq_true, if_false]
            split <;> decide

/-! ## Prompt runs -/

/-- A run in which the writer never leaves a queue that has an item for it. -/
inductive PromptRun
    (lineOf : φ → Bytes) :
    System φ ρ → List (Move φ ρ) → System φ ρ → Prop where
  | refl (system : System φ ρ) : PromptRun lineOf system [] system
  | step
      {system next last : System φ ρ}
      {move : Move φ ρ}
      {rest : List (Move φ ρ)}
      {puts : List (Put φ ρ)}
      (prompt : Prompt lineOf system move)
      (first : system.step? lineOf move = some ⟨next, puts⟩)
      (later : PromptRun lineOf next rest last) :
      PromptRun lineOf system (move :: rest) last

/-- The writer's steps of a prompt run use up what is left. -/
theorem PromptRun.bounded
    {moves : List (Move φ ρ)}
    (run : PromptRun lineOf system moves next)
    (ends : Ends system) :
    Ends next ∧
      moves.countP Move.isWriters + stepsLeft next ≤ stepsLeft system := by
  induction run with
  | refl => exact ⟨ends, by simp⟩
  | @step system middle last move rest puts prompt first later
      inductionHypothesis =>
      cases isWriters : move.isWriters with
      | false =>
          cases move with
          | put item =>
              obtain ⟨rfl, rfl⟩ :=
                Outcome.mk.inj (Option.some.inj first)
              obtain ⟨endsMiddle, same⟩ := ends.put item
              obtain ⟨endsLast, bounded⟩ := inductionHypothesis endsMiddle
              rw [List.countP_cons_of_neg (by simp [isWriters]), ← same]
              exact ⟨endsLast, bounded⟩
          | _ => cases isWriters
      | true =>
          obtain ⟨endsMiddle, less⟩ := ends.step prompt isWriters first
          obtain ⟨endsLast, bounded⟩ := inductionHypothesis endsMiddle
          rw [List.countP_cons_of_pos isWriters]
          exact ⟨endsLast, by omega⟩

omit [DecidableEq φ] [DecidableEq ρ] in
/-- A writer that has not ended can go on. -/
theorem exists_prompt_step
    (running : system.process.phase ≠ .done) :
    ∃ move : Move φ ρ,
      move.isWriters = true ∧ Prompt lineOf system move ∧
        (system.step? lineOf move).isSome := by
  cases gets : system.get? lineOf with
  | some next =>
      refine ⟨.get, rfl, (fun isPass => by cases isPass), ?_⟩
      simp [System.step?, gets]
  | none =>
      cases phase : system.process.phase with
      | done => exact absurd phase running
      | heartbeat =>
          refine ⟨.goOn false, rfl, (fun isPass => by cases isPass), ?_⟩
          simp [System.step?, System.goOn?, phase]
      | findings =>
          refine ⟨.pass, rfl, fun _ => gets, ?_⟩
          simp [System.step?, System.pass?, phase]
      | operations left =>
          refine ⟨.pass, rfl, fun _ => gets, ?_⟩
          simp [System.step?, System.pass?, phase]

omit [DecidableEq φ] [DecidableEq ρ] in
theorem Loops.step
    (loops : Loops system)
    (step : system.Step lineOf puts next) :
    Loops next := by
  obtain ⟨move, step⟩ := step
  cases stepped step with
  | put item => cases item <;> exact loops
  | goOn due phase =>
      obtain ⟨isFindings, isOperations, isPhase⟩ :=
        finishRound_beat due system.process
      intro inFront
      dsimp only at inFront ⊢
      rw [isPhase] at inFront
      rw [isFindings, isOperations]
      split at inFront
      · cases inFront
      · exact Bool.eq_false_of_not_eq_true ‹_›
  | getFinding | passFindings | passOperations =>
      intro inFront
      cases inFront
  | getOperation left item =>
      cases item <;>
      · intro inFront
        cases inFront

omit [DecidableEq φ] [DecidableEq ρ] in
/-- A run in which both stop items were put has its end in front of it. -/
theorem ends_of_steps
    {before : Bytes}
    (steps : Steps (System.Step lineOf) (System.start before) puts system)
    (findingsStop : .finding .stop ∈ puts)
    (operationsStop : .operation .stop ∈ puts) :
    Ends system := by
  obtain ⟨findings, operations, lines, findingsReceived, operationsReceived,
    -, -, -⟩ := accounted_of_steps steps
  have findingsPut : .stop ∈ puts.filterMap Put.finding? :=
    List.mem_filterMap.mpr ⟨_, findingsStop, rfl⟩
  have operationsPut : .stop ∈ puts.filterMap Put.operation? :=
    List.mem_filterMap.mpr ⟨_, operationsStop, rfl⟩
  refine ⟨?_, ?_, ?_⟩
  · intro unstopped
    rw [unstopped] at findingsReceived
    exact findingsReceived.stop_mem findingsPut
  · intro unstopped
    rw [unstopped] at operationsReceived
    exact operationsReceived.stop_mem operationsPut
  · exact steps.stateInvariant (motive := Loops)
      (fun loops step => loops.step step) (fun _ => rfl)

end Ending

/-! ## Both queues are stopped -/

/-- The writer when both stop items are queued, and a finding behind one. -/
def stopping : System Nat Nat where
  findingQueue := [.finding 7, .stop, .finding 8]
  operationQueue := [.stop]
  process := .start []

/-- What was put before. -/
def stoppingPuts : List (Put Nat Nat) :=
  [.finding (.finding 7), .finding .stop, .operation .stop,
    .finding (.finding 8)]

/-- The writer gets a finding and a stop item, and another record is put. -/
def stoppingMoves : List (Move Nat Nat) :=
  [.get, .put (.operation (.record 1)), .get, .goOn true]

/-- The system behind these moves. -/
def stoppingNext : System Nat Nat where
  findingQueue := [.stop, .finding 8]
  operationQueue := [.record 1]
  process := {
    phase := .findings
    findingsStopped := false
    operationsStopped := true
    findingsWritten := 1
    operationsWritten := 1
    digested := [7, 0x0A]
    findingsFile := [7, 0x0A]
    operationsFile := [.started]
    controls := [.ready 0 1, .heartbeat 1 1]
  }

end PacketAudit.Writer
