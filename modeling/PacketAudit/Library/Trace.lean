import Mathlib

namespace PacketAudit.Library

/-!
# Stateful computations with an event log

An `Outcome` is a state together with the events produced on the way to it;
outcomes are chained with `andThen`.  `Steps` is the reflexive and transitive
closure of a relation between states that is labelled with events, and
`Steps.invariant` is its induction rule for properties of a state and the
whole log so far.
-/

variable {σ ε : Type}

/-- A state and the events produced on the way to it. -/
structure Outcome (σ ε : Type) where
  state : σ
  events : List ε

namespace Outcome

/-- Produce no event. -/
def quiet (state : σ) : Outcome σ ε where
  state := state
  events := []

/-- Continue from the state reached, collecting the events of both parts. -/
def andThen
    (outcome : Outcome σ ε)
    (continuation : σ → Outcome σ ε) :
    Outcome σ ε where
  state := (continuation outcome.state).state
  events := outcome.events ++ (continuation outcome.state).events

@[simp] theorem state_quiet (state : σ) :
    (quiet state : Outcome σ ε).state = state := rfl

@[simp] theorem events_quiet (state : σ) :
    (quiet state : Outcome σ ε).events = [] := rfl

@[simp] theorem state_andThen
    (outcome : Outcome σ ε)
    (continuation : σ → Outcome σ ε) :
    (outcome.andThen continuation).state =
      (continuation outcome.state).state := rfl

@[simp] theorem events_andThen
    (outcome : Outcome σ ε)
    (continuation : σ → Outcome σ ε) :
    (outcome.andThen continuation).events =
      outcome.events ++ (continuation outcome.state).events := rfl

@[simp] theorem quiet_andThen
    (state : σ)
    (continuation : σ → Outcome σ ε) :
    (quiet state).andThen continuation = continuation state := by
  simp [andThen]

theorem andThen_assoc
    (outcome : Outcome σ ε)
    (first second : σ → Outcome σ ε) :
    (outcome.andThen first).andThen second =
      outcome.andThen fun state => (first state).andThen second := by
  simp [andThen]

/-- Continue with the answer of an operation, which may be of another type. -/
def bind
    {α β : Type}
    (outcome : Outcome α ε)
    (continuation : α → Outcome β ε) :
    Outcome β ε where
  state := (continuation outcome.state).state
  events := outcome.events ++ (continuation outcome.state).events

@[simp] theorem state_bind
    {α β : Type}
    (outcome : Outcome α ε)
    (continuation : α → Outcome β ε) :
    (outcome.bind continuation).state =
      (continuation outcome.state).state := rfl

@[simp] theorem events_bind
    {α β : Type}
    (outcome : Outcome α ε)
    (continuation : α → Outcome β ε) :
    (outcome.bind continuation).events =
      outcome.events ++ (continuation outcome.state).events := rfl

/-- Only the state reached matters to a continuation. -/
theorem andThen_congr
    {outcome : Outcome σ ε}
    {first second : σ → Outcome σ ε}
    (same : first outcome.state = second outcome.state) :
    outcome.andThen first = outcome.andThen second := by
  simp [andThen, same]

/-- Only the answer matters to a continuation. -/
theorem bind_congr
    {α β : Type}
    {outcome : Outcome α ε}
    {first second : α → Outcome β ε}
    (same : first outcome.state = second outcome.state) :
    outcome.bind first = outcome.bind second := by
  simp [bind, same]

end Outcome

/-- Run a list of operations, collecting the events of all of them. -/
def runAll
    {ω : Type}
    (apply : ω → σ → Outcome σ ε) :
    List ω → σ → Outcome σ ε
  | [], state => .quiet state
  | operation :: rest, state =>
      (apply operation state).andThen (runAll apply rest)

@[simp] theorem runAll_nil
    {ω : Type}
    (apply : ω → σ → Outcome σ ε)
    (state : σ) :
    runAll apply [] state = .quiet state := rfl

theorem runAll_append
    {ω : Type}
    (apply : ω → σ → Outcome σ ε)
    (first second : List ω)
    (state : σ) :
    runAll apply (first ++ second) state =
      (runAll apply first state).andThen (runAll apply second) := by
  induction first generalizing state with
  | nil =>
      rfl
  | cons operation rest inductionHypothesis =>
      simp only [List.cons_append, runAll, Outcome.andThen,
        inductionHypothesis, List.append_assoc]

/-- Every event of a run is an event of one of its operations. -/
theorem mem_events_runAll
    {ω : Type}
    {apply : ω → σ → Outcome σ ε}
    {operations : List ω}
    {state : σ}
    {event : ε}
    (member : event ∈ (runAll apply operations state).events) :
    ∃ prior operation rest,
      operations = prior ++ operation :: rest ∧
        event ∈
          (apply operation (runAll apply prior state).state).events := by
  induction operations generalizing state with
  | nil =>
      cases member
  | cons first later inductionHypothesis =>
      rcases List.mem_append.mp member with inFirst | inLater
      · exact ⟨[], first, later, rfl, inFirst⟩
      · obtain ⟨prior, operation, rest, shape, found⟩ :=
          inductionHypothesis inLater
        exact ⟨first :: prior, operation, rest, by rw [shape]; rfl, found⟩

/-- A property of log and state kept by each operation is kept by a run. -/
theorem runAll_invariant
    {ω : Type}
    {apply : ω → σ → Outcome σ ε}
    {allowed : ω → Prop}
    {motive : List ε → σ → Prop}
    (preserved :
      ∀ {operation log state},
        allowed operation →
        motive log state →
        motive (log ++ (apply operation state).events)
          (apply operation state).state)
    {operations : List ω}
    (allAllowed : ∀ operation ∈ operations, allowed operation)
    {log : List ε}
    {state : σ}
    (holds : motive log state) :
    motive (log ++ (runAll apply operations state).events)
      (runAll apply operations state).state := by
  induction operations generalizing log state with
  | nil =>
      simpa using holds
  | cons operation rest inductionHypothesis =>
      have next := preserved (allAllowed operation (by simp)) holds
      have all :=
        inductionHypothesis
          (fun later member =>
            allAllowed later (List.mem_cons_of_mem _ member))
          next
      simpa [runAll, List.append_assoc] using all

/-- Finitely many labelled steps, with their events in order. -/
inductive Steps (step : σ → List ε → σ → Prop) :
    σ → List ε → σ → Prop where
  | refl (state : σ) : Steps step state [] state
  | tail
      {initial middle final : σ}
      {earlier events : List ε}
      (before : Steps step initial earlier middle)
      (last : step middle events final) :
      Steps step initial (earlier ++ events) final

namespace Steps

variable {step : σ → List ε → σ → Prop}

theorem single
    {initial final : σ}
    {events : List ε}
    (only : step initial events final) :
    Steps step initial events final := by
  simpa using (Steps.refl initial).tail only

theorem trans
    {initial middle final : σ}
    {earlier later : List ε}
    (first : Steps step initial earlier middle)
    (second : Steps step middle later final) :
    Steps step initial (earlier ++ later) final := by
  induction second with
  | refl =>
      simpa using first
  | tail before last inductionHypothesis =>
      rw [← List.append_assoc]
      exact inductionHypothesis.tail last

/-- A property of log and state kept by each step is kept by all of them. -/
theorem invariant
    {motive : List ε → σ → Prop}
    (preserved :
      ∀ {log initial events final},
        motive log initial →
        step initial events final →
        motive (log ++ events) final)
    {initial final : σ}
    {log events : List ε}
    (steps : Steps step initial events final)
    (holds : motive log initial) :
    motive (log ++ events) final := by
  induction steps with
  | refl =>
      simpa using holds
  | tail before last inductionHypothesis =>
      rw [← List.append_assoc]
      exact preserved inductionHypothesis last

/-- A property of the state kept by each step is kept by all of them. -/
theorem stateInvariant
    {motive : σ → Prop}
    (preserved :
      ∀ {initial events final},
        motive initial →
        step initial events final →
        motive final)
    {initial final : σ}
    {events : List ε}
    (steps : Steps step initial events final)
    (holds : motive initial) :
    motive final := by
  induction steps with
  | refl =>
      exact holds
  | tail before last inductionHypothesis =>
      exact preserved inductionHypothesis last

/-- A change of the events that keeps each step keeps all of them. -/
theorem mapEvents
    {change : ε → ε}
    (preserved :
      ∀ {initial events final},
        step initial events final →
        step initial (events.map change) final)
    {initial final : σ}
    {events : List ε}
    (steps : Steps step initial events final) :
    Steps step initial (events.map change) final := by
  induction steps with
  | refl =>
      exact .refl _
  | tail before last inductionHypothesis =>
      rw [List.map_append]
      exact inductionHypothesis.tail (preserved last)

/-- Where each coarse step is made of fine steps, all coarse steps are. -/
theorem refine
    {fine : σ → List ε → σ → Prop}
    {motive : σ → Prop}
    (preserved :
      ∀ {initial events final},
        motive initial →
        step initial events final →
        motive final)
    (refined :
      ∀ {initial events final},
        motive initial →
        step initial events final →
        Steps fine initial events final)
    {initial final : σ}
    {events : List ε}
    (steps : Steps step initial events final)
    (holds : motive initial) :
    Steps fine initial events final := by
  induction steps with
  | refl =>
      exact .refl _
  | @tail middle final earlier events before last inductionHypothesis =>
      have reached : motive middle := by
        apply stateInvariant _ before holds
        exact preserved
      exact inductionHypothesis.trans (refined reached last)

/-- Steps of a relation are steps of a weaker one. -/
theorem mono
    {weaker : σ → List ε → σ → Prop}
    (weaken :
      ∀ {initial events final},
        step initial events final →
        weaker initial events final)
    {initial final : σ}
    {events : List ε}
    (steps : Steps step initial events final) :
    Steps weaker initial events final := by
  induction steps with
  | refl =>
      exact .refl _
  | tail before last inductionHypothesis =>
      exact inductionHypothesis.tail (weaken last)

end Steps

/-- The outcome is reached from the state by labelled steps. -/
def Outcome.FollowsFrom
    (outcome : Outcome σ ε)
    (step : σ → List ε → σ → Prop)
    (initial : σ) : Prop :=
  Steps step initial outcome.events outcome.state

namespace Outcome.FollowsFrom

variable {step : σ → List ε → σ → Prop}

theorem quiet (state : σ) :
    (Outcome.quiet state).FollowsFrom step state :=
  .refl state

theorem andThen
    {initial : σ}
    {outcome : Outcome σ ε}
    {continuation : σ → Outcome σ ε}
    (first : outcome.FollowsFrom step initial)
    (second :
      (continuation outcome.state).FollowsFrom step outcome.state) :
    (outcome.andThen continuation).FollowsFrom step initial :=
  Steps.trans first second

end Outcome.FollowsFrom

/-- A run of operations that are made of steps is made of steps. -/
theorem runAll_followsFrom
    {ω : Type}
    {apply : ω → σ → Outcome σ ε}
    {step : σ → List ε → σ → Prop}
    {motive : σ → Prop}
    (preserved :
      ∀ {initial events final},
        motive initial →
        Steps step initial events final →
        motive final)
    (each :
      ∀ {operation state},
        motive state → (apply operation state).FollowsFrom step state)
    (operations : List ω)
    {state : σ}
    (holds : motive state) :
    (runAll apply operations state).FollowsFrom step state := by
  induction operations generalizing state with
  | nil =>
      exact .quiet state
  | cons operation rest inductionHypothesis =>
      have first : (apply operation state).FollowsFrom step state :=
        each holds
      exact first.andThen (inductionHypothesis (preserved holds first))

/--
A relation holds along a whole log if it holds along every class of its
entries and between entries of different classes.
-/
theorem pairwise_of_classes
    {κ : Type}
    [DecidableEq κ]
    {related : ε → ε → Prop}
    (classOf : ε → κ)
    {log : List ε}
    (within :
      ∀ label,
        (log.filter fun entry => classOf entry = label).Pairwise related)
    (across :
      ∀ first ∈ log, ∀ second ∈ log,
        classOf first ≠ classOf second → related first second) :
    log.Pairwise related := by
  induction log with
  | nil =>
      exact .nil
  | cons first rest inductionHypothesis =>
      refine List.pairwise_cons.mpr ⟨?_, inductionHypothesis ?_ ?_⟩
      · intro second member
        by_cases same : classOf second = classOf first
        · have ownClass := within (classOf first)
          rw [List.filter_cons_of_pos (by simp)] at ownClass
          apply (List.pairwise_cons.mp ownClass).1
          exact List.mem_filter.mpr ⟨member, by simpa using same⟩
        · exact across first List.mem_cons_self second
            (List.mem_cons_of_mem _ member) (Ne.symm same)
      · intro label
        exact (within label).sublist
          ((List.sublist_cons_self first rest).filter _)
      · intro one oneMember other otherMember
        exact across one (List.mem_cons_of_mem _ oneMember) other
          (List.mem_cons_of_mem _ otherMember)

end PacketAudit.Library
