import PacketAudit.Library.Trace

namespace PacketAudit.Library

/-!
# Loops that stop at the first failure

`whileSucceeds` runs `while wanted: if not attempt: break` for at most a
given number of rounds.  Where a measure decreases in every successful round,
as many rounds as the measure are enough for the loop to end on its own, and
more rounds change nothing.
-/

variable {σ ε : Type}

/-- Attempt something while it is wanted, until an attempt fails. -/
def whileSucceeds
    (wanted : σ → Bool)
    (attempt : σ → Outcome (σ × Bool) ε) :
    Nat → σ → Outcome σ ε
  | 0, state => .quiet state
  | rounds + 1, state =>
      if wanted state then
        (attempt state).bind fun answer =>
          if answer.2 then whileSucceeds wanted attempt rounds answer.1
          else .quiet answer.1
      else
        .quiet state

/-- The loop ends on its own within a number of rounds. -/
def EndsWithin
    (wanted : σ → Bool)
    (attempt : σ → Outcome (σ × Bool) ε) :
    Nat → σ → Prop
  | 0, state => wanted state = false
  | rounds + 1, state =>
      wanted state = false ∨
        (attempt state).state.2 = false ∨
        EndsWithin wanted attempt rounds (attempt state).state.1

variable {wanted : σ → Bool}
variable {attempt : σ → Outcome (σ × Bool) ε}

/-- A loop whose successes decrease a measure ends on its own. -/
theorem endsWithin_of_measure
    (measure : σ → Nat)
    {motive : σ → Prop}
    (preserved :
      ∀ {state},
        wanted state = true →
        motive state →
        motive (attempt state).state.1)
    (decreases :
      ∀ {state},
        wanted state = true →
        motive state →
        (attempt state).state.2 = true →
        measure (attempt state).state.1 < measure state)
    {rounds : Nat}
    {state : σ}
    (holds : motive state)
    (enough : measure state < rounds) :
    EndsWithin wanted attempt rounds state := by
  induction rounds generalizing state with
  | zero =>
      exact absurd enough (Nat.not_lt_zero _)
  | succ rounds inductionHypothesis =>
      unfold EndsWithin
      by_cases isWanted : wanted state = true
      · by_cases succeeded : (attempt state).state.2 = true
        · have less := decreases isWanted holds succeeded
          exact .inr (.inr
            (inductionHypothesis (preserved isWanted holds) (by omega)))
        · exact .inr (.inl (Bool.eq_false_of_not_eq_true succeeded))
      · exact .inl (Bool.eq_false_of_not_eq_true isWanted)

/-- Where the loop ends, nothing is wanted or the last attempt failed. -/
theorem whileSucceeds_exit
    {motive : σ → Prop}
    (preserved :
      ∀ {state},
        wanted state = true →
        motive state →
        motive (attempt state).state.1)
    {rounds : Nat}
    {state : σ}
    (holds : motive state)
    (ends : EndsWithin wanted attempt rounds state) :
    let final := (whileSucceeds wanted attempt rounds state).state
    wanted final = false ∨
      ∃ last,
        motive last ∧
          wanted last = true ∧ (attempt last).state = (final, false) := by
  induction rounds generalizing state with
  | zero =>
      exact .inl ends
  | succ rounds inductionHypothesis =>
      by_cases isWanted : wanted state = true
      · have next := preserved isWanted holds
        cases answered : (attempt state).state with
        | mk reached succeeded =>
            rw [answered] at next
            cases succeeded with
            | true =>
                simp only [whileSucceeds, isWanted, answered, ↓reduceIte,
                  Outcome.state_bind]
                apply inductionHypothesis next
                simpa [EndsWithin, isWanted, answered] using ends
            | false =>
                simp only [whileSucceeds, isWanted, answered, ↓reduceIte,
                  Outcome.state_bind]
                exact .inr ⟨state, holds, isWanted, by simp [answered]⟩
      · simp only [whileSucceeds, isWanted]
        exact .inl (Bool.eq_false_of_not_eq_true isWanted)

/-- A property kept by each attempt is kept by the loop. -/
theorem whileSucceeds_invariant
    {motive : σ → Prop}
    (preserved :
      ∀ {state},
        wanted state = true →
        motive state →
        motive (attempt state).state.1)
    (rounds : Nat)
    {state : σ}
    (holds : motive state) :
    motive (whileSucceeds wanted attempt rounds state).state := by
  induction rounds generalizing state with
  | zero =>
      exact holds
  | succ rounds inductionHypothesis =>
      unfold whileSucceeds
      split
      case isTrue isWanted =>
        simp only [Outcome.state_bind]
        split
        · exact inductionHypothesis (preserved isWanted holds)
        · exact preserved isWanted holds
      · exact holds

/-- A loop whose attempts are made of steps is made of steps. -/
theorem whileSucceeds_steps
    {step : σ → List ε → σ → Prop}
    {motive : σ → Prop}
    (preserved :
      ∀ {state},
        wanted state = true →
        motive state →
        motive (attempt state).state.1)
    (steps :
      ∀ {state},
        wanted state = true →
        motive state →
        Steps step state (attempt state).events (attempt state).state.1)
    (rounds : Nat)
    {state : σ}
    (holds : motive state) :
    Steps step state (whileSucceeds wanted attempt rounds state).events
      (whileSucceeds wanted attempt rounds state).state := by
  induction rounds generalizing state with
  | zero =>
      exact .refl state
  | succ rounds inductionHypothesis =>
      unfold whileSucceeds
      split
      case isTrue isWanted =>
        simp only [Outcome.events_bind, Outcome.state_bind]
        refine Steps.trans (steps isWanted holds) ?_
        split
        · exact inductionHypothesis (preserved isWanted holds)
        · exact .refl _
      · exact .refl state

end PacketAudit.Library
