import PacketAudit.Library.Search

namespace PacketAudit.Library

/-!
# Framing a stream that arrives in pieces

A framing function looks at the rest of a stream and waits, stops for good, or
steps over a frame.  `Framed` is what it makes of a whole stream.  A function
that is stable under extension of what it sees makes the same of every way to
present the stream: `Framed.resume` is the rule for going on with more of it.
-/

section Reading

variable {α : Type}
variable {seen rest : List α}

/-- What was read inside a prefix is read in the whole. -/
theorem extract_of_isPrefix
    (isPrefix : seen <+: rest)
    {first last : Nat}
    (inside : last ≤ seen.length) :
    rest.extract first last = seen.extract first last := by
  obtain ⟨more, rfl⟩ := isPrefix
  rw [List.extract_eq_take_drop, List.extract_eq_take_drop]
  by_cases order : first ≤ last
  · rw [List.drop_append_of_le_length (by omega),
      List.take_append_of_le_length (by simp; omega)]
  · rw [Nat.sub_eq_zero_of_le (by omega)]
    rfl

theorem occursAt_of_isPrefix
    (isPrefix : seen <+: rest)
    {sub : List α}
    {index : Nat}
    (inside : index + sub.length ≤ seen.length) :
    OccursAt sub rest index ↔ OccursAt sub seen index := by
  unfold OccursAt
  rw [extract_of_isPrefix isPrefix inside]

variable [DecidableEq α]

/-- What is found in a prefix is found in the whole. -/
theorem findSub_of_isPrefix
    (isPrefix : seen <+: rest)
    {sub : List α}
    {start index : Nat}
    (found : findSub sub seen start seen.length = some index) :
    findSub sub rest start rest.length = some index := by
  have shorter := isPrefix.length_le
  obtain ⟨⟨fromStart, inside⟩, occurs, isFirst⟩ := findSub_eq_some.mp found
  rw [Nat.min_self] at inside
  refine findSub_eq_some.mpr ⟨⟨fromStart, by omega⟩, ?_, ?_⟩
  · exact (occursAt_of_isPrefix isPrefix inside).mpr occurs
  · intro earlier notBefore before occursEarlier
    exact isFirst earlier notBefore before
      ((occursAt_of_isPrefix isPrefix (by omega)).mp occursEarlier)

/-- What is found in the whole but not in a prefix ends behind the prefix. -/
theorem length_lt_of_findSub
    (isPrefix : seen <+: rest)
    {sub : List α}
    {start index : Nat}
    (missing : findSub sub seen start seen.length = none)
    (found : findSub sub rest start rest.length = some index) :
    seen.length < index + sub.length := by
  obtain ⟨⟨fromStart, -⟩, occurs, -⟩ := findSub_eq_some.mp found
  by_contra inside
  rw [Nat.not_lt] at inside
  exact findSub_eq_none.mp missing index fromStart (by omega)
    ((occursAt_of_isPrefix isPrefix inside).mp occurs)

end Reading

/-! ## Framing -/

variable {α μ : Type}

/-- What a framing function makes of the rest of a stream. -/
inductive Verdict (μ : Type) where
  | wait
  | stop
  | step (size : Nat) (outputs : List μ)

/-- The frames of a stream from a cursor on, and where framing ends. -/
inductive Framed
    (frame : List α → Verdict μ)
    (stream : List α) :
    Nat → List (Nat × μ) → Nat → Bool → Prop where
  | atEnd
      {cursor : Nat}
      (isEnd : stream.length ≤ cursor) :
      Framed frame stream cursor [] cursor false
  | wait
      {cursor : Nat}
      (inside : cursor < stream.length)
      (waits : frame (stream.drop cursor) = .wait) :
      Framed frame stream cursor [] cursor false
  | stop
      {cursor : Nat}
      (inside : cursor < stream.length)
      (stops : frame (stream.drop cursor) = .stop) :
      Framed frame stream cursor [] cursor true
  | step
      {cursor size final : Nat}
      {outputs : List μ}
      {later : List (Nat × μ)}
      {stopped : Bool}
      (inside : cursor < stream.length)
      (steps : frame (stream.drop cursor) = .step size outputs)
      (continues :
        Framed frame stream (cursor + size) later final stopped) :
      Framed frame stream cursor
        (outputs.map (Prod.mk cursor) ++ later) final stopped

/-- The positions at which frames of a stream begin. -/
inductive FrameStart
    (frame : List α → Verdict μ)
    (stream : List α)
    (cursor : Nat) : Nat → Prop where
  | first : FrameStart frame stream cursor cursor
  | next
      {position size : Nat}
      {outputs : List μ}
      (isStart : FrameStart frame stream cursor position)
      (inside : position < stream.length)
      (steps : frame (stream.drop position) = .step size outputs) :
      FrameStart frame stream cursor (position + size)

/-- Seeing more of the rest changes no verdict but waiting. -/
def PrefixStable
    (frame : List α → Verdict μ)
    (rest : List α) : Prop :=
  ∀ seen, seen <+: rest →
    frame seen = .wait ∨ frame seen = frame rest

theorem FrameStart.trans
    {frame : List α → Verdict μ}
    {stream : List α}
    {cursor middle position : Nat}
    (before : FrameStart frame stream cursor middle)
    (after : FrameStart frame stream middle position) :
    FrameStart frame stream cursor position := by
  induction after with
  | first => exact before
  | next _ inside steps isStart => exact .next isStart inside steps

namespace Framed

variable {frame : List α → Verdict μ}
variable {stream : List α}
variable {cursor final other : Nat}
variable {outputs others : List (Nat × μ)}
variable {stopped halted : Bool}

/-- A stream is framed in one way only. -/
theorem unique
    (first : Framed frame stream cursor outputs final stopped)
    (second : Framed frame stream cursor others other halted) :
    outputs = others ∧ final = other ∧ stopped = halted := by
  induction first generalizing others other halted with
  | atEnd isEnd =>
      cases second with
      | atEnd => exact ⟨rfl, rfl, rfl⟩
      | wait inside => exact absurd inside (Nat.not_lt.mpr isEnd)
      | stop inside => exact absurd inside (Nat.not_lt.mpr isEnd)
      | step inside => exact absurd inside (Nat.not_lt.mpr isEnd)
  | wait inside waits =>
      cases second with
      | atEnd isEnd => exact absurd inside (Nat.not_lt.mpr isEnd)
      | wait => exact ⟨rfl, rfl, rfl⟩
      | stop _ stops => rw [waits] at stops; cases stops
      | step _ steps => rw [waits] at steps; cases steps
  | stop inside stops =>
      cases second with
      | atEnd isEnd => exact absurd inside (Nat.not_lt.mpr isEnd)
      | wait _ waits => rw [stops] at waits; cases waits
      | stop => exact ⟨rfl, rfl, rfl⟩
      | step _ steps => rw [stops] at steps; cases steps
  | step inside steps continues inductionHypothesis =>
      cases second with
      | atEnd isEnd => exact absurd inside (Nat.not_lt.mpr isEnd)
      | wait _ waits => rw [steps] at waits; cases waits
      | stop _ stops => rw [steps] at stops; cases stops
      | step _ sameSteps sameContinues =>
          rw [steps] at sameSteps
          cases sameSteps
          obtain ⟨rfl, rfl, rfl⟩ := inductionHypothesis sameContinues
          exact ⟨rfl, rfl, rfl⟩

/-- The rest of a prefix of a stream is a prefix of the rest. -/
theorem isPrefix_drop
    {part : List α}
    (isPrefix : part <+: stream)
    (position : Nat) :
    part.drop position <+: stream.drop position := by
  obtain ⟨more, rfl⟩ := isPrefix
  rw [List.drop_append]
  exact List.prefix_append _ _

/-- A step over a frame in a prefix is a step in the stream. -/
theorem step_of_isPrefix
    {part : List α}
    (isPrefix : part <+: stream)
    {position size : Nat}
    {outputs : List μ}
    (stable : PrefixStable frame (stream.drop position))
    (steps : frame (part.drop position) = .step size outputs) :
    frame (stream.drop position) = .step size outputs := by
  rcases stable _ (isPrefix_drop isPrefix position) with waits | same
  · rw [steps] at waits
    cases waits
  · rw [← same, steps]

/-- The frames of a prefix begin where frames of the stream begin. -/
theorem start_of_isPrefix
    {part : List α}
    (isPrefix : part <+: stream)
    (stable :
      ∀ position, FrameStart frame stream cursor position →
        PrefixStable frame (stream.drop position))
    {position : Nat}
    (isStart : FrameStart frame part cursor position) :
    FrameStart frame stream cursor position := by
  have shorter := isPrefix.length_le
  induction isStart with
  | first =>
      exact .first
  | next _ inside steps isStart =>
      exact .next isStart (by omega)
        (step_of_isPrefix isPrefix (stable _ isStart) steps)

/--
What was framed in a prefix of the stream is framed in the stream: framing
that stopped has stopped, and framing that did not can be resumed.
-/
theorem resume
    {part : List α}
    (isPrefix : part <+: stream)
    (framed : Framed frame part cursor outputs final stopped)
    (stable :
      ∀ position, FrameStart frame stream cursor position →
        PrefixStable frame (stream.drop position)) :
    (stopped = true →
        Framed frame stream cursor outputs final true) ∧
      (stopped = false →
        FrameStart frame stream cursor final ∧
        ∀ {later last ending},
          Framed frame stream final later last ending →
            Framed frame stream cursor (outputs ++ later) last ending) := by
  have shorter := isPrefix.length_le
  induction framed with
  | atEnd isEnd =>
      exact ⟨by simp, fun _ => ⟨.first, fun continues => continues⟩⟩
  | wait inside waits =>
      exact ⟨by simp, fun _ => ⟨.first, fun continues => continues⟩⟩
  | @stop cursor inside stops =>
      refine ⟨fun _ => .stop (by omega) ?_, by simp⟩
      rcases stable cursor .first _ (isPrefix_drop isPrefix cursor) with
        waits | same
      · rw [stops] at waits
        cases waits
      · rw [← same, stops]
  | @step cursor size final outputs later stopped inside steps continues
      inductionHypothesis =>
      have wholeSteps :=
        step_of_isPrefix isPrefix (stable cursor .first) steps
      have wholeInside : cursor < stream.length := by omega
      have onward :
          FrameStart frame stream cursor (cursor + size) :=
        .next .first wholeInside wholeSteps
      obtain ⟨stops, resumes⟩ :=
        inductionHypothesis fun position isStart =>
          stable position (onward.trans isStart)
      refine ⟨fun isStopped => ?_, fun notStopped => ?_⟩
      · exact .step wholeInside wholeSteps (stops isStopped)
      · obtain ⟨isStart, resumes⟩ := resumes notStopped
        refine ⟨onward.trans isStart, fun continuing => ?_⟩
        rw [List.append_assoc]
        exact .step wholeInside wholeSteps (resumes continuing)

end Framed

end PacketAudit.Library
