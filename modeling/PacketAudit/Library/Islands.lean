import PacketAudit.Library.Segments

namespace PacketAudit.Library

/-!
# Islands of adjoining stretches

Values arrive in stretches that do not overlap and go on to the right, with
holes between some of them.  Stretches without a hole between them make up an
island.  A reader that keeps a suffix of the latest island keeps values of the
stretches at their own positions.
-/

variable {α : Type}

/-- Values at consecutive positions. -/
structure Stretch (α : Type) where
  start : Int
  data : List α
  deriving Repr, DecidableEq

namespace Stretch

/-- The position right after the last value. -/
def stop (stretch : Stretch α) : Int :=
  stretch.start + stretch.data.length

/-- The value at a position. -/
def at? (stretch : Stretch α) (position : Int) : Option α :=
  valueAt stretch.start stretch.data position

/-- The island that a stretch leaves behind: the last one, or its own. -/
def follow (island : Option (Stretch α)) (next : Stretch α) : Stretch α :=
  match island with
  | none => next
  | some island =>
      if next.start = island.stop then
        { island with data := island.data ++ next.data }
      else
        next

/-- The following stretch ends the island. -/
@[simp] theorem stop_follow
    (island : Option (Stretch α))
    (next : Stretch α) :
    (follow island next).stop = next.stop := by
  unfold follow
  cases island with
  | none => rfl
  | some island =>
      simp only
      split
      case isTrue adjoins =>
        simp only [stop, List.length_append] at adjoins ⊢
        omega
      case isFalse => rfl

/-- The following stretch is the end of the island. -/
theorem suffix_follow
    (island : Option (Stretch α))
    (next : Stretch α) :
    next.data <:+ (follow island next).data := by
  unfold follow
  cases island with
  | none => exact List.suffix_rfl
  | some island =>
      simp only
      split
      · exact List.suffix_append island.data next.data
      · exact List.suffix_rfl

theorem at?_follow
    {island : Option (Stretch α)}
    {next : Stretch α}
    {position : Int}
    {value : α}
    (held : (follow island next).at? position = some value) :
    (∃ earlier, island = some earlier ∧ earlier.at? position = some value) ∨
      next.at? position = some value := by
  unfold follow at held
  cases island with
  | none => exact .inr held
  | some island =>
      simp only at held
      split at held
      case isTrue adjoins =>
        unfold at? at held ⊢
        rw [valueAt_append] at held
        rw [adjoins]
        rcases held with inIsland | inNext
        · exact .inl ⟨island, rfl, inIsland⟩
        · exact .inr inNext
      case isFalse => exact .inr held

/-- A suffix of a stretch that ends where it ends has its values. -/
theorem at?_of_suffix
    {stretch : Stretch α}
    {start : Int}
    {data : List α}
    (suffix : data <:+ stretch.data)
    (sameStop : start + data.length = stretch.stop)
    {index : Nat}
    {value : α}
    (held : data[index]? = some value) :
    stretch.at? (start + index) = some value := by
  obtain ⟨earlier, whole⟩ := suffix
  have begins : start = stretch.start + earlier.length := by
    rw [stop, ← whole, List.length_append] at sameStop
    omega
  have index_eq :
      (start + index - stretch.start).toNat = earlier.length + index := by
    omega
  rw [at?, valueAt, if_pos (by omega), index_eq, ← whole,
    List.getElem?_append_right (Nat.le_add_right _ _)]
  simpa using held

end Stretch

/-- The latest island of stretches. -/
def latestIsland (stretches : List (Stretch α)) : Option (Stretch α) :=
  stretches.foldl (fun island next => some (Stretch.follow island next)) none

theorem latestIsland_concat
    (stretches : List (Stretch α))
    (next : Stretch α) :
    latestIsland (stretches ++ [next]) =
      some (Stretch.follow (latestIsland stretches) next) := by
  simp [latestIsland]

/-- The latest island ends where one of the stretches ends. -/
theorem stop_latestIsland
    {stretches : List (Stretch α)}
    {island : Stretch α}
    (isLatest : latestIsland stretches = some island) :
    ∃ stretch ∈ stretches, stretch.stop = island.stop := by
  rcases List.eq_nil_or_concat stretches with empty | ⟨earlier, next, shape⟩
  · rw [empty] at isLatest
    cases isLatest
  · rw [List.concat_eq_append] at shape
    subst shape
    rw [latestIsland_concat, Option.some.injEq] at isLatest
    exact ⟨next, by simp, by rw [← isLatest, Stretch.stop_follow]⟩

/-- The latest island has values of its stretches only. -/
theorem at?_latestIsland
    {stretches : List (Stretch α)}
    {island : Stretch α}
    (isLatest : latestIsland stretches = some island)
    {position : Int}
    {value : α}
    (held : island.at? position = some value) :
    ∃ stretch ∈ stretches, stretch.at? position = some value := by
  induction stretches using List.reverseRecOn generalizing island with
  | nil => cases isLatest
  | append_singleton earlier next inductionHypothesis =>
      rw [latestIsland_concat, Option.some.injEq] at isLatest
      subst isLatest
      rcases Stretch.at?_follow held with
        ⟨last, isLast, inLast⟩ | inNext
      · obtain ⟨stretch, member, holds⟩ := inductionHypothesis isLast inLast
        exact ⟨stretch, List.mem_append_left _ member, holds⟩
      · exact ⟨next, by simp, inNext⟩

/-- The value at a position of the stream that the stretches are part of. -/
def streamValue (stretches : List (Stretch α)) (position : Int) : Option α :=
  stretches.findSome? fun stretch => stretch.at? position

/-- Each stretch begins where the earlier ones have ended, or later. -/
def GoingRight (stretches : List (Stretch α)) : Prop :=
  stretches.Pairwise fun earlier later => earlier.stop ≤ later.start

/-- Where stretches do not overlap, the stream has the values of each. -/
theorem streamValue_of_mem
    {stretches : List (Stretch α)}
    (goingRight : GoingRight stretches)
    {stretch : Stretch α}
    (member : stretch ∈ stretches)
    {position : Int}
    {value : α}
    (held : stretch.at? position = some value) :
    streamValue stretches position = some value := by
  induction stretches with
  | nil => cases member
  | cons first rest inductionHypothesis =>
      obtain ⟨before, restGoes⟩ := List.pairwise_cons.mp goingRight
      unfold streamValue
      rw [List.findSome?_cons]
      rcases List.mem_cons.mp member with rfl | inRest
      · rw [held]
      · have begins := (within_of_valueAt held).1
        have isBefore := before stretch inRest
        have notFirst : first.at? position = none := by
          rw [← Option.not_isSome_iff_eq_none, Stretch.at?, valueAt_isSome]
          unfold Stretch.stop at isBefore
          omega
        rw [notFirst]
        exact inductionHypothesis restGoes inRest

end PacketAudit.Library
