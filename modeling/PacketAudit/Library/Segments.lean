import Mathlib

namespace PacketAudit.Library

/-!
# Tagged runs of values on the integer line

A `Segment` places a finite run of values at consecutive integer positions and
gives the whole run one tag.  This module develops what a first-seen store of
such runs needs: carving a new run around the runs already held, merging the
pieces into an ordered list, and reading the value held at one position.

Nothing here depends on what the positions, values or tags mean.
-/

variable {α τ : Type}

/-- A run of values at consecutive positions, carrying one tag. -/
structure Segment (α τ : Type) where
  start : Int
  data : List α
  tag : τ
  deriving Repr, DecidableEq

namespace Segment

/-- The position right after the last value. -/
def stop (segment : Segment α τ) : Int :=
  segment.start + segment.data.length

/-- The position lies inside the run. -/
def Contains (segment : Segment α τ) (position : Int) : Prop :=
  segment.start ≤ position ∧ position < segment.stop

instance (segment : Segment α τ) (position : Int) :
    Decidable (segment.Contains position) :=
  inferInstanceAs (Decidable (_ ∧ _))

/-- The value and tag the run holds at a position. -/
def at? (segment : Segment α τ) (position : Int) : Option (α × τ) :=
  if segment.start ≤ position then
    (segment.data[(position - segment.start).toNat]?).map (·, segment.tag)
  else
    none

/-- The run without everything after its first `count` values. -/
def takeFront (count : Nat) (segment : Segment α τ) : Segment α τ :=
  { segment with data := segment.data.take count }

/-- The run without its first `count` values. -/
def dropFront (count : Nat) (segment : Segment α τ) : Segment α τ where
  start := segment.start + count
  data := segment.data.drop count
  tag := segment.tag

/-- A run holds a value exactly at the positions it contains. -/
theorem at?_isSome
    {segment : Segment α τ}
    {position : Int} :
    (segment.at? position).isSome ↔ segment.Contains position := by
  unfold at? Contains stop
  split <;> simp <;> omega

/-- A position at which some value is held is contained. -/
theorem contains_of_at?
    {segment : Segment α τ}
    {position : Int}
    {held : α × τ}
    (holds : segment.at? position = some held) :
    segment.Contains position := by
  rw [← at?_isSome, holds]
  rfl

/-- Outside the run nothing is held. -/
theorem at?_eq_none
    {segment : Segment α τ}
    {position : Int} :
    segment.at? position = none ↔ ¬ segment.Contains position := by
  rw [← at?_isSome]
  simp

/-- Every held value carries the run's tag. -/
theorem tag_of_at?
    {segment : Segment α τ}
    {position : Int}
    {held : α × τ}
    (holds : segment.at? position = some held) :
    held.2 = segment.tag := by
  unfold at? at holds
  split at holds
  · obtain ⟨value, -, rfl⟩ := Option.map_eq_some_iff.mp holds
    rfl
  · cases holds

/-- Reading by index from the start of the run. -/
theorem at?_offset
    (segment : Segment α τ)
    (index : Nat) :
    segment.at? (segment.start + index) =
      (segment.data[index]?).map (·, segment.tag) := by
  have before : segment.start ≤ segment.start + (index : Int) := by omega
  simp [at?, before]

/-- Taking the front keeps exactly the positions before the cut. -/
theorem at?_takeFront
    (segment : Segment α τ)
    (count : Nat)
    (position : Int) :
    (segment.takeFront count).at? position =
      if position < segment.start + count then
        segment.at? position
      else
        none := by
  unfold at? takeFront
  by_cases before : segment.start ≤ position
  · simp only [before, ↓reduceIte, List.getElem?_take]
    have cut :
        (position - segment.start).toNat < count ↔
          position < segment.start + count := by
      omega
    by_cases inFront : position < segment.start + count
    · simp [inFront, cut.mpr inFront]
    · simp [inFront, mt cut.mp inFront]
  · simp [before]

/-- Dropping the front keeps exactly the positions from the cut on. -/
theorem at?_dropFront
    (segment : Segment α τ)
    (count : Nat)
    (position : Int) :
    (segment.dropFront count).at? position =
      if segment.start + count ≤ position then
        segment.at? position
      else
        none := by
  unfold at? dropFront
  by_cases fromCut : segment.start + (count : Int) ≤ position
  · have before : segment.start ≤ position := by omega
    have index :
        count + (position - (segment.start + count)).toNat =
          (position - segment.start).toNat := by
      omega
    simp [fromCut, before, index]
  · simp [fromCut]

theorem stop_takeFront
    {segment : Segment α τ}
    {count : Nat}
    (within : count ≤ segment.data.length) :
    (segment.takeFront count).stop = segment.start + count := by
  simp [stop, takeFront, within]

theorem stop_dropFront
    {segment : Segment α τ}
    {count : Nat}
    (within : count ≤ segment.data.length) :
    (segment.dropFront count).stop = segment.stop := by
  simp [stop, dropFront]
  omega

/-- A nonempty run stops strictly after it starts. -/
theorem start_lt_stop
    {segment : Segment α τ}
    (nonempty : segment.data ≠ []) :
    segment.start < segment.stop := by
  have := List.length_pos_iff.mpr nonempty
  unfold stop
  omega

end Segment

/-- Some run of the list contains the position. -/
def Covers (segments : List (Segment α τ)) (position : Int) : Prop :=
  ∃ segment ∈ segments, segment.Contains position

/-- Some run of the list holds this value and tag at the position. -/
def Holds
    (segments : List (Segment α τ))
    (position : Int)
    (held : α × τ) : Prop :=
  ∃ segment ∈ segments, segment.at? position = some held

instance (segments : List (Segment α τ)) (position : Int) :
    Decidable (Covers segments position) :=
  inferInstanceAs (Decidable (∃ segment ∈ segments, segment.Contains position))

/-- The runs follow one another without overlap. -/
def Ordered (segments : List (Segment α τ)) : Prop :=
  segments.Pairwise fun first second => first.stop ≤ second.start

/-- No run is empty. -/
def Solid (segments : List (Segment α τ)) : Prop :=
  ∀ segment ∈ segments, segment.data ≠ []

/-- The number of values held by a list of runs. -/
def totalLength (segments : List (Segment α τ)) : Nat :=
  (segments.map fun segment => segment.data.length).sum

@[simp] theorem not_covers_nil (position : Int) :
    ¬ Covers ([] : List (Segment α τ)) position := by
  simp [Covers]

@[simp] theorem not_holds_nil (position : Int) (held : α × τ) :
    ¬ Holds [] position held := by
  simp [Holds]

@[simp] theorem holds_cons
    {segment : Segment α τ}
    {rest : List (Segment α τ)}
    {position : Int}
    {held : α × τ} :
    Holds (segment :: rest) position held ↔
      segment.at? position = some held ∨ Holds rest position held := by
  simp [Holds]

@[simp] theorem covers_cons
    {segment : Segment α τ}
    {rest : List (Segment α τ)}
    {position : Int} :
    Covers (segment :: rest) position ↔
      segment.Contains position ∨ Covers rest position := by
  simp [Covers]

@[simp] theorem holds_append
    {first second : List (Segment α τ)}
    {position : Int}
    {held : α × τ} :
    Holds (first ++ second) position held ↔
      Holds first position held ∨ Holds second position held := by
  simp only [Holds, List.mem_append]
  constructor
  · rintro ⟨segment, inFirst | inSecond, holds⟩
    · exact .inl ⟨segment, inFirst, holds⟩
    · exact .inr ⟨segment, inSecond, holds⟩
  · rintro (⟨segment, member, holds⟩ | ⟨segment, member, holds⟩)
    · exact ⟨segment, .inl member, holds⟩
    · exact ⟨segment, .inr member, holds⟩

/-- A position is covered exactly when something is held there. -/
theorem covers_iff_holds
    {segments : List (Segment α τ)}
    {position : Int} :
    Covers segments position ↔ ∃ held, Holds segments position held := by
  constructor
  · rintro ⟨segment, member, inside⟩
    obtain ⟨held, holds⟩ :=
      Option.isSome_iff_exists.mp (Segment.at?_isSome.mpr inside)
    exact ⟨held, segment, member, holds⟩
  · rintro ⟨held, segment, member, holds⟩
    exact ⟨segment, member, Segment.contains_of_at? holds⟩

/-- Holding does not depend on the order of the runs. -/
theorem holds_perm
    {first second : List (Segment α τ)}
    (permutation : first.Perm second)
    {position : Int}
    {held : α × τ} :
    Holds first position held ↔ Holds second position held := by
  simp only [Holds, permutation.mem_iff]

@[simp] theorem totalLength_nil :
    totalLength ([] : List (Segment α τ)) = 0 := rfl

@[simp] theorem totalLength_cons
    (segment : Segment α τ)
    (rest : List (Segment α τ)) :
    totalLength (segment :: rest) =
      segment.data.length + totalLength rest := by
  simp [totalLength]

@[simp] theorem totalLength_append
    (first second : List (Segment α τ)) :
    totalLength (first ++ second) =
      totalLength first + totalLength second := by
  simp [totalLength]

theorem totalLength_perm
    {first second : List (Segment α τ)}
    (permutation : first.Perm second) :
    totalLength first = totalLength second :=
  (permutation.map _).sum_eq

namespace Ordered

/-- In an ordered list at most one run holds a value at a position. -/
theorem holds_unique
    {segments : List (Segment α τ)}
    (ordered : Ordered segments)
    {position : Int}
    {first second : α × τ}
    (firstHeld : Holds segments position first)
    (secondHeld : Holds segments position second) :
    first = second := by
  induction segments with
  | nil =>
      simp at firstHeld
  | cons segment rest inductionHypothesis =>
      obtain ⟨before, restOrdered⟩ := List.pairwise_cons.mp ordered
      have headExcludesRest
          {one other : α × τ}
          (atHead : segment.at? position = some one)
          (inRest : Holds rest position other) : False := by
        obtain ⟨later, member, laterHolds⟩ := inRest
        have headInside := Segment.contains_of_at? atHead
        have laterInside := Segment.contains_of_at? laterHolds
        have apart := before later member
        unfold Segment.Contains at headInside laterInside
        omega
      rcases holds_cons.mp firstHeld with firstHead | firstRest
      · rcases holds_cons.mp secondHeld with secondHead | secondRest
        · exact Option.some.inj (firstHead.symm.trans secondHead)
        · exact (headExcludesRest firstHead secondRest).elim
      · rcases holds_cons.mp secondHeld with secondHead | secondRest
        · exact (headExcludesRest secondHead firstRest).elim
        · exact inductionHypothesis restOrdered firstRest secondRest

end Ordered

/-! ## Carving a new run around held runs -/

/-- The parts of `piece` outside `old`: at most one on each side. -/
def carve (old piece : Segment α τ) : List (Segment α τ) :=
  if piece.stop ≤ old.start ∨ old.stop ≤ piece.start then
    [piece]
  else
    (if piece.start < old.start then
      [piece.takeFront (old.start - piece.start).toNat]
    else
      []) ++
    (if old.stop < piece.stop then
      [piece.dropFront (old.stop - piece.start).toNat]
    else
      [])

/-- Carve every piece around every held run, stopping once nothing is left. -/
def carveAll :
    List (Segment α τ) → List (Segment α τ) → List (Segment α τ)
  | [], pieces => pieces
  | old :: rest, pieces =>
      let remaining := pieces.flatMap (carve old)
      if remaining.isEmpty then remaining else carveAll rest remaining

/-- The parts of a run not represented in the held runs. -/
def uncovered
    (piece : Segment α τ)
    (existing : List (Segment α τ)) :
    List (Segment α τ) :=
  carveAll existing (if piece.data.isEmpty then [] else [piece])

/-- Carving keeps exactly the values outside the held run. -/
theorem holds_carve
    {old piece : Segment α τ}
    {position : Int}
    {held : α × τ} :
    Holds (carve old piece) position held ↔
      piece.at? position = some held ∧ ¬ old.Contains position := by
  unfold carve
  by_cases apart : piece.stop ≤ old.start ∨ old.stop ≤ piece.start
  · simp only [apart, ↓reduceIte, holds_cons, not_holds_nil, or_false,
      iff_self_and]
    intro holds inside
    have pieceInside := Segment.contains_of_at? holds
    unfold Segment.Contains at inside pieceInside
    omega
  · simp only [apart, ↓reduceIte, holds_append]
    have leftPart :
        Holds
            (if piece.start < old.start then
              [piece.takeFront (old.start - piece.start).toNat]
            else []) position held ↔
          piece.at? position = some held ∧ position < old.start := by
      split
      · rw [holds_cons, Segment.at?_takeFront]
        have cut :
            position < piece.start + ((old.start - piece.start).toNat : Int) ↔
              position < old.start := by
          omega
        simp only [cut, not_holds_nil, or_false]
        split <;> simp_all
      · simp only [not_holds_nil, false_iff, not_and, not_lt]
        intro holds
        have inside := Segment.contains_of_at? holds
        unfold Segment.Contains at inside
        omega
    have rightPart :
        Holds
            (if old.stop < piece.stop then
              [piece.dropFront (old.stop - piece.start).toNat]
            else []) position held ↔
          piece.at? position = some held ∧ old.stop ≤ position := by
      split
      · rw [holds_cons, Segment.at?_dropFront]
        have cut :
            piece.start + ((old.stop - piece.start).toNat : Int) ≤ position ↔
              old.stop ≤ position := by
          omega
        simp only [cut, not_holds_nil, or_false]
        split <;> simp_all
      · simp only [not_holds_nil, false_iff, not_and, not_le]
        intro holds
        have inside := Segment.contains_of_at? holds
        unfold Segment.Contains at inside
        omega
    rw [leftPart, rightPart, ← and_or_left]
    unfold Segment.Contains
    constructor
    · rintro ⟨holds, outside⟩
      exact ⟨holds, by omega⟩
    · rintro ⟨holds, outside⟩
      exact ⟨holds, by omega⟩

/-- A carved part is nonempty, keeps the tag and lies inside the piece. -/
theorem of_mem_carve
    {old piece part : Segment α τ}
    (nonempty : piece.data ≠ [])
    (member : part ∈ carve old piece) :
    part.data ≠ [] ∧ part.tag = piece.tag ∧
      piece.start ≤ part.start ∧ part.stop ≤ piece.stop := by
  have positive := List.length_pos_iff.mpr nonempty
  unfold carve at member
  split at member
  · obtain rfl := List.mem_singleton.mp member
    exact ⟨nonempty, rfl, le_refl _, le_refl _⟩
  case isFalse overlapping =>
    have pieceStop : piece.stop = piece.start + piece.data.length := rfl
    rcases List.mem_append.mp member with inLeft | inRight
    · split at inLeft
      case isTrue startsBefore =>
        obtain rfl := List.mem_singleton.mp inLeft
        have within :
            (old.start - piece.start).toNat ≤ piece.data.length := by
          omega
        refine ⟨?_, rfl, le_refl _, ?_⟩
        · simp only [Segment.takeFront, ne_eq, List.take_eq_nil_iff, nonempty,
            or_false]
          omega
        · rw [Segment.stop_takeFront within]
          omega
      case isFalse => simp at inLeft
    · split at inRight
      case isTrue stopsAfter =>
        obtain rfl := List.mem_singleton.mp inRight
        have within :
            (old.stop - piece.start).toNat ≤ piece.data.length := by
          omega
        refine ⟨?_, rfl, ?_, ?_⟩
        · simp only [Segment.dropFront, ne_eq, List.drop_eq_nil_iff]
          omega
        · simp only [Segment.dropFront]
          omega
        · rw [Segment.stop_dropFront within]
      case isFalse => simp at inRight

/-- The two carved parts come in position order. -/
theorem ordered_carve
    {old piece : Segment α τ}
    (oldForward : old.start ≤ old.stop) :
    Ordered (carve old piece) := by
  unfold carve Ordered
  split
  · simp
  case isFalse overlapping =>
    have pieceStop : piece.stop = piece.start + piece.data.length := rfl
    split
    case isTrue startsBefore =>
      have within :
          (old.start - piece.start).toNat ≤ piece.data.length := by
        omega
      split
      · simp only [List.cons_append, List.nil_append, List.pairwise_cons,
          List.mem_singleton, forall_eq, List.not_mem_nil, false_implies,
          implies_true, List.Pairwise.nil, and_true]
        rw [Segment.stop_takeFront within]
        simp only [Segment.dropFront]
        omega
      · simp
    case isFalse => split <;> simp

/-- Carving an ordered list of pieces keeps it ordered. -/
theorem ordered_flatMap_carve
    {old : Segment α τ}
    {pieces : List (Segment α τ)}
    (oldForward : old.start ≤ old.stop)
    (solid : Solid pieces)
    (ordered : Ordered pieces) :
    Ordered (pieces.flatMap (carve old)) := by
  unfold Ordered
  rw [List.pairwise_flatMap]
  refine ⟨fun piece _ => ordered_carve oldForward, ?_⟩
  refine ordered.imp_of_mem ?_
  intro first second firstMember secondMember apart
    firstPart firstIn secondPart secondIn
  obtain ⟨-, -, -, firstStop⟩ := of_mem_carve (solid _ firstMember) firstIn
  obtain ⟨-, -, secondStart, -⟩ := of_mem_carve (solid _ secondMember) secondIn
  omega

/-- What carving a list of pieces around a list of held runs guarantees. -/
structure CarveSpec
    (existing pieces result : List (Segment α τ)) : Prop where
  holds :
    ∀ {position held},
      Holds result position held ↔
        Holds pieces position held ∧ ¬ Covers existing position
  solid : Solid result
  ordered : Ordered result
  origin :
    ∀ part ∈ result, ∃ piece ∈ pieces,
      part.tag = piece.tag ∧ piece.start ≤ part.start ∧
        part.stop ≤ piece.stop

theorem carveAll_spec
    {existing pieces : List (Segment α τ)}
    (existingForward : ∀ old ∈ existing, old.start ≤ old.stop)
    (solid : Solid pieces)
    (ordered : Ordered pieces) :
    CarveSpec existing pieces (carveAll existing pieces) := by
  induction existing generalizing pieces with
  | nil =>
      exact {
        holds := by simp [carveAll]
        solid := solid
        ordered := ordered
        origin := fun part member =>
          ⟨part, member, rfl, le_refl _, le_refl _⟩
      }
  | cons old rest inductionHypothesis =>
      have oldForward := existingForward old List.mem_cons_self
      have remainingHolds
          {position : Int}
          {held : α × τ} :
          Holds (pieces.flatMap (carve old)) position held ↔
            Holds pieces position held ∧ ¬ old.Contains position := by
        constructor
        · rintro ⟨part, member, holds⟩
          obtain ⟨piece, pieceMember, partMember⟩ :=
            List.mem_flatMap.mp member
          obtain ⟨pieceHolds, outside⟩ :=
            holds_carve.mp ⟨part, partMember, holds⟩
          exact ⟨⟨piece, pieceMember, pieceHolds⟩, outside⟩
        · rintro ⟨⟨piece, pieceMember, pieceHolds⟩, outside⟩
          obtain ⟨part, partMember, holds⟩ :=
            holds_carve.mpr ⟨pieceHolds, outside⟩
          exact ⟨part,
            List.mem_flatMap.mpr ⟨piece, pieceMember, partMember⟩, holds⟩
      have remainingSolid : Solid (pieces.flatMap (carve old)) := by
        intro part member
        obtain ⟨piece, pieceMember, partMember⟩ :=
          List.mem_flatMap.mp member
        exact (of_mem_carve (solid _ pieceMember) partMember).1
      have remainingOrigin :
          ∀ part ∈ pieces.flatMap (carve old), ∃ piece ∈ pieces,
            part.tag = piece.tag ∧ piece.start ≤ part.start ∧
              part.stop ≤ piece.stop := by
        intro part member
        obtain ⟨piece, pieceMember, partMember⟩ :=
          List.mem_flatMap.mp member
        exact ⟨piece, pieceMember,
          (of_mem_carve (solid _ pieceMember) partMember).2⟩
      have remainingOrdered :=
        ordered_flatMap_carve oldForward solid ordered
      simp only [carveAll]
      split
      case isTrue noneLeft =>
        have empty : pieces.flatMap (carve old) = [] := by
          simpa using noneLeft
        refine {
          holds := ?_
          solid := remainingSolid
          ordered := remainingOrdered
          origin := remainingOrigin
        }
        intro position held
        rw [covers_cons, not_or, ← and_assoc, ← remainingHolds, empty]
        simp
      case isFalse =>
        have spec :=
          inductionHypothesis
            (fun later member =>
              existingForward later (List.mem_cons_of_mem _ member))
            remainingSolid remainingOrdered
        refine {
          holds := ?_
          solid := spec.solid
          ordered := spec.ordered
          origin := ?_
        }
        · intro position held
          rw [spec.holds, remainingHolds, covers_cons, not_or, and_assoc]
        · intro part member
          obtain ⟨middle, middleMember, sameTag, lower, upper⟩ :=
            spec.origin part member
          obtain ⟨piece, pieceMember, pieceTag, pieceLower, pieceUpper⟩ :=
            remainingOrigin middle middleMember
          exact ⟨piece, pieceMember, sameTag.trans pieceTag,
            pieceLower.trans lower, upper.trans pieceUpper⟩

theorem uncovered_spec
    {existing : List (Segment α τ)}
    (existingForward : ∀ old ∈ existing, old.start ≤ old.stop)
    (piece : Segment α τ) :
    CarveSpec existing [piece] (uncovered piece existing) := by
  unfold uncovered
  split
  case isTrue empty =>
    have noData : piece.data = [] := by simpa using empty
    have spec : CarveSpec existing [] (carveAll existing []) :=
      carveAll_spec existingForward (by simp [Solid]) List.Pairwise.nil
    refine {
      holds := ?_
      solid := spec.solid
      ordered := spec.ordered
      origin := ?_
    }
    · intro position held
      rw [spec.holds]
      simp [Segment.at?, noData]
    · intro part member
      obtain ⟨origin, originMember, -⟩ := spec.origin part member
      simp at originMember
  case isFalse nonempty =>
    exact carveAll_spec existingForward
      (by simpa [Solid] using nonempty) (List.pairwise_singleton _ _)

/-- Nothing of a run is left exactly when all of it is covered. -/
theorem uncovered_eq_nil
    {existing : List (Segment α τ)}
    (existingForward : ∀ old ∈ existing, old.start ≤ old.stop)
    {piece : Segment α τ} :
    uncovered piece existing = [] ↔
      ∀ position, piece.Contains position → Covers existing position := by
  have spec := uncovered_spec existingForward piece
  constructor
  · intro nothing position inside
    by_contra outside
    obtain ⟨held, holds⟩ :=
      Option.isSome_iff_exists.mp (Segment.at?_isSome.mpr inside)
    have left : Holds (uncovered piece existing) position held :=
      spec.holds.mpr ⟨by simpa using holds, outside⟩
    simp [nothing] at left
  · intro covered
    cases parts : uncovered piece existing with
    | nil => rfl
    | cons part rest =>
        have member : part ∈ uncovered piece existing := by
          simp [parts]
        have forward := Segment.start_lt_stop (spec.solid part member)
        obtain ⟨held, holds⟩ :=
          Option.isSome_iff_exists.mp
            (Segment.at?_isSome.mpr
              (⟨le_refl _, forward⟩ : part.Contains part.start))
        obtain ⟨inPiece, outside⟩ := spec.holds.mp ⟨part, member, holds⟩
        have pieceHolds : piece.at? part.start = some held := by
          simpa using inPiece
        exact (outside
          (covered _ (Segment.contains_of_at? pieceHolds))).elim

/-- Every run stops at or after its start. -/
theorem Segment.start_le_stop (segment : Segment α τ) :
    segment.start ≤ segment.stop := by
  unfold Segment.stop
  omega

/-! ## Inserting the uncovered parts -/

/-- Position order of runs, as used for sorting. -/
def StartsBefore (first second : Segment α τ) : Prop :=
  first.start ≤ second.start

instance : DecidableRel (StartsBefore (α := α) (τ := τ)) :=
  fun first second => inferInstanceAs (Decidable (first.start ≤ second.start))

instance : Std.Total (StartsBefore (α := α) (τ := τ)) where
  total first second := le_total first.start second.start

instance : IsTrans (Segment α τ) StartsBefore where
  trans _ _ _ := le_trans

/-- Add runs to a list and sort it stably by start. -/
def insertSorted
    (existing additions : List (Segment α τ)) :
    List (Segment α τ) :=
  (existing ++ additions).insertionSort StartsBefore

theorem insertSorted_perm (existing additions : List (Segment α τ)) :
    (insertSorted existing additions).Perm (existing ++ additions) :=
  List.perm_insertionSort _ _

theorem holds_insertSorted
    {existing additions : List (Segment α τ)}
    {position : Int}
    {held : α × τ} :
    Holds (insertSorted existing additions) position held ↔
      Holds existing position held ∨ Holds additions position held := by
  rw [holds_perm (insertSorted_perm _ _), holds_append]

theorem totalLength_insertSorted
    (existing additions : List (Segment α τ)) :
    totalLength (insertSorted existing additions) =
      totalLength existing + totalLength additions := by
  rw [totalLength_perm (insertSorted_perm _ _), totalLength_append]

theorem length_insertSorted
    (existing additions : List (Segment α τ)) :
    (insertSorted existing additions).length =
      existing.length + additions.length := by
  rw [(insertSorted_perm _ _).length_eq, List.length_append]

theorem mem_insertSorted
    {existing additions : List (Segment α τ)}
    {segment : Segment α τ} :
    segment ∈ insertSorted existing additions ↔
      segment ∈ existing ∨ segment ∈ additions := by
  rw [(insertSorted_perm _ _).mem_iff, List.mem_append]

theorem solid_insertSorted
    {existing additions : List (Segment α τ)}
    (existingSolid : Solid existing)
    (additionsSolid : Solid additions) :
    Solid (insertSorted existing additions) := by
  intro segment member
  rcases mem_insertSorted.mp member with held | added
  · exact existingSolid segment held
  · exact additionsSolid segment added

/-- Nonempty runs without a shared position do not overlap as intervals. -/
theorem apart_of_disjoint
    {first second : Segment α τ}
    (firstNonempty : first.data ≠ [])
    (secondNonempty : second.data ≠ [])
    (disjoint :
      ∀ position, first.Contains position → ¬ second.Contains position) :
    first.stop ≤ second.start ∨ second.stop ≤ first.start := by
  by_contra overlapping
  have firstForward := Segment.start_lt_stop firstNonempty
  have secondForward := Segment.start_lt_stop secondNonempty
  apply disjoint (max first.start second.start)
  · unfold Segment.Contains
    omega
  · unfold Segment.Contains
    omega

/-- Sorting pairwise disjoint nonempty runs makes them ordered. -/
theorem ordered_insertSorted
    {existing additions : List (Segment α τ)}
    (existingSolid : Solid existing)
    (existingOrdered : Ordered existing)
    (additionsSolid : Solid additions)
    (additionsOrdered : Ordered additions)
    (disjoint :
      ∀ position, Covers additions position → ¬ Covers existing position) :
    Ordered (insertSorted existing additions) := by
  have apart :
      (existing ++ additions).Pairwise fun first second =>
        first.stop ≤ second.start ∨ second.stop ≤ first.start := by
    rw [List.pairwise_append]
    refine ⟨existingOrdered.imp .inl, additionsOrdered.imp .inl, ?_⟩
    intro old oldMember added addedMember
    apply apart_of_disjoint (existingSolid _ oldMember)
      (additionsSolid _ addedMember)
    intro position inOld inAdded
    exact disjoint position ⟨added, addedMember, inAdded⟩
      ⟨old, oldMember, inOld⟩
  have sortedApart :
      (insertSorted existing additions).Pairwise fun first second =>
        first.stop ≤ second.start ∨ second.stop ≤ first.start :=
    (insertSorted_perm existing additions).symm.pairwise apart Or.symm
  have sorted :
      (insertSorted existing additions).Pairwise StartsBefore :=
    List.pairwise_insertionSort _ _
  refine (sortedApart.and sorted).imp_of_mem ?_
  rintro first second - secondMember ⟨apartStarts, startsBefore⟩
  have secondForward :=
    Segment.start_lt_stop
      (solid_insertSorted existingSolid additionsSolid second secondMember)
  unfold StartsBefore at startsBefore
  omega

/-! ## Comparing overlapping runs -/

/-- The values of a list between two indices. -/
def slice (data : List α) (first last : Int) : List α :=
  (data.take last.toNat).drop first.toNat

/-- The values two runs give to their shared positions differ. -/
def overlapDiffers
    [DecidableEq α]
    (start : Int)
    (data : List α)
    (otherStart : Int)
    (other : List α) : Bool :=
  let overlapStart := max start otherStart
  let overlapStop := min (start + data.length) (otherStart + other.length)
  decide (overlapStart < overlapStop) &&
    decide
      (slice data (overlapStart - start) (overlapStop - start) ≠
        slice other (overlapStart - otherStart) (overlapStop - otherStart))

/-- The value a run of values holds at an absolute position. -/
def valueAt (start : Int) (data : List α) (position : Int) : Option α :=
  if start ≤ position then data[(position - start).toNat]? else none

/-- A run holds its own values, each with the run's tag. -/
theorem Segment.at?_eq_valueAt
    (segment : Segment α τ)
    (position : Int) :
    segment.at? position =
      (valueAt segment.start segment.data position).map
        (·, segment.tag) := by
  unfold Segment.at? valueAt
  split <;> rfl

theorem getElem?_slice
    (start : Int)
    (data : List α)
    {first last : Int}
    (fromStart : start ≤ first)
    (index : Nat) :
    (slice data (first - start) (last - start))[index]? =
      if first + index < last then valueAt start data (first + index)
      else none := by
  have before : start ≤ first + (index : Int) := by omega
  have position :
      (first - start).toNat + index = (first + index - start).toNat := by
    omega
  unfold slice valueAt
  rw [List.getElem?_drop, List.getElem?_take, position]
  simp only [before, ↓reduceIte]
  by_cases inside : first + (index : Int) < last
  · have cut : (first + index - start).toNat < (last - start).toNat := by omega
    simp [inside, cut]
  · have cut : ¬ (first + index - start).toNat < (last - start).toNat := by
      omega
    simp [inside, cut]

theorem valueAt_isSome
    {start : Int}
    {data : List α}
    {position : Int} :
    (valueAt start data position).isSome ↔
      start ≤ position ∧ position < start + data.length := by
  unfold valueAt
  split <;> simp <;> omega

/-- A run holds values only at its own positions. -/
theorem within_of_valueAt
    {start position : Int}
    {data : List α}
    {value : α}
    (held : valueAt start data position = some value) :
    start ≤ position ∧ position < start + data.length := by
  rw [← valueAt_isSome, held]
  rfl

/-- Two runs put end to end hold what the first holds, then the second. -/
theorem valueAt_append
    (start : Int)
    (first second : List α)
    (position : Int)
    (value : α) :
    valueAt start (first ++ second) position = some value ↔
      valueAt start first position = some value ∨
        valueAt (start + first.length) second position = some value := by
  unfold valueAt
  by_cases before : start ≤ position
  · by_cases inFirst : (position - start).toNat < first.length
    · have notSecond : ¬ start + (first.length : Int) ≤ position := by omega
      simp [before, notSecond, List.getElem?_append_left inFirst]
    · have inSecond : start + (first.length : Int) ≤ position := by omega
      have index :
          (position - start).toNat - first.length =
            (position - (start + first.length)).toNat := by
        omega
      have beyond : first[(position - start).toNat]? = none :=
        List.getElem?_eq_none (by omega)
      rw [List.getElem?_append_right (by omega), index]
      simp [before, inSecond, beyond]
  · have notSecond : ¬ start + (first.length : Int) ≤ position := by omega
    simp [before, notSecond]

/-- The values behind dropped ones stay where they are. -/
theorem valueAt_drop
    {start position : Int}
    {data : List α}
    {count : Nat}
    {value : α}
    (held : valueAt (start + count) (data.drop count) position = some value) :
    valueAt start data position = some value := by
  unfold valueAt at held ⊢
  split at held
  case isTrue fromCut =>
    have fromStart : start ≤ position := by omega
    have index :
        count + (position - (start + (count : Int))).toNat =
          (position - start).toNat := by
      omega
    rw [if_pos fromStart]
    rwa [List.getElem?_drop, index] at held
  case isFalse => cases held

/-- Dropping the bytes before a position changes none at or past it. -/
theorem valueAt_drop_of_le
    {start next position : Int}
    {data : List α}
    (ahead : next ≤ position) :
    valueAt (start + ((next - start).toNat : Int))
        (data.drop (next - start).toNat) position =
      valueAt start data position := by
  unfold valueAt
  by_cases fromStart : start ≤ position
  · rw [if_pos (by omega), if_pos fromStart, List.getElem?_drop]
    congr 1
    omega
  · rw [if_neg (by omega), if_neg fromStart]

/-- Overlaps differ exactly when two values at one position differ. -/
theorem overlapDiffers_iff
    [DecidableEq α]
    {start otherStart : Int}
    {data other : List α} :
    overlapDiffers start data otherStart other ↔
      ∃ position value otherValue,
        valueAt start data position = some value ∧
          valueAt otherStart other position = some otherValue ∧
          value ≠ otherValue := by
  simp only [overlapDiffers, Bool.and_eq_true, decide_eq_true_eq]
  constructor
  · rintro ⟨overlapping, different⟩
    obtain ⟨index, indexDiffers⟩ :
        ∃ index : Nat,
          (slice data (max start otherStart - start)
            (min (start + data.length) (otherStart + other.length) -
              start))[index]? ≠
          (slice other (max start otherStart - otherStart)
            (min (start + data.length) (otherStart + other.length) -
              otherStart))[index]? := by
      by_contra same
      push Not at same
      exact different (List.ext_getElem? same)
    rw [getElem?_slice _ _ (le_max_left _ _),
      getElem?_slice _ _ (le_max_right _ _)] at indexDiffers
    split at indexDiffers
    case isTrue inside =>
      have valueSome :
          (valueAt start data (max start otherStart + index)).isSome :=
        valueAt_isSome.mpr (by omega)
      have otherSome :
          (valueAt otherStart other
            (max start otherStart + index)).isSome :=
        valueAt_isSome.mpr (by omega)
      obtain ⟨value, valueHeld⟩ := Option.isSome_iff_exists.mp valueSome
      obtain ⟨otherValue, otherHeld⟩ :=
        Option.isSome_iff_exists.mp otherSome
      refine ⟨_, value, otherValue, valueHeld, otherHeld, ?_⟩
      rintro rfl
      exact indexDiffers (valueHeld.trans otherHeld.symm)
    case isFalse => exact (indexDiffers rfl).elim
  · rintro ⟨position, value, otherValue, valueHeld, otherHeld, different⟩
    have inside :=
      valueAt_isSome.mp (Option.isSome_iff_exists.mpr ⟨value, valueHeld⟩)
    have otherInside :=
      valueAt_isSome.mp (Option.isSome_iff_exists.mpr ⟨otherValue, otherHeld⟩)
    refine ⟨by omega, fun same => different ?_⟩
    have index :
        max start otherStart +
            ((position - max start otherStart).toNat : Int) =
          position := by
      omega
    have before :
        position < min (start + data.length) (otherStart + other.length) := by
      omega
    have sameElement :=
      congrArg (·[(position - max start otherStart).toNat]?) same
    rw [getElem?_slice _ _ (le_max_left _ _),
      getElem?_slice _ _ (le_max_right _ _), index, if_pos before,
      if_pos before, valueHeld, otherHeld] at sameElement
    exact Option.some.inj sameElement

/-- Two runs that agree with one reference do not differ. -/
theorem overlapDiffers_eq_false
    [DecidableEq α]
    {start otherStart : Int}
    {data other : List α}
    {reference : Int → Option α}
    (agrees :
      ∀ {position value},
        valueAt start data position = some value →
        reference position = some value)
    (otherAgrees :
      ∀ {position value},
        valueAt otherStart other position = some value →
        reference position = some value) :
    overlapDiffers start data otherStart other = false := by
  rw [Bool.eq_false_iff]
  intro differs
  obtain ⟨position, value, otherValue, held, otherHeld, different⟩ :=
    overlapDiffers_iff.mp differs
  exact different
    (Option.some.inj ((agrees held).symm.trans (otherAgrees otherHeld)))

/-- Adjacent slices join. -/
theorem slice_append_slice
    (data : List α)
    {first middle last : Int}
    (nonnegative : 0 ≤ first)
    (before : first ≤ middle)
    (after : middle ≤ last) :
    slice data first middle ++ slice data middle last =
      slice data first last := by
  unfold slice
  have cut : middle.toNat = first.toNat + (middle - first).toNat := by omega
  apply List.ext_getElem?
  intro index
  by_cases inFirst :
      index < ((data.take middle.toNat).drop first.toNat).length
  · rw [List.getElem?_append_left inFirst]
    simp only [List.length_drop, List.length_take] at inFirst
    rw [List.getElem?_drop, List.getElem?_drop,
      List.getElem?_take_of_lt (by omega),
      List.getElem?_take_of_lt (by omega)]
  · rw [List.getElem?_append_right (by omega)]
    simp only [List.length_drop, List.length_take] at inFirst ⊢
    rw [List.getElem?_drop, List.getElem?_drop, List.getElem?_take,
      List.getElem?_take]
    by_cases reaches : data.length ≤ middle.toNat
    · have beyond (position : Nat) (past : data.length ≤ position) :
          data[position]? = none := List.getElem?_eq_none past
      rw [beyond _ (by omega), beyond _ (by omega)]
      simp
    · have position :
          middle.toNat +
              (index - (min middle.toNat data.length - first.toNat)) =
            first.toNat + index := by
        omega
      rw [position]

theorem slice_all
    (data : List α)
    {last : Int}
    (whole : last = data.length) :
    slice data 0 last = data := by
  subst whole
  simp [slice]

end PacketAudit.Library
