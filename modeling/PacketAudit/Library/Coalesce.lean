import PacketAudit.Library.Segments

namespace PacketAudit.Library

/-!
# Coalescing adjacent runs

Runs that follow one another without a hole can be joined into one.  Joining
keeps every value at its position and leaves runs that are strictly apart, so
a list of runs without holes ends up as a single run.
-/

variable {α τ : Type}

/-- Some run of the list holds this value at the position. -/
def HoldsValue
    (segments : List (Segment α τ))
    (position : Int)
    (value : α) : Prop :=
  ∃ segment ∈ segments,
    valueAt segment.start segment.data position = some value

/-- The same run under another tag. -/
def Segment.retag
    {ρ : Type}
    (tag : ρ)
    (segment : Segment α τ) : Segment α ρ where
  start := segment.start
  data := segment.data
  tag := tag

/-- Join each run to the one before it if it starts where that one stops. -/
def coalesceFrom
    (previous : Segment α τ) :
    List (Segment α τ) → List (Segment α τ)
  | [] => [previous]
  | item :: rest =>
      if previous.stop = item.start then
        coalesceFrom
          { previous with data := previous.data ++ item.data } rest
      else
        previous :: coalesceFrom item rest

/-- Join all adjacent runs. -/
def coalesce : List (Segment α τ) → List (Segment α τ)
  | [] => []
  | first :: rest => coalesceFrom first rest

/-- The runs that coalescing joins to an earlier one. -/
def absorbedFrom
    (previous : Segment α τ) :
    List (Segment α τ) → List (Segment α τ)
  | [] => []
  | item :: rest =>
      if previous.stop = item.start then
        item ::
          absorbedFrom
            { previous with data := previous.data ++ item.data } rest
      else
        absorbedFrom item rest

/-- The runs of a list that disappear when it is coalesced. -/
def absorbed : List (Segment α τ) → List (Segment α τ)
  | [] => []
  | first :: rest => absorbedFrom first rest

/-- The runs follow one another with a hole between any two. -/
def Apart (segments : List (Segment α τ)) : Prop :=
  segments.Pairwise fun first second => first.stop < second.start

/-! ## Values -/

@[simp] theorem not_holdsValue_nil
    (position : Int)
    (value : α) :
    ¬ HoldsValue ([] : List (Segment α τ)) position value := by
  simp [HoldsValue]

@[simp] theorem holdsValue_cons
    {segment : Segment α τ}
    {rest : List (Segment α τ)}
    {position : Int}
    {value : α} :
    HoldsValue (segment :: rest) position value ↔
      valueAt segment.start segment.data position = some value ∨
        HoldsValue rest position value := by
  simp [HoldsValue]

/-- A value is held exactly when it is held under some tag. -/
theorem holdsValue_iff_holds
    {segments : List (Segment α τ)}
    {position : Int}
    {value : α} :
    HoldsValue segments position value ↔
      ∃ tag, Holds segments position (value, tag) := by
  constructor
  · rintro ⟨segment, member, held⟩
    refine ⟨segment.tag, segment, member, ?_⟩
    simp [Segment.at?_eq_valueAt, held]
  · rintro ⟨tag, segment, member, held⟩
    rw [Segment.at?_eq_valueAt, Option.map_eq_some_iff] at held
    obtain ⟨found, holds, same⟩ := held
    obtain ⟨rfl, -⟩ := Prod.mk.inj same
    exact ⟨segment, member, holds⟩

/-- A position is covered exactly when some value is held there. -/
theorem covers_iff_holdsValue
    {segments : List (Segment α τ)}
    {position : Int} :
    Covers segments position ↔
      ∃ value, HoldsValue segments position value := by
  simp only [covers_iff_holds, holdsValue_iff_holds, Prod.exists]

/-- Retagging changes no value. -/
theorem holdsValue_map_retag
    {ρ : Type}
    {tag : ρ}
    {segments : List (Segment α τ)}
    {position : Int}
    {value : α} :
    HoldsValue (segments.map (Segment.retag tag)) position value ↔
      HoldsValue segments position value := by
  simp [HoldsValue, Segment.retag]

theorem covers_map_retag
    {ρ : Type}
    {tag : ρ}
    {segments : List (Segment α τ)}
    {position : Int} :
    Covers (segments.map (Segment.retag tag)) position ↔
      Covers segments position := by
  simp only [covers_iff_holdsValue, holdsValue_map_retag]

theorem solid_map_retag
    {ρ : Type}
    {tag : ρ}
    {segments : List (Segment α τ)}
    (solid : Solid segments) :
    Solid (segments.map (Segment.retag tag)) := by
  intro segment member
  obtain ⟨original, originalMember, rfl⟩ := List.mem_map.mp member
  exact solid original originalMember

theorem ordered_map_retag
    {ρ : Type}
    {tag : ρ}
    {segments : List (Segment α τ)}
    (ordered : Ordered segments) :
    Ordered (segments.map (Segment.retag tag)) :=
  List.pairwise_map.mpr ordered

theorem holdsValue_append
    {first second : List (Segment α τ)}
    {position : Int}
    {value : α} :
    HoldsValue (first ++ second) position value ↔
      HoldsValue first position value ∨
        HoldsValue second position value := by
  simp only [holdsValue_iff_holds, holds_append, exists_or]

theorem holdsValue_insertSorted
    {existing additions : List (Segment α τ)}
    {position : Int}
    {value : α} :
    HoldsValue (insertSorted existing additions) position value ↔
      HoldsValue existing position value ∨
        HoldsValue additions position value := by
  simp only [holdsValue_iff_holds, holds_insertSorted, exists_or]

theorem holdsValue_coalesceFrom
    (previous : Segment α τ)
    (rest : List (Segment α τ))
    {position : Int}
    {value : α} :
    HoldsValue (coalesceFrom previous rest) position value ↔
      HoldsValue (previous :: rest) position value := by
  induction rest generalizing previous with
  | nil =>
      simp [coalesceFrom]
  | cons item rest inductionHypothesis =>
      unfold coalesceFrom
      split
      case isTrue adjacent =>
        have itemStart : previous.start + previous.data.length = item.start :=
          adjacent
        rw [inductionHypothesis, holdsValue_cons, valueAt_append, itemStart]
        simp [or_assoc]
      case isFalse =>
        simp only [holdsValue_cons, inductionHypothesis]

/-- Coalescing keeps every value at its position. -/
theorem holdsValue_coalesce
    {segments : List (Segment α τ)}
    {position : Int}
    {value : α} :
    HoldsValue (coalesce segments) position value ↔
      HoldsValue segments position value := by
  cases segments with
  | nil => rfl
  | cons first rest => exact holdsValue_coalesceFrom first rest

/-! ## Lengths -/

theorem totalLength_coalesceFrom
    (previous : Segment α τ)
    (rest : List (Segment α τ)) :
    totalLength (coalesceFrom previous rest) =
      totalLength (previous :: rest) := by
  induction rest generalizing previous with
  | nil =>
      rfl
  | cons item rest inductionHypothesis =>
      unfold coalesceFrom
      split
      · rw [inductionHypothesis]
        simp
        omega
      · simp [inductionHypothesis]

/-- Coalescing loses and gains no value. -/
theorem totalLength_coalesce (segments : List (Segment α τ)) :
    totalLength (coalesce segments) = totalLength segments := by
  cases segments with
  | nil => rfl
  | cons first rest => exact totalLength_coalesceFrom first rest

/--
The runs of a list that pass a test on their tag still hold what they held,
when those that were joined to others are counted with those that remain.
-/
theorem totalLength_filter_le_coalesceFrom
    (test : τ → Bool)
    (previous : Segment α τ)
    (rest : List (Segment α τ)) :
    totalLength ((previous :: rest).filter fun run => test run.tag) ≤
      totalLength
        ((coalesceFrom previous rest ++ absorbedFrom previous rest).filter
          fun run => test run.tag) := by
  induction rest generalizing previous with
  | nil =>
      simp [coalesceFrom, absorbedFrom]
  | cons item rest inductionHypothesis =>
      unfold coalesceFrom absorbedFrom
      simp only [List.filter_append, totalLength_append] at inductionHypothesis ⊢
      split
      case isTrue =>
        have joined :=
          inductionHypothesis
            { previous with data := previous.data ++ item.data }
        simp only [List.filter_cons] at joined ⊢
        by_cases previousPasses : test previous.tag <;>
          by_cases itemPasses : test item.tag <;>
          simp [previousPasses, itemPasses] at joined ⊢ <;>
          omega
      case isFalse =>
        have apart := inductionHypothesis item
        rw [List.filter_cons, List.filter_cons (x := previous)]
        split <;> simp <;> omega

theorem totalLength_filter_le_coalesce
    (test : τ → Bool)
    (segments : List (Segment α τ)) :
    totalLength (segments.filter fun run => test run.tag) ≤
      totalLength
        ((coalesce segments ++ absorbed segments).filter
          fun run => test run.tag) := by
  cases segments with
  | nil => exact le_refl _
  | cons first rest =>
      exact totalLength_filter_le_coalesceFrom test first rest

/-! ## Separation -/

/-- Coalescing an ordered list from one of its runs on. -/
theorem apart_coalesceFrom
    {previous : Segment α τ}
    {rest : List (Segment α τ)}
    (solid : Solid (previous :: rest))
    (ordered : Ordered (previous :: rest)) :
    Solid (coalesceFrom previous rest) ∧
      Apart (coalesceFrom previous rest) ∧
      ∀ run ∈ coalesceFrom previous rest, previous.start ≤ run.start := by
  induction rest generalizing previous with
  | nil =>
      refine ⟨solid, List.pairwise_singleton _ _, ?_⟩
      simp [coalesceFrom]
  | cons item rest inductionHypothesis =>
      obtain ⟨previousBefore, tailOrdered⟩ := List.pairwise_cons.mp ordered
      obtain ⟨itemBefore, restOrdered⟩ := List.pairwise_cons.mp tailOrdered
      have tailSolid : Solid (item :: rest) := fun run member =>
        solid run (List.mem_cons_of_mem _ member)
      have previousSolid := solid previous List.mem_cons_self
      have previousForward := Segment.start_lt_stop previousSolid
      unfold coalesceFrom
      split
      case isTrue adjacent =>
        have joinedStop :
            ({ previous with data := previous.data ++ item.data } :
              Segment α τ).stop = item.stop := by
          unfold Segment.stop at adjacent ⊢
          simp only [List.length_append]
          omega
        apply inductionHypothesis
        · intro run member
          rcases List.mem_cons.mp member with rfl | inRest
          · simp [previousSolid]
          · exact tailSolid run (List.mem_cons_of_mem _ inRest)
        · refine List.pairwise_cons.mpr ⟨?_, restOrdered⟩
          intro run member
          rw [joinedStop]
          exact itemBefore run member
      case isFalse separate =>
        obtain ⟨coalescedSolid, coalescedApart, later⟩ :=
          inductionHypothesis tailSolid tailOrdered
        have gap : previous.stop < item.start :=
          lt_of_le_of_ne (previousBefore item List.mem_cons_self) separate
        refine ⟨?_, ?_, ?_⟩
        · intro run member
          rcases List.mem_cons.mp member with rfl | inRest
          · exact previousSolid
          · exact coalescedSolid run inRest
        · refine List.pairwise_cons.mpr ⟨?_, coalescedApart⟩
          intro run member
          exact lt_of_lt_of_le gap (later run member)
        · intro run member
          rcases List.mem_cons.mp member with rfl | inRest
          · exact le_refl _
          · have := later run inRest
            omega

/-- Coalescing ordered runs leaves solid runs with holes between them. -/
theorem apart_coalesce
    {segments : List (Segment α τ)}
    (solid : Solid segments)
    (ordered : Ordered segments) :
    Solid (coalesce segments) ∧ Apart (coalesce segments) := by
  cases segments with
  | nil => exact ⟨by simp [coalesce, Solid], List.Pairwise.nil⟩
  | cons first rest =>
      obtain ⟨coalescedSolid, coalescedApart, -⟩ :=
        apart_coalesceFrom solid ordered
      exact ⟨coalescedSolid, coalescedApart⟩

theorem apart_map_retag
    {ρ : Type}
    {tag : ρ}
    {segments : List (Segment α τ)}
    (apart : Apart segments) :
    Apart (segments.map (Segment.retag tag)) :=
  List.pairwise_map.mpr apart

/-- Runs with holes between them do not overlap. -/
theorem Apart.ordered
    {segments : List (Segment α τ)}
    (apart : Apart segments) :
    Ordered segments :=
  apart.imp le_of_lt

/-- Runs that cover one interval and have holes between them are one run. -/
theorem Apart.eq_singleton
    {segments : List (Segment α τ)}
    (apart : Apart segments)
    (solid : Solid segments)
    {first last : Int}
    (nonempty : first < last)
    (covers :
      ∀ position, Covers segments position ↔
        first ≤ position ∧ position < last) :
    ∃ run, segments = [run] ∧ run.start = first ∧ run.stop = last := by
  cases segments with
  | nil => simpa using (covers first).mpr ⟨le_refl _, nonempty⟩
  | cons run rest =>
      obtain ⟨before, -⟩ := List.pairwise_cons.mp apart
      have runForward :=
        Segment.start_lt_stop (solid run List.mem_cons_self)
      have runStart :=
        (covers run.start).mp (covers_cons.mpr (.inl ⟨le_refl _, runForward⟩))
      have runStop :=
        (covers (run.stop - 1)).mp
          (covers_cons.mpr (.inl ⟨by omega, by omega⟩))
      have stopsLast : run.stop = last := by
        by_contra stopsEarly
        rcases covers_cons.mp
            ((covers run.stop).mpr ⟨by omega, by omega⟩) with
          inside | ⟨later, member, inside⟩
        · unfold Segment.Contains at inside
          omega
        · have gap := before later member
          unfold Segment.Contains at inside
          omega
      have startsFirst : run.start = first := by
        by_contra startsLate
        rcases covers_cons.mp
            ((covers first).mpr ⟨le_refl _, nonempty⟩) with
          inside | ⟨later, member, inside⟩
        · unfold Segment.Contains at inside
          omega
        · have gap := before later member
          unfold Segment.Contains at inside
          omega
      refine ⟨run, ?_, startsFirst, stopsLast⟩
      cases rest with
      | nil => rfl
      | cons later others =>
          have gap := before later List.mem_cons_self
          have laterForward :=
            Segment.start_lt_stop
              (solid later (List.mem_cons_of_mem _ List.mem_cons_self))
          have inside :=
            (covers later.start).mp
              ⟨later, List.mem_cons_of_mem _ List.mem_cons_self,
                le_refl _, laterForward⟩
          omega

end PacketAudit.Library
