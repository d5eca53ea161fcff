import Mathlib

namespace PacketAudit.Library

/-!
# Searching a list for a sublist

`findSub` is the search of `bytes.find(sub, start, stop)`: the first position
from `start` on at which `sub` occurs entirely before `stop`.
-/

variable {α : Type} [DecidableEq α]

/-- The sublist occurs at this index. -/
def OccursAt (sub data : List α) (index : Nat) : Prop :=
  data.extract index (index + sub.length) = sub

instance (sub data : List α) (index : Nat) :
    Decidable (OccursAt sub data index) :=
  inferInstanceAs (Decidable (_ = _))

/-- The first occurrence of `sub` that lies between `start` and `stop`. -/
def findSub (sub data : List α) (start stop : Nat) : Option Nat :=
  (List.range' start
    (min stop data.length + 1 - sub.length - start)).find? fun index =>
      decide (OccursAt sub data index)

theorem findSub_eq_some
    {sub data : List α}
    {start stop index : Nat} :
    findSub sub data start stop = some index ↔
      (start ≤ index ∧ index + sub.length ≤ min stop data.length) ∧
        OccursAt sub data index ∧
        ∀ earlier, start ≤ earlier → earlier < index →
          ¬ OccursAt sub data earlier := by
  unfold findSub
  rw [List.find?_range'_eq_some]
  simp only [decide_eq_true_eq, Bool.not_eq_eq_eq_not, Bool.not_true,
    decide_eq_false_iff_not, List.mem_range'_1]
  constructor
  · rintro ⟨occurs, inRange, first⟩
    exact ⟨by omega, occurs, first⟩
  · rintro ⟨inside, occurs, first⟩
    exact ⟨occurs, by omega, first⟩

theorem findSub_eq_none
    {sub data : List α}
    {start stop : Nat} :
    findSub sub data start stop = none ↔
      ∀ index, start ≤ index → index + sub.length ≤ min stop data.length →
        ¬ OccursAt sub data index := by
  unfold findSub
  rw [List.find?_eq_none]
  simp only [decide_eq_true_eq, List.mem_range'_1]
  constructor
  · intro never index fromStart inside
    exact never index (by omega)
  · intro never index inRange
    exact never index (by omega) (by omega)

/-! ## Reading behind a known front -/

omit [DecidableEq α] in
/-- Adjacent parts of a list make up the part that spans both. -/
theorem extract_append_extract
    (stream : List α)
    {start middle stop : Nat}
    (notBefore : start ≤ middle)
    (before : middle ≤ stop) :
    stream.extract start middle ++ stream.extract middle stop =
      stream.extract start stop := by
  simp only [List.extract_eq_take_drop]
  have shape :
      stream.drop middle = (stream.drop start).drop (middle - start) := by
    rw [List.drop_drop]
    congr 1
    omega
  have sizes : stop - start = (middle - start) + (stop - middle) := by omega
  rw [shape, sizes, List.take_add]

omit [DecidableEq α] in
/-- The part of a list right behind a front of known length. -/
theorem extract_append_front
    (front middle rest : List α)
    {first last : Nat}
    (isFirst : first = front.length)
    (isLast : last = front.length + middle.length) :
    (front ++ (middle ++ rest)).extract first last = middle := by
  subst isFirst isLast
  simp [List.extract_eq_take_drop]

omit [DecidableEq α] in
/-- An element right behind a front of known length. -/
theorem getElem?_append_front
    (front : List α)
    (next : α)
    (rest : List α)
    {index : Nat}
    (isNext : index = front.length) :
    (front ++ next :: rest)[index]? = some next := by
  subst isNext
  simp

omit [DecidableEq α] in
/-- A sublist that occurs behind a front occurs in what follows the front. -/
theorem occursAt_append_front
    (sub front rest : List α)
    (offset : Nat) :
    OccursAt sub (front ++ rest) (front.length + offset) ↔
      OccursAt sub rest offset := by
  have span :
      front.length + offset + sub.length - (front.length + offset) =
        offset + sub.length - offset := by
    omega
  unfold OccursAt
  rw [List.extract_eq_take_drop, List.extract_eq_take_drop, span,
    List.drop_append, List.drop_eq_nil_of_le (by omega), List.nil_append]
  simp

omit [DecidableEq α] in
/-- A part of what follows a front. -/
theorem extract_append_add
    (front rest : List α)
    (first last : Nat) :
    (front ++ rest).extract (front.length + first) (front.length + last) =
      rest.extract first last := by
  have span :
      front.length + last - (front.length + first) = last - first := by
    omega
  rw [List.extract_eq_take_drop, List.extract_eq_take_drop, span,
    List.drop_append, List.drop_eq_nil_of_le (by omega), List.nil_append]
  simp

/-- A search behind a front is a search in what follows the front. -/
theorem findSub_append_front
    (sub front rest : List α)
    (start stop : Nat) :
    findSub sub (front ++ rest) (front.length + start)
        (front.length + stop) =
      (findSub sub rest start stop).map (front.length + ·) := by
  have bound :
      min (front.length + stop) (front ++ rest).length =
        front.length + min stop rest.length := by
    rw [List.length_append]
    omega
  cases found : findSub sub rest start stop with
  | none =>
      rw [Option.map_none, findSub_eq_none]
      intro index fromStart inside
      rw [bound] at inside
      obtain ⟨offset, rfl⟩ : ∃ offset, index = front.length + offset :=
        ⟨index - front.length, by omega⟩
      rw [occursAt_append_front]
      exact findSub_eq_none.mp found offset (by omega) (by omega)
  | some index =>
      obtain ⟨⟨fromStart, inside⟩, occurs, isFirst⟩ :=
        findSub_eq_some.mp found
      rw [Option.map_some, findSub_eq_some, bound, occursAt_append_front]
      refine ⟨by omega, occurs, ?_⟩
      intro earlier notBefore before
      obtain ⟨offset, rfl⟩ : ∃ offset, earlier = front.length + offset :=
        ⟨earlier - front.length, by omega⟩
      rw [occursAt_append_front]
      exact isFirst offset (by omega) (by omega)

/-- What is found stays found where there is more to search. -/
theorem findSub_append
    {sub data : List α}
    {start stop index : Nat}
    (found : findSub sub data start stop = some index)
    (more : List α)
    {later : Nat}
    (notLess : min stop data.length ≤ min later (data ++ more).length) :
    findSub sub (data ++ more) start later = some index := by
  obtain ⟨⟨fromStart, inside⟩, occurs, isFirst⟩ := findSub_eq_some.mp found
  have same
      {position : Nat}
      (within : position + sub.length ≤ data.length) :
      OccursAt sub (data ++ more) position ↔ OccursAt sub data position := by
    unfold OccursAt
    rw [List.extract_eq_take_drop, List.extract_eq_take_drop,
      List.drop_append_of_le_length (by omega),
      List.take_append_of_le_length (by rw [List.length_drop]; omega)]
  refine findSub_eq_some.mpr ⟨by omega, (same (by omega)).mpr occurs, ?_⟩
  intro earlier notBefore before occursEarlier
  exact isFirst earlier notBefore before
    ((same (by omega)).mp occursEarlier)

end PacketAudit.Library
