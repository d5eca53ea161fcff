import PacketAudit.Library.Search

namespace PacketAudit.Library

/-!
# Lines of a growing list

A line starts at the front or behind a separator and ends with the next one.
Growing the list adds lines behind its complete ones and changes none of them.
-/

variable {α : Type} [DecidableEq α]

/-- A line starts at this position. -/
def startsLine (newline : α) (data : List α) (position : Nat) : Bool :=
  decide (position = 0) || decide (data[position - 1]? = some newline)

/-- The positions from `first` up to `last` where a line starts. -/
def lineStarts
    (newline : α)
    (data : List α)
    (first last : Nat) : List Nat :=
  (List.range' first (last - first)).filter (startsLine newline data)

/-- The first separator from a position on. -/
def lineEnd (newline : α) (data : List α) (position : Nat) : Option Nat :=
  findSub [newline] data position data.length

variable {newline : α} {data : List α}

omit [DecidableEq α] in
theorem occursAt_singleton {position : Nat} :
    OccursAt [newline] data position ↔ data[position]? = some newline := by
  unfold OccursAt
  rw [List.extract_eq_take_drop, List.length_singleton,
    Nat.add_sub_cancel_left]
  cases inside : data.drop position with
  | nil =>
      have behind : data.length ≤ position := List.drop_eq_nil_iff.mp inside
      simp [List.getElem?_eq_none behind]
  | cons first rest =>
      have isFirst : data[position]? = some first := by
        rw [← List.head?_drop, inside]
        rfl
      simp [isFirst]

theorem lineEnd_eq_some
    {position stop : Nat} :
    lineEnd newline data position = some stop ↔
      position ≤ stop ∧ data[stop]? = some newline ∧
        ∀ between, position ≤ between → between < stop →
          data[between]? ≠ some newline := by
  unfold lineEnd
  rw [findSub_eq_some, List.length_singleton, Nat.min_self]
  simp only [occursAt_singleton]
  constructor
  · rintro ⟨⟨fromStart, -⟩, ends, first⟩
    exact ⟨fromStart, ends, first⟩
  · rintro ⟨fromStart, ends, first⟩
    have inside := (List.getElem?_eq_some_iff.mp ends).1
    exact ⟨⟨fromStart, inside⟩, ends, first⟩

theorem lineEnd_eq_none
    {position : Nat} :
    lineEnd newline data position = none ↔
      ∀ later, position ≤ later → data[later]? ≠ some newline := by
  unfold lineEnd
  rw [findSub_eq_none, List.length_singleton, Nat.min_self]
  simp only [occursAt_singleton]
  constructor
  · intro never later fromStart ends
    have inside := (List.getElem?_eq_some_iff.mp ends).1
    exact never later fromStart inside ends
  · intro never later fromStart _
    exact never later fromStart

theorem lineEnd_lt
    {position stop : Nat}
    (ends : lineEnd newline data position = some stop) :
    stop < data.length :=
  (List.getElem?_eq_some_iff.mp (lineEnd_eq_some.mp ends).2.1).1

/-- A complete line stays the same line. -/
theorem lineEnd_append
    {position stop : Nat}
    (ends : lineEnd newline data position = some stop)
    (more : List α) :
    lineEnd newline (data ++ more) position = some stop :=
  findSub_append ends more (by rw [List.length_append]; omega)

theorem startsLine_append
    {position : Nat}
    (inside : position ≤ data.length)
    (more : List α) :
    startsLine newline (data ++ more) position =
      startsLine newline data position := by
  unfold startsLine
  rcases Nat.eq_zero_or_pos position with atFront | behind
  · simp [atFront]
  · rw [List.getElem?_append_left (by omega)]

theorem startsLine_succ (stop : Nat) :
    startsLine newline data (stop + 1) =
      decide (data[stop]? = some newline) := by
  simp [startsLine]

theorem lineStarts_append
    {first middle last : Nat}
    (notBefore : first ≤ middle)
    (before : middle ≤ last) :
    lineStarts newline data first middle ++
        lineStarts newline data middle last =
      lineStarts newline data first last := by
  have shape :
      List.range' first (middle - first) ++
          List.range' middle (last - middle) =
        List.range' first (last - first) := by
    have sizes : last - first = (middle - first) + (last - middle) := by
      omega
    have start : first + (middle - first) = middle := by omega
    rw [sizes, ← List.range'_append_1, start]
  rw [lineStarts, lineStarts, ← List.filter_append, shape]
  rfl

/-- Later lines do not change where the lines of the list start. -/
theorem lineStarts_more
    {first last : Nat}
    (inside : last ≤ data.length + 1)
    (more : List α) :
    lineStarts newline (data ++ more) first last =
      lineStarts newline data first last := by
  apply List.filter_congr
  intro position member
  have bounds := List.mem_range'_1.mp member
  exact startsLine_append (by omega) more

theorem mem_lineStarts
    {first last position : Nat} :
    position ∈ lineStarts newline data first last ↔
      first ≤ position ∧ position < last ∧
        startsLine newline data position = true := by
  unfold lineStarts
  rw [List.mem_filter, List.mem_range'_1]
  constructor
  · rintro ⟨⟨above, below⟩, starts⟩
    exact ⟨above, by omega, starts⟩
  · rintro ⟨above, below, starts⟩
    exact ⟨⟨above, by omega⟩, starts⟩

/-- Up to the next separator only the first position may start a line. -/
theorem lineStarts_of_no_newline
    {first last : Nat}
    (nonempty : first < last)
    (oneLine :
      ∀ between, first ≤ between → between + 1 < last →
        data[between]? ≠ some newline) :
    lineStarts newline data first last =
      if startsLine newline data first then [first] else [] := by
  have rest :
      lineStarts newline data (first + 1) last = [] := by
    rw [List.eq_nil_iff_forall_not_mem]
    intro position member
    obtain ⟨above, below, starts⟩ := mem_lineStarts.mp member
    obtain ⟨previous, rfl⟩ : ∃ previous, position = previous + 1 :=
      ⟨position - 1, by omega⟩
    rw [startsLine_succ, decide_eq_true_eq] at starts
    exact oneLine previous (by omega) below starts
  rw [← lineStarts_append (Nat.le_succ first) nonempty, rest,
    List.append_nil]
  simp [lineStarts, List.filter_cons]

end PacketAudit.Library
