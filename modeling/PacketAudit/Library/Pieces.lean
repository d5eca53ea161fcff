import Mathlib

namespace PacketAudit.Library

/-!
# Pieces between separators

Splitting a list at its separators, with the position of each piece, and what
a search finds that goes on behind each of its matches.
-/

/-! ## Splitting -/

section Splitting

variable {α : Type}

/-- Lists with one element between each two, each with its position. -/
def placeFrom : (start : Nat) → List (List α) → List (Nat × List α)
  | _, [] => []
  | start, piece :: later =>
      (start, piece) :: placeFrom (start + piece.length + 1) later

variable (isSeparator : α → Bool)

/-- The pieces between the separators, each with its position. -/
def placedPieces (data : List α) : List (Nat × List α) :=
  placeFrom 0 (data.splitOnP isSeparator)

/-- What stands before the first separator. -/
def firstPiece (data : List α) : List α :=
  data.takeWhile fun element => !isSeparator element

/-- The pieces behind each separator, where `start` is the position of the data. -/
def laterPieces : (start : Nat) → List α → List (Nat × List α)
  | _, [] => []
  | start, element :: rest =>
      if isSeparator element then
        (start + 1, firstPiece isSeparator rest) :: laterPieces (start + 1) rest
      else
        laterPieces (start + 1) rest

theorem firstPiece_cons
    (element : α)
    (rest : List α) :
    firstPiece isSeparator (element :: rest) =
      if isSeparator element then []
      else element :: firstPiece isSeparator rest := by
  by_cases separates : isSeparator element <;>
    simp [firstPiece, separates]

theorem placeFrom_splitOnP
    (start : Nat)
    (data : List α) :
    placeFrom start (data.splitOnP isSeparator) =
      (start, firstPiece isSeparator data) ::
        laterPieces isSeparator start data := by
  induction data generalizing start with
  | nil => rfl
  | cons element rest inductionHypothesis =>
      rw [List.splitOnP_cons_eq_if_modifyHead]
      by_cases separates : isSeparator element
      · rw [if_pos separates, placeFrom, List.length_nil,
          inductionHypothesis, laterPieces, if_pos separates,
          firstPiece_cons, if_pos separates, Nat.add_zero]
      · rw [if_neg separates, laterPieces, if_neg separates,
          firstPiece_cons, if_neg separates]
        have behind := inductionHypothesis (start + 1)
        have isSplit : rest.splitOnP isSeparator ≠ [] :=
          List.splitOnP_ne_nil isSeparator rest
        obtain ⟨piece, later, pieces⟩ := List.exists_cons_of_ne_nil isSplit
        rw [pieces, placeFrom, List.cons.injEq, Prod.mk.injEq] at behind
        obtain ⟨⟨-, isFirst⟩, areLater⟩ := behind
        rw [pieces, List.modifyHead_cons, placeFrom, ← areLater, isFirst,
          List.length_cons]
        congr 2
        omega

/-- Each separator has a piece behind it. -/
theorem laterPieces_drop
    (data : List α)
    (position : Nat) :
    laterPieces isSeparator position (data.drop position) =
      (List.range' position (data.length - position)).filterMap fun index =>
        if data[index]?.any isSeparator then
          some (index + 1, firstPiece isSeparator (data.drop (index + 1)))
        else
          none := by
  generalize isRest : data.drop position = rest
  induction rest generalizing position with
  | nil =>
      have atEnd := List.drop_eq_nil_iff.mp isRest
      rw [Nat.sub_eq_zero_of_le atEnd]
      rfl
  | cons element rest inductionHypothesis =>
      have inside : position < data.length := by
        have positive := congrArg List.length isRest
        rw [List.length_drop, List.length_cons] at positive
        omega
      have isElement : data[position]? = some element := by
        have head := congrArg (·[0]?) isRest
        rwa [List.getElem?_drop, Nat.add_zero, List.getElem?_cons_zero] at head
      have behind : data.drop (position + 1) = rest := by
        have tail := congrArg List.tail isRest
        rwa [List.tail_drop, List.tail_cons] at tail
      obtain ⟨count, isCount⟩ :
          ∃ count, data.length - position = count + 1 :=
        ⟨data.length - position - 1, by omega⟩
      have later := inductionHypothesis (position + 1) behind
      rw [show data.length - (position + 1) = count by omega] at later
      rw [isCount, List.range'_succ, List.filterMap_cons, isElement, behind,
        ← later, laterPieces]
      by_cases separates : isSeparator element <;>
        simp [separates]

end Splitting

/-! ## Searching again -/

section Searching

variable {β : Type} {found? : Nat → Option β}

/-- Positions at which nothing is found may be left out. -/
theorem filterMap_range'_skip
    {first last : Nat}
    (later : Nat)
    (ordered : first ≤ later)
    (nothing : ∀ index, first ≤ index → index < later → found? index = none) :
    (List.range' first (last - first)).filterMap found? =
      (List.range' later (last - later)).filterMap found? := by
  obtain ⟨count, rfl⟩ := Nat.exists_eq_add_of_le ordered
  induction count generalizing first with
  | zero => rfl
  | succ count inductionHypothesis =>
      have here := nothing first (Nat.le_refl _) (by omega)
      have behind :=
        @inductionHypothesis (first + 1) (by omega)
          fun index fromBehind before =>
            nothing index (by omega) (by omega)
      rw [show first + 1 + count = first + (count + 1) by omega] at behind
      by_cases inside : first < last
      · rw [show last - first = last - (first + 1) + 1 by omega,
          List.range'_succ, List.filterMap_cons, here]
        exact behind
      · rw [Nat.sub_eq_zero_of_le (by omega), Nat.sub_eq_zero_of_le (by omega)]
        rfl

/-- What is found first, and what is found behind it. -/
theorem filterMap_range'_of_findSome?
    {first last : Nat}
    {found : β}
    (isFirst :
      (List.range' first (last - first)).findSome? found? = some found) :
    ∃ index,
      first ≤ index ∧ index < last ∧ found? index = some found ∧
      (List.range' first (last - first)).filterMap found? =
        found ::
          (List.range' (index + 1) (last - (index + 1))).filterMap found? := by
  obtain ⟨before, index, behind, shape, isFound, nothing⟩ :=
    List.findSome?_eq_some_iff.mp isFirst
  obtain ⟨count, -, isBefore, isBehind⟩ := List.range'_eq_append_iff.mp shape
  have position := congrArg List.head? isBehind
  rw [List.head?_range', List.head?_cons] at position
  split at position
  · cases position
  rename_i someLeft
  rw [Option.some.injEq] at position
  have inside : first + count < last := by omega
  refine ⟨index, by omega, by omega, isFound, ?_⟩
  rw [filterMap_range'_skip index (by omega)]
  · rw [show last - index = last - (index + 1) + 1 by omega, List.range'_succ,
      List.filterMap_cons, isFound]
  · intro earlier fromFirst isEarlier
    refine nothing earlier ?_
    rw [isBefore, List.mem_range'_1]
    omega

end Searching

end PacketAudit.Library
