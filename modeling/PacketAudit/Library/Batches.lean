import Mathlib

namespace PacketAudit.Library

/-!
# Reading in batches

A reader gives one item after another until it ends or fails.  Reading in
batches gives the same items up to an end; a failure loses those of its batch.
-/

section Batches

variable {σ ρ ε : Type} (next : σ → Except ε (Option (ρ × σ)))

/-- All the items of a reader, and how it fails unless it ends. -/
inductive ReadsAll : σ → List ρ → Option ε → Prop where
  | stop
      {reader : σ}
      (isEnd : next reader = .ok none) :
      ReadsAll reader [] none
  | fail
      {reader : σ}
      {fault : ε}
      (fails : next reader = .error fault) :
      ReadsAll reader [] (some fault)
  | item
      {reader behind : σ}
      {first : ρ}
      {rest : List ρ}
      {fault : Option ε}
      (isItem : next reader = .ok (some (first, behind)))
      (reads : ReadsAll behind rest fault) :
      ReadsAll reader (first :: rest) fault

/-- The items of a reader with at most `rounds` of them, and how it fails. -/
def readAll : (rounds : Nat) → σ → List ρ × Option ε
  | 0, _ => ([], none)
  | rounds + 1, reader =>
      match next reader with
      | .error fault => ([], some fault)
      | .ok none => ([], none)
      | .ok (some (first, behind)) =>
          let (rest, fault) := readAll rounds behind
          (first :: rest, fault)

/-- A batch of at most `size` items, and whether the reader ended in it. -/
def takeBatch : (size : Nat) → σ → Except ε (List ρ × σ × Bool)
  | 0, reader => .ok ([], reader, false)
  | size + 1, reader =>
      match next reader with
      | .error fault => .error fault
      | .ok none => .ok ([], reader, true)
      | .ok (some (first, behind)) =>
          match takeBatch size behind with
          | .error fault => .error fault
          | .ok (rest, last, ended) => .ok (first :: rest, last, ended)

/-- The items of batch after batch, and whether the reader ended or failed. -/
def takeBatches : (sizes : List Nat) → σ → List ρ × Bool
  | [], _ => ([], false)
  | size :: later, reader =>
      match takeBatch next size reader with
      | .error _ => ([], true)
      | .ok (items, _, true) => (items, true)
      | .ok (items, behind, false) =>
          let (more, ended) := takeBatches later behind
          (items ++ more, ended)

/-- How many items the leading batches take that fit into `room` in all. -/
def fittingTotal : (room : Nat) → (sizes : List Nat) → Nat
  | _, [] => 0
  | room, size :: later =>
      if size ≤ room then size + fittingTotal (room - size) later else 0

theorem fittingTotal_le
    (room : Nat)
    (sizes : List Nat) :
    fittingTotal room sizes ≤ room := by
  induction sizes generalizing room with
  | nil => exact Nat.zero_le room
  | cons size later inductionHypothesis =>
      rw [fittingTotal]
      split
      · have fits := inductionHypothesis (room - size)
        omega
      · exact Nat.zero_le room

variable {next}

theorem readsAll_readAll
    {measure : σ → Nat}
    (decreases :
      ∀ reader first behind,
        next reader = .ok (some (first, behind)) →
          measure behind < measure reader)
    {rounds : Nat}
    {reader : σ}
    (enough : measure reader < rounds) :
    ReadsAll next reader (readAll next rounds reader).1
      (readAll next rounds reader).2 := by
  induction rounds generalizing reader with
  | zero => exact absurd enough (Nat.not_lt_zero _)
  | succ rounds inductionHypothesis =>
      rw [readAll]
      split
      case h_1 fault fails => exact .fail fails
      case h_2 isEnd => exact .stop isEnd
      case h_3 first behind isItem =>
        have less := decreases reader first behind isItem
        exact .item isItem (inductionHypothesis (by omega))

/-- A batch of items that are all there. -/
theorem ReadsAll.takeBatch_of_le
    {reader : σ}
    {items : List ρ}
    {fault : Option ε}
    (reads : ReadsAll next reader items fault)
    {size : Nat}
    (inside : size ≤ items.length) :
    ∃ behind,
      takeBatch next size reader = .ok (items.take size, behind, false) ∧
        ReadsAll next behind (items.drop size) fault := by
  induction reads generalizing size with
  | stop isEnd =>
      obtain rfl := Nat.le_zero.mp inside
      exact ⟨_, rfl, .stop isEnd⟩
  | fail fails =>
      obtain rfl := Nat.le_zero.mp inside
      exact ⟨_, rfl, .fail fails⟩
  | item isItem reads inductionHypothesis =>
      cases size with
      | zero => exact ⟨_, rfl, .item isItem reads⟩
      | succ size =>
          obtain ⟨behind, batch, readsBehind⟩ :=
            inductionHypothesis (Nat.le_of_succ_le_succ inside)
          refine ⟨behind, ?_, readsBehind⟩
          rw [takeBatch, isItem]
          simp only [batch, List.take_succ_cons]

/-- A batch beyond the last item ends with the reader or fails with it. -/
theorem ReadsAll.takeBatch_of_lt
    {reader : σ}
    {items : List ρ}
    {fault : Option ε}
    (reads : ReadsAll next reader items fault)
    {size : Nat}
    (beyond : items.length < size) :
    match fault with
    | none => ∃ last, takeBatch next size reader = .ok (items, last, true)
    | some fault => takeBatch next size reader = .error fault := by
  induction reads generalizing size with
  | @stop reader isEnd =>
      cases size with
      | zero => cases beyond
      | succ size =>
          refine ⟨reader, ?_⟩
          rw [takeBatch, isEnd]
  | fail fails =>
      cases size with
      | zero => cases beyond
      | succ size => simp only [takeBatch, fails]
  | item isItem reads inductionHypothesis =>
      rename_i fault
      cases size with
      | zero => cases beyond
      | succ size =>
          have later := inductionHypothesis (Nat.lt_of_succ_lt_succ beyond)
          cases fault with
          | none =>
              obtain ⟨last, batch⟩ := later
              refine ⟨last, ?_⟩
              rw [takeBatch, isItem]
              simp only [batch]
          | some fault =>
              rw [takeBatch, isItem]
              simp only [later]

/-- Batches give all items up to an end, and whole batches up to a failure. -/
theorem ReadsAll.takeBatches_eq
    {reader : σ}
    {items : List ρ}
    {fault : Option ε}
    (reads : ReadsAll next reader items fault)
    (sizes : List Nat) :
    takeBatches next sizes reader =
      (items.take
          (if fault.isNone then sizes.sum
            else fittingTotal items.length sizes),
        decide (items.length < sizes.sum)) := by
  induction sizes generalizing reader items with
  | nil => simp [takeBatches, fittingTotal]
  | cons size later inductionHypothesis =>
      rw [takeBatches, List.sum_cons, fittingTotal]
      by_cases inside : size ≤ items.length
      · obtain ⟨behind, batch, readsBehind⟩ := reads.takeBatch_of_le inside
        have total := inductionHypothesis readsBehind
        rw [List.length_drop] at total
        have fewer :
            items.length - size < later.sum ↔
              items.length < size + later.sum := by
          omega
        simp only [batch, total, if_pos inside, Prod.mk.injEq, fewer,
          and_true]
        split <;> rw [List.take_add]
      · have beyond : items.length < size := Nat.lt_of_not_le inside
        have batch := reads.takeBatch_of_lt beyond
        have ended : items.length < size + later.sum :=
          Nat.lt_of_lt_of_le beyond (Nat.le_add_right _ _)
        rw [decide_eq_true ended, if_neg inside]
        cases fault with
        | none =>
            obtain ⟨last, batch⟩ := batch
            simp only [batch, Option.isNone_none, if_true, Prod.mk.injEq,
              and_true]
            exact (List.take_of_length_le ended.le).symm
        | some fault =>
            simp only [batch]
            rfl

end Batches

end PacketAudit.Library
