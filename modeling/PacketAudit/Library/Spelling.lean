import PacketAudit.Library.Search

namespace PacketAudit.Library

/-!
# Pieces spelled by a part of a list

`Spells data first last piece`: the part of the list between two positions is
the piece.  Readers that go through data piece by piece are described by what
is spelled between the positions where they start and stop.
-/

variable {α : Type}

/-- The list between two positions in it is this piece. -/
def Spells (data : List α) (first last : Nat) (piece : List α) : Prop :=
  first ≤ last ∧ last ≤ data.length ∧ data.extract first last = piece

section Spelling

variable {data piece other : List α}
variable {first middle last : Nat}

theorem spells_extract
    (before : first ≤ last)
    (inside : last ≤ data.length) :
    Spells data first last (data.extract first last) :=
  ⟨before, inside, rfl⟩

theorem Spells.last_eq (spells : Spells data first last piece) :
    last = first + piece.length := by
  obtain ⟨before, inside, rfl⟩ := spells
  rw [List.extract_eq_take_drop, List.length_take, List.length_drop]
  omega

theorem Spells.last_le (spells : Spells data first last piece) :
    last ≤ data.length :=
  spells.2.1

/-- What is spelled between two positions is determined by them. -/
theorem Spells.unique
    (spells : Spells data first last piece)
    (others : Spells data first last other) :
    piece = other :=
  spells.2.2.symm.trans others.2.2

theorem spells_nil :
    Spells data first last [] ↔ last = first ∧ first ≤ data.length := by
  constructor
  · intro spells
    have stops := spells.last_eq
    have inside := spells.last_le
    rw [List.length_nil, Nat.add_zero] at stops
    exact ⟨stops, stops ▸ inside⟩
  · rintro ⟨rfl, inside⟩
    refine ⟨le_rfl, inside, ?_⟩
    rw [List.extract_eq_take_drop, Nat.sub_self, List.take_zero]

/-- Two pieces are spelled one after the other. -/
theorem spells_append :
    Spells data first last (piece ++ other) ↔
      ∃ middle,
        Spells data first middle piece ∧ Spells data middle last other := by
  constructor
  · intro spells
    have stops := spells.last_eq
    obtain ⟨before, inside, isWhole⟩ := spells
    rw [List.length_append] at stops
    have parts :=
      @extract_append_extract _ data first (first + piece.length) last
        (by omega) (by omega)
    rw [← parts] at isWhole
    have length :
        (data.extract first (first + piece.length)).length =
          piece.length := by
      rw [List.extract_eq_take_drop, List.length_take, List.length_drop]
      omega
    obtain ⟨isFront, isRear⟩ := List.append_inj isWhole length
    exact ⟨first + piece.length, ⟨by omega, by omega, isFront⟩,
      ⟨by omega, inside, isRear⟩⟩
  · rintro ⟨middle, ⟨front, -, rfl⟩, ⟨rear, inside, rfl⟩⟩
    exact ⟨front.trans rear, inside,
      (extract_append_extract data front rear).symm⟩

theorem spells_singleton {item : α} :
    Spells data first last [item] ↔
      data[first]? = some item ∧ last = first + 1 := by
  constructor
  · intro spells
    have stops := spells.last_eq
    obtain ⟨-, inside, isItem⟩ := spells
    rw [List.length_singleton] at stops
    refine ⟨?_, stops⟩
    rw [stops, List.extract_eq_take_drop, Nat.add_sub_cancel_left] at isItem
    have isHead := congrArg List.head? isItem
    rw [List.head?_take, List.head?_drop] at isHead
    simpa using isHead
  · rintro ⟨isItem, rfl⟩
    obtain ⟨inside, rfl⟩ := List.getElem?_eq_some_iff.mp isItem
    refine ⟨Nat.le_succ _, inside, ?_⟩
    rw [List.extract_eq_take_drop, Nat.add_sub_cancel_left,
      List.take_one, List.head?_drop, isItem]
    rfl

/-- A piece is spelled item by item. -/
theorem spells_cons {item : α} :
    Spells data first last (item :: piece) ↔
      data[first]? = some item ∧ Spells data (first + 1) last piece := by
  rw [← List.singleton_append, spells_append]
  simp only [spells_singleton]
  constructor
  · rintro ⟨middle, ⟨isItem, rfl⟩, spells⟩
    exact ⟨isItem, spells⟩
  · rintro ⟨isItem, spells⟩
    exact ⟨first + 1, ⟨isItem, rfl⟩, spells⟩

/-- What a list begins with. -/
theorem spells_zero :
    Spells data 0 last piece ↔ piece <+: data ∧ last = piece.length := by
  constructor
  · intro spells
    have stops := spells.last_eq
    obtain ⟨-, -, rfl⟩ := spells
    rw [List.extract_eq_take_drop, List.drop_zero] at *
    exact ⟨List.take_prefix _ _, by omega⟩
  · rintro ⟨isPrefix, rfl⟩
    refine ⟨Nat.zero_le _, isPrefix.length_le, ?_⟩
    rw [List.extract_eq_take_drop, List.drop_zero, Nat.sub_zero]
    exact (List.prefix_iff_eq_take.mp isPrefix).symm

/-- What is spelled stays when more is appended. -/
theorem Spells.append
    (spells : Spells data first last piece)
    (more : List α) :
    Spells (data ++ more) first last piece := by
  obtain ⟨before, inside, rfl⟩ := spells
  refine ⟨before, by rw [List.length_append]; omega, ?_⟩
  rw [List.extract_eq_take_drop, List.extract_eq_take_drop,
    List.drop_append_of_le_length (by omega),
    List.take_append_of_le_length (by rw [List.length_drop]; omega)]

end Spelling

end PacketAudit.Library
