import PacketAudit.Library.Lines

namespace PacketAudit.Library

/-!
# Where written lines start

A list that was written line by line, each line with one separator at its end,
has its lines just where they were written.
-/

variable {α β : Type}

/-- A line: there is a separator at its end and nowhere else. -/
structure IsLine (newline : α) (body line : List α) : Prop where
  shape : line = body ++ [newline]
  oneLine : newline ∉ body

/-- What is written, each with the position at which its line starts. -/
def placeLines (lineOf : β → List α) : (start : Nat) → List β → List (Nat × β)
  | _, [] => []
  | start, record :: later =>
      (start, record) ::
        placeLines lineOf (start + (lineOf record).length) later

section Places

variable {lineOf : β → List α}
variable {records : List β}

theorem mem_placeLines
    {start position : Nat}
    {record : β}
    (member : (position, record) ∈ placeLines lineOf start records) :
    ∃ earlier later,
      records = earlier ++ record :: later ∧
        position = start + (earlier.flatMap lineOf).length := by
  induction records generalizing start with
  | nil => cases member
  | cons first rest inductionHypothesis =>
      rcases List.mem_cons.mp member with isFirst | inRest
      · obtain ⟨rfl, rfl⟩ := Prod.mk.inj isFirst
        exact ⟨[], rest, rfl, rfl⟩
      · obtain ⟨earlier, later, rfl, rfl⟩ := inductionHypothesis inRest
        refine ⟨first :: earlier, later, rfl, ?_⟩
        rw [List.flatMap_cons, List.length_append, Nat.add_assoc]

end Places

section Lines

variable [DecidableEq α]
variable {newline : α}
variable {lineOf : β → List α}
variable {records : List β}

/-- A line ends with its separator. -/
theorem lineEnd_placed
    {position : Nat}
    {record : β}
    {body : List α}
    (member : (position, record) ∈ placeLines lineOf 0 records)
    (isLine : IsLine newline body (lineOf record)) :
    lineEnd newline (records.flatMap lineOf) position =
        some (position + body.length) ∧
      (records.flatMap lineOf).extract position (position + body.length) =
        body := by
  obtain ⟨earlier, later, rfl, isPosition⟩ := mem_placeLines member
  rw [Nat.zero_add] at isPosition
  have shape :
      (earlier ++ record :: later).flatMap lineOf =
        earlier.flatMap lineOf ++ (body ++ newline :: later.flatMap lineOf) := by
    rw [List.flatMap_append, List.flatMap_cons, isLine.shape]
    simp
  rw [shape]
  subst isPosition
  refine ⟨lineEnd_eq_some.mpr ⟨Nat.le_add_right _ _, ?_, ?_⟩, ?_⟩
  · rw [List.getElem?_append_right (Nat.le_add_right _ _),
      Nat.add_sub_cancel_left, List.getElem?_append_right (Nat.le_refl _),
      Nat.sub_self]
    rfl
  · intro between above below isNewline
    rw [List.getElem?_append_right above,
      List.getElem?_append_left (by omega)] at isNewline
    exact isLine.oneLine (List.mem_of_getElem? isNewline)
  · rw [List.extract_eq_take_drop, List.drop_left, Nat.add_sub_cancel_left,
      List.take_left]

/-- The lines behind a front that ends a line start where they are placed. -/
theorem lineStarts_behind
    {front : List α}
    (starts : startsLine newline front front.length = true)
    (areLines : ∀ record ∈ records, ∃ body, IsLine newline body (lineOf record)) :
    lineStarts newline (front ++ records.flatMap lineOf) front.length
        (front ++ records.flatMap lineOf).length =
      (placeLines lineOf front.length records).map Prod.fst := by
  induction records generalizing front with
  | nil => simp [placeLines, lineStarts]
  | cons record later inductionHypothesis =>
      obtain ⟨body, isLine⟩ := areLines record List.mem_cons_self
      have grouped :
          front ++ (record :: later).flatMap lineOf =
            (front ++ lineOf record) ++ later.flatMap lineOf := by
        rw [List.flatMap_cons, List.append_assoc]
      have length : (lineOf record).length = body.length + 1 := by
        rw [isLine.shape, List.length_append, List.length_singleton]
      have bound :
          (front ++ lineOf record).length = front.length + body.length + 1 := by
        rw [List.length_append, length]
        rfl
      have startsBehind :
          startsLine newline (front ++ lineOf record)
              (front ++ lineOf record).length = true := by
        rw [bound, startsLine_succ, isLine.shape, ← List.append_assoc,
          List.getElem?_append_right (by simp)]
        simp
      have rest :=
        inductionHypothesis startsBehind fun other member =>
          areLines other (List.mem_cons_of_mem _ member)
      have one :
          lineStarts newline ((front ++ lineOf record) ++ later.flatMap lineOf)
              front.length (front ++ lineOf record).length =
            [front.length] := by
        rw [lineStarts_of_no_newline (by omega), if_pos]
        · rw [List.append_assoc, startsLine_append (Nat.le_refl _)]
          exact starts
        · intro between above below isNewline
          rw [List.append_assoc, List.getElem?_append_right above,
            isLine.shape, List.append_assoc,
            List.getElem?_append_left (by omega)] at isNewline
          exact isLine.oneLine (List.mem_of_getElem? isNewline)
      rw [grouped,
        ← lineStarts_append (by omega : front.length ≤
          (front ++ lineOf record).length) (by simp), one, rest]
      rw [placeLines, List.map_cons, List.length_append]
      rfl

/-- In a part of the list those lines start that are placed there. -/
theorem lineStarts_placed
    {first last : Nat}
    (areLines : ∀ record ∈ records, ∃ body, IsLine newline body (lineOf record))
    (notBefore : first ≤ last)
    (inside : last ≤ (records.flatMap lineOf).length) :
    lineStarts newline (records.flatMap lineOf) first last =
      ((placeLines lineOf 0 records).filter fun placed =>
        decide (first ≤ placed.1 ∧ placed.1 < last)).map Prod.fst := by
  have whole :=
    @lineStarts_behind _ _ _ newline lineOf records [] rfl areLines
  rw [List.nil_append, List.length_nil] at whole
  have selected :
      ((placeLines lineOf 0 records).filter fun placed =>
          decide (first ≤ placed.1 ∧ placed.1 < last)).map Prod.fst =
        ((placeLines lineOf 0 records).map Prod.fst).filter fun position =>
          decide (first ≤ position ∧ position < last) := by
    rw [List.filter_map]
    rfl
  rw [selected, ← whole, ← lineStarts_append (Nat.zero_le first)
    (notBefore.trans inside), ← lineStarts_append notBefore inside,
    List.filter_append, List.filter_append]
  have before :
      (lineStarts newline (records.flatMap lineOf) 0 first).filter
          (fun position => decide (first ≤ position ∧ position < last)) =
        [] := by
    refine List.filter_eq_nil_iff.mpr fun position member => ?_
    have bounds := mem_lineStarts.mp member
    simp only [decide_eq_true_eq]
    omega
  have within :
      (lineStarts newline (records.flatMap lineOf) first last).filter
          (fun position => decide (first ≤ position ∧ position < last)) =
        lineStarts newline (records.flatMap lineOf) first last := by
    refine List.filter_eq_self.mpr fun position member => ?_
    have bounds := mem_lineStarts.mp member
    exact decide_eq_true ⟨bounds.1, bounds.2.1⟩
  have behind :
      (lineStarts newline (records.flatMap lineOf) last
          (records.flatMap lineOf).length).filter
          (fun position => decide (first ≤ position ∧ position < last)) =
        [] := by
    refine List.filter_eq_nil_iff.mpr fun position member => ?_
    have bounds := mem_lineStarts.mp member
    simp only [decide_eq_true_eq]
    omega
  rw [before, within, behind, List.nil_append, List.append_nil]

end Lines

end PacketAudit.Library
