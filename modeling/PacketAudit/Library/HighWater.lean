import Mathlib

namespace PacketAudit.Library

/-!
# Items above a high-water mark

A filter that passes an item only if its value is above all values passed so
far reports each value at most once, and reports one exactly if an item with
it comes before every item with a higher or the same value.
-/

variable {α β : Type}
variable [LinearOrder β]

/-- The items whose values are above the mark, which each of them raises. -/
def aboveMark (value : α → β) : Option β → List α → List α
  | _, [] => []
  | mark, item :: rest =>
      if mark.all fun reached => decide (reached < value item) then
        item :: aboveMark value (some (value item)) rest
      else
        aboveMark value mark rest

section Passing

variable {value : α → β}
variable {items : List α}

theorem mem_of_mem_aboveMark
    {mark : Option β}
    {item : α}
    (member : item ∈ aboveMark value mark items) :
    item ∈ items := by
  induction items generalizing mark with
  | nil => cases member
  | cons first rest inductionHypothesis =>
      unfold aboveMark at member
      split at member
      · rcases List.mem_cons.mp member with rfl | inRest
        · exact List.mem_cons_self
        · exact List.mem_cons_of_mem _ (inductionHypothesis inRest)
      · exact List.mem_cons_of_mem _ (inductionHypothesis member)

/-- An item that passes is above the mark. -/
theorem lt_of_mem_aboveMark
    {mark : β}
    {item : α}
    (member : item ∈ aboveMark value (some mark) items) :
    mark < value item := by
  induction items generalizing mark with
  | nil => cases member
  | cons first rest inductionHypothesis =>
      unfold aboveMark at member
      split at member
      case isTrue above =>
        simp only [Option.all_some, decide_eq_true_eq] at above
        rcases List.mem_cons.mp member with rfl | inRest
        · exact above
        · exact above.trans (inductionHypothesis inRest)
      case isFalse => exact inductionHypothesis member

/-- Items with one value: one of them passes, or none. -/
theorem countP_aboveMark_eq_one
    {wanted : α → Bool}
    {level : β}
    (sameLevel : ∀ item ∈ items, wanted item → value item = level)
    (mark : Option β) :
    (aboveMark value mark items).countP wanted = 1 ↔
      (mark.all fun reached => decide (reached < level)) ∧
        ∃ prior item rest,
          items = prior ++ item :: rest ∧ wanted item ∧
            ∀ earlier ∈ prior, value earlier < level := by
  induction items generalizing mark with
  | nil => simp [aboveMark]
  | cons first rest inductionHypothesis =>
      have firstLevel := sameLevel first List.mem_cons_self
      have restLevel :
          ∀ item ∈ rest, wanted item → value item = level :=
        fun item member => sameLevel item (List.mem_cons_of_mem _ member)
      unfold aboveMark
      by_cases above :
          (mark.all fun reached => decide (reached < value first)) = true
      · rw [if_pos above]
        by_cases isWanted : wanted first
        · have level_eq := firstLevel isWanted
          have noOther :
              (aboveMark value (some (value first)) rest).countP wanted =
                0 := by
            rw [List.countP_eq_zero]
            intro item member otherWanted
            have higher := lt_of_mem_aboveMark member
            rw [level_eq, restLevel item (mem_of_mem_aboveMark member)
              otherWanted] at higher
            exact lt_irrefl _ higher
          rw [List.countP_cons_of_pos isWanted, noOther, ← level_eq]
          simp only [zero_add, true_iff]
          exact ⟨above, [], first, rest, rfl, isWanted, by simp⟩
        · rw [List.countP_cons_of_neg isWanted, inductionHypothesis restLevel]
          simp only [Option.all_some, decide_eq_true_eq]
          constructor
          · rintro ⟨below, prior, item, later, rfl, itemWanted, lower⟩
            refine ⟨?_, first :: prior, item, later, rfl, itemWanted, ?_⟩
            · cases mark with
              | none => rfl
              | some reached =>
                  simp only [Option.all_some, decide_eq_true_eq] at above ⊢
                  exact above.trans below
            · intro earlier member
              rcases List.mem_cons.mp member with rfl | inPrior
              · exact below
              · exact lower earlier inPrior
          · rintro ⟨-, prior, item, later, shape, itemWanted, lower⟩
            cases prior with
            | nil =>
                obtain ⟨rfl, rfl⟩ := List.cons.inj shape
                exact absurd itemWanted isWanted
            | cons head prior =>
                obtain ⟨rfl, rfl⟩ := List.cons.inj shape
                exact ⟨lower _ List.mem_cons_self, prior, item, later, rfl,
                  itemWanted, fun earlier member =>
                    lower earlier (List.mem_cons_of_mem _ member)⟩
      · rw [if_neg above, inductionHypothesis restLevel]
        cases mark with
        | none => exact absurd rfl above
        | some reached =>
            simp only [Option.all_some, decide_eq_true_eq, not_lt] at above ⊢
            refine and_congr_right fun below => ?_
            constructor
            · rintro ⟨prior, item, later, rfl, itemWanted, lower⟩
              refine ⟨first :: prior, item, later, rfl, itemWanted, ?_⟩
              intro earlier member
              rcases List.mem_cons.mp member with rfl | inPrior
              · exact above.trans_lt below
              · exact lower earlier inPrior
            · rintro ⟨prior, item, later, shape, itemWanted, lower⟩
              cases prior with
              | nil =>
                  obtain ⟨rfl, rfl⟩ := List.cons.inj shape
                  rw [firstLevel itemWanted] at above
                  exact absurd (above.trans_lt below) (lt_irrefl _)
              | cons head prior =>
                  obtain ⟨rfl, rfl⟩ := List.cons.inj shape
                  exact ⟨prior, item, later, rfl, itemWanted,
                    fun earlier member =>
                      lower earlier (List.mem_cons_of_mem _ member)⟩

end Passing

end PacketAudit.Library
