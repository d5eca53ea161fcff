import PacketAudit.Library.OrderedTable

namespace PacketAudit.Library

/-!
# Tables in order of activity

A table whose entries move to the end whenever they are used is sorted by the
time of their last use, as long as the clock never runs backwards.  A scan for
idle entries may then stop at the first entry that is not idle.
-/

/-- Where one entry that stays means that all later ones stay. -/
theorem takeWhile_eq_filter
    {α : Type}
    {entries : List α}
    {stale : α → Bool}
    (sorted :
      entries.Pairwise fun earlier later =>
        stale later = true → stale earlier = true) :
    entries.takeWhile stale = entries.filter stale := by
  induction sorted with
  | nil =>
      rfl
  | @cons first rest earlier _ inductionHypothesis =>
      by_cases isStale : stale first = true
      · rw [List.takeWhile_cons_of_pos isStale,
          List.filter_cons_of_pos isStale, inductionHypothesis]
      · rw [List.takeWhile_cons_of_neg isStale,
          List.filter_cons_of_neg isStale]
        symm
        rw [List.filter_eq_nil_iff]
        intro later member laterStale
        exact isStale (earlier later member laterStale)

namespace OrderedTable

variable {κ ν : Type}

/-- The keys with the times of their last activity, in table order. -/
def stamps
    (activity : ν → Int)
    (table : OrderedTable κ ν) : List (κ × Int) :=
  table.entries.map fun entry => (entry.1, activity entry.2)

/-- The entries are sorted by an activity that is over at the given time. -/
structure InActivityOrder
    (activity : ν → Int)
    (clock : Int)
    (table : OrderedTable κ ν) : Prop where
  sorted :
    (table.stamps activity).Pairwise fun earlier later =>
      earlier.2 ≤ later.2
  past : ∀ stamp ∈ table.stamps activity, stamp.2 ≤ clock

variable {activity : ν → Int} {table next : OrderedTable κ ν}

/-! ## Keeping the order -/

namespace InActivityOrder

theorem empty (clock : Int) :
    (empty : OrderedTable κ ν).InActivityOrder activity clock where
  sorted := List.Pairwise.nil
  past := by
    intro stamp member
    cases member

theorem later
    {clock now : Int}
    (ordered : table.InActivityOrder activity clock)
    (onward : clock ≤ now) :
    table.InActivityOrder activity now where
  sorted := ordered.sorted
  past := fun stamp member => (ordered.past stamp member).trans onward

/-- Removing entries keeps the order. -/
theorem shrink
    {clock : Int}
    (ordered : table.InActivityOrder activity clock)
    (fewer : (next.stamps activity).Sublist (table.stamps activity)) :
    next.InActivityOrder activity clock where
  sorted := ordered.sorted.sublist fewer
  past := fun stamp member => ordered.past stamp (fewer.subset member)

/-- The activities themselves never decrease. -/
theorem activities
    {clock : Int}
    (ordered : table.InActivityOrder activity clock) :
    (table.entries.map fun entry => activity entry.2).Pairwise
      (· ≤ ·) := by
  have sorted := ordered.sorted
  unfold stamps at sorted
  rw [List.pairwise_map] at sorted ⊢
  exact sorted

/-- A use at the end keeps the order. -/
theorem use
    {clock : Int}
    (ordered : table.InActivityOrder activity clock)
    {key : κ}
    (used :
      (next.stamps activity).Sublist
        (table.stamps activity ++ [(key, clock)])) :
    next.InActivityOrder activity clock := by
  have extended :
      (table.stamps activity ++ [(key, clock)]).Pairwise
        fun earlier later => earlier.2 ≤ later.2 := by
    rw [List.pairwise_append]
    refine ⟨ordered.sorted, List.pairwise_singleton _ _, ?_⟩
    intro stamp member last isLast
    rw [List.mem_singleton] at isLast
    subst isLast
    exact ordered.past stamp member
  refine { sorted := extended.sublist used, past := ?_ }
  intro stamp member
  rcases List.mem_append.mp (used.subset member) with old | isLast
  · exact ordered.past stamp old
  · rw [List.mem_singleton] at isLast
    subst isLast
    exact le_refl _

end InActivityOrder

/-! ## Idle entries -/

/-- An entry has been idle for at least a limit. -/
def isIdle
    (activity : ν → Int)
    (limit clock : Int)
    (entry : κ × ν) : Bool :=
  decide (limit ≤ clock - activity entry.2)

/-- A scan of a table in order may stop at the first entry in use. -/
theorem InActivityOrder.takeWhile_isIdle
    {clock : Int}
    (ordered : table.InActivityOrder activity clock)
    (limit now : Int) :
    table.entries.takeWhile (isIdle activity limit now) =
      table.entries.filter (isIdle activity limit now) := by
  apply takeWhile_eq_filter
  refine (List.pairwise_map.mp ordered.sorted).imp ?_
  intro earlier later inOrder laterIdle
  simp only [isIdle, decide_eq_true_eq] at laterIdle ⊢
  omega

variable [DecidableEq κ]

/-- Removing the keys of the selected entries leaves the other entries. -/
theorem filter_not_mem_keys
    (table : OrderedTable κ ν)
    (selected : κ × ν → Bool) :
    (table.entries.filter fun entry =>
        entry.1 ∉ (table.entries.filter selected).map Prod.fst) =
      table.entries.filter fun entry => !selected entry := by
  apply List.filter_congr
  rintro ⟨key, value⟩ member
  cases isSelected : selected (key, value) with
  | true =>
      have isKey : key ∈ (table.entries.filter selected).map Prod.fst :=
        List.mem_map.mpr
          ⟨(key, value), List.mem_filter.mpr ⟨member, isSelected⟩, rfl⟩
      simpa using isKey
  | false =>
      simp only [Bool.not_false, decide_eq_true_eq]
      intro isKey
      obtain ⟨⟨otherKey, other⟩, inSelected, sameKey⟩ :=
        List.mem_map.mp isKey
      obtain ⟨otherMember, otherSelected⟩ := List.mem_filter.mp inSelected
      simp only at sameKey
      subst sameKey
      have stored := get?_eq_some.mpr member
      have otherStored := get?_eq_some.mpr otherMember
      rw [stored] at otherStored
      cases otherStored
      rw [isSelected] at otherSelected
      cases otherSelected

/-! ## What operations do to the stamps -/

theorem entries_erase
    (table : OrderedTable κ ν)
    (key : κ) :
    (table.erase key).entries =
      table.entries.filter fun entry => entry.1 ≠ key := rfl

theorem stamps_erase (key : κ) :
    ((table.erase key).stamps activity).Sublist (table.stamps activity) :=
  List.filter_sublist.map _

/-- An assignment that keeps the activity keeps the stamps. -/
theorem stamps_set
    {key : κ}
    {stored value : ν}
    (found : table.get? key = some stored)
    (same : activity value = activity stored) :
    (table.set key value).stamps activity = table.stamps activity := by
  have known : key ∈ table.entries.map Prod.fst :=
    mem_keys (get?_eq_some.mp found)
  unfold stamps set
  rw [dif_pos known, List.map_map]
  apply List.map_congr_left
  intro entry member
  by_cases isKey : entry.1 = key
  · subst isKey
    have isStored := get?_eq_some.mpr member
    rw [found] at isStored
    rw [Option.some.inj isStored] at same
    simp [same]
  · simp [isKey]

theorem entries_moveToEnd
    {key : κ}
    {value : ν}
    (found : table.get? key = some value) :
    (table.moveToEnd key).entries =
      (table.erase key).entries ++ [(key, value)] := by
  unfold moveToEnd
  rw [found]
  rfl

/-- Assigning to the key of the last entry changes the last entry only. -/
theorem entries_set_last
    {key : κ}
    {stored : ν}
    {front : List (κ × ν)}
    (shape : table.entries = front ++ [(key, stored)])
    (value : ν) :
    (table.set key value).entries = front ++ [(key, value)] := by
  have distinct := table.keysNodup
  have known : key ∈ table.entries.map Prod.fst := by
    rw [shape]
    simp
  rw [shape, List.map_append, List.nodup_append] at distinct
  unfold set
  rw [dif_pos known]
  simp only [shape, List.map_append, List.map_cons, List.map_nil, if_true]
  congr 1
  refine (List.map_congr_left ?_).trans (List.map_id _)
  intro entry member
  have different : entry.1 ≠ key :=
    distinct.2.2 entry.1 (List.mem_map_of_mem member) key (by simp)
  simp [different]

/-- An entry that is moved to the end and assigned is the last one. -/
theorem entries_refresh
    (table : OrderedTable κ ν)
    (key : κ)
    (value : ν) :
    ((table.moveToEnd key).set key value).entries =
      (table.erase key).entries ++ [(key, value)] := by
  cases found : table.get? key with
  | none =>
      have still : table.moveToEnd key = table := by
        unfold moveToEnd
        rw [found]
      rw [still, entries_set_of_none found, erase_of_get?_eq_none found]
  | some stored =>
      exact entries_set_last (entries_moveToEnd found) value

end OrderedTable

end PacketAudit.Library
