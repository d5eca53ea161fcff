import Mathlib

namespace PacketAudit.Library

/-!
# Tables that remember insertion order

An `OrderedTable` is a list of entries whose keys are pairwise distinct; the
order of the list is the order of insertion or of the last move to the end.
The distinctness is carried by the table itself, so no operation has to be
shown to keep it again.
-/

variable {κ ν : Type} [DecidableEq κ]

/-- Entries in insertion order, at most one for each key. -/
structure OrderedTable (κ ν : Type) where
  entries : List (κ × ν)
  keysNodup : (entries.map Prod.fst).Nodup

namespace OrderedTable

/-- The table without entries. -/
def empty : OrderedTable κ ν where
  entries := []
  keysNodup := List.nodup_nil

/-- The number of entries. -/
def size (table : OrderedTable κ ν) : Nat :=
  table.entries.length

/-- The value stored under a key. -/
def get? (table : OrderedTable κ ν) (key : κ) : Option ν :=
  (table.entries.find? fun entry => entry.1 = key).map Prod.snd

/-- Remove the entry of a key, if there is one. -/
def erase (table : OrderedTable κ ν) (key : κ) : OrderedTable κ ν where
  entries := table.entries.filter fun entry => entry.1 ≠ key
  keysNodup :=
    table.keysNodup.sublist (List.filter_sublist.map Prod.fst)

theorem not_mem_erase
    (table : OrderedTable κ ν)
    (key : κ) :
    key ∉ (table.erase key).entries.map Prod.fst := by
  simp [erase]

/-- Append an entry for a key the table does not have. -/
def pushNew
    (table : OrderedTable κ ν)
    (key : κ)
    (value : ν)
    (fresh : key ∉ table.entries.map Prod.fst) :
    OrderedTable κ ν where
  entries := table.entries ++ [(key, value)]
  keysNodup := by
    rw [List.map_append, List.nodup_append]
    refine ⟨table.keysNodup, by simp, ?_⟩
    rintro first member second secondMember rfl
    simp only [List.map_cons, List.map_nil, List.mem_singleton]
      at secondMember
    exact fresh (secondMember ▸ member)

theorem map_fst_replace
    (entries : List (κ × ν))
    (key : κ)
    (value : ν) :
    (entries.map fun entry =>
        if entry.1 = key then (key, value) else entry).map Prod.fst =
      entries.map Prod.fst := by
  rw [List.map_map]
  apply List.map_congr_left
  intro entry _
  by_cases same : entry.1 = key <;> simp [same]

/-- Assign a value: in place for a known key, at the end for a new one. -/
def set
    (table : OrderedTable κ ν)
    (key : κ)
    (value : ν) :
    OrderedTable κ ν :=
  if known : key ∈ table.entries.map Prod.fst then
    {
      entries :=
        table.entries.map fun entry =>
          if entry.1 = key then (key, value) else entry
      keysNodup := by
        rw [map_fst_replace]
        exact table.keysNodup
    }
  else
    table.pushNew key value known

/-- Move the entry of a key, if there is one, behind all others. -/
def moveToEnd (table : OrderedTable κ ν) (key : κ) : OrderedTable κ ν :=
  match table.get? key with
  | none => table
  | some value =>
      (table.erase key).pushNew key value (table.not_mem_erase key)

/-- Change every value, knowing its place in the table. -/
def mapIdx (table : OrderedTable κ ν) (change : Nat → ν → ν) :
    OrderedTable κ ν where
  entries :=
    table.entries.mapIdx fun index entry => (entry.1, change index entry.2)
  keysNodup := by
    have sameKeys :
        (table.entries.mapIdx fun index entry =>
            (entry.1, change index entry.2)).map Prod.fst =
          table.entries.map Prod.fst := by
      apply List.ext_getElem <;> simp
    rw [sameKeys]
    exact table.keysNodup

/-- The key of the first entry. -/
def oldest? (table : OrderedTable κ ν) : Option κ :=
  table.entries.head?.map Prod.fst

omit [DecidableEq κ] in
theorem mem_keys
    {entries : List (κ × ν)}
    {entry : κ × ν}
    (member : entry ∈ entries) :
    entry.1 ∈ entries.map Prod.fst :=
  List.mem_map.mpr ⟨entry, member, rfl⟩

/-- Membership and lookup agree. -/
theorem get?_eq_some
    {table : OrderedTable κ ν}
    {key : κ}
    {value : ν} :
    table.get? key = some value ↔ (key, value) ∈ table.entries := by
  rcases table with ⟨entries, nodup⟩
  unfold get?
  simp only
  induction entries with
  | nil =>
      simp
  | cons entry rest inductionHypothesis =>
      obtain ⟨headFresh, restNodup⟩ := List.nodup_cons.mp nodup
      by_cases isHead : entry.1 = key
      · subst isHead
        simp only [List.find?_cons, decide_true, Option.map_some,
          Option.some.injEq, List.mem_cons]
        constructor
        · rintro rfl
          exact .inl rfl
        · rintro (same | inRest)
          · rw [← same]
          · exact
              (headFresh
                (List.mem_map.mpr ⟨(entry.1, value), inRest, rfl⟩)).elim
      · rw [List.find?_cons]
        simp only [isHead, decide_false, List.mem_cons]
        rw [inductionHypothesis restNodup]
        constructor
        · exact .inr
        · rintro (same | inRest)
          · exact (isHead (by rw [← same])).elim
          · exact inRest

theorem get?_eq_none
    {table : OrderedTable κ ν}
    {key : κ} :
    table.get? key = none ↔ key ∉ table.entries.map Prod.fst := by
  constructor
  · rintro absent member
    obtain ⟨⟨entryKey, value⟩, entryMember, rfl⟩ := List.mem_map.mp member
    rw [get?_eq_some.mpr entryMember] at absent
    cases absent
  · intro notMember
    cases found : table.get? key with
    | none => rfl
    | some value =>
        exact
          (notMember
            (mem_keys (get?_eq_some.mp found))).elim

/-- Two tables with the same members answer every lookup alike. -/
theorem get?_congr
    {first second : OrderedTable κ ν}
    {key : κ}
    (same :
      ∀ value,
        (key, value) ∈ first.entries ↔ (key, value) ∈ second.entries) :
    first.get? key = second.get? key := by
  apply Option.ext
  intro value
  rw [get?_eq_some, get?_eq_some, same]

theorem mem_erase
    {table : OrderedTable κ ν}
    {key other : κ}
    {value : ν} :
    (other, value) ∈ (table.erase key).entries ↔
      (other, value) ∈ table.entries ∧ other ≠ key := by
  simp [erase]

@[simp] theorem get?_erase_self
    (table : OrderedTable κ ν)
    (key : κ) :
    (table.erase key).get? key = none :=
  get?_eq_none.mpr (table.not_mem_erase key)

theorem get?_erase_of_ne
    (table : OrderedTable κ ν)
    {key other : κ}
    (different : other ≠ key) :
    (table.erase key).get? other = table.get? other :=
  get?_congr fun value => by simp [mem_erase, different]

theorem get?_of_get?_erase
    {table : OrderedTable κ ν}
    {key other : κ}
    {value : ν}
    (stored : (table.erase key).get? other = some value) :
    table.get? other = some value :=
  get?_eq_some.mpr (mem_erase.mp (get?_eq_some.mp stored)).1

theorem mem_set
    {table : OrderedTable κ ν}
    {key other : κ}
    {value stored : ν} :
    (other, stored) ∈ (table.set key value).entries ↔
      (other = key ∧ stored = value) ∨
        (other ≠ key ∧ (other, stored) ∈ table.entries) := by
  unfold set
  split
  case isTrue known =>
    simp only [List.mem_map]
    constructor
    · rintro ⟨entry, member, replaced⟩
      by_cases same : entry.1 = key
      · rw [if_pos same] at replaced
        cases replaced
        exact .inl ⟨rfl, rfl⟩
      · rw [if_neg same] at replaced
        subst replaced
        exact .inr ⟨same, member⟩
    · rintro (⟨rfl, rfl⟩ | ⟨different, member⟩)
      · obtain ⟨entry, member, sameKey⟩ := List.mem_map.mp known
        exact ⟨entry, member, by rw [if_pos sameKey]⟩
      · exact ⟨_, member, if_neg different⟩
  case isFalse unknown =>
    simp only [pushNew, List.mem_append, List.mem_singleton, Prod.mk.injEq]
    constructor
    · rintro (member | pushed)
      · refine .inr ⟨?_, member⟩
        rintro rfl
        exact unknown (mem_keys member)
      · exact .inl pushed
    · rintro (pushed | ⟨-, member⟩)
      · exact .inr pushed
      · exact .inl member

@[simp] theorem get?_set_self
    (table : OrderedTable κ ν)
    (key : κ)
    (value : ν) :
    (table.set key value).get? key = some value :=
  get?_eq_some.mpr (mem_set.mpr (.inl ⟨rfl, rfl⟩))

theorem get?_set_of_ne
    (table : OrderedTable κ ν)
    {key other : κ}
    (value : ν)
    (different : other ≠ key) :
    (table.set key value).get? other = table.get? other :=
  get?_congr fun stored => by simp [mem_set, different]

theorem get?_set
    (table : OrderedTable κ ν)
    (key other : κ)
    (value : ν) :
    (table.set key value).get? other =
      if other = key then some value else table.get? other := by
  split
  case isTrue same =>
    subst same
    exact table.get?_set_self other value
  case isFalse different =>
    exact table.get?_set_of_ne value different

@[simp] theorem get?_moveToEnd
    (table : OrderedTable κ ν)
    (key other : κ) :
    (table.moveToEnd key).get? other = table.get? other := by
  unfold moveToEnd
  split
  · rfl
  case _ value found =>
    apply get?_congr
    intro stored
    simp only [pushNew, List.mem_append, mem_erase, List.mem_singleton,
      Prod.mk.injEq]
    constructor
    · rintro (⟨member, -⟩ | ⟨rfl, rfl⟩)
      · exact member
      · exact get?_eq_some.mp found
    · intro member
      by_cases same : other = key
      · subst same
        refine .inr ⟨rfl, ?_⟩
        have stored := get?_eq_some.mpr member
        rw [found] at stored
        exact (Option.some.inj stored).symm
      · exact .inl ⟨member, same⟩

/-- A changed value stands at its place in the table. -/
theorem get?_mapIdx
    (table : OrderedTable κ ν)
    (change : Nat → ν → ν)
    (key : κ) :
    ∃ index,
      (table.mapIdx change).get? key = (table.get? key).map (change index) := by
  cases found : table.get? key with
  | none =>
      refine ⟨0, ?_⟩
      rw [Option.map_none]
      rw [get?_eq_none] at found ⊢
      have sameKeys :
          (table.mapIdx change).entries.map Prod.fst =
            table.entries.map Prod.fst := by
        apply List.ext_getElem <;> simp [mapIdx]
      rw [sameKeys]
      exact found
  | some value =>
      obtain ⟨index, inside, isEntry⟩ :=
        List.mem_iff_getElem.mp (get?_eq_some.mp found)
      refine ⟨index, get?_eq_some.mpr ?_⟩
      exact List.mem_mapIdx.mpr ⟨index, inside, by rw [isEntry]⟩

@[simp] theorem get?_empty (key : κ) :
    (empty : OrderedTable κ ν).get? key = none := rfl

/-- A nonempty table has a first entry, and it can be looked up. -/
theorem oldest?_of_pos
    {table : OrderedTable κ ν}
    (positive : 0 < table.size) :
    ∃ key value, table.oldest? = some key ∧ table.get? key = some value := by
  rcases table with ⟨entries, nodup⟩
  cases entries with
  | nil =>
      simp [size] at positive
  | cons entry rest =>
      exact ⟨entry.1, entry.2, rfl,
        get?_eq_some.mpr List.mem_cons_self⟩

theorem get?_of_oldest?
    {table : OrderedTable κ ν}
    {key : κ}
    (first : table.oldest? = some key) :
    ∃ value, table.get? key = some value := by
  rcases table with ⟨entries, nodup⟩
  cases entries with
  | nil =>
      simp [oldest?] at first
  | cons entry rest =>
      simp only [oldest?, List.head?_cons, Option.map_some,
        Option.some.injEq] at first
      subst first
      exact ⟨entry.2, get?_eq_some.mpr List.mem_cons_self⟩

omit [DecidableEq κ] in
/-- Tables are determined by their entries. -/
theorem eq_of_entries
    {first second : OrderedTable κ ν}
    (same : first.entries = second.entries) :
    first = second := by
  cases first
  cases second
  cases same
  rfl

/-- Assigning the stored value changes nothing. -/
theorem set_stored
    {table : OrderedTable κ ν}
    {key : κ}
    {value : ν}
    (found : table.get? key = some value) :
    table.set key value = table := by
  have known : key ∈ table.entries.map Prod.fst :=
    mem_keys (get?_eq_some.mp found)
  apply eq_of_entries
  simp only [set, known, ↓reduceDIte]
  refine (List.map_congr_left ?_).trans (List.map_id _)
  intro entry member
  simp only [id_eq]
  split
  case isTrue same =>
    subst same
    have stored := get?_eq_some.mpr member
    rw [found] at stored
    cases stored
    rfl
  case isFalse => rfl

/-- A later assignment to the same key replaces an earlier one. -/
theorem set_set
    (table : OrderedTable κ ν)
    (key : κ)
    (first second : ν) :
    (table.set key first).set key second = table.set key second := by
  apply eq_of_entries
  by_cases known : key ∈ table.entries.map Prod.fst
  · have knownAfter :
        key ∈ (table.set key first).entries.map Prod.fst :=
      mem_keys (get?_eq_some.mp (table.get?_set_self key first))
    rw [set, dif_pos knownAfter]
    simp only [set, known, ↓reduceDIte, List.map_map]
    apply List.map_congr_left
    intro entry _
    by_cases same : entry.1 = key <;> simp [same]
  · have knownAfter :
        key ∈ (table.set key first).entries.map Prod.fst :=
      mem_keys (get?_eq_some.mp (table.get?_set_self key first))
    rw [set, dif_pos knownAfter]
    simp only [set, known, ↓reduceDIte, pushNew, List.map_append,
      List.map_cons, ↓reduceIte, List.map_nil]
    congr 1
    refine (List.map_congr_left ?_).trans (List.map_id _)
    intro entry member
    rw [id_eq, if_neg]
    rintro rfl
    exact known (mem_keys member)

/-! ## Sums over the stored values -/

/-- The sum of a quantity over all stored values. -/
def sum (table : OrderedTable κ ν) (measure : ν → Int) : Int :=
  (table.entries.map fun entry => measure entry.2).sum

/-- A stored entry can be brought to the front of the table's members. -/
theorem entries_perm
    {table : OrderedTable κ ν}
    {key : κ}
    {value : ν}
    (found : table.get? key = some value) :
    table.entries.Perm ((key, value) :: (table.erase key).entries) := by
  rcases table with ⟨entries, nodup⟩
  rw [get?_eq_some] at found
  simp only at found
  simp only [erase]
  induction entries with
  | nil =>
      simp at found
  | cons entry rest inductionHypothesis =>
      obtain ⟨headFresh, restNodup⟩ := List.nodup_cons.mp nodup
      by_cases isHead : entry.1 = key
      · have same : entry = (key, value) := by
          rcases List.mem_cons.mp found with same | inRest
          · exact same.symm
          · exact
              (headFresh
                (isHead ▸ mem_keys inRest)).elim
        have restKept :
            rest.filter (fun entry => decide (entry.1 ≠ key)) = rest := by
          rw [List.filter_eq_self]
          intro later member
          have : later.1 ≠ key := by
            rintro rfl
            exact headFresh
              (isHead ▸ mem_keys member)
          simpa using this
        subst same
        rw [List.filter_cons_of_neg (by simp), restKept]
      · have inRest : (key, value) ∈ rest := by
          rcases List.mem_cons.mp found with same | inRest
          · exact (isHead (by rw [← same])).elim
          · exact inRest
        rw [List.filter_cons_of_pos (by simpa using isHead)]
        exact ((inductionHypothesis restNodup inRest).cons entry).trans
          (List.Perm.swap _ _ _)

theorem sum_eq_add_erase
    {table : OrderedTable κ ν}
    {key : κ}
    {value : ν}
    (found : table.get? key = some value)
    (measure : ν → Int) :
    table.sum measure = measure value + (table.erase key).sum measure := by
  unfold sum
  rw [((entries_perm found).map fun entry => measure entry.2).sum_eq,
    List.map_cons, List.sum_cons]

omit [DecidableEq κ] in
theorem sum_nonneg
    (table : OrderedTable κ ν)
    {measure : ν → Int}
    (nonneg : ∀ value, 0 ≤ measure value) :
    0 ≤ table.sum measure := by
  apply List.sum_nonneg
  intro amount member
  obtain ⟨entry, _, rfl⟩ := List.mem_map.mp member
  exact nonneg entry.2

/-- A stored value measures at most the sum, where nothing is negative. -/
theorem le_sum
    {table : OrderedTable κ ν}
    {key : κ}
    {value : ν}
    (found : table.get? key = some value)
    (measure : ν → Int)
    (nonneg :
      ∀ {other stored}, table.get? other = some stored → 0 ≤ measure stored) :
    measure value ≤ table.sum measure := by
  have rest : 0 ≤ (table.erase key).sum measure := by
    apply List.sum_nonneg
    intro amount member
    obtain ⟨entry, stored, rfl⟩ := List.mem_map.mp member
    exact nonneg (get?_eq_some.mpr (mem_erase.mp stored).1)
  rw [sum_eq_add_erase found measure]
  omega

theorem size_eq_erase_add_one
    {table : OrderedTable κ ν}
    {key : κ}
    {value : ν}
    (found : table.get? key = some value) :
    table.size = (table.erase key).size + 1 := by
  unfold size
  rw [(entries_perm found).length_eq, List.length_cons]

theorem erase_set
    (table : OrderedTable κ ν)
    (key : κ)
    (value : ν) :
    (table.set key value).erase key = table.erase key := by
  apply eq_of_entries
  unfold set erase
  split
  · rename_i known
    simp only
    clear known
    induction table.entries with
    | nil =>
        rfl
    | cons entry rest inductionHypothesis =>
        by_cases same : entry.1 = key
        · simpa [same] using inductionHypothesis
        · simpa [same] using inductionHypothesis
  · simp [pushNew]

@[simp] theorem erase_moveToEnd
    (table : OrderedTable κ ν)
    (key : κ) :
    (table.moveToEnd key).erase key = table.erase key := by
  unfold moveToEnd
  split
  · rfl
  · apply eq_of_entries
    simp [erase, pushNew]

theorem sum_set
    (table : OrderedTable κ ν)
    (key : κ)
    (value : ν)
    (measure : ν → Int) :
    (table.set key value).sum measure =
      measure value + (table.erase key).sum measure := by
  rw [sum_eq_add_erase (table.get?_set_self key value), erase_set]

theorem erase_of_get?_eq_none
    {table : OrderedTable κ ν}
    {key : κ}
    (absent : table.get? key = none) :
    table.erase key = table := by
  rcases table with ⟨entries, nodup⟩
  rw [get?_eq_none] at absent
  simp only [erase, mk.injEq]
  rw [List.filter_eq_self]
  intro entry member
  have : entry.1 ≠ key := by
    rintro rfl
    exact absent (mem_keys member)
  simpa using this

@[simp] theorem sum_moveToEnd
    (table : OrderedTable κ ν)
    (key : κ)
    (measure : ν → Int) :
    (table.moveToEnd key).sum measure = table.sum measure := by
  cases found : table.get? key with
  | none =>
      simp [moveToEnd, found]
  | some value =>
      rw [sum_eq_add_erase found]
      simp [moveToEnd, found, pushNew, sum, add_comm]

@[simp] theorem size_moveToEnd
    (table : OrderedTable κ ν)
    (key : κ) :
    (table.moveToEnd key).size = table.size := by
  cases found : table.get? key with
  | none =>
      simp [moveToEnd, found]
  | some value =>
      rw [size_eq_erase_add_one found]
      simp [moveToEnd, found, pushNew, size]

/-- A table that stores nothing has no entry. -/
theorem entries_eq_nil
    {table : OrderedTable κ ν}
    (absent : ∀ key, table.get? key = none) :
    table.entries = [] := by
  rw [List.eq_nil_iff_forall_not_mem]
  intro entry member
  exact get?_eq_none.mp (absent entry.1) (mem_keys member)

/-- A table with at most one entry stores nothing under other keys. -/
theorem get?_of_size_le_one
    {table : OrderedTable κ ν}
    {key : κ}
    {value : ν}
    (found : table.get? key = some value)
    (single : table.size ≤ 1)
    {other : κ}
    (different : other ≠ key) :
    table.get? other = none := by
  rw [size_eq_erase_add_one found] at single
  have rest : (table.erase key).entries = [] := by
    apply List.eq_nil_of_length_eq_zero
    unfold size at single
    omega
  rw [← get?_erase_of_ne table different, get?_eq_none, rest]
  exact List.not_mem_nil

/-- The sum over a table that stores one value. -/
theorem sum_of_alone
    {table : OrderedTable κ ν}
    {key : κ}
    {value : ν}
    (found : table.get? key = some value)
    (alone : ∀ other, other ≠ key → table.get? other = none)
    (measure : ν → Int) :
    table.sum measure = measure value := by
  have rest : (table.erase key).entries = [] := by
    apply entries_eq_nil
    intro other
    by_cases same : other = key
    · rw [same]
      exact get?_erase_self table key
    · rw [get?_erase_of_ne table same]
      exact alone other same
  rw [sum_eq_add_erase found measure]
  simp [sum, rest]

theorem size_set_of_some
    {table : OrderedTable κ ν}
    {key : κ}
    {value : ν}
    (found : table.get? key = some value)
    (replacement : ν) :
    (table.set key replacement).size = table.size := by
  rw [size_eq_erase_add_one (table.get?_set_self key replacement),
    size_eq_erase_add_one found]
  unfold size
  rw [erase_set]

/-- A value under a new key comes last. -/
theorem entries_set_of_none
    {table : OrderedTable κ ν}
    {key : κ}
    (absent : table.get? key = none)
    (value : ν) :
    (table.set key value).entries = table.entries ++ [(key, value)] := by
  unfold set
  rw [dif_neg (get?_eq_none.mp absent)]
  rfl

theorem size_set_of_none
    {table : OrderedTable κ ν}
    {key : κ}
    (absent : table.get? key = none)
    (value : ν) :
    (table.set key value).size = table.size + 1 := by
  rw [size, entries_set_of_none absent, List.length_append]
  rfl

/-- Two tables whose values measure the same under each key add up to the same. -/
theorem sum_congr
    {others : OrderedTable κ ν}
    {table : OrderedTable κ ν}
    {measure : ν → Int}
    (same :
      ∀ key, (others.get? key).map measure = (table.get? key).map measure) :
    others.sum measure = table.sum measure := by
  have distinct (table : OrderedTable κ ν) :
      (table.entries.map fun entry => (entry.1, measure entry.2)).Nodup := by
    apply List.Nodup.of_map Prod.fst
    rw [List.map_map]
    exact table.keysNodup
  have members
      {table : OrderedTable κ ν}
      {key : κ}
      {amount : Int} :
      (key, amount) ∈
          table.entries.map (fun entry => (entry.1, measure entry.2)) ↔
        (table.get? key).map measure = some amount := by
    simp only [List.mem_map, Prod.mk.injEq, Option.map_eq_some_iff,
      get?_eq_some]
    constructor
    · rintro ⟨⟨_, value⟩, stored, rfl, rfl⟩
      exact ⟨value, stored, rfl⟩
    · rintro ⟨value, stored, rfl⟩
      exact ⟨(key, value), stored, rfl, rfl⟩
  have permuted :
      (others.entries.map fun entry => (entry.1, measure entry.2)).Perm
        (table.entries.map fun entry => (entry.1, measure entry.2)) := by
    rw [List.perm_ext_iff_of_nodup (distinct others) (distinct table)]
    rintro ⟨key, amount⟩
    rw [members, members, same key]
  have sums := (permuted.map Prod.snd).sum_eq
  rw [List.map_map, List.map_map] at sums
  exact sums

/-- Of several entries, one moved to the end is not the oldest. -/
theorem oldest?_moveToEnd_ne
    {table : OrderedTable κ ν}
    (several : 1 < table.size)
    (key : κ) :
    (table.moveToEnd key).oldest? ≠ some key := by
  intro isOldest
  cases found : table.get? key with
  | none =>
      obtain ⟨value, isStored⟩ := get?_of_oldest? isOldest
      rw [get?_moveToEnd, found] at isStored
      cases isStored
  | some value =>
      have others : 0 < (table.erase key).size := by
        have sizes := size_eq_erase_add_one found
        omega
      obtain ⟨first, stored, isFirst, isStored⟩ := oldest?_of_pos others
      have sameFirst : (table.moveToEnd key).oldest? = some first := by
        unfold oldest? moveToEnd pushNew at *
        simp only [found, List.head?_append]
        rw [Option.map_eq_some_iff] at isFirst ⊢
        obtain ⟨entry, isHead, isKey⟩ := isFirst
        exact ⟨entry, by simp [isHead], isKey⟩
      rw [sameFirst, Option.some.injEq] at isOldest
      rw [isOldest, get?_erase_self] at isStored
      cases isStored

end OrderedTable

end PacketAudit.Library
