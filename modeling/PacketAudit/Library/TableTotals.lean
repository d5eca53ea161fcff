import PacketAudit.Library.OrderedTable

namespace PacketAudit.Library.OrderedTable

/-!
# Totals over the entries of a table

A quantity of the entries, with values in any commutative monoid, added up
over a whole table, and how the total follows the table's operations.
-/

variable {κ ν M : Type} [DecidableEq κ] [AddCommMonoid M]

/-- The sum of a quantity over all entries. -/
def total (table : OrderedTable κ ν) (measure : κ → ν → M) : M :=
  (table.entries.map fun entry => measure entry.1 entry.2).sum

omit [DecidableEq κ] in
@[simp] theorem total_empty (measure : κ → ν → M) :
    (empty : OrderedTable κ ν).total measure = 0 := rfl

/-- A stored entry can be split off a total. -/
theorem total_eq_add_erase
    {table : OrderedTable κ ν}
    {key : κ}
    {value : ν}
    (found : table.get? key = some value)
    (measure : κ → ν → M) :
    table.total measure =
      measure key value + (table.erase key).total measure := by
  unfold total
  rw [((entries_perm found).map fun entry =>
      measure entry.1 entry.2).sum_eq, List.map_cons, List.sum_cons]

theorem total_set
    (table : OrderedTable κ ν)
    (key : κ)
    (value : ν)
    (measure : κ → ν → M) :
    (table.set key value).total measure =
      measure key value + (table.erase key).total measure := by
  rw [total_eq_add_erase (table.get?_set_self key value), erase_set]

/-- A new entry adds its quantity. -/
theorem total_set_of_none
    {table : OrderedTable κ ν}
    {key : κ}
    (absent : table.get? key = none)
    (value : ν)
    (measure : κ → ν → M) :
    (table.set key value).total measure =
      measure key value + table.total measure := by
  rw [total_set, erase_of_get?_eq_none absent]

@[simp] theorem total_moveToEnd
    (table : OrderedTable κ ν)
    (key : κ)
    (measure : κ → ν → M) :
    (table.moveToEnd key).total measure = table.total measure := by
  cases found : table.get? key with
  | none =>
      simp [moveToEnd, found]
  | some value =>
      rw [total_eq_add_erase found]
      simp [moveToEnd, found, pushNew, total, add_comm]

/-- Where a default value counts for nothing, it stands for a missing entry. -/
theorem total_eq_getD_add_erase
    (table : OrderedTable κ ν)
    (key : κ)
    {measure : κ → ν → M}
    {default : ν}
    (countsNothing : measure key default = 0) :
    table.total measure =
      measure key ((table.get? key).getD default) +
        (table.erase key).total measure := by
  cases found : table.get? key with
  | none =>
      rw [Option.getD_none, countsNothing, zero_add,
        erase_of_get?_eq_none found]
  | some value =>
      exact total_eq_add_erase found measure

/-- The total of a table that stores one value. -/
theorem total_of_alone
    {table : OrderedTable κ ν}
    {key : κ}
    {value : ν}
    (found : table.get? key = some value)
    (alone : ∀ other, other ≠ key → table.get? other = none)
    (measure : κ → ν → M) :
    table.total measure = measure key value := by
  have rest : (table.erase key).entries = [] := by
    apply entries_eq_nil
    intro other
    by_cases same : other = key
    · rw [same]
      exact get?_erase_self table key
    · rw [get?_erase_of_ne table same]
      exact alone other same
  rw [total_eq_add_erase found measure]
  simp [total, rest]

section Groups

variable {G : Type} [AddCommGroup G]

/-- Without an entry the total lacks its quantity. -/
theorem total_erase_of_some
    {table : OrderedTable κ ν}
    {key : κ}
    {value : ν}
    (found : table.get? key = some value)
    (measure : κ → ν → G) :
    (table.erase key).total measure =
      table.total measure - measure key value := by
  rw [total_eq_add_erase found, add_sub_cancel_left]

/-- A changed entry changes the total by the difference of its quantities. -/
theorem total_set_of_some
    {table : OrderedTable κ ν}
    {key : κ}
    {value : ν}
    (found : table.get? key = some value)
    (replacement : ν)
    (measure : κ → ν → G) :
    (table.set key replacement).total measure =
      table.total measure + (measure key replacement - measure key value) := by
  rw [total_set, total_erase_of_some found]
  abel

/-- Where no entry has a negative quantity, none has more than the total. -/
theorem le_total
    [PartialOrder G]
    [IsOrderedAddMonoid G]
    {table : OrderedTable κ ν}
    {key : κ}
    {value : ν}
    {measure : κ → ν → G}
    (nonneg :
      ∀ {other stored},
        table.get? other = some stored → 0 ≤ measure other stored)
    (found : table.get? key = some value) :
    measure key value ≤ table.total measure := by
  have rest : 0 ≤ (table.erase key).total measure := by
    apply List.sum_nonneg
    intro amount member
    obtain ⟨entry, stored, rfl⟩ := List.mem_map.mp member
    exact nonneg (get?_eq_some.mpr (mem_erase.mp stored).1)
  rw [total_eq_add_erase found]
  exact le_add_of_nonneg_right rest

end Groups

end PacketAudit.Library.OrderedTable
