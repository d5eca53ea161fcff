import PacketAudit.Forwarded.Suppressor

namespace PacketAudit

open Library

/-!
# What the suppressor keeps

The admitted ingress held by a suppressor as a multiset, and the bounds on its
table.  Expiry, consumption and eviction only remove entries from the
multiset; admission adds the ingress frames it is given and nothing else.
-/

/-- The entries that a key's ingress records stand for. -/
def heldAt
    (key : MatchKey)
    (ids : List IngressRecord) : Multiset (MatchKey × IngressRecord) :=
  (ids.map fun record => (key, record) : List (MatchKey × IngressRecord))

@[simp] theorem heldAt_nil (key : MatchKey) : heldAt key [] = 0 := rfl

theorem heldAt_append
    (key : MatchKey)
    (first second : List IngressRecord) :
    heldAt key (first ++ second) = heldAt key first + heldAt key second := by
  simp [heldAt]

theorem heldAt_cons
    (key : MatchKey)
    (record : IngressRecord)
    (rest : List IngressRecord) :
    heldAt key (record :: rest) = {(key, record)} + heldAt key rest := by
  rw [← List.singleton_append, heldAt_append]
  rfl

theorem heldAt_take_add_drop
    (key : MatchKey)
    (ids : List IngressRecord)
    (count : Nat) :
    heldAt key (ids.take count) + heldAt key (ids.drop count) =
      heldAt key ids := by
  rw [← heldAt_append, List.take_append_drop]

theorem heldAt_le_of_suffix
    {key : MatchKey}
    {kept ids : List IngressRecord}
    (suffix : kept <:+ ids) :
    heldAt key kept ≤ heldAt key ids := by
  obtain ⟨dropped, rfl⟩ := suffix
  rw [heldAt_append]
  exact Multiset.le_add_left _ _

namespace Suppressor

variable {limits : SuppressorLimits}

/-- Every ingress that can still authorise a match. -/
def held (suppressor : Suppressor) : Multiset (MatchKey × IngressRecord) :=
  suppressor.accepted.total heldAt

/-- The length of all keys of the table. -/
def retainedKeyBytes (suppressor : Suppressor) : Int :=
  suppressor.accepted.total fun key _ => (key.1.length : Int)

/-- The byte counter is exact and no key is kept without an ingress. -/
structure Exact (suppressor : Suppressor) : Prop where
  keyBytes : suppressor.keyBytes = suppressor.retainedKeyBytes
  copies :
    ∀ {key : MatchKey} {ids : List IngressRecord},
      suppressor.accepted.get? key = some ids →
        ids ≠ [] ∧ ids.length ≤ maxIngressCopiesPerKey

/-- The table is within the limits. -/
structure Bounded
    (limits : SuppressorLimits)
    (suppressor : Suppressor) : Prop extends Exact suppressor where
  bytesBound : suppressor.keyBytes ≤ limits.maxBytes
  entriesBound : suppressor.accepted.size ≤ limits.maxEntries

/-- A suppressor that was just constructed. -/
theorem bounded_initial : Bounded limits {} where
  keyBytes := rfl
  copies := by
    intro key ids found
    cases found
  bytesBound := Int.natCast_nonneg _
  entriesBound := Nat.zero_le _

/-! ## Replacing one key's ingress by a part of it -/

/-- One suppressor keeps no more than another. -/
structure KeepsLess (smaller larger : Suppressor) : Prop where
  held : smaller.held ≤ larger.held
  exact : larger.Exact → smaller.Exact
  bytes : larger.Exact → smaller.keyBytes ≤ larger.keyBytes
  entries : smaller.accepted.size ≤ larger.accepted.size

theorem KeepsLess.refl (suppressor : Suppressor) :
    KeepsLess suppressor suppressor where
  held := le_refl _
  exact := id
  bytes := fun _ => le_refl _
  entries := le_refl _

/-- The counters of expired and evicted ingress do not matter. -/
theorem KeepsLess.of_same
    {smaller larger : Suppressor}
    (sameAccepted : smaller.accepted = larger.accepted)
    (sameBytes : smaller.keyBytes = larger.keyBytes) :
    KeepsLess smaller larger where
  held := by rw [Suppressor.held, Suppressor.held, sameAccepted]
  exact := by
    intro exact
    refine { keyBytes := ?_, copies := ?_ }
    · rw [sameBytes, exact.keyBytes, retainedKeyBytes, retainedKeyBytes,
        sameAccepted]
    · intro key ids found
      exact exact.copies (sameAccepted ▸ found)
  bytes := fun _ => sameBytes.le
  entries := by rw [sameAccepted]

theorem KeepsLess.trans
    {smaller middle larger : Suppressor}
    (first : KeepsLess smaller middle)
    (second : KeepsLess middle larger) :
    KeepsLess smaller larger where
  held := first.held.trans second.held
  exact := first.exact ∘ second.exact
  bytes := fun exact =>
    (first.bytes (second.exact exact)).trans (second.bytes exact)
  entries := first.entries.trans second.entries

theorem KeepsLess.bounded
    {smaller larger : Suppressor}
    (less : KeepsLess smaller larger)
    (bounded : larger.Bounded limits) :
    smaller.Bounded limits where
  toExact := less.exact bounded.toExact
  bytesBound := (less.bytes bounded.toExact).trans bounded.bytesBound
  entriesBound := less.entries.trans bounded.entriesBound

/-- Removing a key forgets its ingress. -/
theorem held_remove
    {suppressor : Suppressor}
    {key : MatchKey}
    {ids : List IngressRecord}
    (found : suppressor.accepted.get? key = some ids) :
    suppressor.held = heldAt key ids + (suppressor.remove key).held :=
  OrderedTable.total_eq_add_erase found _

theorem retainedKeyBytes_remove
    {suppressor : Suppressor}
    {key : MatchKey}
    {ids : List IngressRecord}
    (found : suppressor.accepted.get? key = some ids) :
    suppressor.retainedKeyBytes =
      key.1.length + (suppressor.remove key).retainedKeyBytes :=
  OrderedTable.total_eq_add_erase found _

theorem keepsLess_remove
    {suppressor : Suppressor}
    {key : MatchKey}
    {ids : List IngressRecord}
    (found : suppressor.accepted.get? key = some ids) :
    KeepsLess (suppressor.remove key) suppressor where
  held := by
    rw [held_remove found]
    exact Multiset.le_add_left _ _
  exact := by
    intro exact
    refine { keyBytes := ?_, copies := ?_ }
    · have counted := exact.keyBytes
      rw [retainedKeyBytes_remove found] at counted
      simp only [remove] at counted ⊢
      omega
    · intro other otherIds otherFound
      by_cases same : other = key
      · subst same
        simp [remove] at otherFound
      · rw [remove, OrderedTable.get?_erase_of_ne _ same] at otherFound
        exact exact.copies otherFound
  bytes := by
    intro _
    simp only [remove]
    omega
  entries := by
    rw [OrderedTable.size_eq_erase_add_one found]
    exact Nat.le_succ _

/-- A key whose ingress is used up is removed after it was rewritten. -/
theorem keepsLess_remove_of_set
    {suppressor replaced : Suppressor}
    {key : MatchKey}
    {ids kept : List IngressRecord}
    (found : suppressor.accepted.get? key = some ids)
    (isSet : replaced.accepted = suppressor.accepted.set key kept)
    (sameBytes : replaced.keyBytes = suppressor.keyBytes) :
    KeepsLess (replaced.remove key) suppressor := by
  have same : KeepsLess (replaced.remove key) (suppressor.remove key) :=
    .of_same (by simp only [remove, isSet, OrderedTable.erase_set])
      (by simp only [remove, sameBytes])
  exact same.trans (keepsLess_remove found)

/-- Store the remaining ingress of a key, moving it to the end or not. -/
theorem keepsLess_set
    {suppressor replaced : Suppressor}
    {key : MatchKey}
    {ids kept : List IngressRecord}
    (found : suppressor.accepted.get? key = some ids)
    (suffix : kept <:+ ids)
    (nonempty : kept ≠ [])
    (sameBytes : replaced.keyBytes = suppressor.keyBytes)
    (isSet :
      replaced.accepted = suppressor.accepted.set key kept ∨
        replaced.accepted =
          (suppressor.accepted.set key kept).moveToEnd key) :
    KeepsLess replaced suppressor := by
  have lookup (other : MatchKey) :
      replaced.accepted.get? other =
        if other = key then some kept
        else suppressor.accepted.get? other := by
    rcases isSet with isSet | isSet <;> rw [isSet] <;>
      simp [OrderedTable.get?_set]
  have totals {M : Type} [AddCommMonoid M]
      (measure : MatchKey → List IngressRecord → M) :
      replaced.accepted.total measure =
        measure key kept +
          (suppressor.accepted.erase key).total measure := by
    rcases isSet with isSet | isSet <;> rw [isSet] <;>
      simp [OrderedTable.total_set]
  refine { held := ?_, exact := ?_, bytes := ?_, entries := ?_ }
  · rw [held, totals, held, OrderedTable.total_eq_add_erase found]
    exact add_le_add_left (heldAt_le_of_suffix suffix) _
  · intro exact
    refine { keyBytes := ?_, copies := ?_ }
    · rw [sameBytes, exact.keyBytes, retainedKeyBytes, retainedKeyBytes,
        totals, OrderedTable.total_eq_add_erase found]
    · intro other otherIds otherFound
      rw [lookup] at otherFound
      split at otherFound
      · cases otherFound
        exact ⟨nonempty, suffix.length_le.trans (exact.copies found).2⟩
      · exact exact.copies otherFound
  · intro _
    rw [sameBytes]
  · rcases isSet with isSet | isSet <;> rw [isSet] <;>
      simp [OrderedTable.size_set_of_some found]

/-! ## Expiry -/

theorem keepsLess_expireKey
    (nowNs : Int)
    (suppressor : Suppressor)
    (key : MatchKey) :
    KeepsLess (suppressor.expireKey limits nowNs key) suppressor := by
  unfold expireKey
  cases found : suppressor.accepted.get? key with
  | none =>
      exact .refl suppressor
  | some ids =>
      simp only
      split
      case isTrue isEmpty =>
        exact keepsLess_remove_of_set found rfl rfl
      case isFalse nonempty =>
        exact keepsLess_set found (List.dropWhile_suffix _)
          (by simpa using nonempty) rfl (.inl rfl)

/-- Expiry never adds an ingress. -/
theorem keepsLess_expire
    (nowNs : Int)
    (suppressor : Suppressor) :
    KeepsLess (suppressor.expire limits nowNs) suppressor := by
  unfold expire
  split
  · exact .refl suppressor
  · generalize suppressor.accepted.entries.map Prod.fst = keys
    have rounds
        (keys : List MatchKey)
        (current : Suppressor) :
        KeepsLess (keys.foldl (expireKey limits nowNs) current) current := by
      induction keys generalizing current with
      | nil =>
          exact .refl current
      | cons key rest inductionHypothesis =>
          exact (inductionHypothesis _).trans
            (keepsLess_expireKey nowNs current key)
    exact (rounds keys _).trans (.of_same rfl rfl)

theorem keepsLess_expireFor
    (suppressor : Suppressor)
    (packets : List ParsedPacket) :
    KeepsLess (suppressor.expireFor limits packets) suppressor := by
  cases packets with
  | nil =>
      exact .refl suppressor
  | cons first rest =>
      exact keepsLess_expire _ suppressor

/-! ## Consumption -/

/-- The ingress records that a plan uses under one key. -/
def usedAt
    (accepted : OrderedTable MatchKey (List IngressRecord))
    (key : MatchKey)
    (count : Nat) : Multiset (MatchKey × IngressRecord) :=
  heldAt key (((accepted.get? key).getD []).take count)

/-- A use of a key can be consumed. -/
def Consumable
    (accepted : OrderedTable MatchKey (List IngressRecord))
    (use : MatchKey × Nat) : Prop :=
  ∃ ids, accepted.get? use.1 = some ids ∧ use.2 ≤ ids.length

/-- What consuming a key's first records does. -/
theorem consume_consumable
    {suppressor : Suppressor}
    {use : MatchKey × Nat}
    (fault : SuppressorFault)
    (consumable : Consumable suppressor.accepted use) :
    ∃ consumed,
      suppressor.consume fault use = .ok consumed ∧
        KeepsLess consumed suppressor ∧
        consumed.held + usedAt suppressor.accepted use.1 use.2 =
          suppressor.held ∧
        ∀ other, other ≠ use.1 →
          consumed.accepted.get? other = suppressor.accepted.get? other := by
  obtain ⟨key, count⟩ := use
  obtain ⟨ids, found, within⟩ := consumable
  simp only at found within
  have split := heldAt_take_add_drop key ids count
  have wasHeld :
      suppressor.held =
        heldAt key ids +
          (suppressor.accepted.erase key).total heldAt :=
    OrderedTable.total_eq_add_erase found _
  have isUsed :
      usedAt suppressor.accepted key count = heldAt key (ids.take count) := by
    simp [usedAt, found]
  rw [isUsed]
  unfold consume
  simp only [found, if_neg (Nat.not_lt.mpr within)]
  by_cases isEmpty : ids.drop count = []
  · refine ⟨_, if_pos (by simpa using isEmpty), ?_, ?_, ?_⟩
    · exact keepsLess_remove_of_set found rfl rfl
    · rw [wasHeld, ← split, isEmpty]
      simp only [held, remove, OrderedTable.erase_set, heldAt_nil, add_zero]
      exact add_comm _ _
    · intro other different
      simp only [remove, OrderedTable.erase_set]
      exact OrderedTable.get?_erase_of_ne _ different
  · refine ⟨_, if_neg (by simpa using isEmpty), ?_, ?_, ?_⟩
    · exact keepsLess_set found (List.drop_suffix _ _) isEmpty rfl (.inr rfl)
    · rw [wasHeld, ← split]
      simp only [held, OrderedTable.total_moveToEnd, OrderedTable.total_set]
      abel
    · intro other different
      simp only [OrderedTable.get?_moveToEnd]
      exact OrderedTable.get?_set_of_ne _ _ different

/-- Consuming the uses of different keys. -/
theorem consume_all
    {suppressor : Suppressor}
    {uses : List (MatchKey × Nat)}
    (fault : SuppressorFault)
    (distinct : (uses.map Prod.fst).Nodup)
    (consumable : ∀ use ∈ uses, Consumable suppressor.accepted use) :
    ∃ consumed,
      uses.foldlM (consume fault) suppressor = .ok consumed ∧
        KeepsLess consumed suppressor ∧
        consumed.held +
            (uses.map fun use =>
              usedAt suppressor.accepted use.1 use.2).sum =
          suppressor.held := by
  induction uses generalizing suppressor with
  | nil =>
      exact ⟨suppressor, rfl, .refl suppressor, by simp⟩
  | cons use rest inductionHypothesis =>
      obtain ⟨fresh, restDistinct⟩ := List.nodup_cons.mp distinct
      obtain ⟨next, consumes, less, counted, others⟩ :=
        consume_consumable fault (consumable use (by simp))
      have unchanged
          {later : MatchKey × Nat}
          (member : later ∈ rest) :
          next.accepted.get? later.1 = suppressor.accepted.get? later.1 := by
        apply others
        intro same
        exact fresh (same ▸ List.mem_map_of_mem member)
      obtain ⟨consumed, restConsumes, restLess, restCounted⟩ :=
        @inductionHypothesis next restDistinct (by
          intro later member
          obtain ⟨ids, found, within⟩ :=
            consumable later (List.mem_cons_of_mem _ member)
          exact ⟨ids, by rw [unchanged member, found], within⟩)
      have sameUses :
          (rest.map fun use => usedAt next.accepted use.1 use.2) =
            rest.map fun use => usedAt suppressor.accepted use.1 use.2 := by
        apply List.map_congr_left
        intro later member
        simp only [usedAt, unchanged member]
      refine ⟨consumed, ?_, restLess.trans less, ?_⟩
      · rw [List.foldlM_cons, consumes]
        exact restConsumes
      · rw [← counted, ← restCounted, sameUses, List.map_cons,
          List.sum_cons]
        abel

/-! ## Admission and eviction -/

theorem trimCopies_suffix (ids : List IngressRecord) :
    trimCopies ids <:+ ids :=
  List.drop_suffix _ _

theorem length_trimCopies_le (ids : List IngressRecord) :
    (trimCopies ids).length ≤ maxIngressCopiesPerKey := by
  rw [trimCopies, List.length_drop]
  omega

theorem trimCopies_ne_nil
    {ids : List IngressRecord}
    (nonempty : ids ≠ []) :
    trimCopies ids ≠ [] := by
  have positive := List.length_pos_iff.mpr nonempty
  intro isEmpty
  have : (trimCopies ids).length = 0 := by rw [isEmpty]; rfl
  rw [trimCopies, List.length_drop, maxIngressCopiesPerKey] at this
  omega

/-- Admission holds no more than what was held and what is admitted. -/
theorem admitIngress_spec
    (suppressor : Suppressor)
    (key : MatchKey)
    (records : List IngressRecord) :
    (suppressor.admitIngress limits (key, records)).held ≤
        heldAt key records + suppressor.held ∧
      (suppressor.Exact →
        (suppressor.admitIngress limits (key, records)).Exact) := by
  unfold admitIngress
  simp only
  split
  case isTrue =>
    exact ⟨Multiset.le_add_left _ _, id⟩
  case isFalse admits =>
    have nonempty : records ≠ [] := by
      intro isEmpty
      exact admits (.inl (by simp [isEmpty]))
    generalize isOld : (suppressor.accepted.get? key).getD [] = old
    have wasHeld :
        suppressor.held =
          heldAt key old + (suppressor.accepted.erase key).total heldAt := by
      rw [← isOld]
      exact OrderedTable.total_eq_getD_add_erase _ _ (heldAt_nil key)
    have kept : heldAt key (trimCopies (old ++ records)) ≤
        heldAt key old + heldAt key records := by
      rw [← heldAt_append]
      exact heldAt_le_of_suffix (trimCopies_suffix _)
    have heldBound :
        heldAt key (trimCopies (old ++ records)) +
            (suppressor.accepted.erase key).total heldAt ≤
          heldAt key records + suppressor.held := by
      rw [wasHeld, ← add_assoc, add_comm (heldAt key records)]
      exact add_le_add_left kept _
    cases found : suppressor.accepted.get? key with
    | none =>
        have isNil : old = [] := by simpa [found] using isOld.symm
        subst isNil
        simp only [OrderedTable.get?_set_self, Option.getD_some]
        refine ⟨?_, ?_⟩
        · simpa only [Suppressor.held, OrderedTable.total_set,
            OrderedTable.erase_set] using heldBound
        · intro exact
          refine { keyBytes := ?_, copies := ?_ }
          · have counted := exact.keyBytes
            simp only [retainedKeyBytes, OrderedTable.total_set,
              OrderedTable.erase_set,
              OrderedTable.erase_of_get?_eq_none found] at counted ⊢
            omega
          · intro other ids otherFound
            simp only [OrderedTable.get?_set] at otherFound
            split at otherFound
            · cases otherFound
              exact ⟨trimCopies_ne_nil (by simpa using nonempty),
                length_trimCopies_le _⟩
            · exact exact.copies otherFound
    | some ids =>
        have isIds : old = ids := by simpa [found] using isOld.symm
        subst isIds
        simp only [OrderedTable.get?_moveToEnd, found, Option.getD_some]
        refine ⟨?_, ?_⟩
        · simpa only [Suppressor.held, OrderedTable.total_set,
            OrderedTable.erase_moveToEnd] using heldBound
        · intro exact
          refine { keyBytes := ?_, copies := ?_ }
          · have counted := exact.keyBytes
            rw [retainedKeyBytes,
              OrderedTable.total_eq_add_erase found] at counted
            simpa only [retainedKeyBytes, OrderedTable.total_set,
              OrderedTable.erase_moveToEnd] using counted
          · intro other ids otherFound
            simp only [OrderedTable.get?_set,
              OrderedTable.get?_moveToEnd] at otherFound
            split at otherFound
            · cases otherFound
              exact ⟨trimCopies_ne_nil (by simp [nonempty]),
                length_trimCopies_le _⟩
            · exact exact.copies otherFound

/-- Admitting the unmatched ingress of a whole plan. -/
theorem admitIngress_all
    (added : List (MatchKey × List IngressRecord))
    (suppressor : Suppressor) :
    (added.foldl (admitIngress limits) suppressor).held ≤
        (added.map fun entry => heldAt entry.1 entry.2).sum +
          suppressor.held ∧
      (suppressor.Exact →
        (added.foldl (admitIngress limits) suppressor).Exact) := by
  induction added generalizing suppressor with
  | nil =>
      exact ⟨by simp, id⟩
  | cons entry rest inductionHypothesis =>
      obtain ⟨firstHeld, firstExact⟩ :=
        @admitIngress_spec limits suppressor entry.1 entry.2
      obtain ⟨restHeld, restExact⟩ :=
        inductionHypothesis (suppressor.admitIngress limits entry)
      refine ⟨?_, restExact ∘ firstExact⟩
      rw [List.foldl_cons, List.map_cons, List.sum_cons]
      refine restHeld.trans ?_
      calc
        _ ≤ (rest.map fun entry => heldAt entry.1 entry.2).sum +
            (heldAt entry.1 entry.2 + suppressor.held) :=
          add_le_add_right firstHeld _
        _ = _ := by abel

/-- An empty table retains no key bytes. -/
theorem Exact.keyBytes_of_empty
    {suppressor : Suppressor}
    (exact : suppressor.Exact)
    (isZero : suppressor.accepted.size = 0) :
    suppressor.keyBytes = 0 := by
  have isEmpty : suppressor.accepted.entries = [] :=
    List.eq_nil_of_length_eq_zero isZero
  rw [exact.keyBytes, retainedKeyBytes, OrderedTable.total, isEmpty]
  rfl

/-- An exact empty table is within the limits. -/
theorem Exact.not_overLimits_of_empty
    {suppressor : Suppressor}
    (exact : suppressor.Exact)
    (isZero : suppressor.accepted.size = 0) :
    suppressor.overLimits limits = false := by
  rw [overLimits, isZero, exact.keyBytes_of_empty isZero,
    decide_eq_false (Nat.not_lt_zero _), Bool.false_or,
    decide_eq_false (not_lt.mpr (Int.natCast_nonneg _))]

theorem Exact.bounded
    {suppressor : Suppressor}
    (exact : suppressor.Exact)
    (within : suppressor.overLimits limits = false) :
    suppressor.Bounded limits := by
  simp only [overLimits, Bool.or_eq_false_iff, decide_eq_false_iff_not,
    not_lt] at within
  exact {
    toExact := exact
    bytesBound := within.2
    entriesBound := within.1
  }

/-- Enough rounds of eviction bring the table within the limits. -/
theorem evictWhileOverLimits_spec
    (rounds : Nat)
    {suppressor : Suppressor}
    (exact : suppressor.Exact)
    (enough : suppressor.accepted.size ≤ rounds) :
    ∃ evicted,
      suppressor.evictWhileOverLimits limits rounds = .ok evicted ∧
        KeepsLess evicted suppressor ∧
        evicted.Bounded limits := by
  induction rounds generalizing suppressor with
  | zero =>
      have within :=
        @Exact.not_overLimits_of_empty limits suppressor exact
          (Nat.le_zero.mp enough)
      refine ⟨suppressor, ?_, .refl _, exact.bounded within⟩
      simp [evictWhileOverLimits, within]
  | succ rounds inductionHypothesis =>
      cases exceeds : suppressor.overLimits limits with
      | false =>
          refine ⟨suppressor, ?_, .refl _, exact.bounded exceeds⟩
          simp [evictWhileOverLimits, exceeds]
      | true =>
          have positive : 0 < suppressor.accepted.size := by
            rcases Nat.eq_zero_or_pos suppressor.accepted.size with
              isZero | positive
            · rw [exact.not_overLimits_of_empty isZero] at exceeds
              cases exceeds
            · exact positive
          obtain ⟨oldest, ids, isOldest, found⟩ :=
            OrderedTable.oldest?_of_pos positive
          have less :
              KeepsLess
                (({
                  suppressor with
                  evicted :=
                    suppressor.evicted +
                      ((suppressor.accepted.get? oldest).getD []).length
                } : Suppressor).remove oldest)
                suppressor := by
            refine KeepsLess.trans ?_ (keepsLess_remove found)
            exact .of_same rfl rfl
          obtain ⟨evicted, evicts, restLess, bounded⟩ :=
            @inductionHypothesis _ (less.exact exact) (by
              have shrinks := OrderedTable.size_eq_erase_add_one found
              simp only [remove]
              omega)
          refine ⟨evicted, ?_, restLess.trans less, bounded⟩
          simp only [evictWhileOverLimits, exceeds, ↓reduceIte, isOldest]
          exact evicts

end Suppressor

end PacketAudit
