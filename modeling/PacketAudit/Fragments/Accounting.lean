import PacketAudit.Fragments.Expiry
import PacketAudit.Fragments.Collecting
import PacketAudit.Library.TableTotals

namespace PacketAudit

/-!
# The fragment budgets

Bytes, ranges and provenance entries are counted over all datagrams.  Every
call keeps the three counters equal to what the datagrams held add up to, and
leaves the reassembler within its limits.
-/

open Library OrderedTable

/-- Amounts of buffered bytes, ranges and provenance entries. -/
abbrev FragmentAmounts := Int × Int × Int

namespace FragmentState

/-- What `_discard` gives back for a datagram. -/
def share (state : FragmentState) : FragmentAmounts :=
  (state.bufferedBytes, state.ranges.length, state.sourcePacketIds.length)

/-- What every state of a datagram satisfies. -/
structure Sound
    (limits : FragmentLimits)
    (state : FragmentState) : Prop where
  tidy : state.Tidy
  inside :
    ∀ {position},
      Covers state.ranges position →
        0 ≤ position ∧ position < limits.maxDatagramBytes
  held : (totalLength state.ranges : Int) ≤ state.bufferedBytes

variable
  {limits : FragmentLimits}
  {state : FragmentState}
  {packet : ParsedPacket}

theorem totalLength_insert :
    totalLength (state.insert packet).ranges =
      totalLength state.ranges + totalLength (state.additions packet) := by
  have retagged
      {ρ σ : Type}
      (tag : σ)
      (segments : List (Segment UInt8 ρ)) :
      totalLength (segments.map (Segment.retag tag)) =
        totalLength segments := by
    simp [totalLength, Segment.retag, Function.comp_def]
  simp only [insert, marked, retagged, totalLength_coalesce,
    totalLength_insertSorted]

/-- The new bytes are counted, and perhaps those of ranges joined to them. -/
theorem totalLength_additions_le_added :
    totalLength (state.additions packet) ≤ state.added packet := by
  have marks :
      (state.marked packet).filter (fun range => range.tag) |>.Perm
        ((state.additions packet).map (Segment.retag true)) := by
    have unmarked :
        (state.ranges.map (Segment.retag false)).filter
          (fun range => range.tag) = [] := by
      simp [Segment.retag]
    have allMarked :
        ((state.additions packet).map (Segment.retag true)).filter
            (fun range => range.tag) =
          (state.additions packet).map (Segment.retag true) := by
      simp [Segment.retag]
    have split :=
      (insertSorted_perm
        (state.ranges.map (Segment.retag false))
        ((state.additions packet).map (Segment.retag true))).filter
          fun range => range.tag
    rw [List.filter_append, unmarked, allMarked] at split
    exact split
  have counted :=
    totalLength_filter_le_coalesce (fun isNew => isNew)
      (state.marked packet)
  rw [totalLength_perm marks] at counted
  simpa [added, totalLength, Segment.retag, Function.comp_def] using counted

namespace Sound

theorem new (clock : Int) : Sound limits (.new clock packet) where
  tidy := {
    solid := by simp [FragmentState.new, Solid]
    apart := List.Pairwise.nil }
  inside := by simp [FragmentState.new]
  held := by simp [FragmentState.new]

/-- A fragment that is not malformed ends inside the datagram limit. -/
theorem insert
    (sound : Sound limits state)
    (wellFormed : FragmentReassembler.isMalformed limits packet = false) :
    Sound limits (state.insert packet) where
  tidy := sound.tidy.insert packet
  inside := by
    intro position covered
    rcases covers_insert.mp covered with before | inPacket
    · exact sound.inside before
    · have ends : packet.fragmentEnd ≤ limits.maxDatagramBytes := by
        unfold FragmentReassembler.isMalformed at wellFormed
        simpa using (Bool.or_eq_false_iff.mp wellFormed).1
      unfold ParsedPacket.fragmentEnd at ends
      unfold Segment.Contains Segment.stop ParsedPacket.byteRange at inPacket
      simp only at inPacket
      omega
  held := by
    have before := sound.held
    have counted :=
      @totalLength_additions_le_added state packet
    rw [totalLength_insert]
    simp only [FragmentState.insert]
    omega

theorem touch
    (sound : Sound limits state)
    (clock : Int) :
    Sound limits (state.touch clock packet) :=
  ⟨⟨sound.tidy.solid, sound.tidy.apart⟩, sound.inside, sound.held⟩

theorem recordFinalEnd
    (sound : Sound limits state) :
    Sound limits (state.recordFinalEnd packet) :=
  ⟨⟨sound.tidy.solid, sound.tidy.apart⟩, sound.inside, sound.held⟩

theorem share_nonneg (sound : Sound limits state) : 0 ≤ state.share := by
  have held := sound.held
  exact ⟨by simp only [share]; show 0 ≤ state.bufferedBytes; omega,
    Int.natCast_nonneg _, Int.natCast_nonneg _⟩

/-- Where every range lies. -/
theorem range_inside
    (sound : Sound limits state)
    {range : ByteRange}
    (member : range ∈ state.ranges) :
    0 ≤ range.start ∧ range.stop ≤ limits.maxDatagramBytes := by
  have forward := Segment.start_lt_stop (sound.tidy.solid range member)
  have first := sound.inside ⟨range, member, le_refl _, forward⟩
  have last : 0 ≤ range.stop - 1 ∧ range.stop - 1 < limits.maxDatagramBytes :=
    sound.inside ⟨range, member, by omega, by omega⟩
  omega

end Sound

end FragmentState

/-- The limits of the three budgets. -/
def FragmentLimits.budgets (limits : FragmentLimits) : FragmentAmounts :=
  (limits.maxBufferedBytes, limits.maxBufferedRanges,
    limits.maxBufferedProvenanceEntries)

namespace FragmentReassembler

/-- What the three counters say. -/
def booked (reassembler : FragmentReassembler) : FragmentAmounts :=
  (reassembler.counters.bufferedBytes, reassembler.counters.bufferedRanges,
    reassembler.counters.bufferedProvenanceEntries)

/-- What the datagrams held add up to. -/
def shares (reassembler : FragmentReassembler) : FragmentAmounts :=
  reassembler.states.total fun _ state => state.share

/-- The share of one key, nothing for a key that is not held. -/
def shareOf
    (key : FragmentKey)
    (reassembler : FragmentReassembler) : FragmentAmounts :=
  ((reassembler.states.get? key).getD {}).share

/-- The counters agree with the datagrams, each of which is sound. -/
structure Booked
    (limits : FragmentLimits)
    (reassembler : FragmentReassembler) : Prop where
  exact : reassembler.booked = reassembler.shares
  sound :
    ∀ {key state},
      reassembler.states.get? key = some state → state.Sound limits

/-- Every limit that spans datagrams or bounds their number of ranges. -/
structure Within
    (limits : FragmentLimits)
    (reassembler : FragmentReassembler) : Prop where
  datagrams : reassembler.states.size ≤ limits.maxDatagrams
  budgets : reassembler.booked ≤ limits.budgets
  ranges :
    ∀ {key state},
      reassembler.states.get? key = some state →
        state.ranges.length ≤ limits.maxRangesPerDatagram

variable
  {limits : FragmentLimits}
  {reassembler : FragmentReassembler}

theorem shares_eq_shareOf_add
    (key : FragmentKey)
    (reassembler : FragmentReassembler) :
    reassembler.shares =
      reassembler.shareOf key +
        (reassembler.states.erase key).total fun _ state => state.share :=
  total_eq_getD_add_erase _ _ rfl

/-- The loop condition, as a comparison of amounts. -/
theorem overLimits_eq_false :
    reassembler.overLimits limits = false ↔
      reassembler.states.size ≤ limits.maxDatagrams ∧
        reassembler.booked ≤ limits.budgets := by
  unfold overLimits booked FragmentLimits.budgets
  simp only [Bool.or_eq_false_iff, decide_eq_false_iff_not, not_lt,
    Prod.mk_le_mk, and_assoc]

/-! ## The operations -/

namespace Booked

/-- Discarding a datagram gives its share back. -/
theorem discard
    (books : Booked limits reassembler)
    (key : FragmentKey) :
    Booked limits (reassembler.discard key) where
  exact := by
    have exact := books.exact
    unfold FragmentReassembler.discard
    cases found : reassembler.states.get? key with
    | none => exact exact
    | some state =>
        have split :
            reassembler.booked =
              state.share +
                (reassembler.states.erase key).total
                  fun _ held => held.share :=
          exact.trans
            (total_eq_add_erase found fun _ held => held.share)
        show reassembler.booked - state.share =
          (reassembler.states.erase key).total fun _ held => held.share
        rw [split, add_sub_cancel_left]
  sound := by
    intro other state found
    rcases shrinks_discard key reassembler other with gone | same
    · rw [gone] at found
      cases found
    · exact books.sound (same.symm.trans found)

/-- A state with the same share may replace the one held. -/
theorem hold
    (books : Booked limits reassembler)
    {key : FragmentKey}
    {state : FragmentState}
    (same : state.share = reassembler.shareOf key)
    (sound : state.Sound limits) :
    Booked limits (reassembler.hold key state) where
  exact := by
    show reassembler.booked =
      ((reassembler.states.moveToEnd key).set key state).total
        fun _ held => held.share
    rw [books.exact, shares_eq_shareOf_add key, total_set, erase_moveToEnd,
      same]
  sound := by
    intro other held found
    by_cases isKey : other = key
    · subst isKey
      rw [get?_hold_self] at found
      exact Option.some.inj found ▸ sound
    · rw [get?_hold_of_ne _ _ isKey] at found
      exact books.sound found

/-- Storing a fragment counts what the datagram's share grows by. -/
theorem store
    (books : Booked limits reassembler)
    {key : FragmentKey}
    {state : FragmentState}
    {packet : ParsedPacket}
    (current : state.share = reassembler.shareOf key)
    (sound : (state.insert packet).Sound limits) :
    Booked limits (reassembler.store key packet state) where
  exact := by
    have counted :
        (reassembler.store key packet state).booked =
          reassembler.booked +
            ((state.insert packet).share - state.share) := by
      simp only [booked, FragmentReassembler.store, FragmentReassembler.hold,
        FragmentState.share, FragmentState.insert, Prod.mk_sub_mk,
        Prod.mk_add_mk, add_sub_cancel_left]
    have total :
        (reassembler.store key packet state).shares =
          (state.insert packet).share +
            (reassembler.states.erase key).total
              fun _ held => held.share := by
      show ((reassembler.states.moveToEnd key).set key _).total _ = _
      rw [total_set, erase_moveToEnd]
    rw [counted, total, books.exact, shares_eq_shareOf_add key, current]
    abel
  sound := by
    intro other held found
    by_cases isKey : other = key
    · subst isKey
      rw [get?_store_self] at found
      exact Option.some.inj found ▸ sound
    · rw [get?_store_of_ne _ _ _ isKey] at found
      exact books.sound found

/-- Counters other than the budgets' play no part. -/
theorem withCounters
    (books : Booked limits reassembler)
    {counters : FragmentCounters}
    (same :
      (counters.bufferedBytes, counters.bufferedRanges,
        counters.bufferedProvenanceEntries) = reassembler.booked) :
    Booked limits { reassembler with counters } where
  exact := same.trans books.exact
  sound := books.sound

theorem evict
    (books : Booked limits reassembler)
    (key : FragmentKey) :
    Booked limits (reassembler.evict key) :=
  (books.discard key).withCounters rfl

theorem conflict
    (books : Booked limits reassembler)
    (key : FragmentKey) :
    Booked limits (reassembler.conflict key) :=
  (books.discard key).withCounters rfl

theorem malformed
    (books : Booked limits reassembler)
    (key : FragmentKey) :
    Booked limits (reassembler.malformed key) :=
  (books.discard key).withCounters rfl

/-- No amount is negative. -/
theorem erase_nonneg
    (books : Booked limits reassembler)
    (key : FragmentKey) :
    0 ≤ (reassembler.states.erase key).total
      fun _ state => state.share := by
  apply List.sum_nonneg
  intro amounts member
  obtain ⟨entry, stored, rfl⟩ := List.mem_map.mp member
  exact (books.sound (get?_eq_some.mpr (mem_erase.mp stored).1)).share_nonneg

theorem shareOf_nonneg
    (books : Booked limits reassembler)
    (key : FragmentKey) :
    0 ≤ reassembler.shareOf key := by
  unfold shareOf
  cases found : reassembler.states.get? key with
  | none => exact le_refl _
  | some state => exact (books.sound found).share_nonneg

/-- While a limit is exceeded there is a datagram to evict. -/
theorem nonempty_of_overLimits
    (books : Booked limits reassembler)
    (exceeds : reassembler.overLimits limits = true) :
    0 < reassembler.states.size := by
  by_contra empty
  have noEntries : reassembler.states.entries = [] := by
    apply List.eq_nil_of_length_eq_zero
    unfold OrderedTable.size at empty
    omega
  have nothing : reassembler.booked = 0 := by
    rw [books.exact]
    unfold shares total
    rw [noEntries]
    rfl
  have within : reassembler.overLimits limits = false := by
    rw [overLimits_eq_false, nothing]
    refine ⟨by omega, ?_⟩
    exact ⟨Int.natCast_nonneg _, Int.natCast_nonneg _, Int.natCast_nonneg _⟩
  rw [within] at exceeds
  cases exceeds

/-- A table that lost one entry is still within the limits. -/
theorem within_of_erase
    {before : FragmentReassembler}
    (books : Booked limits before)
    (within : Within limits before)
    (after : Booked limits reassembler)
    {key : FragmentKey}
    (erased : reassembler.states = before.states.erase key) :
    Within limits reassembler where
  datagrams := by
    rw [erased]
    exact (List.length_filter_le _ _).trans within.datagrams
  budgets := by
    refine le_trans ?_ within.budgets
    have left : before.shares = before.shareOf key + reassembler.shares := by
      rw [shares_eq_shareOf_add key before]
      unfold shares
      rw [erased]
    rw [after.exact, books.exact, left]
    exact le_add_of_nonneg_left (books.shareOf_nonneg key)
  ranges := by
    intro other state found
    rw [erased] at found
    have stored := (mem_erase.mp (get?_eq_some.mp found)).1
    exact within.ranges (get?_eq_some.mpr stored)

/-- The eviction loop, given enough rounds, ends within the limits. -/
theorem evictWhileOverLimits
    (books : Booked limits reassembler)
    {rounds : Nat}
    (enough : reassembler.states.size ≤ rounds) :
    Booked limits (reassembler.evictWhileOverLimits limits rounds) ∧
      (reassembler.evictWhileOverLimits limits rounds).overLimits limits =
        false := by
  induction rounds generalizing reassembler with
  | zero =>
      refine ⟨books, ?_⟩
      by_contra exceeds
      have nonempty :=
        books.nonempty_of_overLimits (Bool.of_not_eq_false exceeds)
      omega
  | succ rounds inductionHypothesis =>
      unfold FragmentReassembler.evictWhileOverLimits
      split
      case isTrue exceeds =>
        obtain ⟨oldest, state, isOldest, found⟩ :=
          oldest?_of_pos (books.nonempty_of_overLimits exceeds)
        rw [isOldest]
        apply inductionHypothesis (books.evict oldest)
        have smaller := size_eq_erase_add_one found
        rw [show (reassembler.evict oldest).states =
          reassembler.states.erase oldest from entries_discard _ _]
        omega
      case isFalse within => exact ⟨books, Bool.of_not_eq_true within⟩

end Booked

/-- One round of the eviction loop. -/
inductive EvictionRound
    (limits : FragmentLimits) :
    FragmentReassembler → FragmentReassembler → Prop where
  | evict
      {reassembler : FragmentReassembler}
      {oldest : FragmentKey}
      (exceeds : reassembler.overLimits limits = true)
      (isOldest : reassembler.states.oldest? = some oldest) :
      EvictionRound limits reassembler (reassembler.evict oldest)

/--
The eviction loop entered in this state finds a datagram to remove whenever it
wants to remove one, and stops within the limits.
-/
structure EvictsSoundly
    (limits : FragmentLimits)
    (reassembler : FragmentReassembler) : Prop where
  nonempty :
    ∀ {reached},
      Relation.ReflTransGen (EvictionRound limits) reassembler reached →
        reached.overLimits limits = true →
          0 < reached.states.size
  ends :
    Relation.ReflTransGen (EvictionRound limits) reassembler
        (reassembler.evictToLimits limits) ∧
      (reassembler.evictToLimits limits).overLimits limits = false

/-- The model's loop is a sequence of rounds. -/
theorem rounds_evictWhileOverLimits
    (rounds : Nat)
    (reassembler : FragmentReassembler) :
    Relation.ReflTransGen (EvictionRound limits) reassembler
      (reassembler.evictWhileOverLimits limits rounds) := by
  induction rounds generalizing reassembler with
  | zero =>
      exact .refl
  | succ rounds inductionHypothesis =>
      unfold evictWhileOverLimits
      split
      case isTrue exceeds =>
        split
        · exact .refl
        · exact .head (.evict exceeds ‹_›) (inductionHypothesis _)
      case isFalse => exact .refl

theorem Booked.evictsSoundly (books : Booked limits reassembler) :
    EvictsSoundly limits reassembler where
  nonempty := by
    intro reached rounds exceeds
    have reachedBooks : Booked limits reached := by
      clear exceeds
      induction rounds with
      | refl => exact books
      | tail _ round inductionHypothesis =>
          cases round with
          | evict => exact inductionHypothesis.evict _
    exact reachedBooks.nonempty_of_overLimits exceeds
  ends :=
    ⟨rounds_evictWhileOverLimits _ _,
      (books.evictWhileOverLimits (le_refl _)).2⟩

/-! ## One call -/

/-- The state a fragment is added to takes what was held under the key. -/
theorem share_stateFor
    (key : FragmentKey)
    (clock : Int)
    (packet : ParsedPacket)
    (reassembler : FragmentReassembler) :
    (reassembler.stateFor key clock packet).share =
      reassembler.shareOf key := by
  unfold stateFor shareOf
  cases reassembler.states.get? key <;> rfl

theorem Booked.sound_stateFor
    (books : Booked limits reassembler)
    (key : FragmentKey)
    (clock : Int)
    (packet : ParsedPacket) :
    (reassembler.stateFor key clock packet).Sound limits := by
  unfold stateFor
  cases found : reassembler.states.get? key with
  | none => exact (FragmentState.Sound.new clock).touch clock
  | some state => exact (books.sound found).touch clock

/-- What holds between calls. -/
structure Accounted
    (limits : FragmentLimits)
    (reassembler : FragmentReassembler) : Prop where
  books : Booked limits reassembler
  within : Within limits reassembler

namespace Accounted

theorem initial : Accounted limits {} where
  books := {
    exact := rfl
    sound := by simp }
  within := {
    datagrams := Nat.zero_le _
    budgets :=
      ⟨Int.natCast_nonneg _, Int.natCast_nonneg _, Int.natCast_nonneg _⟩
    ranges := by simp }

/-- Losing one entry and nothing else. -/
theorem erase
    {before : FragmentReassembler}
    (accounted : Accounted limits before)
    (books : Booked limits reassembler)
    {key : FragmentKey}
    (erased : reassembler.states = before.states.erase key) :
    Accounted limits reassembler :=
  ⟨books, accounted.books.within_of_erase accounted.within books erased⟩

theorem discard
    (accounted : Accounted limits reassembler)
    (key : FragmentKey) :
    Accounted limits (reassembler.discard key) :=
  accounted.erase (accounted.books.discard key) (entries_discard key _)

theorem conflict
    (accounted : Accounted limits reassembler)
    (key : FragmentKey) :
    Accounted limits (reassembler.conflict key) :=
  accounted.erase (accounted.books.conflict key) (entries_discard key _)

/-- Completion removes the datagram or leaves everything as it is. -/
theorem complete
    (accounted : Accounted limits reassembler)
    (key : FragmentKey) :
    Accounted limits (reassembler.complete key).reassembler := by
  unfold FragmentReassembler.complete
  split
  · exact accounted
  split
  · exact accounted.discard key
  · exact accounted.conflict key
  · exact accounted

end Accounted

theorem Booked.inserted
    (books : Booked limits reassembler)
    {packet : ParsedPacket}
    (wellFormed : isMalformed limits packet = false)
    (key : FragmentKey)
    (clock : Int) :
    Booked limits (reassembler.inserted key clock packet) := by
  have sound :=
    books.sound_stateFor key clock packet
  have entered :=
    books.hold (share_stateFor key clock packet reassembler) sound
  refine entered.store ?_ (sound.recordFinalEnd.insert wellFormed)
  unfold shareOf
  rw [get?_hold_self]
  rfl

/-- The datagrams beside the one a fragment was inserted into. -/
theorem erase_inserted
    (key : FragmentKey)
    (clock : Int)
    (packet : ParsedPacket)
    (reassembler : FragmentReassembler) :
    (reassembler.inserted key clock packet).states.erase key =
      reassembler.states.erase key :=
  (erase_hold _ _ _).trans (erase_hold _ _ _)

namespace Accounted

/-- The limits checked after an insertion hold when the call returns. -/
theorem settle
    (accounted : Accounted limits reassembler)
    {packet : ParsedPacket}
    (wellFormed : isMalformed limits packet = false)
    (key : FragmentKey)
    (clock : Int) :
    Accounted limits
      ((reassembler.inserted key clock packet).settle limits
        key).reassembler := by
  have books := accounted.books.inserted wellFormed key clock
  unfold FragmentReassembler.settle
  rw [get?_inserted_self]
  dsimp only
  split
  case isTrue =>
    exact accounted.erase (books.evict key)
      ((entries_discard key _).trans (erase_inserted _ _ _ _))
  case isFalse few =>
    obtain ⟨evictedBooks, evictedWithin⟩ :=
      books.evictWhileOverLimits (le_refl _)
    obtain ⟨datagrams, budgets⟩ := overLimits_eq_false.mp evictedWithin
    refine Accounted.complete
      { books := evictedBooks, within := ⟨datagrams, budgets, ?_⟩ } key
    intro other state found
    rcases shrinks_evictWhileOverLimits limits _
        (reassembler.inserted key clock packet) other with gone | same
    · rw [gone] at found
      cases found
    · have stored := same.symm.trans found
      by_cases isKey : other = key
      · subst isKey
        rw [get?_inserted_self] at stored
        obtain rfl := Option.some.inj stored
        omega
      · rw [get?_inserted_of_ne _ _ _ isKey] at stored
        exact accounted.within.ranges stored

/-- A call of `process` keeps the accounts. -/
theorem process
    (accounted : Accounted limits reassembler)
    (clock : Int)
    (packet : ParsedPacket) :
    Accounted limits
      (reassembler.process limits clock packet).reassembler := by
  unfold FragmentReassembler.process
  split
  case h_1 => exact accounted
  case h_2 key keyed =>
    split
    · exact accounted
    split
    · exact accounted.erase (accounted.books.malformed key)
        (entries_discard key _)
    case isFalse wellFormed =>
      have sound := accounted.books.sound_stateFor key clock packet
      have entered :=
        accounted.books.hold
          (share_stateFor key clock packet reassembler) sound
      unfold collect
      dsimp only
      split
      · exact accounted.erase (entered.conflict key)
          ((entries_discard key _).trans (erase_hold _ _ _))
      split
      · have noted :
            Booked limits
              ((reassembler.hold key
                (reassembler.stateFor key clock packet)).hold key
                  ((reassembler.stateFor key clock packet).recordFinalEnd
                    packet)) := by
          refine entered.hold ?_ sound.recordFinalEnd
          unfold shareOf
          rw [get?_hold_self]
          rfl
        exact accounted.erase (noted.conflict key)
          ((entries_discard key _).trans
            ((erase_hold _ _ _).trans (erase_hold _ _ _)))
      · exact accounted.settle (by simpa using wellFormed) key clock

/-- A call of `expire` keeps the accounts. -/
theorem expire
    (accounted : Accounted limits reassembler)
    (now : Option Int)
    (clock : Int) :
    Accounted limits (reassembler.expire limits now clock) := by
  have discards
      (stale : List FragmentKey)
      {start : FragmentReassembler}
      (before : Accounted limits start) :
      Accounted limits
        (stale.foldl (fun state key => state.discard key) start) := by
    induction stale generalizing start with
    | nil =>
        exact before
    | cons key rest inductionHypothesis =>
        exact inductionHypothesis (before.discard key)
  obtain ⟨books, within⟩ :=
    discards (reassembler.staleDatagrams limits now clock) accounted
  exact ⟨books.withCounters rfl, within.datagrams, within.budgets,
    within.ranges⟩

theorem run
    (accounted : Accounted limits reassembler)
    (operations : List FragmentOperation) :
    Accounted limits (reassembler.run limits operations).state := by
  induction operations generalizing reassembler with
  | nil =>
      exact accounted
  | cons operation rest inductionHypothesis =>
      cases operation with
      | process clock packet =>
          exact inductionHypothesis (accounted.process clock packet)
      | expire now clock =>
          exact inductionHypothesis (accounted.expire now clock)

end Accounted

/-! ## Every run -/

/-- The totals over a table's states, and every limit. -/
structure BudgetsExact
    (limits : FragmentLimits)
    (reassembler : FragmentReassembler) : Prop where
  bytes :
    reassembler.counters.bufferedBytes =
      reassembler.states.sum fun state => state.bufferedBytes
  ranges :
    reassembler.counters.bufferedRanges =
      reassembler.states.sum fun state => (state.ranges.length : Int)
  provenance :
    reassembler.counters.bufferedProvenanceEntries =
      reassembler.states.sum fun state =>
        (state.sourcePacketIds.length : Int)
  apart :
    ∀ {key state},
      reassembler.states.get? key = some state →
        Solid state.ranges ∧ Apart state.ranges
  datagramLimit : reassembler.states.size ≤ limits.maxDatagrams
  bytesLimit : reassembler.counters.bufferedBytes ≤ limits.maxBufferedBytes
  rangesLimit : reassembler.counters.bufferedRanges ≤ limits.maxBufferedRanges
  provenanceLimit :
    reassembler.counters.bufferedProvenanceEntries ≤
      limits.maxBufferedProvenanceEntries
  datagramRanges :
    ∀ {key state},
      reassembler.states.get? key = some state →
        state.ranges.length ≤ limits.maxRangesPerDatagram
  datagramBytes :
    ∀ {key state},
      reassembler.states.get? key = some state →
        ∀ range ∈ state.ranges,
          0 ≤ range.start ∧ range.stop ≤ limits.maxDatagramBytes
  held :
    ∀ {key state},
      reassembler.states.get? key = some state →
        (totalLength state.ranges : Int) ≤ state.bufferedBytes

/-- A component of the shares is the sum of that component. -/
theorem shares_components (reassembler : FragmentReassembler) :
    reassembler.shares =
      (reassembler.states.sum fun state => state.bufferedBytes,
        reassembler.states.sum fun state => (state.ranges.length : Int),
        reassembler.states.sum fun state =>
          (state.sourcePacketIds.length : Int)) := by
  unfold shares total OrderedTable.sum
  induction reassembler.states.entries with
  | nil =>
      rfl
  | cons entry rest inductionHypothesis =>
      simp only [List.map_cons, List.sum_cons, inductionHypothesis]
      rfl

theorem Accounted.budgetsExact
    (accounted : Accounted limits reassembler) :
    BudgetsExact limits reassembler := by
  have exact := accounted.books.exact.trans (shares_components reassembler)
  obtain ⟨bytes, others⟩ := Prod.mk.inj exact
  obtain ⟨ranges, provenance⟩ := Prod.mk.inj others
  obtain ⟨bytesLimit, rangesLimit, provenanceLimit⟩ :=
    accounted.within.budgets
  exact {
    bytes, ranges, provenance, bytesLimit, rangesLimit, provenanceLimit
    apart := fun found =>
      ⟨(accounted.books.sound found).tidy.solid,
        (accounted.books.sound found).tidy.apart⟩
    datagramLimit := accounted.within.datagrams
    datagramRanges := accounted.within.ranges
    datagramBytes := fun found _ member =>
      (accounted.books.sound found).range_inside member
    held := fun found => (accounted.books.sound found).held }

/--
After every run the three budget counters are the sums over the datagrams held,
ranges are solid, sorted and apart, every limit holds, and the eviction loop of
a further call never looks for a datagram in an empty table.
-/
theorem run_budgets_exact
    (limits : FragmentLimits)
    (operations : List FragmentOperation) :
    let reached := (run limits operations {}).state
    BudgetsExact limits reached ∧
      ∀ clock packet key,
        packet.fragmentKey? = some key →
        isMalformed limits packet = false →
        EvictsSoundly limits (reached.inserted key clock packet) := by
  have accounted : Accounted limits (run limits operations {}).state :=
    Accounted.initial.run operations
  refine ⟨accounted.budgetsExact, ?_⟩
  intro clock packet key _ wellFormed
  exact (accounted.books.inserted wellFormed key clock).evictsSoundly

end FragmentReassembler

end PacketAudit
