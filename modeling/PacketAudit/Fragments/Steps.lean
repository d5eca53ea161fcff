import PacketAudit.Fragments.Reassembler

namespace PacketAudit

/-!
# What one call of the fragment reassembler does

Discarding, evicting and expiring only ever remove datagrams.  `Processed`
lists everything one call of `process` can do: pass a packet on, drop the
datagram of a fragment, hold the datagram with the fragment inserted, or return
the datagram completed by it.
-/

open Library

namespace FragmentReassembler

/-- Every datagram held afterwards was held, in the same state, before. -/
def Shrinks (before after : FragmentReassembler) : Prop :=
  ∀ key,
    after.states.get? key = none ∨
      after.states.get? key = before.states.get? key

namespace Shrinks

theorem refl (reassembler : FragmentReassembler) :
    Shrinks reassembler reassembler :=
  fun _ => .inr rfl

theorem trans
    {first second third : FragmentReassembler}
    (earlier : Shrinks first second)
    (later : Shrinks second third) :
    Shrinks first third := by
  intro key
  rcases later key with gone | same
  · exact .inl gone
  · rw [same]
    exact earlier key

/-- Counters play no part in what is held. -/
theorem withCounters
    {before after : FragmentReassembler}
    (shrinks : Shrinks before after)
    (counters : FragmentCounters) :
    Shrinks before { after with counters } :=
  shrinks

end Shrinks

@[simp] theorem get?_discard_self
    (key : FragmentKey)
    (reassembler : FragmentReassembler) :
    (reassembler.discard key).states.get? key = none := by
  unfold discard
  split
  case _ absent => exact absent
  case _ => exact OrderedTable.get?_erase_self _ _

theorem get?_discard_of_ne
    (reassembler : FragmentReassembler)
    {key other : FragmentKey}
    (different : other ≠ key) :
    (reassembler.discard key).states.get? other =
      reassembler.states.get? other := by
  unfold discard
  split
  · rfl
  · exact OrderedTable.get?_erase_of_ne _ different

theorem shrinks_discard
    (key : FragmentKey)
    (reassembler : FragmentReassembler) :
    Shrinks reassembler (reassembler.discard key) := by
  intro other
  by_cases same : other = key
  · subst same
    exact .inl (get?_discard_self _ _)
  · exact .inr (get?_discard_of_ne _ same)

theorem shrinks_evict
    (key : FragmentKey)
    (reassembler : FragmentReassembler) :
    Shrinks reassembler (reassembler.evict key) :=
  (shrinks_discard key reassembler).withCounters _

theorem shrinks_conflict
    (key : FragmentKey)
    (reassembler : FragmentReassembler) :
    Shrinks reassembler (reassembler.conflict key) :=
  (shrinks_discard key reassembler).withCounters _

theorem shrinks_malformed
    (key : FragmentKey)
    (reassembler : FragmentReassembler) :
    Shrinks reassembler (reassembler.malformed key) :=
  (shrinks_discard key reassembler).withCounters _

@[simp] theorem get?_evict_self
    (key : FragmentKey)
    (reassembler : FragmentReassembler) :
    (reassembler.evict key).states.get? key = none :=
  get?_discard_self key reassembler

@[simp] theorem get?_conflict_self
    (key : FragmentKey)
    (reassembler : FragmentReassembler) :
    (reassembler.conflict key).states.get? key = none :=
  get?_discard_self key reassembler

@[simp] theorem get?_malformed_self
    (key : FragmentKey)
    (reassembler : FragmentReassembler) :
    (reassembler.malformed key).states.get? key = none :=
  get?_discard_self key reassembler

theorem shrinks_evictWhileOverLimits
    (limits : FragmentLimits)
    (rounds : Nat)
    (reassembler : FragmentReassembler) :
    Shrinks reassembler
      (reassembler.evictWhileOverLimits limits rounds) := by
  induction rounds generalizing reassembler with
  | zero =>
      exact .refl _
  | succ rounds inductionHypothesis =>
      unfold evictWhileOverLimits
      split
      · split
        · exact .refl _
        · exact (shrinks_evict _ _).trans (inductionHypothesis _)
      · exact .refl _

theorem shrinks_evictToLimits
    (limits : FragmentLimits)
    (reassembler : FragmentReassembler) :
    Shrinks reassembler (reassembler.evictToLimits limits) :=
  shrinks_evictWhileOverLimits limits _ reassembler

@[simp] theorem overlapConflicts_discard
    (key : FragmentKey)
    (reassembler : FragmentReassembler) :
    (reassembler.discard key).counters.overlapConflicts =
      reassembler.counters.overlapConflicts := by
  unfold discard
  split <;> rfl

/-- Eviction counts no conflict. -/
theorem overlapConflicts_evictToLimits
    (limits : FragmentLimits)
    (reassembler : FragmentReassembler) :
    (reassembler.evictToLimits limits).counters.overlapConflicts =
      reassembler.counters.overlapConflicts := by
  have rounds
      (count : Nat)
      (start : FragmentReassembler) :
      (start.evictWhileOverLimits limits count).counters.overlapConflicts =
        start.counters.overlapConflicts := by
    induction count generalizing start with
    | zero =>
        rfl
    | succ count inductionHypothesis =>
        unfold evictWhileOverLimits
        split
        · split
          · rfl
          · rw [inductionHypothesis]
            simp [evict]
        · rfl
  exact rounds _ _

/-- Within the limits nothing is evicted. -/
theorem evictToLimits_of_not_over
    {limits : FragmentLimits}
    {reassembler : FragmentReassembler}
    (within : reassembler.overLimits limits = false) :
    reassembler.evictToLimits limits = reassembler := by
  unfold evictToLimits
  cases reassembler.states.size with
  | zero => rfl
  | succ rounds => simp [evictWhileOverLimits, within]

theorem shrinks_expire
    (limits : FragmentLimits)
    (now : Option Int)
    (clock : Int)
    (reassembler : FragmentReassembler) :
    Shrinks reassembler (reassembler.expire limits now clock) := by
  have discards
      (stale : List FragmentKey)
      (start : FragmentReassembler) :
      Shrinks start
        (stale.foldl (fun state key => state.discard key) start) := by
    induction stale generalizing start with
    | nil =>
        exact .refl _
    | cons key rest inductionHypothesis =>
        exact (shrinks_discard key start).trans (inductionHypothesis _)
  exact (discards _ reassembler).withCounters _

@[simp] theorem get?_hold_self
    (key : FragmentKey)
    (state : FragmentState)
    (reassembler : FragmentReassembler) :
    (reassembler.hold key state).states.get? key = some state :=
  OrderedTable.get?_set_self _ _ _

theorem get?_hold_of_ne
    (state : FragmentState)
    (reassembler : FragmentReassembler)
    {key other : FragmentKey}
    (different : other ≠ key) :
    (reassembler.hold key state).states.get? other =
      reassembler.states.get? other := by
  unfold hold
  rw [OrderedTable.get?_set_of_ne _ _ different,
    OrderedTable.get?_moveToEnd]

/-- Holding a state does not change what discarding the key leaves. -/
theorem erase_hold
    (key : FragmentKey)
    (state : FragmentState)
    (reassembler : FragmentReassembler) :
    (reassembler.hold key state).states.erase key =
      reassembler.states.erase key := by
  unfold hold
  rw [OrderedTable.erase_set, OrderedTable.erase_moveToEnd]

@[simp] theorem get?_store_self
    (key : FragmentKey)
    (packet : ParsedPacket)
    (state : FragmentState)
    (reassembler : FragmentReassembler) :
    (reassembler.store key packet state).states.get? key =
      some (state.insert packet) :=
  get?_hold_self _ _ _

theorem get?_store_of_ne
    (packet : ParsedPacket)
    (state : FragmentState)
    (reassembler : FragmentReassembler)
    {key other : FragmentKey}
    (different : other ≠ key) :
    (reassembler.store key packet state).states.get? other =
      reassembler.states.get? other :=
  get?_hold_of_ne _ _ different

/-- The state of a datagram with one more fragment inserted. -/
def insertedState
    (key : FragmentKey)
    (clock : Int)
    (packet : ParsedPacket)
    (reassembler : FragmentReassembler) : FragmentState :=
  ((reassembler.stateFor key clock packet).recordFinalEnd packet).insert packet

/-- The reassembler right after a fragment was inserted. -/
def inserted
    (key : FragmentKey)
    (clock : Int)
    (packet : ParsedPacket)
    (reassembler : FragmentReassembler) : FragmentReassembler :=
  (reassembler.hold key (reassembler.stateFor key clock packet)).store key
    packet ((reassembler.stateFor key clock packet).recordFinalEnd packet)

@[simp] theorem get?_inserted_self
    (key : FragmentKey)
    (clock : Int)
    (packet : ParsedPacket)
    (reassembler : FragmentReassembler) :
    (reassembler.inserted key clock packet).states.get? key =
      some (reassembler.insertedState key clock packet) :=
  get?_store_self _ _ _ _

theorem get?_inserted_of_ne
    (clock : Int)
    (packet : ParsedPacket)
    (reassembler : FragmentReassembler)
    {key other : FragmentKey}
    (different : other ≠ key) :
    (reassembler.inserted key clock packet).states.get? other =
      reassembler.states.get? other := by
  unfold inserted
  rw [get?_store_of_ne _ _ _ different, get?_hold_of_ne _ _ different]

/-- Outside one key every datagram held was held before. -/
def ShrinksBeside
    (key : FragmentKey)
    (before after : FragmentReassembler) : Prop :=
  ∀ other ≠ key,
    after.states.get? other = none ∨
      after.states.get? other = before.states.get? other

theorem Shrinks.beside
    {key : FragmentKey}
    {before middle after : FragmentReassembler}
    (unchanged :
      ∀ other ≠ key,
        middle.states.get? other = before.states.get? other)
    (shrinks : Shrinks middle after) :
    ShrinksBeside key before after := by
  intro other different
  rw [← unchanged other different]
  exact shrinks other

/-- Everything a call of `process` can do. -/
inductive Processed
    (clock : Int)
    (packet : ParsedPacket)
    (before : FragmentReassembler) : FragmentResult → Prop where
  | passed
      (whole : packet.unfragmented = true) :
      Processed clock packet before ⟨before, .ok (some packet)⟩
  | dropped
      {key : FragmentKey}
      {after : FragmentReassembler}
      (keyed : packet.fragmentKey? = some key)
      (proper : packet.unfragmented = false)
      (gone : after.states.get? key = none)
      (others : ShrinksBeside key before after) :
      Processed clock packet before ⟨after, .ok none⟩
  | held
      {key : FragmentKey}
      {after : FragmentReassembler}
      (keyed : packet.fragmentKey? = some key)
      (proper : packet.unfragmented = false)
      (stored :
        after.states.get? key =
          some (before.insertedState key clock packet))
      (others : ShrinksBeside key before after)
      (sameConflicts :
        after.counters.overlapConflicts =
          before.counters.overlapConflicts) :
      Processed clock packet before ⟨after, .ok none⟩
  | completed
      {key : FragmentKey}
      {after : FragmentReassembler}
      {base : ParsedPacket}
      {payload : Bytes}
      (keyed : packet.fragmentKey? = some key)
      (proper : packet.unfragmented = false)
      (gone : after.states.get? key = none)
      (others : ShrinksBeside key before after)
      (assembled :
        (before.insertedState key clock packet).assemble =
          (.complete payload, some base)) :
      Processed clock packet before
        ⟨after, transportReady
          ((before.insertedState key clock packet).completed base payload)⟩

/-- The completion stage, once a fragment is inserted and others evicted. -/
theorem complete_processed
    {clock : Int}
    {packet : ParsedPacket}
    {before evicted : FragmentReassembler}
    {key : FragmentKey}
    (keyed : packet.fragmentKey? = some key)
    (proper : packet.unfragmented = false)
    (shrinks : Shrinks (before.inserted key clock packet) evicted)
    (sameConflicts :
      evicted.counters.overlapConflicts =
        before.counters.overlapConflicts) :
    Processed clock packet before (evicted.complete key) := by
  have others
      {after : FragmentReassembler}
      (more : Shrinks evicted after) :
      ShrinksBeside key before after :=
    (shrinks.trans more).beside fun other different =>
      get?_inserted_of_ne clock packet before different
  unfold complete
  cases found : evicted.states.get? key with
  | none =>
      exact .dropped keyed proper found (others (.refl _))
  | some state =>
      have stored : state = before.insertedState key clock packet := by
        rcases shrinks key with gone | same
        · simp [found] at gone
        · simpa [found] using same
      subst stored
      dsimp only
      split
      case _ assembled =>
        exact .completed keyed proper (get?_discard_self _ _)
          (others (shrinks_discard _ _)) assembled
      case _ =>
        exact .dropped keyed proper (get?_conflict_self _ _)
          (others (shrinks_conflict _ _))
      case _ =>
        exact .held keyed proper found (others (.refl _)) sameConflicts

/-- The inversion of one call of `process`. -/
theorem process_processed
    (limits : FragmentLimits)
    (clock : Int)
    (packet : ParsedPacket)
    (reassembler : FragmentReassembler) :
    Processed clock packet reassembler
      (reassembler.process limits clock packet) := by
  unfold process
  cases keyed : packet.fragmentKey? with
  | none =>
      apply Processed.passed
      have unidentified : packet.fragmentId = none := by
        simpa [ParsedPacket.fragmentKey?] using keyed
      simp [ParsedPacket.unfragmented, unidentified]
  | some key =>
      dsimp only
      cases whole : packet.unfragmented with
      | true =>
          exact .passed whole
      | false =>
          simp only [Bool.false_eq_true, ↓reduceIte]
          split
          · exact .dropped keyed whole (get?_malformed_self _ _)
              (Shrinks.beside (fun _ _ => rfl) (shrinks_malformed _ _))
          · unfold collect
            dsimp only
            split
            · exact .dropped keyed whole (get?_conflict_self _ _)
                (Shrinks.beside
                  (fun _ different => get?_hold_of_ne _ _ different)
                  (shrinks_conflict _ _))
            split
            · refine .dropped keyed whole (get?_conflict_self _ _)
                (Shrinks.beside ?_ (shrinks_conflict _ _))
              intro other different
              rw [get?_hold_of_ne _ _ different,
                get?_hold_of_ne _ _ different]
            · change Processed clock packet reassembler
                ((reassembler.inserted key clock packet).settle limits key)
              unfold settle
              rw [get?_inserted_self]
              dsimp only
              split
              · exact .dropped keyed whole (get?_evict_self _ _)
                  (Shrinks.beside
                    (fun _ different => get?_inserted_of_ne _ _ _ different)
                    (shrinks_evict _ _))
              · exact complete_processed keyed whole
                  (shrinks_evictToLimits _ _)
                  (overlapConflicts_evictToLimits _ _)

end FragmentReassembler

end PacketAudit
