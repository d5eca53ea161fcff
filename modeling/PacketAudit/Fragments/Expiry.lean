import PacketAudit.Fragments.Steps
import PacketAudit.Library.ActivityOrder

namespace PacketAudit

/-!
# Expiry of fragments by the monotonic clock

Every call that touches a datagram moves it behind all others, so the table is
sorted by last activity while the clock does not run backwards.
-/

open Library OrderedTable

/-- The monotonic clock reading of a call, if it makes one. -/
def FragmentOperation.clock? : FragmentOperation → Option Int
  | .process clock _ => some clock
  | .expire none clock => some clock
  | .expire (some _) _ => none

namespace FragmentReassembler

/-- The table's keys with their last activity. -/
def stamps (reassembler : FragmentReassembler) :
    List (FragmentKey × Int) :=
  reassembler.states.stamps FragmentState.activityNs

/-- Idle datagrams, found by a scan of the whole table. -/
def idleDatagrams
    (limits : FragmentLimits)
    (clock : Int)
    (reassembler : FragmentReassembler) : List FragmentKey :=
  (reassembler.states.entries.filter
    (isIdle FragmentState.activityNs limits.idleNs clock)).map Prod.fst

theorem entries_discard
    (key : FragmentKey)
    (reassembler : FragmentReassembler) :
    (reassembler.discard key).states = reassembler.states.erase key := by
  unfold discard
  split
  case _ absent => exact (erase_of_get?_eq_none absent).symm
  case _ => rfl

theorem stamps_discard
    (key : FragmentKey)
    (reassembler : FragmentReassembler) :
    (reassembler.discard key).stamps.Sublist reassembler.stamps := by
  unfold stamps
  rw [entries_discard]
  exact stamps_erase key

theorem stamps_evict
    (key : FragmentKey)
    (reassembler : FragmentReassembler) :
    (reassembler.evict key).stamps.Sublist reassembler.stamps :=
  stamps_discard key reassembler

theorem stamps_conflict
    (key : FragmentKey)
    (reassembler : FragmentReassembler) :
    (reassembler.conflict key).stamps.Sublist reassembler.stamps :=
  stamps_discard key reassembler

theorem stamps_malformed
    (key : FragmentKey)
    (reassembler : FragmentReassembler) :
    (reassembler.malformed key).stamps.Sublist reassembler.stamps :=
  stamps_discard key reassembler

theorem stamps_evictWhileOverLimits
    (limits : FragmentLimits)
    (rounds : Nat)
    (reassembler : FragmentReassembler) :
    (reassembler.evictWhileOverLimits limits rounds).stamps.Sublist
      reassembler.stamps := by
  induction rounds generalizing reassembler with
  | zero =>
      exact List.Sublist.refl _
  | succ rounds inductionHypothesis =>
      unfold evictWhileOverLimits
      split
      · split
        · exact List.Sublist.refl _
        · exact (inductionHypothesis _).trans (stamps_evict _ reassembler)
      · exact List.Sublist.refl _

/-- A held datagram is the last one. -/
theorem stamps_hold
    (key : FragmentKey)
    (state : FragmentState)
    (reassembler : FragmentReassembler) :
    (reassembler.hold key state).stamps =
      (reassembler.states.erase key).stamps FragmentState.activityNs ++
        [(key, state.activityNs)] := by
  unfold stamps hold OrderedTable.stamps
  rw [entries_refresh, List.map_append]
  rfl

/-- A datagram held again keeps the stamps of the other datagrams. -/
theorem stamps_hold_again
    (key : FragmentKey)
    (first second : FragmentState)
    (reassembler : FragmentReassembler) :
    ((reassembler.hold key first).hold key second).stamps =
      (reassembler.states.erase key).stamps FragmentState.activityNs ++
        [(key, second.activityNs)] := by
  rw [stamps_hold]
  unfold hold
  rw [erase_set, erase_moveToEnd]

theorem activityNs_stateFor
    (key : FragmentKey)
    (clock : Int)
    (packet : ParsedPacket)
    (reassembler : FragmentReassembler) :
    (reassembler.stateFor key clock packet).activityNs = clock := rfl

theorem activityNs_insertedState
    (key : FragmentKey)
    (clock : Int)
    (packet : ParsedPacket)
    (reassembler : FragmentReassembler) :
    (reassembler.insertedState key clock packet).activityNs = clock := rfl

/-- The stamps right after a fragment was inserted. -/
theorem stamps_inserted
    (key : FragmentKey)
    (clock : Int)
    (packet : ParsedPacket)
    (reassembler : FragmentReassembler) :
    (reassembler.inserted key clock packet).stamps =
      (reassembler.states.erase key).stamps FragmentState.activityNs ++
        [(key, clock)] := by
  have held :=
    stamps_hold_again key (reassembler.stateFor key clock packet)
      (reassembler.insertedState key clock packet) reassembler
  rw [activityNs_insertedState] at held
  exact held

variable
  (limits : FragmentLimits)
  (clock : Int)
  (packet : ParsedPacket)
  (reassembler : FragmentReassembler)

/-- A call leaves datagrams out and may stamp one at the end. -/
theorem stamps_process
    {key : FragmentKey}
    (keyed : packet.fragmentKey? = some key) :
    (reassembler.process limits clock packet).reassembler.stamps.Sublist
      (reassembler.stamps ++ [(key, clock)]) := by
  have unchanged {kept : List (FragmentKey × Int)}
      (fewer : kept.Sublist reassembler.stamps) :
      kept.Sublist (reassembler.stamps ++ [(key, clock)]) :=
    fewer.trans (List.sublist_append_left _ _)
  have touched
      {after : FragmentReassembler}
      (isStamps :
        after.stamps =
          (reassembler.states.erase key).stamps FragmentState.activityNs ++
            [(key, clock)]) :
      after.stamps.Sublist (reassembler.stamps ++ [(key, clock)]) :=
    isStamps ▸ (stamps_erase key).append_right _
  have entered :
      (reassembler.hold key
        (reassembler.stateFor key clock packet)).stamps =
        (reassembler.states.erase key).stamps FragmentState.activityNs ++
          [(key, clock)] :=
    stamps_hold _ _ _
  have noted :=
    stamps_hold_again key (reassembler.stateFor key clock packet)
      ((reassembler.stateFor key clock packet).recordFinalEnd packet)
      reassembler
  rw [show
    ((reassembler.stateFor key clock packet).recordFinalEnd
      packet).activityNs = clock from rfl] at noted
  unfold process
  rw [keyed]
  simp only
  split
  · exact unchanged (List.Sublist.refl _)
  split
  · exact unchanged (stamps_malformed key reassembler)
  unfold collect
  simp only
  split
  · exact (stamps_conflict key _).trans (touched entered)
  split
  · exact (stamps_conflict key _).trans (touched noted)
  have settled
      (after : FragmentReassembler) :
      (after.settle limits key).reassembler.stamps.Sublist after.stamps := by
    unfold settle
    split
    · exact List.Sublist.refl _
    split
    · exact stamps_evict key after
    have evicted := stamps_evictWhileOverLimits limits after.states.size after
    unfold complete
    split
    · exact evicted
    split
    · exact (stamps_discard key _).trans evicted
    · exact (stamps_conflict key _).trans evicted
    · exact evicted
  exact (settled _).trans (touched (stamps_inserted _ _ _ _))

theorem entries_discards
    (keys : List FragmentKey)
    (reassembler : FragmentReassembler) :
    (keys.foldl (fun state key => state.discard key)
        reassembler).states.entries =
      reassembler.states.entries.filter fun entry => entry.1 ∉ keys := by
  induction keys generalizing reassembler with
  | nil =>
      simp
  | cons key rest inductionHypothesis =>
      rw [List.foldl_cons, inductionHypothesis, entries_discard,
        entries_erase, List.filter_filter]
      apply List.filter_congr
      intro entry _
      simp [Bool.and_comm]

theorem stamps_expire (now : Option Int) :
    (reassembler.expire limits now clock).stamps.Sublist
      reassembler.stamps := by
  unfold stamps OrderedTable.stamps
  rw [show (reassembler.expire limits now clock).states.entries = _ from
    entries_discards _ reassembler]
  exact List.filter_sublist.map _

/-- The table is sorted by activity that is over at the given time. -/
def StampsInOrder : Prop :=
  reassembler.states.InActivityOrder FragmentState.activityNs clock

theorem StampsInOrder.initial :
    ({} : FragmentReassembler).StampsInOrder clock :=
  InActivityOrder.empty clock

variable {limits clock packet reassembler}

/-- A call at a later time keeps the order. -/
theorem StampsInOrder.apply
    (ordered : reassembler.StampsInOrder clock)
    {operation : FragmentOperation}
    {now : Int}
    (onward : clock ≤ now)
    (reads : ∀ reading, operation.clock? = some reading → reading = now) :
    (operation.apply limits reassembler).state.StampsInOrder now := by
  have later : reassembler.StampsInOrder now := ordered.later onward
  cases operation with
  | process reading packet =>
      obtain rfl := reads reading rfl
      cases keyed : packet.fragmentKey? with
      | none =>
          have same :
              (reassembler.process limits reading packet).reassembler =
                reassembler := by
            unfold process
            rw [keyed]
          exact (congrArg (StampsInOrder reading) same).mpr later
      | some key =>
          exact later.use (stamps_process limits reading packet reassembler
            keyed)
  | expire capture reading =>
      exact later.shrink (stamps_expire limits reading reassembler capture)

/-- The readings of a run that end at the given time at the latest. -/
theorem StampsInOrder.run
    {operations : List FragmentOperation}
    (ordered : reassembler.StampsInOrder clock)
    {now : Int}
    (readings :
      (clock :: operations.filterMap FragmentOperation.clock? ++
        [now]).Pairwise (· ≤ ·)) :
    (reassembler.run limits operations).state.StampsInOrder now := by
  induction operations generalizing reassembler clock with
  | nil =>
      apply ordered.later
      simpa using readings
  | cons operation rest inductionHypothesis =>
      cases read : operation.clock? with
      | none =>
          rw [List.filterMap_cons_none read] at readings
          exact inductionHypothesis
            (ordered.apply (le_refl clock) (by simp [read])) readings
      | some reading =>
          rw [List.filterMap_cons_some read] at readings
          obtain ⟨first, later⟩ := List.pairwise_cons.mp readings
          refine @inductionHypothesis reading _ ?_ later
          refine ordered.apply (first reading (by simp)) ?_
          intro other isOther
          rw [read] at isOther
          exact (Option.some.inj isOther).symm

/-- In a table in order, stopping early finds what a full scan finds. -/
theorem StampsInOrder.staleDatagrams
    (ordered : reassembler.StampsInOrder clock)
    (now : Int) :
    reassembler.staleDatagrams limits none now =
      reassembler.idleDatagrams limits now :=
  congrArg (List.map Prod.fst) (ordered.takeWhile_isIdle limits.idleNs now)

/-- Expiry of a table in order leaves exactly the datagrams in use. -/
theorem StampsInOrder.expire
    (ordered : reassembler.StampsInOrder clock)
    (now : Int) :
    (reassembler.expire limits none now).states.entries =
      reassembler.states.entries.filter fun entry =>
        !isIdle FragmentState.activityNs limits.idleNs now entry := by
  rw [show (reassembler.expire limits none now).states.entries = _ from
    entries_discards _ reassembler, ordered.staleDatagrams]
  exact filter_not_mem_keys _ _

end FragmentReassembler

end PacketAudit
