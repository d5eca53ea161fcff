import PacketAudit.Fragments.Conflicts

namespace PacketAudit

/-!
# Fragments past the final end

The assembly loop walks the ranges held and stops at the final end.  Bytes past
it are noticed when they are joined to the datagram, not when a hole separates
them from it: such strays are dropped with the state, and the datagram is
returned as if they had never been accepted.
-/

open Library

namespace FragmentState

/-- Ranges that hold every byte up to the end are one range that reaches it. -/
theorem assembleFrom_whole
    {ranges : List ByteRange}
    (solid : Solid ranges)
    (apart : Apart ranges)
    (nonnegative : ∀ {position}, Covers ranges position → 0 ≤ position)
    {finalEnd : Int}
    (positive : 0 < finalEnd)
    (whole :
      ∀ position, 0 ≤ position → position < finalEnd →
        Covers ranges position) :
    (Covers ranges finalEnd →
        assembleFrom finalEnd 0 [] ranges = .conflict) ∧
      (¬ Covers ranges finalEnd →
        ∃ payload, assembleFrom finalEnd 0 [] ranges = .complete payload) := by
  cases ranges with
  | nil => simpa using whole 0 (le_refl _) positive
  | cons range rest =>
      obtain ⟨gap, -⟩ := List.pairwise_cons.mp apart
      have forward := Segment.start_lt_stop (solid range List.mem_cons_self)
      have notLater
          {position : Int}
          (early : position ≤ range.stop) :
          ¬ Covers rest position := by
        rintro ⟨later, member, inside⟩
        have apartFromLater := gap later member
        unfold Segment.Contains at inside
        omega
      have startsFirst : range.start = 0 := by
        have lower :=
          nonnegative (covers_cons.mpr (.inl ⟨le_refl range.start, forward⟩))
        rcases covers_cons.mp (whole 0 (le_refl _) positive) with
          inRange | inRest
        · exact le_antisymm inRange.1 lower
        · exact (notLater (by omega) inRest).elim
      have reaches : finalEnd ≤ range.stop := by
        by_contra early
        rcases covers_cons.mp
            (whole range.stop (by omega) (by omega)) with inRange | inRest
        · exact (lt_irrefl _ inRange.2).elim
        · exact notLater (le_refl _) inRest
      unfold assembleFrom
      rw [if_neg (by omega)]
      constructor
      · intro covered
        have past : finalEnd < range.stop := by
          rcases covers_cons.mp covered with inRange | inRest
          · exact inRange.2
          · exact (notLater reaches inRest).elim
        exact if_pos past
      · intro uncovered
        have stopsThere : range.stop = finalEnd := by
          by_contra further
          exact uncovered (covers_cons.mpr (.inl ⟨by omega, by omega⟩))
        rw [if_neg (by omega), if_pos stopsThere]
        exact ⟨_, rfl⟩

end FragmentState

namespace FragmentReassembler

/-! ## What was accepted into a state -/

/-- The fragment ends up in its datagram's state, and the state is kept. -/
structure Accepts
    (limits : FragmentLimits)
    (key : FragmentKey)
    (clock : Int)
    (packet : ParsedPacket)
    (reassembler : FragmentReassembler) : Prop where
  wellFormed : isMalformed limits packet = false
  sameEnd :
    (reassembler.stateFor key clock packet).finalEndDiffers packet = false
  consistent :
    ((reassembler.stateFor key clock packet).recordFinalEnd
      packet).hasConflictingOverlap packet = false
  fewRanges :
    (reassembler.insertedState key clock packet).ranges.length ≤
      limits.maxRangesPerDatagram
  kept :
    ((reassembler.inserted key clock packet).evictToLimits
      limits).states.get? key ≠ none

/--
The fragments accepted into the state of a key since that state was created,
after a run that starts with some of them.
-/
def acceptedBy
    (limits : FragmentLimits)
    (key : FragmentKey) :
    List FragmentOperation →
    FragmentReassembler → List ParsedPacket → List ParsedPacket
  | [], _, accepted => accepted
  | operation :: rest, reassembler, accepted =>
      let after := (operation.apply limits reassembler).state
      acceptedBy limits key rest after
        (if (after.states.get? key).isNone then
          []
        else
          accepted ++ fragmentsFor key [operation])

variable
  {limits : FragmentLimits}
  {key : FragmentKey}
  {clock : Int}
  {packet : ParsedPacket}
  {reassembler : FragmentReassembler}

/-- What `process` does with a fragment of a fragmented datagram. -/
theorem process_of_fragmentFor
    (ofKey : FragmentFor key packet) :
    reassembler.process limits clock packet =
      if isMalformed limits packet then
        ⟨reassembler.malformed key, .ok none⟩
      else
        reassembler.collect limits key clock packet := by
  unfold process
  rw [ofKey.1]
  simp only [ofKey.2, Bool.false_eq_true, ↓reduceIte]

/-- An accepted fragment is inserted and the datagram tried for completion. -/
theorem Accepts.process
    (accepts : Accepts limits key clock packet reassembler)
    (ofKey : FragmentFor key packet) :
    reassembler.process limits clock packet =
      ((reassembler.inserted key clock packet).evictToLimits
        limits).complete key := by
  rw [process_of_fragmentFor ofKey, if_neg (by simp [accepts.wellFormed])]
  unfold collect
  simp only [accepts.sameEnd, accepts.consistent, Bool.false_eq_true,
    ↓reduceIte]
  show (reassembler.inserted key clock packet).settle limits key = _
  unfold settle
  rw [get?_inserted_self]
  exact if_neg (by have few := accepts.fewRanges; omega)

/-- The state in which an accepted fragment's datagram is tried. -/
theorem Accepts.get?_evicted
    (accepts : Accepts limits key clock packet reassembler) :
    ((reassembler.inserted key clock packet).evictToLimits
        limits).states.get? key =
      some (reassembler.insertedState key clock packet) := by
  rcases shrinks_evictToLimits limits
      (reassembler.inserted key clock packet) key with gone | same
  · exact (accepts.kept gone).elim
  · rw [same, get?_inserted_self]

/-- A fragment that is not accepted leaves nothing under its key. -/
theorem process_of_not_accepts
    (ofKey : FragmentFor key packet)
    (rejected : ¬ Accepts limits key clock packet reassembler) :
    (reassembler.process limits clock packet).returned = .ok none ∧
      (reassembler.process limits clock packet).reassembler.states.get? key =
        none := by
  rw [process_of_fragmentFor ofKey]
  split
  case isTrue => exact ⟨rfl, get?_malformed_self _ _⟩
  case isFalse wellFormed =>
    unfold collect
    dsimp only
    split
    case isTrue => exact ⟨rfl, get?_conflict_self _ _⟩
    case isFalse sameEnd =>
      split
      case isTrue => exact ⟨rfl, get?_conflict_self _ _⟩
      case isFalse consistent =>
        show
          ((reassembler.inserted key clock packet).settle limits
                key).returned = .ok none ∧
            ((reassembler.inserted key clock packet).settle limits
              key).reassembler.states.get? key = none
        unfold settle
        rw [get?_inserted_self]
        dsimp only
        split
        case isTrue => exact ⟨rfl, get?_evict_self _ _⟩
        case isFalse fewRanges =>
          have gone :
              ((reassembler.inserted key clock packet).evictToLimits
                limits).states.get? key = none := by
            by_contra kept
            exact rejected {
              wellFormed := by simpa using wellFormed
              sameEnd := by simpa using sameEnd
              consistent := by simpa using consistent
              fewRanges := by omega
              kept }
          unfold complete
          rw [gone]
          exact ⟨rfl, gone⟩

/-- A call on another datagram's packet keeps or drops the state of a key. -/
theorem process_of_not_fragmentFor
    (other : ¬ FragmentFor key packet) :
    (reassembler.process limits clock packet).reassembler.states.get? key =
        none ∨
      (reassembler.process limits clock packet).reassembler.states.get? key =
        reassembler.states.get? key := by
  have processed := process_processed limits clock packet reassembler
  generalize reassembler.process limits clock packet = result at processed
  have beside
      {own : FragmentKey}
      (keyed : packet.fragmentKey? = some own)
      (proper : packet.unfragmented = false) :
      key ≠ own := by
    rintro rfl
    exact other ⟨keyed, proper⟩
  cases processed with
  | passed => exact .inr rfl
  | dropped keyed proper _ others => exact others key (beside keyed proper)
  | held keyed proper _ others => exact others key (beside keyed proper)
  | completed keyed proper _ others => exact others key (beside keyed proper)

/-- The state holds exactly what these fragments brought. -/
structure Accumulates
    (fragments : List ParsedPacket)
    (state : FragmentState) : Prop where
  tidy : state.Tidy
  first :
    state.firstFragment.isSome ↔
      ∃ fragment ∈ fragments, fragment.fragmentOffset = 0
  final :
    ∀ {finalEnd},
      state.finalEnd = some finalEnd ↔
        ∃ last ∈ fragments,
          last.moreFragments = false ∧ last.fragmentEnd = finalEnd
  truncated :
    state.truncated = false ↔
      ∀ fragment ∈ fragments, fragment.truncated = false
  covers :
    ∀ {position},
      Covers state.ranges position ↔
        ∃ fragment ∈ fragments, fragment.byteRange.Contains position
  proper :
    ∀ fragment ∈ fragments,
      fragment.unfragmented = false ∧
        (fragment.moreFragments = true → fragment.networkPayload ≠ [])

namespace Accumulates

variable
  {fragments : List ParsedPacket}
  {state : FragmentState}

theorem new : Accumulates [] (.new clock packet) where
  tidy := {
    solid := by simp [FragmentState.new, Solid]
    apart := List.Pairwise.nil }
  first := by simp [FragmentState.new]
  final := by simp [FragmentState.new]
  truncated := by simp [FragmentState.new]
  covers := by simp [FragmentState.new]
  proper := by simp

/-- Inserting a fragment that agrees on the final end adds that fragment. -/
theorem insert
    (accumulates : Accumulates fragments state)
    (ofKey : FragmentFor key packet)
    (wellFormed : isMalformed limits packet = false)
    (sameEnd :
      (state.touch clock packet).finalEndDiffers packet = false) :
    Accumulates (fragments ++ [packet])
      (((state.touch clock packet).recordFinalEnd packet).insert
        packet) where
  tidy := by
    have touched :
        ((state.touch clock packet).recordFinalEnd packet).Tidy :=
      ⟨accumulates.tidy.solid, accumulates.tidy.apart⟩
    exact touched.insert packet
  first := by
    simp only [FragmentState.insert, FragmentState.recordFinalEnd,
      FragmentState.touch]
    have before := accumulates.first
    by_cases atStart : packet.fragmentOffset = 0
    · cases held : state.firstFragment with
      | none => simp [atStart]
      | some base =>
          rw [held] at before
          simp [atStart]
    · simp only [atStart, false_and, ↓reduceIte, before, List.mem_append,
        List.mem_singleton]
      constructor
      · rintro ⟨fragment, member, isFirst⟩
        exact ⟨fragment, .inl member, isFirst⟩
      · rintro ⟨fragment, member | rfl, isFirst⟩
        · exact ⟨fragment, member, isFirst⟩
        · exact (atStart isFirst).elim
  final := by
    intro finalEnd
    simp only [FragmentState.insert, FragmentState.recordFinalEnd,
      FragmentState.touch]
    cases more : packet.moreFragments with
    | true =>
        simp only [↓reduceIte, accumulates.final, List.mem_append,
          List.mem_singleton]
        constructor
        · rintro ⟨last, member, ends⟩
          exact ⟨last, .inl member, ends⟩
        · rintro ⟨last, member | rfl, ends⟩
          · exact ⟨last, member, ends⟩
          · simp [more] at ends
    | false =>
        simp only [Bool.false_eq_true, ↓reduceIte, Option.some.injEq,
          List.mem_append, List.mem_singleton]
        constructor
        · rintro rfl
          exact ⟨packet, .inr rfl, more, rfl⟩
        · rintro ⟨last, member | rfl, isFinal, rfl⟩
          · -- An earlier final fragment agrees on the end.
            have held := accumulates.final.mpr ⟨last, member, isFinal, rfl⟩
            unfold FragmentState.finalEndDiffers at sameEnd
            have agrees : last.fragmentEnd = packet.fragmentEnd := by
              simpa [FragmentState.touch, held, more] using sameEnd
            exact agrees.symm
          · rfl
  truncated := by
    rw [List.forall_mem_append, List.forall_mem_singleton,
      ← accumulates.truncated]
    exact Bool.or_eq_false_iff
  covers := by
    intro position
    rw [FragmentState.covers_insert,
      show ((state.touch clock packet).recordFinalEnd packet).ranges =
        state.ranges from rfl, accumulates.covers]
    simp [or_and_right, exists_or]
  proper := by
    intro fragment member
    rcases List.mem_append.mp member with earlier | isPacket
    · exact accumulates.proper fragment earlier
    · obtain rfl := List.mem_singleton.mp isPacket
      refine ⟨ofKey.2, ?_⟩
      intro more
      unfold isMalformed at wellFormed
      simp [more] at wellFormed
      exact wellFormed.2.1

end Accumulates

/-- The state of the key, if there is one, holds what was accepted into it. -/
def KeyAccumulates
    (key : FragmentKey)
    (fragments : List ParsedPacket)
    (reassembler : FragmentReassembler) : Prop :=
  match reassembler.states.get? key with
  | none => fragments = []
  | some state => Accumulates fragments state

namespace KeyAccumulates

variable {fragments : List ParsedPacket}

/-- The state an accepted fragment is inserted into. -/
theorem inserted
    (accumulates : KeyAccumulates key fragments reassembler)
    (ofKey : FragmentFor key packet)
    (accepts : Accepts limits key clock packet reassembler) :
    Accumulates (fragments ++ [packet])
      (reassembler.insertedState key clock packet) := by
  have sameEnd := accepts.sameEnd
  unfold KeyAccumulates at accumulates
  unfold stateFor at sameEnd
  unfold insertedState stateFor
  cases found : reassembler.states.get? key with
  | none =>
      rw [found] at accumulates sameEnd
      subst accumulates
      exact Accumulates.new.insert ofKey accepts.wellFormed sameEnd
  | some state =>
      rw [found] at accumulates sameEnd
      exact accumulates.insert ofKey accepts.wellFormed sameEnd

/-- Completion of an accepted fragment's datagram keeps the state or drops it. -/
theorem get?_complete
    {state : FragmentState}
    (found : reassembler.states.get? key = some state) :
    (reassembler.complete key).reassembler.states.get? key = none ∨
      (reassembler.complete key).reassembler.states.get? key = some state := by
  unfold complete
  rw [found]
  dsimp only
  split
  · exact .inl (get?_discard_self _ _)
  · exact .inl (get?_conflict_self _ _)
  · exact .inr found

/-- What one call adds to the fragments accepted. -/
theorem apply
    (accumulates : KeyAccumulates key fragments reassembler)
    (operation : FragmentOperation) :
    let after := (operation.apply limits reassembler).state
    KeyAccumulates key
      (if (after.states.get? key).isNone then
        []
      else
        fragments ++ fragmentsFor key [operation]) after := by
  intro after
  have keptOrGone
      (nothing : fragmentsFor key [operation] = [])
      (shrinks :
        after.states.get? key = none ∨
          after.states.get? key = reassembler.states.get? key) :
      KeyAccumulates key
        (if (after.states.get? key).isNone then
          []
        else
          fragments ++ fragmentsFor key [operation]) after := by
    rw [nothing, List.append_nil]
    unfold KeyAccumulates at accumulates ⊢
    rcases shrinks with gone | same
    · simp [gone]
    · rw [same]
      cases found : reassembler.states.get? key with
      | none => simp
      | some state =>
          rw [found] at accumulates
          simpa using accumulates
  cases operation with
  | expire now clock =>
      exact keptOrGone rfl (shrinks_expire limits now clock reassembler key)
  | process clock packet =>
      by_cases ofKey : FragmentFor key packet
      · have brings :
            fragmentsFor key [.process clock packet] = [packet] := by
          simp [fragmentsFor, ofKey]
        unfold KeyAccumulates
        by_cases accepts : Accepts limits key clock packet reassembler
        · have state := accumulates.inserted ofKey accepts
          have completes :=
            get?_complete accepts.get?_evicted
          rw [← accepts.process ofKey] at completes
          rcases completes with gone | same
          · rw [show after.states.get? key = none from gone]
            simp
          · rw [show after.states.get? key = some _ from same, brings]
            simpa using state
        · have gone := (process_of_not_accepts ofKey accepts).2
          rw [show after.states.get? key = none from gone]
          simp
      · exact keptOrGone (by simp [fragmentsFor, ofKey])
          (process_of_not_fragmentFor ofKey)

theorem run
    (accumulates : KeyAccumulates key fragments reassembler)
    (operations : List FragmentOperation) :
    KeyAccumulates key
      (acceptedBy limits key operations reassembler fragments)
      (reassembler.run limits operations).state := by
  induction operations generalizing reassembler fragments with
  | nil =>
      exact accumulates
  | cons operation rest inductionHypothesis =>
      exact inductionHypothesis (accumulates.apply operation)

end KeyAccumulates

/-! ## Whole datagrams -/

/-- The fragments are those of a whole untruncated datagram, up to its end. -/
structure Whole
    (fragments : List ParsedPacket)
    (finalEnd : Nat) : Prop where
  first : ∃ fragment ∈ fragments, fragment.fragmentOffset = 0
  final :
    ∃ last ∈ fragments,
      last.moreFragments = false ∧ last.fragmentEnd = finalEnd
  untruncated : ∀ fragment ∈ fragments, fragment.truncated = false
  bytes : ∀ position < finalEnd, Covered fragments position

namespace Accumulates

variable
  {fragments : List ParsedPacket}
  {state : FragmentState}

theorem covers_iff_covered
    (accumulates : Accumulates fragments state)
    {position : Nat} :
    Covers state.ranges position ↔ Covered fragments position := by
  simp only [accumulates.covers, Covered,
    ParsedPacket.carriesByte_iff_contains]

theorem nonnegative
    (accumulates : Accumulates fragments state)
    {position : Int}
    (covered : Covers state.ranges position) :
    0 ≤ position := by
  obtain ⟨fragment, -, inside⟩ := accumulates.covers.mp covered
  unfold Segment.Contains ParsedPacket.byteRange at inside
  simp only at inside
  omega

/-- A datagram's end is not its start: it would not be a fragment. -/
theorem finalEnd_pos
    (accumulates : Accumulates fragments state)
    {finalEnd : Nat}
    (final :
      ∃ last ∈ fragments,
        last.moreFragments = false ∧ last.fragmentEnd = finalEnd) :
    0 < finalEnd := by
  obtain ⟨last, member, isFinal, rfl⟩ := final
  have proper := (accumulates.proper last member).1
  unfold ParsedPacket.unfragmented at proper
  have late : last.fragmentOffset ≠ 0 := by
    intro atStart
    simp [atStart, isFinal] at proper
  unfold ParsedPacket.fragmentEnd
  omega

/-- A whole datagram's state is a conflict or complete. -/
theorem assemble_of_whole
    (accumulates : Accumulates fragments state)
    {finalEnd : Nat}
    (whole : Whole fragments finalEnd) :
    (Covered fragments finalEnd → ∃ base, state.assemble = (.conflict, base)) ∧
      (¬ Covered fragments finalEnd →
        ∃ base payload, state.assemble = (.complete payload, some base)) := by
  obtain ⟨base, first⟩ :=
    Option.isSome_iff_exists.mp (accumulates.first.mpr whole.first)
  have final := accumulates.final.mpr whole.final
  have untruncated := accumulates.truncated.mpr whole.untruncated
  have positive := accumulates.finalEnd_pos whole.final
  obtain ⟨conflicts, completes⟩ :=
    FragmentState.assembleFrom_whole accumulates.tidy.solid
      accumulates.tidy.apart (fun covered => accumulates.nonnegative covered)
      (show (0 : Int) < finalEnd by omega) (by
        intro position lower upper
        obtain ⟨index, rfl⟩ := Int.eq_ofNat_of_zero_le lower
        exact accumulates.covers_iff_covered.mpr
          (whole.bytes index (by omega)))
  rw [accumulates.covers_iff_covered] at conflicts completes
  unfold FragmentState.assemble
  rw [first, final]
  simp only [untruncated, Bool.false_eq_true, ↓reduceIte]
  constructor
  · intro covered
    exact ⟨_, by rw [conflicts covered]⟩
  · intro uncovered
    obtain ⟨payload, complete⟩ := completes uncovered
    exact ⟨base, payload, by rw [complete]⟩

/-- A complete state is that of a whole datagram. -/
theorem whole_of_complete
    (accumulates : Accumulates fragments state)
    {payload : Bytes}
    {base : ParsedPacket}
    (assembled : state.assemble = (.complete payload, some base)) :
    ∃ finalEnd, Whole fragments finalEnd ∧ ¬ Covered fragments finalEnd := by
  obtain ⟨finalEnd, first, final, complete⟩ :=
    FragmentState.assemble_eq_complete assembled
  have whole : Whole fragments finalEnd := {
    first := accumulates.first.mp (by simp [first])
    final := accumulates.final.mp final
    untruncated := by
      apply accumulates.truncated.mp
      unfold FragmentState.assemble at assembled
      rw [first, final] at assembled
      by_contra truncated
      dsimp only at assembled
      rw [if_pos (by simpa using truncated)] at assembled
      cases assembled
    bytes := by
      intro position before
      exact accumulates.covers_iff_covered.mp
        (FragmentState.covers_of_assembleFrom complete (by omega)
          (by omega)) }
  refine ⟨finalEnd, whole, ?_⟩
  intro covered
  obtain ⟨other, conflicts⟩ :=
    (accumulates.assemble_of_whole whole).1 covered
  rw [assembled] at conflicts
  cases conflicts

end Accumulates

/-! ## Exactly when strays are noticed -/

/--
What may be returned after the call, and what has to happen to a datagram with
a fragment past its end.
-/
structure RespectsFinalEnd
    (limits : FragmentLimits)
    (key : FragmentKey)
    (accepted : List ParsedPacket)
    (clock : Int)
    (packet : ParsedPacket)
    (reassembler : FragmentReassembler) : Prop where
  returned :
    (reassembler.process limits clock packet).returned ≠ .ok none →
      ∀ last ∈ accepted ++ [packet],
        last.moreFragments = false →
        ∀ fragment ∈ accepted ++ [packet],
          fragment.fragmentEnd ≤ last.fragmentEnd
  discarded :
    Accepts limits key clock packet reassembler →
      ∀ finalEnd,
        Whole (accepted ++ [packet]) finalEnd →
        (∃ fragment ∈ accepted ++ [packet],
          finalEnd < fragment.fragmentEnd) →
        let result := reassembler.process limits clock packet
        result.returned = .ok none ∧
          result.reassembler.states.get? key = none ∧
          result.reassembler.counters.overlapConflicts =
            reassembler.counters.overlapConflicts + 1

/--
If the accepted fragments are a whole datagram and some of them extends past
its end, the byte at the end is carried too.
-/
def StraysConnected
    (limits : FragmentLimits)
    (key : FragmentKey)
    (accepted : List ParsedPacket)
    (clock : Int)
    (packet : ParsedPacket)
    (reassembler : FragmentReassembler) : Prop :=
  Accepts limits key clock packet reassembler →
    ∀ finalEnd,
      Whole (accepted ++ [packet]) finalEnd →
      (∃ fragment ∈ accepted ++ [packet],
        finalEnd < fragment.fragmentEnd) →
      Covered (accepted ++ [packet]) finalEnd

/-- What an accepted fragment's call does with a whole datagram. -/
theorem Accepts.process_of_whole
    (accepts : Accepts limits key clock packet reassembler)
    (ofKey : FragmentFor key packet)
    {fragments : List ParsedPacket}
    (accumulates :
      Accumulates fragments (reassembler.insertedState key clock packet))
    {finalEnd : Nat}
    (whole : Whole fragments finalEnd) :
    let result := reassembler.process limits clock packet
    (Covered fragments finalEnd →
        result.returned = .ok none ∧
          result.reassembler.states.get? key = none ∧
          result.reassembler.counters.overlapConflicts =
            reassembler.counters.overlapConflicts + 1) ∧
      (¬ Covered fragments finalEnd → result.returned ≠ .ok none) := by
  intro result
  obtain ⟨conflicts, completes⟩ := accumulates.assemble_of_whole whole
  have processed :
      result =
        ((reassembler.inserted key clock packet).evictToLimits
          limits).complete key :=
    accepts.process ofKey
  rw [processed]
  unfold complete
  rw [accepts.get?_evicted]
  dsimp only
  constructor
  · intro covered
    obtain ⟨base, conflict⟩ := conflicts covered
    rw [conflict]
    refine ⟨rfl, get?_conflict_self _ _, ?_⟩
    have counted :=
      overlapConflicts_evictToLimits limits
        (reassembler.inserted key clock packet)
    simp only [FragmentReassembler.conflict, overlapConflicts_discard, counted]
    rfl
  · intro uncovered
    obtain ⟨base, payload, complete⟩ := completes uncovered
    rw [complete]
    obtain ⟨-, ready, -, -, readied⟩ :=
      transportReady_total
        ((reassembler.insertedState key clock packet).completed base payload)
    simp [readied]

/-- A datagram is returned only if it is whole and ends where it should. -/
theorem Accepts.whole_of_returned
    (accepts : Accepts limits key clock packet reassembler)
    (ofKey : FragmentFor key packet)
    {fragments : List ParsedPacket}
    (accumulates :
      Accumulates fragments (reassembler.insertedState key clock packet))
    (returned :
      (reassembler.process limits clock packet).returned ≠ .ok none) :
    ∃ finalEnd, Whole fragments finalEnd ∧ ¬ Covered fragments finalEnd := by
  rw [accepts.process ofKey] at returned
  unfold complete at returned
  rw [accepts.get?_evicted] at returned
  dsimp only at returned
  split at returned
  case _ assembled => exact accumulates.whole_of_complete assembled
  case _ => exact (returned rfl).elim
  case _ => exact (returned rfl).elim

/-- The final fragments of a state agree on the end. -/
theorem Accumulates.finalEnd_unique
    {fragments : List ParsedPacket}
    {state : FragmentState}
    (accumulates : Accumulates fragments state)
    {last : ParsedPacket}
    (member : last ∈ fragments)
    (isFinal : last.moreFragments = false)
    {finalEnd : Nat}
    (whole : Whole fragments finalEnd) :
    last.fragmentEnd = finalEnd := by
  have own := accumulates.final.mpr ⟨last, member, isFinal, rfl⟩
  have same := accumulates.final.mpr whole.final
  exact Option.some.inj (own.symm.trans same)

/-- One call respects the final end exactly when strays are connected. -/
theorem KeyAccumulates.respectsFinalEnd_iff
    {accepted : List ParsedPacket}
    (accumulates : KeyAccumulates key accepted reassembler)
    (ofKey : FragmentFor key packet)
    (clock : Int) :
    RespectsFinalEnd limits key accepted clock packet reassembler ↔
      StraysConnected limits key accepted clock packet reassembler := by
  constructor
  · intro respects accepts finalEnd whole strays
    by_contra uncovered
    have inserted := accumulates.inserted ofKey accepts
    have returned :=
      (accepts.process_of_whole ofKey inserted whole).2 uncovered
    exact returned (respects.discarded accepts finalEnd whole strays).1
  · intro connected
    refine { returned := ?_, discarded := ?_ }
    · intro returned last lastMember isFinal fragment member
      have accepts : Accepts limits key clock packet reassembler := by
        by_contra rejected
        exact returned (process_of_not_accepts ofKey rejected).1
      have inserted := accumulates.inserted ofKey accepts
      obtain ⟨finalEnd, whole, uncovered⟩ :=
        accepts.whole_of_returned ofKey inserted returned
      rw [inserted.finalEnd_unique lastMember isFinal whole]
      by_contra past
      exact uncovered
        (connected accepts finalEnd whole ⟨fragment, member, by omega⟩)
    · intro accepts finalEnd whole strays
      exact
        (accepts.process_of_whole ofKey
          (accumulates.inserted ofKey accepts) whole).1
          (connected accepts finalEnd whole strays)

/-! ## Every run -/

/--
A condition on every call of a run that processes a fragment, with the
fragments accepted before into the state of its key.
-/
def ForEachFragment
    (limits : FragmentLimits)
    (operations : List FragmentOperation)
    (holds :
      FragmentKey → List ParsedPacket → Int → ParsedPacket →
        FragmentReassembler → Prop) : Prop :=
  ∀ prior clock packet later key,
    operations = prior ++ .process clock packet :: later →
    FragmentFor key packet →
    holds key (acceptedBy limits key prior {} []) clock packet
      (run limits prior {}).state

/--
In every run, a call respects the final end of its datagram if and only if the
fragments past the end of a whole datagram are connected with it.
-/
theorem returned_respects_final_end_iff
    (limits : FragmentLimits)
    (operations : List FragmentOperation) :
    ForEachFragment limits operations
      fun key accepted clock packet before =>
        RespectsFinalEnd limits key accepted clock packet before ↔
          StraysConnected limits key accepted clock packet before := by
  intro prior clock packet later key _ ofKey
  have nothing : KeyAccumulates key [] ({} : FragmentReassembler) := rfl
  exact (nothing.run prior).respectsFinalEnd_iff ofKey clock

/-- A first fragment, and another one behind a hole. -/
def strayFirst : List FragmentOperation :=
  [.process 0 (sampleFragment 1 0 true sampleHeader),
    .process 1 (sampleFragment 2 24 true sampleHeader)]

/--
The final fragment completes a datagram of twelve bytes, which is returned
although a fragment up to byte 32 was accepted.
-/
theorem strayFragment_ignored :
    ¬ ∀ (limits : FragmentLimits) (prior : List FragmentOperation)
        (key : FragmentKey) (clock : Int) (packet : ParsedPacket),
      FragmentFor key packet →
      RespectsFinalEnd limits key (acceptedBy limits key prior {} []) clock
        packet (run limits prior {}).state := by
  intro claimed
  have respects :=
    claimed .default strayFirst sampleFragmentKey 2
      (sampleFragment 3 8 false sampleBody) (by decide)
  have returned :
      ((run .default strayFirst {}).state.process .default 2
        (sampleFragment 3 8 false sampleBody)).returned ≠ .ok none := by
    intro nothing
    have none := congrArg (fun result => result.toOption.join.isSome) nothing
    revert none
    decide
  have bounded :=
    respects.returned returned (sampleFragment 3 8 false sampleBody)
      (by simp) rfl (sampleFragment 2 24 true sampleHeader) (by decide)
  revert bounded
  decide

end FragmentReassembler

end PacketAudit
