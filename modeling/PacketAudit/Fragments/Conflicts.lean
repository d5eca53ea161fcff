import PacketAudit.Fragments.Completion

namespace PacketAudit

/-!
# How long a conflict keeps a datagram out

A conflict discards the state of its key and nothing else remembers it.  What
keeps later calls from returning a datagram of the key is only that its
fragments have to be complete again: as long as those processed since the
conflict do not complete a datagram, none is returned.
-/

open Library

namespace FragmentReassembler

/-- The call found a conflict with what is held under the key. -/
def ConflictFound
    (limits : FragmentLimits)
    (key : FragmentKey)
    (call : FragmentCall)
    (reassembler : FragmentReassembler) : Prop :=
  call.packet.fragmentKey? = some key ∧
    (reassembler.process limits call.clock
        call.packet).reassembler.counters.overlapConflicts =
      reassembler.counters.overlapConflicts + 1

instance
    (limits : FragmentLimits)
    (key : FragmentKey)
    (call : FragmentCall)
    (reassembler : FragmentReassembler) :
    Decidable (reassembler.ConflictFound limits key call) :=
  inferInstanceAs (Decidable (_ ∧ _))

/-- The packet is a fragment of a fragmented datagram of the key. -/
def FragmentFor (key : FragmentKey) (packet : ParsedPacket) : Prop :=
  packet.fragmentKey? = some key ∧ packet.unfragmented = false

instance (key : FragmentKey) (packet : ParsedPacket) :
    Decidable (FragmentFor key packet) :=
  inferInstanceAs (Decidable (_ ∧ _))

/-- The fragments of the key that a list of calls processes. -/
def fragmentsFor
    (key : FragmentKey)
    (operations : List FragmentOperation) : List ParsedPacket :=
  operations.filterMap fun
    | .process _ packet =>
        if FragmentFor key packet then some packet else none
    | .expire _ _ => none

/--
A first fragment, a final fragment and every byte up to its end are among the
packets.
-/
def Completes (packets : List ParsedPacket) : Prop :=
  (∃ first ∈ packets, first.fragmentOffset = 0) ∧
    ∃ last ∈ packets,
      last.moreFragments = false ∧
        ∀ position < last.fragmentEnd, Covered packets position

/-! ## Where the held data came from -/

/-- Everything held in the state came from these fragments. -/
structure HeldFrom
    (arrivals : List ParsedPacket)
    (state : FragmentState) : Prop where
  first :
    ∀ {base},
      state.firstFragment = some base →
        base ∈ arrivals ∧ base.fragmentOffset = 0
  final :
    ∀ {finalEnd},
      state.finalEnd = some finalEnd →
        ∃ last ∈ arrivals,
          last.moreFragments = false ∧ last.fragmentEnd = finalEnd
  covers :
    ∀ {position : Nat},
      Covers state.ranges position → Covered arrivals position

namespace HeldFrom

variable
  {arrivals : List ParsedPacket}
  {state : FragmentState}

/-- A new state holds nothing. -/
theorem new
    (clock : Int)
    (packet : ParsedPacket) :
    HeldFrom [] (.new clock packet) where
  first := by simp [FragmentState.new]
  final := by simp [FragmentState.new]
  covers := by simp [FragmentState.new]

/-- More arrivals explain what fewer did. -/
theorem append
    (heldFrom : HeldFrom arrivals state)
    (more : List ParsedPacket) :
    HeldFrom (arrivals ++ more) state where
  first := by
    intro base held
    obtain ⟨member, atStart⟩ := heldFrom.first held
    exact ⟨List.mem_append_left _ member, atStart⟩
  final := by
    intro finalEnd held
    obtain ⟨last, member, final, ends⟩ := heldFrom.final held
    exact ⟨last, List.mem_append_left _ member, final, ends⟩
  covers := by
    intro position covered
    exact covered_append.mpr (.inl (heldFrom.covers covered))

/-- Inserting a fragment adds only what the fragment brings. -/
theorem insert
    (heldFrom : HeldFrom arrivals state)
    (clock : Int)
    (packet : ParsedPacket) :
    HeldFrom (arrivals ++ [packet])
      (((state.touch clock packet).recordFinalEnd packet).insert
        packet) where
  first := by
    intro base held
    simp only [FragmentState.insert, FragmentState.recordFinalEnd,
      FragmentState.touch] at held
    split at held
    case isTrue atStart =>
      obtain rfl := Option.some.inj held
      exact ⟨List.mem_append_right _ (by simp), atStart.1⟩
    case isFalse => exact (heldFrom.append [packet]).first held
  final := by
    intro finalEnd held
    simp only [FragmentState.insert, FragmentState.recordFinalEnd,
      FragmentState.touch] at held
    split at held
    case isTrue => exact (heldFrom.append [packet]).final held
    case isFalse final =>
      obtain rfl := Option.some.inj held
      exact ⟨packet, List.mem_append_right _ (by simp), by simpa using final,
        rfl⟩
  covers := by
    intro position covered
    rw [covered_append]
    rcases FragmentState.covers_insert.mp covered with before | inPacket
    · exact .inl (heldFrom.covers before)
    · exact .inr ⟨packet, by simp,
        ParsedPacket.carriesByte_iff_contains.mpr inPacket⟩

/-- A complete assembly needs complete fragments. -/
theorem completes
    (heldFrom : HeldFrom arrivals state)
    {payload : Bytes}
    {base : ParsedPacket}
    (assembled : state.assemble = (.complete payload, some base)) :
    Completes arrivals := by
  obtain ⟨finalEnd, first, final, complete⟩ :=
    FragmentState.assemble_eq_complete assembled
  obtain ⟨last, lastMember, isFinal, rfl⟩ := heldFrom.final final
  obtain ⟨firstMember, atStart⟩ := heldFrom.first first
  refine ⟨⟨base, firstMember, atStart⟩, last, lastMember, isFinal, ?_⟩
  intro position before
  exact heldFrom.covers
    (FragmentState.covers_of_assembleFrom complete (by omega) (by omega))

end HeldFrom

/-- Whatever the reassembler holds under the key came from the arrivals. -/
def KeyHeldFrom
    (key : FragmentKey)
    (arrivals : List ParsedPacket)
    (reassembler : FragmentReassembler) : Prop :=
  ∀ state,
    reassembler.states.get? key = some state → HeldFrom arrivals state

namespace KeyHeldFrom

variable
  {key : FragmentKey}
  {arrivals : List ParsedPacket}
  {reassembler : FragmentReassembler}

theorem append
    (heldFrom : KeyHeldFrom key arrivals reassembler)
    (more : List ParsedPacket) :
    KeyHeldFrom key (arrivals ++ more) reassembler :=
  fun state found => (heldFrom state found).append more

/-- Where nothing new is held under the key, the arrivals still explain it. -/
theorem shrink
    (heldFrom : KeyHeldFrom key arrivals reassembler)
    {after : FragmentReassembler}
    (shrinks :
      after.states.get? key = none ∨
        after.states.get? key = reassembler.states.get? key) :
    KeyHeldFrom key arrivals after := by
  intro state found
  rcases shrinks with gone | same
  · rw [gone] at found
    cases found
  · exact heldFrom state (same.symm.trans found)

/-- The inserted state comes from the arrivals and the new fragment. -/
theorem inserted
    (heldFrom : KeyHeldFrom key arrivals reassembler)
    (clock : Int)
    (packet : ParsedPacket) :
    HeldFrom (arrivals ++ [packet])
      (reassembler.insertedState key clock packet) := by
  unfold insertedState stateFor
  cases found : reassembler.states.get? key with
  | none =>
      have fresh : HeldFrom arrivals (.new clock packet) := by
        simpa using (HeldFrom.new clock packet).append arrivals
      exact fresh.insert clock packet
  | some state => exact (heldFrom state found).insert clock packet

end KeyHeldFrom

/-- One call returns a datagram only if the fragments complete one. -/
theorem process_incomplete
    {limits : FragmentLimits}
    {key : FragmentKey}
    {arrivals : List ParsedPacket}
    {reassembler : FragmentReassembler}
    (heldFrom : KeyHeldFrom key arrivals reassembler)
    (clock : Int)
    (packet : ParsedPacket)
    (incomplete :
      ¬ Completes
        (arrivals ++ if FragmentFor key packet then [packet] else [])) :
    let result := reassembler.process limits clock packet
    (FragmentFor key packet → result.returned = .ok none) ∧
      KeyHeldFrom key
        (arrivals ++ if FragmentFor key packet then [packet] else [])
        result.reassembler := by
  intro result
  have processed : Processed clock packet reassembler result :=
    process_processed limits clock packet reassembler
  clear_value result
  cases processed with
  | passed whole =>
      refine ⟨?_, heldFrom.append _⟩
      rintro ⟨-, proper⟩
      simp [whole] at proper
  | @dropped dropped after keyed proper gone others =>
      refine ⟨fun _ => rfl, (heldFrom.append _).shrink ?_⟩
      by_cases same : key = dropped
      · exact .inl (same ▸ gone)
      · exact others key same
  | @held held after keyed proper stored others =>
      refine ⟨fun _ => rfl, ?_⟩
      by_cases same : key = held
      · subst same
        intro state found
        rw [if_pos ⟨keyed, proper⟩]
        obtain rfl := Option.some.inj (stored.symm.trans found)
        exact heldFrom.inserted clock packet
      · exact (heldFrom.append _).shrink (others key same)
  | @completed completed after base payload keyed proper gone others
      assembled =>
      by_cases same : key = completed
      · subst same
        rw [if_pos ⟨keyed, proper⟩] at incomplete
        exact (incomplete
          ((heldFrom.inserted clock packet).completes assembled)).elim
      · refine ⟨?_, (heldFrom.append _).shrink (others key same)⟩
        rintro ⟨otherKeyed, -⟩
        exact (same
          (Option.some.inj (otherKeyed.symm.trans keyed))).elim

/-- Fragments that were complete stay complete with more of them. -/
theorem Completes.append
    {packets : List ParsedPacket}
    (completes : Completes packets)
    (more : List ParsedPacket) :
    Completes (packets ++ more) := by
  obtain ⟨⟨first, firstMember, atStart⟩, last, lastMember, final, covered⟩ :=
    completes
  refine ⟨⟨first, List.mem_append_left _ firstMember, atStart⟩, last,
    List.mem_append_left _ lastMember, final, ?_⟩
  intro position before
  exact covered_append.mpr (.inl (covered position before))

/-- A run returns no datagram of a key whose fragments stay incomplete. -/
theorem run_incomplete
    {limits : FragmentLimits}
    {key : FragmentKey}
    {arrivals : List ParsedPacket}
    {reassembler : FragmentReassembler}
    (heldFrom : KeyHeldFrom key arrivals reassembler)
    (operations : List FragmentOperation)
    (incomplete :
      ¬ Completes (arrivals ++ fragmentsFor key operations)) :
    ∀ entry ∈ (reassembler.run limits operations).events,
      FragmentFor key entry.packet → entry.returned = .ok none := by
  induction operations generalizing arrivals reassembler with
  | nil =>
      simp [run]
  | cons operation rest inductionHypothesis =>
      intro entry member ofKey
      cases operation with
      | process clock packet =>
          have shape :
              arrivals ++ fragmentsFor key (.process clock packet :: rest) =
                (arrivals ++
                    if FragmentFor key packet then [packet] else []) ++
                  fragmentsFor key rest := by
            by_cases own : FragmentFor key packet <;>
              simp [fragmentsFor, own]
          rw [shape] at incomplete
          obtain ⟨returned, next⟩ :=
            process_incomplete heldFrom clock packet fun completes =>
              incomplete (completes.append _)
          rcases List.mem_append.mp member with first | later
          · obtain rfl := List.mem_singleton.mp first
            exact returned ofKey
          · exact inductionHypothesis next incomplete entry later ofKey
      | expire now clock =>
          exact inductionHypothesis
            (heldFrom.shrink (shrinks_expire limits now clock _ key))
            incomplete entry member ofKey

/-- A conflict leaves nothing under its key. -/
theorem ConflictFound.absent
    {limits : FragmentLimits}
    {key : FragmentKey}
    {call : FragmentCall}
    {reassembler : FragmentReassembler}
    (found : reassembler.ConflictFound limits key call) :
    (reassembler.process limits call.clock
      call.packet).reassembler.states.get? key = none := by
  obtain ⟨keyed, counted⟩ := found
  have processed :=
    process_processed limits call.clock call.packet reassembler
  generalize reassembler.process limits call.clock call.packet = result
    at processed counted
  have sameKey
      {other : FragmentKey}
      (otherKeyed : call.packet.fragmentKey? = some other) :
      other = key :=
    Option.some.inj (otherKeyed.symm.trans keyed)
  cases processed with
  | passed => simp at counted
  | dropped otherKeyed _ gone => exact sameKey otherKeyed ▸ gone
  | held _ _ _ _ sameConflicts => simp [sameConflicts] at counted
  | completed otherKeyed _ gone => exact sameKey otherKeyed ▸ gone

/-! ## Consistent fragments after a conflict -/

/-- Among fragments of one payload, complete means finished. -/
theorem completes_iff_finished
    {key : FragmentKey}
    {payload : Bytes}
    {packets : List ParsedPacket}
    (nonempty : payload ≠ [])
    (fragments : ∀ packet ∈ packets, FragmentOf key payload packet) :
    Completes packets ↔ Finished payload packets := by
  constructor
  · rintro ⟨-, last, member, final, covered⟩
    rw [((fragments last member).last final).1] at covered
    exact ⟨⟨last, member, final⟩, covered⟩
  · intro finished
    obtain ⟨⟨last, member, final⟩, covered⟩ := finished
    obtain ⟨first, firstMember, atStart, -⟩ :=
      covered 0 (List.length_pos_iff.mpr nonempty)
    refine ⟨⟨first, firstMember, by omega⟩, last, member, final, ?_⟩
    rw [((fragments last member).last final).1]
    exact covered

/-- A list of calls that finishes a payload has a first call that does. -/
theorem exists_first_finished
    {payload : Bytes}
    (calls : List FragmentCall)
    (finished : Finished payload (FragmentCall.packets calls)) :
    ∃ earlier call rest,
      calls = earlier ++ call :: rest ∧
        ¬ Finished payload (FragmentCall.packets earlier) ∧
        Finished payload (FragmentCall.packets (earlier ++ [call])) := by
  induction calls using List.reverseRecOn with
  | nil =>
      obtain ⟨⟨last, member, -⟩, -⟩ := finished
      simp [FragmentCall.packets] at member
  | append_singleton front call inductionHypothesis =>
      by_cases before : Finished payload (FragmentCall.packets front)
      · obtain ⟨earlier, first, rest, rfl, unfinished, finishes⟩ :=
          inductionHypothesis before
        exact ⟨earlier, first, rest ++ [call], by simp, unfinished,
          finishes⟩
      · exact ⟨front, call, [], rfl, before, finished⟩

/-- Within the limits a finished payload is returned by one of the calls. -/
theorem run_finished
    {limits : FragmentLimits}
    {key : FragmentKey}
    {payload : Bytes}
    {reassembler : FragmentReassembler}
    {calls : List FragmentCall}
    (nonempty : payload ≠ [])
    (absent : reassembler.states.get? key = none)
    (fragments :
      ∀ call ∈ calls, FragmentOf key payload call.packet)
    (within : reassembler.WithinLimits limits key calls)
    (finished : Finished payload (FragmentCall.packets calls)) :
    ∃ entry ∈
        (reassembler.run limits
          (calls.map FragmentCall.operation)).events,
      ∃ ready, entry.returned = .ok (some ready) := by
  obtain ⟨earlier, call, rest, rfl, unfinished, finishes⟩ :=
    exists_first_finished calls finished
  obtain ⟨earlierWithin, admits, -⟩ := withinLimits_append.mp within
  obtain ⟨-, gathered⟩ :=
    (Gathered.nothing absent (.refl reassembler)).run
      (fun each member => fragments each (List.mem_append_left _ member))
      earlierWithin unfinished
  have fragment := fragments call (by simp)
  have arrivalsShape :
      FragmentCall.packets (earlier ++ [call]) =
        [] ++ FragmentCall.packets earlier ++ [call.packet] := by
    simp [FragmentCall.packets]
  rw [arrivalsShape] at finishes
  obtain ⟨base, -, returned, -⟩ :=
    gathered.process_finished fragment admits nonempty finishes
  obtain ⟨-, ready, -, -, readied⟩ := transportReady_total
    (reassembledDatagram payload
      ([] ++ FragmentCall.packets earlier ++ [call.packet]) base)
  refine ⟨⟨call.packet, .ok (some ready)⟩, ?_, ready, rfl⟩
  rw [← returned.trans readied, List.map_append, run, runAll_append]
  apply List.mem_append_right
  exact List.mem_append_left _ (List.mem_singleton.mpr rfl)

/-- Every entry of a run of calls is about one of their packets. -/
theorem run_packets
    {limits : FragmentLimits}
    {reassembler : FragmentReassembler}
    (calls : List FragmentCall)
    {entry : FragmentReturn}
    (member :
      entry ∈
        (reassembler.run limits
          (calls.map FragmentCall.operation)).events) :
    entry.packet ∈ FragmentCall.packets calls := by
  induction calls generalizing reassembler with
  | nil =>
      simp [run] at member
  | cons call rest inductionHypothesis =>
      rcases List.mem_append.mp member with first | later
      · obtain rfl := List.mem_singleton.mp first
        exact List.mem_cons_self
      · exact List.mem_cons_of_mem _ (inductionHypothesis later)

end FragmentReassembler

end PacketAudit
