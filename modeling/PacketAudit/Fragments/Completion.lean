import PacketAudit.Fragments.Collecting
import PacketAudit.Packets.Headers

namespace PacketAudit

/-!
# Fragments reassemble in any order

Consistent fragments of one payload, processed within the limits, return
nothing until the payload is finished; the call that finishes it returns the
decoded datagram and leaves the reassembler as it was before the first
fragment.
-/

open Library

/-- A fragment passed to `process` at a clock reading. -/
structure FragmentCall where
  clock : Int
  packet : ParsedPacket

/-- Decoding the headers of a whole datagram never fails. -/
theorem transportReady_total (packet : ParsedPacket) :
    ∃ normalized ready,
      normalizeReassembledIpv6 packet = .ok normalized ∧
        parseTransport normalized = .ok ready ∧
        transportReady packet = .ok (some ready) := by
  obtain ⟨normalized, normalizes⟩ := normalizeReassembledIpv6_total packet
  obtain ⟨ready, parses⟩ := parseTransport_total normalized
  refine ⟨normalized, ready, normalizes, parses, ?_⟩
  unfold transportReady
  rw [normalizes, ok_bind, parses]
  rfl

namespace FragmentCall

/-- The call as an operation of a run. -/
def operation (call : FragmentCall) : FragmentOperation :=
  .process call.clock call.packet

/-- The fragments of a list of calls. -/
def packets (calls : List FragmentCall) : List ParsedPacket :=
  calls.map fun call => call.packet

@[simp] theorem packets_append
    (first second : List FragmentCall) :
    packets (first ++ second) = packets first ++ packets second :=
  List.map_append

end FragmentCall

namespace FragmentReassembler

/-- Inserting the fragment exceeds none of the limits. -/
def Admits
    (limits : FragmentLimits)
    (key : FragmentKey)
    (call : FragmentCall)
    (reassembler : FragmentReassembler) : Prop :=
  call.packet.fragmentEnd ≤ limits.maxDatagramBytes ∧
    (reassembler.insertedState key call.clock call.packet).ranges.length ≤
      limits.maxRangesPerDatagram ∧
    (reassembler.inserted key call.clock call.packet).overLimits limits =
      false

instance
    (limits : FragmentLimits)
    (key : FragmentKey)
    (call : FragmentCall)
    (reassembler : FragmentReassembler) :
    Decidable (reassembler.Admits limits key call) :=
  inferInstanceAs (Decidable (_ ∧ _ ∧ _))

/-- No call of the run exceeds a limit. -/
def WithinLimits
    (limits : FragmentLimits)
    (key : FragmentKey) :
    List FragmentCall → FragmentReassembler → Prop
  | [], _ => True
  | call :: rest, reassembler =>
      reassembler.Admits limits key call ∧
        WithinLimits limits key rest
          (reassembler.process limits call.clock call.packet).reassembler

instance decidableWithinLimits
    (limits : FragmentLimits)
    (key : FragmentKey) :
    (calls : List FragmentCall) →
      ∀ reassembler : FragmentReassembler,
        Decidable (reassembler.WithinLimits limits key calls)
  | [], _ => .isTrue trivial
  | _ :: rest, reassembler =>
      haveI := decidableWithinLimits limits key rest
      inferInstanceAs (Decidable (_ ∧ _))

theorem withinLimits_append
    {limits : FragmentLimits}
    {key : FragmentKey}
    {first second : List FragmentCall}
    {reassembler : FragmentReassembler} :
    WithinLimits limits key (first ++ second) reassembler ↔
      WithinLimits limits key first reassembler ∧
        WithinLimits limits key second
          (reassembler.run limits
            (first.map FragmentCall.operation)).state := by
  induction first generalizing reassembler with
  | nil =>
      simp [WithinLimits, run]
  | cons call rest inductionHypothesis =>
      simp only [List.cons_append, WithinLimits, inductionHypothesis,
        and_assoc]
      rfl

/-! ## What discarding an only datagram restores -/

/-- The tables and buffer counters agree; peaks and totals may differ. -/
structure SameBuffers (first second : FragmentReassembler) : Prop where
  states : first.states = second.states
  bufferedBytes :
    first.counters.bufferedBytes = second.counters.bufferedBytes
  bufferedRanges :
    first.counters.bufferedRanges = second.counters.bufferedRanges
  bufferedProvenanceEntries :
    first.counters.bufferedProvenanceEntries =
      second.counters.bufferedProvenanceEntries

/-- What `discard` leaves, for a key that is held. -/
theorem discard_of_get?
    {key : FragmentKey}
    {state : FragmentState}
    {reassembler : FragmentReassembler}
    (found : reassembler.states.get? key = some state) :
    reassembler.discard key = {
      states := reassembler.states.erase key
      counters := {
        reassembler.counters with
        bufferedBytes :=
          reassembler.counters.bufferedBytes - state.bufferedBytes
        bufferedRanges :=
          reassembler.counters.bufferedRanges - state.ranges.length
        bufferedProvenanceEntries :=
          reassembler.counters.bufferedProvenanceEntries -
            state.sourcePacketIds.length
      } } := by
  simp [discard, found]

/-- What discarding the inserted fragment's datagram leaves. -/
theorem sameBuffers_inserted
    {key : FragmentKey}
    {clock : Int}
    {packet : ParsedPacket}
    {origin reassembler : FragmentReassembler}
    (states : reassembler.states.erase key = origin.states)
    (bufferedBytes :
      reassembler.counters.bufferedBytes -
          (reassembler.stateFor key clock packet).bufferedBytes =
        origin.counters.bufferedBytes)
    (bufferedRanges :
      reassembler.counters.bufferedRanges -
          (reassembler.stateFor key clock packet).ranges.length =
        origin.counters.bufferedRanges)
    (bufferedProvenanceEntries :
      reassembler.counters.bufferedProvenanceEntries -
          (reassembler.stateFor key clock packet).sourcePacketIds.length =
        origin.counters.bufferedProvenanceEntries) :
    SameBuffers ((reassembler.inserted key clock packet).discard key)
      origin := by
  rw [discard_of_get? (get?_inserted_self key clock packet reassembler)]
  refine {
    states := ?_
    bufferedBytes := ?_
    bufferedRanges := ?_
    bufferedProvenanceEntries := ?_
  }
  · rw [← states]
    simp only [inserted, store, erase_hold]
  · rw [← bufferedBytes]
    simp only [inserted, insertedState, store, hold, FragmentState.insert,
      FragmentState.recordFinalEnd]
    ring
  · rw [← bufferedRanges]
    simp only [inserted, insertedState, store, hold,
      FragmentState.recordFinalEnd]
    ring
  · rw [← bufferedProvenanceEntries]
    simp only [inserted, insertedState, store, hold,
      FragmentState.recordFinalEnd]
    ring

/-- Inserting into a new datagram adds exactly what its discard removes. -/
theorem sameBuffers_inserted_new
    {key : FragmentKey}
    {reassembler : FragmentReassembler}
    (absent : reassembler.states.get? key = none)
    (clock : Int)
    (packet : ParsedPacket) :
    SameBuffers ((reassembler.inserted key clock packet).discard key)
      reassembler := by
  apply sameBuffers_inserted (OrderedTable.erase_of_get?_eq_none absent)
  all_goals
    simp [stateFor, absent, FragmentState.new, FragmentState.touch]

/-- Inserting into a held datagram changes nothing beside it. -/
theorem sameBuffers_inserted_held
    {key : FragmentKey}
    {state : FragmentState}
    {origin reassembler : FragmentReassembler}
    (found : reassembler.states.get? key = some state)
    (beside : SameBuffers (reassembler.discard key) origin)
    (clock : Int)
    (packet : ParsedPacket) :
    SameBuffers ((reassembler.inserted key clock packet).discard key)
      origin := by
  rw [discard_of_get? found] at beside
  have touched :
      reassembler.stateFor key clock packet = state.touch clock packet := by
    simp [stateFor, found]
  apply sameBuffers_inserted beside.states
  · rw [touched]
    exact beside.bufferedBytes
  · rw [touched]
    exact beside.bufferedRanges
  · rw [touched]
    exact beside.bufferedProvenanceEntries

theorem SameBuffers.refl (reassembler : FragmentReassembler) :
    SameBuffers reassembler reassembler :=
  ⟨rfl, rfl, rfl, rfl⟩

theorem SameBuffers.trans
    {first second third : FragmentReassembler}
    (earlier : SameBuffers first second)
    (later : SameBuffers second third) :
    SameBuffers first third where
  states := earlier.states.trans later.states
  bufferedBytes := earlier.bufferedBytes.trans later.bufferedBytes
  bufferedRanges := earlier.bufferedRanges.trans later.bufferedRanges
  bufferedProvenanceEntries :=
    earlier.bufferedProvenanceEntries.trans later.bufferedProvenanceEntries

/-! ## One fragment -/

/--
Beside what `origin` holds, the reassembler holds under the key exactly the
fragments of the payload that arrived.
-/
inductive Gathered
    (key : FragmentKey)
    (payload : Bytes)
    (origin : FragmentReassembler) :
    List ParsedPacket → FragmentReassembler → Prop where
  | nothing
      {reassembler : FragmentReassembler}
      (absent : reassembler.states.get? key = none)
      (same : SameBuffers reassembler origin) :
      Gathered key payload origin [] reassembler
  | held
      {arrivals : List ParsedPacket}
      {state : FragmentState}
      {reassembler : FragmentReassembler}
      (arrived : arrivals ≠ [])
      (found : reassembler.states.get? key = some state)
      (collecting : Collecting payload arrivals state)
      (latest : Latest arrivals state)
      (beside : SameBuffers (reassembler.discard key) origin) :
      Gathered key payload origin arrivals reassembler

section

variable
  {limits : FragmentLimits}
  {key : FragmentKey}
  {payload : Bytes}
  {origin reassembler : FragmentReassembler}
  {arrivals : List ParsedPacket}
  {call : FragmentCall}

/-- The state a gathered fragment is added to is consistent with it. -/
theorem Gathered.stateFor
    (gathered : Gathered key payload origin arrivals reassembler)
    (clock : Int)
    (packet : ParsedPacket) :
    ∃ state,
      Collecting payload arrivals state ∧
        reassembler.stateFor key clock packet = state.touch clock packet := by
  cases gathered with
  | nothing absent same =>
      exact ⟨_, Collecting.new clock packet,
        by simp [FragmentReassembler.stateFor, absent]⟩
  | held arrived found collecting latest beside =>
      exact ⟨_, collecting,
        by simp [FragmentReassembler.stateFor, found]⟩

/-- Inserting a fragment of the payload gathers it too. -/
theorem Gathered.inserted
    (gathered : Gathered key payload origin arrivals reassembler)
    (fragment : FragmentOf key payload call.packet) :
    Gathered key payload origin (arrivals ++ [call.packet])
      (reassembler.inserted key call.clock call.packet) := by
  cases gathered with
  | nothing absent same =>
      have touched :
          reassembler.stateFor key call.clock call.packet =
            (FragmentState.new call.clock call.packet).touch call.clock
              call.packet := by
        simp [FragmentReassembler.stateFor, absent]
      refine .held (by simp) (get?_inserted_self _ _ _ _) ?_ ?_
        ((sameBuffers_inserted_new absent _ _).trans same)
      · unfold insertedState
        rw [touched]
        exact (Collecting.new _ _).insert fragment call.clock
      · unfold insertedState
        rw [touched]
        exact Latest.new call.clock call.packet
  | @held _ state _ arrived found collecting latest beside =>
      have touched :
          reassembler.stateFor key call.clock call.packet =
            state.touch call.clock call.packet := by
        simp [FragmentReassembler.stateFor, found]
      refine .held (by simp) (get?_inserted_self _ _ _ _) ?_ ?_
        (sameBuffers_inserted_held found beside _ _)
      · unfold insertedState
        rw [touched]
        exact collecting.insert fragment call.clock
      · unfold insertedState
        rw [touched]
        exact latest.insert arrived call.clock call.packet

/-- A consistent fragment within the limits reaches the completion stage. -/
theorem Gathered.process_eq
    (gathered : Gathered key payload origin arrivals reassembler)
    (fragment : FragmentOf key payload call.packet)
    (admits : reassembler.Admits limits key call) :
    reassembler.process limits call.clock call.packet =
      (reassembler.inserted key call.clock call.packet).complete key := by
  obtain ⟨fits, rangesFit, withinLimits⟩ := admits
  obtain ⟨state, collecting, touched⟩ :=
    gathered.stateFor call.clock call.packet
  have collects :
      reassembler.collect limits key call.clock call.packet =
        (reassembler.inserted key call.clock call.packet).settle limits
          key := by
    unfold collect
    dsimp only
    rw [touched, collecting.finalEnd_agrees fragment,
      collecting.no_conflict fragment]
    simp only [Bool.false_eq_true, ↓reduceIte]
    unfold FragmentReassembler.inserted
    rw [touched]
  unfold process
  rw [fragment.keyed]
  dsimp only
  rw [fragment.unfragmented, fragment.not_malformed fits, collects]
  unfold settle
  rw [get?_inserted_self]
  simp only [Bool.false_eq_true, ↓reduceIte]
  rw [if_neg (by omega), evictToLimits_of_not_over withinLimits]

/-- A fragment that leaves the payload unfinished returns nothing. -/
theorem Gathered.process_unfinished
    (gathered : Gathered key payload origin arrivals reassembler)
    (fragment : FragmentOf key payload call.packet)
    (admits : reassembler.Admits limits key call)
    (unfinished : ¬ Finished payload (arrivals ++ [call.packet])) :
    (reassembler.process limits call.clock call.packet).returned =
        .ok none ∧
      Gathered key payload origin (arrivals ++ [call.packet])
        (reassembler.process limits call.clock call.packet).reassembler := by
  have next := gathered.inserted fragment
  rw [gathered.process_eq fragment admits]
  generalize reassembler.inserted key call.clock call.packet = after at next
  generalize arrivals ++ [call.packet] = arrived at next unfinished
  cases next with
  | nothing absent same =>
      simp only [complete, absent, true_and]
      exact .nothing absent same
  | held arrived found collecting latest beside =>
      have incomplete := collecting.assemble_unfinished unfinished
      simp only [complete, found]
      split
      case _ assembled => simp [assembled] at incomplete
      case _ assembled => simp [assembled] at incomplete
      case _ =>
        exact ⟨rfl, .held arrived found collecting latest beside⟩

/-- The fragment that finishes the payload returns it. -/
theorem Gathered.process_finished
    (gathered : Gathered key payload origin arrivals reassembler)
    (fragment : FragmentOf key payload call.packet)
    (admits : reassembler.Admits limits key call)
    (nonempty : payload ≠ [])
    (finished : Finished payload (arrivals ++ [call.packet])) :
    ∃ base,
      (arrivals ++ [call.packet]).find?
          (fun packet => packet.fragmentOffset = 0) = some base ∧
        (reassembler.process limits call.clock call.packet).returned =
          transportReady
            (reassembledDatagram payload (arrivals ++ [call.packet]) base) ∧
        (reassembler.process limits call.clock
          call.packet).reassembler.states.get? key = none ∧
        SameBuffers
          (reassembler.process limits call.clock call.packet).reassembler
          origin := by
  have next := gathered.inserted fragment
  rw [gathered.process_eq fragment admits]
  generalize reassembler.inserted key call.clock call.packet = after at next
  generalize arrivals ++ [call.packet] = arrived at next finished
  obtain ⟨base, first⟩ := finished.first nonempty
  cases next with
  | nothing absent same =>
      simp at first
  | held arrived found collecting latest beside =>
      have assembled := collecting.assemble_finished nonempty finished first
      refine ⟨base, first, ?_⟩
      simp only [complete, found, assembled]
      refine ⟨?_, get?_discard_self _ _, beside⟩
      rw [FragmentState.completed, latest.packetId, latest.timestampNs,
        collecting.sourcePacketIds]
      rfl

end

/-! ## Any order of arrival -/

/-- While the payload is unfinished every call returns nothing. -/
theorem Gathered.run
    {limits : FragmentLimits}
    {key : FragmentKey}
    {payload : Bytes}
    {origin reassembler : FragmentReassembler}
    {arrivals : List ParsedPacket}
    {calls : List FragmentCall}
    (gathered : Gathered key payload origin arrivals reassembler)
    (fragments :
      ∀ call ∈ calls, FragmentOf key payload call.packet)
    (within : reassembler.WithinLimits limits key calls)
    (unfinished :
      ¬ Finished payload (arrivals ++ FragmentCall.packets calls)) :
    (∀ entry ∈
        (reassembler.run limits
          (calls.map FragmentCall.operation)).events,
        entry.returned = .ok none) ∧
      Gathered key payload origin (arrivals ++ FragmentCall.packets calls)
        (reassembler.run limits
          (calls.map FragmentCall.operation)).state := by
  induction calls generalizing arrivals reassembler with
  | nil =>
      simpa [FragmentReassembler.run, FragmentCall.packets] using gathered
  | cons call rest inductionHypothesis =>
      obtain ⟨admits, restWithin⟩ := within
      have arrivalsShape :
          arrivals ++ FragmentCall.packets (call :: rest) =
            arrivals ++ [call.packet] ++ FragmentCall.packets rest := by
        simp [FragmentCall.packets]
      rw [arrivalsShape] at unfinished ⊢
      obtain ⟨returned, next⟩ :=
        gathered.process_unfinished (fragments call List.mem_cons_self)
          admits fun finished => unfinished (finished.append _)
      obtain ⟨restReturned, restGathered⟩ :=
        inductionHypothesis next
          (fun later member =>
            fragments later (List.mem_cons_of_mem _ member))
          restWithin unfinished
      refine ⟨?_, restGathered⟩
      intro entry member
      rcases List.mem_append.mp member with first | later
      · obtain rfl := List.mem_singleton.mp first
        exact returned
      · exact restReturned entry later

/--
Fragments of one payload, in any order and with any repetition, return nothing
until they are complete.  The call that completes them returns the decoded
datagram, under the first fragment's header and the ids of the packets that
supplied its bytes, and leaves nothing of the datagram behind.
-/
theorem fragments_reassembled
    {limits : FragmentLimits}
    {key : FragmentKey}
    {payload : Bytes}
    {reassembler : FragmentReassembler}
    (earlier : List FragmentCall)
    (call : FragmentCall)
    (nonempty : payload ≠ [])
    (absent : reassembler.states.get? key = none)
    (fragments :
      ∀ each ∈ earlier ++ [call], FragmentOf key payload each.packet)
    (within : reassembler.WithinLimits limits key (earlier ++ [call]))
    (unfinished : ¬ Finished payload (FragmentCall.packets earlier)) :
    let before :=
      reassembler.run limits (earlier.map FragmentCall.operation)
    let last := before.state.process limits call.clock call.packet
    let arrivals := FragmentCall.packets (earlier ++ [call])
    (∀ entry ∈ before.events, entry.returned = .ok none) ∧
      (¬ Finished payload arrivals → last.returned = .ok none) ∧
      (Finished payload arrivals →
        ∃ base normalized ready,
          arrivals.find? (fun packet => packet.fragmentOffset = 0) =
              some base ∧
            normalizeReassembledIpv6
                (reassembledDatagram payload arrivals base) =
              .ok normalized ∧
            parseTransport normalized = .ok ready ∧
            last.returned = .ok (some ready) ∧
            last.reassembler.states.get? key = none ∧
            SameBuffers last.reassembler reassembler) := by
  intro before last arrivals
  obtain ⟨earlierWithin, admits, -⟩ := withinLimits_append.mp within
  obtain ⟨returned, gathered⟩ :=
    (Gathered.nothing absent (.refl reassembler)).run
      (fun each member => fragments each (List.mem_append_left _ member))
      earlierWithin unfinished
  have fragment := fragments call (List.mem_append_right _ (by simp))
  have arrivalsShape :
      arrivals = [] ++ FragmentCall.packets earlier ++ [call.packet] := by
    simp [arrivals, FragmentCall.packets]
  refine ⟨returned, ?_, ?_⟩
  · intro stillUnfinished
    rw [arrivalsShape] at stillUnfinished
    exact (gathered.process_unfinished fragment admits stillUnfinished).1
  · intro finished
    rw [arrivalsShape] at finished ⊢
    obtain ⟨base, first, lastReturned, gone, same⟩ :=
      gathered.process_finished fragment admits nonempty finished
    obtain ⟨normalized, ready, normalizes, parses, readied⟩ :=
      transportReady_total
        (reassembledDatagram payload
          ([] ++ FragmentCall.packets earlier ++ [call.packet]) base)
    exact ⟨base, normalized, ready, first, normalizes, parses,
      lastReturned.trans readied, gone, same⟩

/-- A final fragment overtaking the first one still completes with it. -/
theorem overtakingFragment_completes :
    let earlier : List FragmentCall :=
      [⟨0, sampleFragment 1 8 false sampleBody⟩]
    let call : FragmentCall := ⟨1, sampleFragment 2 0 true sampleHeader⟩
    let before :=
      ({} : FragmentReassembler).run .default
        (earlier.map FragmentCall.operation)
    let last := before.state.process .default call.clock call.packet
    ∃ base normalized ready,
      (FragmentCall.packets (earlier ++ [call])).find?
          (fun packet => packet.fragmentOffset = 0) = some base ∧
        normalizeReassembledIpv6
            (reassembledDatagram (sampleHeader ++ sampleBody)
              (FragmentCall.packets (earlier ++ [call])) base) =
          .ok normalized ∧
        parseTransport normalized = .ok ready ∧
        last.returned = .ok (some ready) ∧
        last.reassembler.states.get? sampleFragmentKey = none ∧
        SameBuffers last.reassembler {} :=
  (fragments_reassembled
    [⟨0, sampleFragment 1 8 false sampleBody⟩]
    ⟨1, sampleFragment 2 0 true sampleHeader⟩
    (by decide) rfl (by decide) (by decide) (by decide)).2.2 (by decide)

/--
The returned datagram takes the largest packet id and timestamp of its
fragments, not those of the fragment at offset 0.
-/
theorem laterFragment_relabels_datagram :
    let first := sampleFragment 1 0 true sampleHeader
    let before :=
      (({} : FragmentReassembler).process .default 0 first).reassembler
    let last :=
      before.process .default 1 (sampleFragment 2 8 false sampleBody)
    last.returned ≠
      transportReady { first with
        networkPayload := sampleHeader ++ sampleBody
        fragmentId := none
        fragmentOffset := 0
        moreFragments := false
        sourcePacketIds := [1, 2] } := by
  intro first before last same
  have relabelled :
      last.returned.toOption.join.map ParsedPacket.packetId = some 2 := by
    decide
  rw [same] at relabelled
  revert relabelled
  decide

end FragmentReassembler

end PacketAudit
