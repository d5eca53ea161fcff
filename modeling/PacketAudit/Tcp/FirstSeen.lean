import PacketAudit.Tcp.Histories

namespace PacketAudit

/-!
# The first-seen-bytes law

Every emitted byte is the byte of the first payload that covers its sequence
position, and its span names that payload's packets.  The invariant says where
each byte at or past `next_seq` is kept: pending, exactly when some payload
covers it, and then with the byte of the first such payload.
-/

open Library

/-- The payload lies over a sequence position. -/
def Arrival.Covers (arrival : Arrival) (position : Int) : Prop :=
  arrival.start ≤ position ∧ position < arrival.stop

instance (arrival : Arrival) (position : Int) :
    Decidable (arrival.Covers position) :=
  inferInstanceAs (Decidable (_ ∧ _))

/-- The payload's byte at a sequence position. -/
def Arrival.byteAt (arrival : Arrival) (position : Int) : Option UInt8 :=
  valueAt arrival.start arrival.data position

/-- The earliest payload that covers a sequence position. -/
def firstCover
    (received : List Arrival)
    (position : Int) : Option Arrival :=
  received.find? fun arrival => arrival.Covers position

/--
What the chunks of one direction have to do with the payloads it received,
`base` being the first value its `next_seq` takes.
-/
structure FirstSeen
    (base : Option Int)
    (received : List Arrival)
    (emitted : List StreamChunk) : Prop where
  increasing :
    emitted.Pairwise fun earlier later =>
      earlier.streamEnd ≤ later.streamOffset
  nonempty :
    ∀ chunk ∈ emitted, chunk.data ≠ []
  tiled :
    ∀ chunk ∈ emitted,
      Tiles chunk.streamOffset chunk.streamEnd chunk.provenanceSpans
  packetIds :
    ∀ chunk ∈ emitted,
      chunk.packetIds =
        (chunk.provenanceSpans.flatMap
          ProvenanceSpan.packetIds).eraseDups
  firstSeen :
    ∀ chunk ∈ emitted,
      ∀ {index : Nat} {byte : UInt8},
        chunk.data[index]? = some byte →
        ∃ start arrival,
          base = some start ∧
            firstCover received (start + (chunk.streamOffset + index)) =
              some arrival ∧
            arrival.byteAt (start + (chunk.streamOffset + index)) =
              some byte ∧
            ∃ span ∈ chunk.provenanceSpans,
              span.streamStart ≤ chunk.streamOffset + index ∧
                chunk.streamOffset + index < span.streamEnd ∧
                span.packetIds = arrival.packetIds

/-- A byte is held exactly at the covered positions. -/
theorem Arrival.byteAt_isSome
    {arrival : Arrival}
    {position : Int} :
    (arrival.byteAt position).isSome ↔ arrival.Covers position := by
  rw [Arrival.byteAt, valueAt_isSome]
  rfl

theorem firstCover_append_of_some
    {received : List Arrival}
    {position : Int}
    {arrival : Arrival}
    (found : firstCover received position = some arrival)
    (more : List Arrival) :
    firstCover (received ++ more) position = some arrival := by
  unfold firstCover at *
  rw [List.find?_append, found]
  rfl

/-- A payload that does not cover a position does not matter to it. -/
theorem firstCover_append_of_not_covers
    (received : List Arrival)
    {arrival : Arrival}
    {position : Int}
    (elsewhere : ¬ arrival.Covers position) :
    firstCover (received ++ [arrival]) position =
      firstCover received position := by
  unfold firstCover
  rw [List.find?_append]
  simp [elsewhere]

theorem firstCover_append_of_covers
    {received : List Arrival}
    {arrival : Arrival}
    {position : Int}
    (uncovered : firstCover received position = none)
    (covers : arrival.Covers position) :
    firstCover (received ++ [arrival]) position = some arrival := by
  unfold firstCover at *
  rw [List.find?_append, uncovered]
  simp [covers]

theorem FirstSeen.nil
    (base : Option Int)
    (received : List Arrival) :
    FirstSeen base received [] where
  increasing := .nil
  nonempty := by simp
  tiled := by simp
  packetIds := by simp
  firstSeen := by simp

/-- Later payloads do not change where emitted bytes were first seen. -/
theorem FirstSeen.receive
    {base : Option Int}
    {received : List Arrival}
    {emitted : List StreamChunk}
    (law : FirstSeen base received emitted)
    (more : List Arrival) :
    FirstSeen base (received ++ more) emitted where
  increasing := law.increasing
  nonempty := law.nonempty
  tiled := law.tiled
  packetIds := law.packetIds
  firstSeen chunk member index byte found := by
    obtain ⟨start, arrival, isBase, first, held, spanned⟩ :=
      law.firstSeen chunk member found
    exact ⟨start, arrival, isBase, firstCover_append_of_some first more,
      held, spanned⟩

/-- A chunk of first-seen bytes right after all others keeps the law. -/
theorem FirstSeen.emit
    {base : Option Int}
    {received : List Arrival}
    {emitted : List StreamChunk}
    (law : FirstSeen base received emitted)
    {chunk : StreamChunk}
    (single : FirstSeen base received [chunk])
    (before :
      ∀ earlier ∈ emitted, earlier.streamEnd ≤ chunk.streamOffset) :
    FirstSeen base received (emitted ++ [chunk]) := by
  have either
      {motive : StreamChunk → Prop}
      (old : ∀ earlier ∈ emitted, motive earlier)
      (new : ∀ last ∈ [chunk], motive last) :
      ∀ any ∈ emitted ++ [chunk], motive any := by
    intro any member
    rcases List.mem_append.mp member with inOld | isNew
    · exact old any inOld
    · exact new any isNew
  refine {
    increasing := ?_
    nonempty := either law.nonempty single.nonempty
    tiled := either law.tiled single.tiled
    packetIds := either law.packetIds single.packetIds
    firstSeen := either law.firstSeen single.firstSeen
  }
  rw [List.pairwise_append]
  refine ⟨law.increasing, List.pairwise_singleton _ _, ?_⟩
  intro earlier member last isLast
  obtain rfl := List.mem_singleton.mp isLast
  exact before earlier member

/-! ## The invariant -/

/-- A pending byte and its origin are those of the first cover. -/
def FirstHeld
    (received : List Arrival)
    (position : Int)
    (byte : UInt8)
    (origin : SegmentOrigin) : Prop :=
  ∃ arrival,
    firstCover received position = some arrival ∧
      arrival.byteAt position = some byte ∧
      origin.packetIds = arrival.packetIds

/-- What a direction's history and its state have to do with each other. -/
structure FirstSeenState
    (flow : FlowKey)
    (_ : Direction)
    (log : List TcpEvent)
    (state : DirectionState) : Prop where
  law : FirstSeen (firstNextSeq log) (arrivals log) (chunks log)
  sameFlow : ∀ chunk ∈ chunks log, chunk.flow = flow
  idle : state.nextSeq = none → log = []
  base :
    ∀ {next},
      state.nextSeq = some next →
      firstNextSeq log = some (next - state.streamOffset)
  emittedBefore :
    ∀ chunk ∈ chunks log, chunk.streamEnd ≤ state.streamOffset
  firstHeld :
    ∀ {position byte origin},
      Holds state.pending position (byte, origin) →
      FirstHeld (arrivals log) position byte origin
  complete :
    ∀ {next position},
      state.nextSeq = some next →
      next ≤ position →
      (firstCover (arrivals log) position).isSome →
      Covers state.pending position

/-- A chunk's overwritten label does not matter to the law. -/
theorem FirstSeen.relabel
    {base : Option Int}
    {received : List Arrival}
    {chunk : StreamChunk}
    (law : FirstSeen base received [chunk])
    (completeness : Completeness) :
    FirstSeen base received
      [{ chunk with completeness := completeness }] where
  increasing := List.pairwise_singleton _ _
  nonempty := by
    simpa using law.nonempty chunk
  tiled := by
    simpa [StreamChunk.streamEnd] using law.tiled chunk
  packetIds := by
    simpa using law.packetIds chunk
  firstSeen last member index byte found := by
    obtain rfl := List.mem_singleton.mp member
    exact law.firstSeen chunk List.mem_cons_self found

namespace FirstSeenState

variable
  {flow : FlowKey}
  {direction : Direction}
  {log : List TcpEvent}

/-- A payload entirely behind `next_seq` changes nothing. -/
theorem receiveBehind
    {state : DirectionState}
    (before : FirstSeenState flow direction log state)
    {arrival : Arrival}
    (expects : state.nextSeq = some arrival.nextSeq)
    (behind : arrival.stop ≤ arrival.nextSeq) :
    FirstSeenState flow direction (log ++ [.arrived arrival]) state := by
  have chunksSame : chunks (log ++ [.arrived arrival]) = chunks log := by
    simp [chunks, TcpEvent.chunk?]
  have arrivalsAre :
      arrivals (log ++ [.arrived arrival]) = arrivals log ++ [arrival] := by
    simp [arrivals, TcpEvent.arrival?]
  have opened :
      firstNextSeq (log ++ [.arrived arrival]) = firstNextSeq log := by
    rw [firstNextSeq_append_of_some (before.base expects),
      before.base expects]
  refine {
    law := ?_
    sameFlow := ?_
    idle := ?_
    base := ?_
    emittedBefore := ?_
    firstHeld := ?_
    complete := ?_
  }
  · rw [chunksSame, arrivalsAre, opened]
    exact before.law.receive [arrival]
  · rw [chunksSame]
    exact before.sameFlow
  · intro idle
    rw [expects] at idle
    cases idle
  · rw [opened]
    exact before.base
  · rw [chunksSame]
    exact before.emittedBefore
  · intro position byte origin held
    obtain ⟨first, isFirst, byteIs, ids⟩ := before.firstHeld held
    rw [arrivalsAre]
    exact ⟨first, firstCover_append_of_some isFirst _, byteIs, ids⟩
  · intro next position isNext ahead covered
    have same := Option.some.inj (expects.symm.trans isNext)
    rw [arrivalsAre, firstCover_append_of_not_covers] at covered
    · exact before.complete isNext ahead covered
    · unfold Arrival.Covers
      omega

/-- A stored payload is held wherever no earlier one was. -/
theorem receiveStored
    {before after : DirectionView}
    (invariant : FirstSeenState flow direction log before.direction)
    {arrival : Arrival}
    {timestampNs : Int}
    (wf : before.direction.Wf)
    (expects : before.direction.nextSeq = some arrival.nextSeq)
    (stored :
      Stored arrival.packetIds timestampNs arrival.start arrival.nextSeq
        arrival.data before after) :
    FirstSeenState flow direction (log ++ [.arrived arrival])
      after.direction := by
  have afterWf := stored.wf expects wf
  have sameStream :
      after.direction.nextSeq = before.direction.nextSeq ∧
        after.direction.streamOffset = before.direction.streamOffset := by
    obtain ⟨additions, -, directionIs, -⟩ := stored.exists_additions
    rw [directionIs]
    exact ⟨rfl, rfl⟩
  have chunksSame : chunks (log ++ [.arrived arrival]) = chunks log := by
    simp [chunks, TcpEvent.chunk?]
  have arrivalsAre :
      arrivals (log ++ [.arrived arrival]) = arrivals log ++ [arrival] := by
    simp [arrivals, TcpEvent.arrival?]
  have opened :
      firstNextSeq (log ++ [.arrived arrival]) = firstNextSeq log := by
    rw [firstNextSeq_append_of_some (invariant.base expects),
      invariant.base expects]
  have byteAtIs
      (position : Int) :
      arrival.byteAt position =
        valueAt arrival.start arrival.data position := rfl
  refine {
    law := ?_
    sameFlow := ?_
    idle := ?_
    base := ?_
    emittedBefore := ?_
    firstHeld := ?_
    complete := ?_
  }
  · rw [chunksSame, arrivalsAre, opened]
    exact invariant.law.receive [arrival]
  · rw [chunksSame]
    exact invariant.sameFlow
  · intro idle
    rw [sameStream.1, expects] at idle
    cases idle
  · intro next isNext
    rw [opened, sameStream.2]
    exact invariant.base (sameStream.1 ▸ isNext)
  · rw [chunksSame, sameStream.2]
    exact invariant.emittedBefore
  · intro position byte origin held
    rw [arrivalsAre]
    have ahead : arrival.nextSeq ≤ position := by
      obtain ⟨segment, member, atPosition⟩ := held
      have inside := Segment.contains_of_at? atPosition
      exact (afterWf.ahead (sameStream.1.trans expects) member).trans
        inside.1
    rcases (stored.holds_iff ahead).mp held with
      old | ⟨isByte, isOrigin, uncovered⟩
    · obtain ⟨first, isFirst, byteIs, ids⟩ := invariant.firstHeld old
      exact ⟨first, firstCover_append_of_some isFirst _, byteIs, ids⟩
    · have notBefore : firstCover (arrivals log) position = none := by
        rw [← Option.not_isSome_iff_eq_none]
        exact fun covered =>
          uncovered (invariant.complete expects ahead covered)
      have covers : arrival.Covers position := by
        rw [← Arrival.byteAt_isSome, byteAtIs, isByte]
        rfl
      exact ⟨arrival, firstCover_append_of_covers notBefore covers,
        isByte, by rw [isOrigin]⟩
  · intro next position isNext ahead covered
    have isExpected : next = arrival.nextSeq :=
      Option.some.inj
        (isNext.symm.trans (sameStream.1.trans expects))
    subst isExpected
    rw [stored.covers_iff ahead]
    by_cases covers : arrival.Covers position
    · exact .inr covers
    · rw [arrivalsAre, firstCover_append_of_not_covers _ covers] at covered
      exact .inl (invariant.complete expects ahead covered)

/-- A drain emits first-seen bytes and keeps the rest. -/
theorem drained
    {view : DirectionView}
    (invariant : FirstSeenState flow direction log view.direction)
    (wf : view.direction.Wf)
    {next : Int}
    (expects : view.direction.nextSeq = some next)
    {forcedGap : Bool}
    {ready blocked : List TcpSegment}
    {outcome : Outcome DirectionView TcpEvent}
    (drained :
      Drained flow direction forcedGap view next ready blocked outcome)
    (label : Option Completeness) :
    FirstSeenState flow direction
      (log ++ outcome.events.map (TcpEvent.relabel label))
      outcome.state.direction := by
  have readyHeld
      {position : Int}
      {held : UInt8 × SegmentOrigin}
      (holds : Holds ready position held) :
      Holds view.direction.pending position held := by
    rw [drained.split]
    exact holds_append.mpr (.inl holds)
  have blockedHeld
      {position : Int}
      {held : UInt8 × SegmentOrigin}
      (holds : Holds blocked position held) :
      Holds view.direction.pending position held := by
    rw [drained.split]
    exact holds_append.mpr (.inr holds)
  have base := invariant.base expects
  have stateAfter := drained.directionAfter
  have complete
      {position : Int}
      (ahead : next + (totalLength ready : Int) ≤ position)
      (covered : (firstCover (arrivals log) position).isSome) :
      Covers blocked position := by
    obtain ⟨held, holds⟩ :=
      covers_iff_holds.mp
        (invariant.complete expects (by omega) covered)
    rw [drained.split] at holds
    rcases holds_append.mp holds with inReady | inBlocked
    · have inside :=
        drained.chained.covers_iff.mp (covers_iff_holds.mpr ⟨held, inReady⟩)
      omega
    · exact covers_iff_holds.mpr ⟨held, inBlocked⟩
  by_cases noneReady : ready = []
  · rw [drained.silent noneReady, List.map_nil, List.append_nil]
    subst noneReady
    rw [stateAfter]
    simp only [totalLength_nil, Nat.cast_zero, add_zero] at complete ⊢
    exact {
      law := invariant.law
      sameFlow := invariant.sameFlow
      idle := by simp
      base := by
        rintro _ ⟨rfl⟩
        exact base
      emittedBefore := invariant.emittedBefore
      firstHeld := fun held => invariant.firstHeld (blockedHeld held)
      complete := by
        rintro _ position ⟨rfl⟩ ahead covered
        exact complete ahead covered
    }
  · obtain ⟨chunk, eventsAre, isFlow, -, -, offsetIs, dataIs, -, tiles, ids,
      bytes⟩ := drained.emits noneReady
    have lengthIs : chunk.data.length = totalLength ready := by
      rw [dataIs, length_flatten_data]
    have single :
        FirstSeen (firstNextSeq log) (arrivals log) [chunk] := by
      refine {
        increasing := List.pairwise_singleton _ _
        nonempty := ?_
        tiled := ?_
        packetIds := ?_
        firstSeen := ?_
      }
      · intro only member
        obtain rfl := List.mem_singleton.mp member
        obtain ⟨first, rest, readyIs⟩ := List.exists_cons_of_ne_nil noneReady
        have inPending : first ∈ view.direction.pending := by
          rw [drained.split, readyIs]
          simp
        have positive := List.length_pos_iff.mpr (wf.solid first inPending)
        intro empty
        rw [empty, readyIs, totalLength_cons] at lengthIs
        simp only [List.length_nil] at lengthIs
        omega
      · intro only member
        obtain rfl := List.mem_singleton.mp member
        exact tiles
      · intro only member
        obtain rfl := List.mem_singleton.mp member
        exact ids
      · intro only member index byte found
        obtain rfl := List.mem_singleton.mp member
        obtain ⟨origin, held, spanned⟩ := bytes found
        obtain ⟨arrival, isFirst, byteIs, sameIds⟩ :=
          invariant.firstHeld (readyHeld held)
        have positionIs :
            next - view.direction.streamOffset +
                (only.streamOffset + index) =
              next + index := by
          rw [offsetIs]
          ring
        rw [← positionIs] at isFirst byteIs
        refine ⟨_, arrival, base, isFirst, byteIs, ?_⟩
        rw [← sameIds]
        exact spanned
    rw [eventsAre]
    simp only [List.map_cons, List.map_nil, TcpEvent.relabel]
    set relabelled : StreamChunk :=
      { chunk with completeness := label.getD chunk.completeness }
      with relabelledIs
    have chunksAre :
        chunks (log ++ [.emitted relabelled]) =
          chunks log ++ [relabelled] := by
      simp [chunks, TcpEvent.chunk?]
    have arrivalsSame :
        arrivals (log ++ [.emitted relabelled]) = arrivals log := by
      simp [arrivals, TcpEvent.arrival?]
    have opened :
        firstNextSeq (log ++ [.emitted relabelled]) = firstNextSeq log := by
      rw [firstNextSeq_append_of_some base, base]
    have endIs :
        relabelled.streamEnd =
          view.direction.streamOffset + totalLength ready := by
      simp only [relabelled, StreamChunk.streamEnd, lengthIs, offsetIs]
    have positive : 0 ≤ (totalLength ready : Int) := by omega
    refine {
      law := ?_
      sameFlow := ?_
      idle := ?_
      base := ?_
      emittedBefore := ?_
      firstHeld := ?_
      complete := ?_
    }
    · rw [chunksAre, arrivalsSame, opened]
      refine invariant.law.emit (single.relabel _) ?_
      intro earlier member
      exact (invariant.emittedBefore earlier member).trans
        (le_of_eq offsetIs.symm)
    · rw [chunksAre]
      intro any member
      rcases List.mem_append.mp member with old | new
      · exact invariant.sameFlow any old
      · obtain rfl := List.mem_singleton.mp new
        exact isFlow
    · rw [stateAfter]
      simp
    · rw [stateAfter, opened, base]
      rintro _ ⟨rfl⟩
      simp
    · rw [stateAfter, chunksAre]
      intro any member
      rcases List.mem_append.mp member with old | new
      · have := invariant.emittedBefore any old
        simp only
        omega
      · obtain rfl := List.mem_singleton.mp new
        exact le_of_eq endIs
    · rw [stateAfter, arrivalsSame]
      exact fun held => invariant.firstHeld (blockedHeld held)
    · rw [stateAfter, arrivalsSame]
      rintro _ position ⟨rfl⟩ ahead covered
      exact complete ahead covered

/-- Skipping a gap emits nothing and keeps what is pending. -/
theorem skipped
    {view : DirectionView}
    (invariant : FirstSeenState flow direction log view.direction)
    {next : Int}
    {first : TcpSegment}
    (expects : view.direction.nextSeq = some next)
    (hole : next < first.start) :
    FirstSeenState flow direction
      (log ++ (skipGap direction next first view).events)
      (skipGap direction next first view).state.direction := by
  have base := invariant.base expects
  simp only [skipGap]
  set event : TcpEvent :=
    .skipped view.direction.connectionEpoch direction (first.start - next)
    with eventIs
  have chunksSame : chunks (log ++ [event]) = chunks log := by
    simp [chunks, TcpEvent.chunk?, event]
  have arrivalsSame : arrivals (log ++ [event]) = arrivals log := by
    simp [arrivals, TcpEvent.arrival?, event]
  have opened : firstNextSeq (log ++ [event]) = firstNextSeq log := by
    rw [firstNextSeq_append_of_some base, base]
  refine {
    law := ?_
    sameFlow := ?_
    idle := by simp
    base := ?_
    emittedBefore := ?_
    firstHeld := ?_
    complete := ?_
  }
  · rw [chunksSame, arrivalsSame, opened]
    exact invariant.law
  · rw [chunksSame]
    exact invariant.sameFlow
  · rw [opened, base]
    rintro _ ⟨rfl⟩
    congr 1
    ring
  · rw [chunksSame]
    intro chunk member
    have := invariant.emittedBefore chunk member
    simp only
    omega
  · rw [arrivalsSame]
    exact invariant.firstHeld
  · rw [arrivalsSame]
    rintro _ position ⟨rfl⟩ ahead covered
    exact invariant.complete expects (hole.le.trans ahead) covered

/-- A first `next_seq` opens the history. -/
theorem started
    {state : DirectionState}
    (invariant : FirstSeenState flow direction log state)
    (wf : state.Wf)
    (idle : state.nextSeq = none)
    (sequence : Int)
    (midstream : Bool)
    (synSeq : Option Nat) :
    FirstSeenState flow direction
      (log ++
        [.opened state.connectionEpoch direction sequence midstream])
      { state with
        nextSeq := some sequence
        midstream := midstream
        synSeq := synSeq } := by
  obtain ⟨noPending, noOffset, -, -⟩ := wf.idle idle
  rw [invariant.idle idle, List.nil_append]
  refine {
    law := .nil _ _
    sameFlow := by simp [chunks, TcpEvent.chunk?]
    idle := by simp
    base := ?_
    emittedBefore := by simp [chunks, TcpEvent.chunk?]
    firstHeld := by simp [noPending]
    complete := ?_
  }
  · rintro _ ⟨rfl⟩
    simp [firstNextSeq, TcpEvent.opened?, noOffset]
  · intro _ position _ _ covered
    simp [firstCover, arrivals, TcpEvent.arrival?] at covered

end FirstSeenState

/-- The first-seen invariant is kept by every step of a direction. -/
theorem firstSeenState_invariant (limits : TcpLimits) :
    DirectionInvariant limits FirstSeenState where
  fresh flow direction epoch := {
    law := .nil _ _
    sameFlow := by simp
    idle := fun _ => rfl
    base := by simp
    emittedBefore := by simp
    firstHeld := by simp
    complete := by simp
  }
  same same invariant := by
    rw [same]
    exact {
      law := invariant.law
      sameFlow := invariant.sameFlow
      idle := invariant.idle
      base := invariant.base
      emittedBefore := invariant.emittedBefore
      firstHeld := invariant.firstHeld
      complete := invariant.complete
    }
  step {flow direction log before events after} step wf invariant := by
    cases step with
    | start sequence midstream synSeq idle lower upper =>
        exact invariant.started wf idle sequence midstream synSeq
    | probe arrival arrives keepalive behind =>
        exact invariant.receiveBehind arrives.expects behind
    | repetition arrival arrives notKeepalive behind =>
        simp only [countRetransmission, countConsumedConflict_direction]
        exact invariant.receiveBehind arrives.expects behind
    | store arrival timestampNs arrives notKeepalive reaches =>
        exact invariant.receiveStored wf arrives.expects
          (insertPayload_stored arrival.packetIds timestampNs reaches before)
    | drain forcedGap label =>
        cases expects : before.direction.nextSeq with
        | none =>
            rw [drain_idle limits flow direction forcedGap expects]
            simpa using invariant
        | some next =>
            obtain ⟨ready, blocked, drained⟩ :=
              drain_spec limits flow direction forcedGap wf expects
            exact invariant.drained wf expects drained label
    | gap expects pending hole =>
        exact invariant.skipped expects hole

/-! ## The law of every run -/

/-- The chunks emitted for one flow, connection epoch and direction. -/
def chunksOf
    (flow : FlowKey)
    (epoch : Nat)
    (direction : Direction)
    (log : List TcpEvent) : List StreamChunk :=
  (chunks log).filter fun chunk =>
    chunk.flow = flow ∧ chunk.connectionEpoch = epoch ∧
      chunk.direction = direction

theorem chunksOf_eq
    (flow : FlowKey)
    (epoch : Nat)
    (direction : Direction)
    (log : List TcpEvent) :
    chunksOf flow epoch direction log =
      (chunks (history epoch direction log)).filter fun chunk =>
        chunk.flow = flow := by
  unfold chunksOf chunks history
  rw [List.filter_filterMap, List.filter_filterMap, List.filterMap_filter]
  congr 1
  funext event
  cases event <;>
    simp [TcpEvent.chunk?, TcpEvent.belongsTo, TcpEvent.connectionEpoch,
      TcpEvent.direction, Option.filter, and_comm]
  grind

/-- Fewer chunks satisfy the law, too. -/
theorem FirstSeen.sublist
    {base : Option Int}
    {received : List Arrival}
    {emitted fewer : List StreamChunk}
    (law : FirstSeen base received emitted)
    (sublist : fewer.Sublist emitted) :
    FirstSeen base received fewer where
  increasing := law.increasing.sublist sublist
  nonempty chunk member := law.nonempty chunk (sublist.subset member)
  tiled chunk member := law.tiled chunk (sublist.subset member)
  packetIds chunk member := law.packetIds chunk (sublist.subset member)
  firstSeen chunk member := law.firstSeen chunk (sublist.subset member)

/--
In every run the chunks of one flow, connection epoch and direction follow
the first-seen-bytes law.
-/
theorem run_firstSeen
    (limits : TcpLimits)
    (epochNamespace : Nat)
    (operations : List TcpOperation)
    (flow : FlowKey)
    (epoch : Nat)
    (direction : Direction) :
    let log :=
      ((TCPReassembler.new epochNamespace).run limits operations).events
    FirstSeen (firstNextSeq (history epoch direction log))
      (arrivals (history epoch direction log))
      (chunksOf flow epoch direction log) := by
  intro log
  obtain ⟨someFlow, state, invariant⟩ :=
    (recorded_run (firstSeenState_invariant limits) epochNamespace
      operations).exists_state epoch direction
  rw [chunksOf_eq]
  exact invariant.law.sublist List.filter_sublist

end PacketAudit
