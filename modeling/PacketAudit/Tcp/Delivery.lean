import PacketAudit.Tcp.Conservation

namespace PacketAudit

/-!
# In-order delivery of one consistent stream

While every payload of a direction agrees with one byte string, the direction
has delivered exactly the front of the string without a hole, and everything
else it received is pending behind the first hole.
-/

open Library

/-- Unwrapping finds a position less than half the modulus away. -/
theorem unwrapSequence_of_near
    {position reference : Int}
    (lower : reference - seqHalf < position)
    (upper : position < reference + seqHalf) :
    unwrapSequence (position % seqModulus) reference = position := by
  unfold unwrapSequence seqModulus
  unfold seqHalf at *
  simp only
  split
  · omega
  · split <;> omega

/-- Chunks that deliver a byte string from one offset to another. -/
def Transfers (stream : Bytes) : Int → Int → List StreamChunk → Prop
  | first, last, [] => first = last
  | first, last, chunk :: rest =>
      chunk.streamOffset = first ∧
        chunk.completeness = .complete ∧
        chunk.data ≠ [] ∧
        chunk.data = slice stream first chunk.streamEnd ∧
        Transfers stream chunk.streamEnd last rest

namespace Transfers

variable
  {stream : Bytes}
  {first middle last : Int}
  {sent more : List StreamChunk}

theorem le (transfers : Transfers stream first last sent) :
    first ≤ last := by
  induction sent generalizing first with
  | nil =>
      exact le_of_eq transfers
  | cons chunk rest inductionHypothesis =>
      obtain ⟨starts, -, -, -, later⟩ := transfers
      have := inductionHypothesis later
      unfold StreamChunk.streamEnd at this
      omega

theorem append
    (transfers : Transfers stream first middle sent)
    (moreTransfers : Transfers stream middle last more) :
    Transfers stream first last (sent ++ more) := by
  induction sent generalizing first with
  | nil =>
      have same : first = middle := transfers
      subst same
      exact moreTransfers
  | cons chunk rest inductionHypothesis =>
      obtain ⟨starts, label, nonempty, bytes, later⟩ := transfers
      exact ⟨starts, label, nonempty, bytes, inductionHypothesis later⟩

/-- The delivered bytes are the part of the stream between the offsets. -/
theorem flatten_data
    (transfers : Transfers stream first last sent)
    (nonnegative : 0 ≤ first) :
    (sent.map StreamChunk.data).flatten = slice stream first last := by
  induction sent generalizing first with
  | nil =>
      have same : first = last := transfers
      subst same
      simp [slice]
  | cons chunk rest inductionHypothesis =>
      obtain ⟨starts, -, -, bytes, later⟩ := transfers
      have forward : first ≤ chunk.streamEnd := by
        unfold StreamChunk.streamEnd
        omega
      rw [List.map_cons, List.flatten_cons,
        inductionHypothesis later (nonnegative.trans forward), bytes]
      exact slice_append_slice stream nonnegative forward later.le

end Transfers

/-- A payload at an absolute position agrees with the stream at its base. -/
def Agrees
    (stream : Bytes)
    (base start : Int)
    (payload : Bytes) : Prop :=
  ∀ {position byte},
    valueAt start payload position = some byte →
    valueAt base stream position = some byte

/--
The direction has delivered the front of the stream and holds the rest of
what it received behind the first hole.
-/
structure InOrder
    (stream : Bytes)
    (base : Int)
    (received : Int → Prop)
    (state : DirectionState) : Prop where
  expects : state.nextSeq = some (base + state.streamOffset)
  nonnegative : 0 ≤ state.streamOffset
  within : state.streamOffset ≤ stream.length
  noGap : state.hadGap = false
  notMidstream : state.midstream = false
  pendingAgrees :
    ∀ {position byte origin},
      Holds state.pending position (byte, origin) →
      valueAt base stream position = some byte
  retainedAgrees :
    ∀ {position byte},
      state.Retains position byte →
      valueAt base stream position = some byte
  receivedIff :
    ∀ {position},
      base ≤ position →
      (received position ↔
        position < base + state.streamOffset ∨
          Covers state.pending position)
  blocked :
    ∀ segment ∈ state.pending, base + state.streamOffset < segment.start

namespace InOrder

variable
  {stream : Bytes}
  {base : Int}
  {received : Int → Prop}

theorem congr
    {state : DirectionState}
    {others : Int → Prop}
    (inOrder : InOrder stream base received state)
    (same : ∀ {position}, others position ↔ received position) :
    InOrder stream base others state :=
  { inOrder with
    receivedIff := fun fromBase => same.trans (inOrder.receivedIff fromBase) }

theorem sameStream
    {first second : DirectionState}
    (inOrder : InOrder stream base received first)
    (same : first.SameStream second) :
    InOrder stream base received second := by
  rw [same]
  exact {
    expects := inOrder.expects
    nonnegative := inOrder.nonnegative
    within := inOrder.within
    noGap := inOrder.noGap
    notMidstream := inOrder.notMidstream
    pendingAgrees := inOrder.pendingAgrees
    retainedAgrees := inOrder.retainedAgrees
    receivedIff := inOrder.receivedIff
    blocked := inOrder.blocked
  }

/-- A consistent payload contradicts nothing emitted before. -/
theorem countConsumedConflict_eq
    {view : DirectionView}
    (inOrder : InOrder stream base received view.direction)
    {start next : Int}
    {payload : Bytes}
    (agrees : Agrees stream base start payload) :
    countConsumedConflict start next payload view = view := by
  have noConflict :
      conflictsWithConsumed view.direction start payload = false := by
    unfold conflictsWithConsumed
    split
    case h_1 => rfl
    case h_2 historyStart isStart =>
      split
      · rfl
      · exact overlapDiffers_eq_false agrees fun held =>
          inOrder.retainedAgrees ⟨historyStart, isStart, held⟩
  simp [countConsumedConflict, noConflict]

/-- A consistent payload contradicts nothing pending. -/
theorem overlapConflicts_insertPayload
    {view : DirectionView}
    (inOrder : InOrder stream base received view.direction)
    {start next : Int}
    {payload : Bytes}
    (agrees : Agrees stream base start payload)
    (packetIds : List Nat)
    (timestampNs : Int) :
    (insertPayload packetIds timestampNs start next payload
        view).counters.overlapConflicts =
      view.counters.overlapConflicts := by
  have noConflict :
      pendingConflicts (start + ((next - start).toNat : Int))
        (payload.drop (next - start).toNat) view.direction.pending = 0 := by
    unfold pendingConflicts
    rw [List.length_eq_zero_iff, List.filter_eq_nil_iff]
    intro old member
    rw [overlapDiffers_eq_false (fun held => agrees (valueAt_drop held))
      fun {position value} held => inOrder.pendingAgrees
        ⟨old, member, by rw [Segment.at?_eq_valueAt, held]; rfl⟩]
    simp
  simp only [insertPayload, noConflict]
  simp

/-- A payload behind the front was all received before. -/
theorem receiveBehind
    {state : DirectionState}
    (inOrder : InOrder stream base received state)
    {start stop : Int}
    (behind : stop ≤ base + state.streamOffset) :
    InOrder stream base
      (fun position =>
        received position ∨ (start ≤ position ∧ position < stop)) state := by
  refine { inOrder with receivedIff := ?_ }
  intro position fromBase
  rw [inOrder.receivedIff fromBase]
  constructor
  · rintro (received | ⟨-, before⟩)
    · exact received
    · exact .inl (before.trans_le behind)
  · exact .inl

/-- What one stage did to a direction that delivers a stream in order. -/
structure Progress
    (stream : Bytes)
    (base : Int)
    (received : Int → Prop)
    (before : DirectionView)
    (outcome : Outcome DirectionView TcpEvent) : Prop where
  inOrder : InOrder stream base received outcome.state.direction
  transfers :
    Transfers stream before.direction.streamOffset
      outcome.state.direction.streamOffset (chunks outcome.events)
  gapBytes :
    outcome.state.counters.gapBytes = before.counters.gapBytes
  overlapConflicts :
    outcome.state.counters.overlapConflicts =
      before.counters.overlapConflicts

/-- Storing a consistent payload and draining delivers up to the next hole. -/
theorem store
    {flow : FlowKey}
    {direction : Direction}
    {view stored : DirectionView}
    {packetIds : List Nat}
    {timestampNs start : Int}
    {payload : Bytes}
    {ready blocked : List TcpSegment}
    {outcome : Outcome DirectionView TcpEvent}
    (inOrder : InOrder stream base received view.direction)
    (wf : view.direction.Wf)
    (agrees : Agrees stream base start payload)
    (stores :
      Stored packetIds timestampNs start
        (base + view.direction.streamOffset) payload view stored)
    (sameConflicts :
      stored.counters.overlapConflicts = view.counters.overlapConflicts)
    (drained :
      Drained flow direction false stored
        (base + view.direction.streamOffset) ready blocked outcome) :
    Progress stream base
      (fun position =>
        received position ∨
          (start ≤ position ∧ position < start + payload.length))
      view outcome := by
  have storedWf := stores.wf inOrder.expects wf
  obtain ⟨additions, -, storedIs, -⟩ := stores.exists_additions
  have storedAgrees
      {position : Int}
      {byte : UInt8}
      {origin : SegmentOrigin}
      (held : Holds stored.direction.pending position (byte, origin)) :
      valueAt base stream position = some byte := by
    have ahead : base + view.direction.streamOffset ≤ position := by
      obtain ⟨segment, member, atPosition⟩ := held
      have expects :
          stored.direction.nextSeq =
            some (base + view.direction.streamOffset) := by
        rw [storedIs]
        exact inOrder.expects
      exact (storedWf.ahead expects member).trans
        (Segment.contains_of_at? atPosition).1
    rcases (stores.holds_iff ahead).mp held with old | ⟨isByte, -, -⟩
    · exact inOrder.pendingAgrees old
    · exact agrees isByte
  have readyAgrees
      {position : Int}
      {byte : UInt8}
      {origin : SegmentOrigin}
      (held : Holds ready position (byte, origin)) :
      valueAt base stream position = some byte := by
    apply storedAgrees
    rw [drained.split]
    exact holds_append.mpr (.inl held)
  have sameOffset :
      stored.direction.streamOffset = view.direction.streamOffset ∧
        stored.direction.hadGap = view.direction.hadGap ∧
        stored.direction.midstream = view.direction.midstream := by
    rw [storedIs]
    exact ⟨rfl, rfl, rfl⟩
  have offsetAfter :
      outcome.state.direction.streamOffset =
        view.direction.streamOffset + totalLength ready := by
    rw [drained.directionAfter]
    exact congrArg (· + _) sameOffset.1
  have within :
      view.direction.streamOffset + (totalLength ready : Int) ≤
        stream.length := by
    by_cases noneReady : totalLength ready = 0
    · have := inOrder.within
      omega
    · have covered :
          Covers ready
            (base + view.direction.streamOffset + totalLength ready - 1) :=
        drained.chained.covers_iff.mpr (by omega)
      obtain ⟨⟨byte, origin⟩, held⟩ := covers_iff_holds.mp covered
      have inside :=
        valueAt_isSome.mp
          (Option.isSome_iff_exists.mpr ⟨byte, readyAgrees held⟩)
      omega
  refine {
    inOrder := {
      expects := ?_
      nonnegative := ?_
      within := ?_
      noGap := ?_
      notMidstream := ?_
      pendingAgrees := ?_
      retainedAgrees := ?_
      receivedIff := ?_
      blocked := ?_
    }
    transfers := ?_
    gapBytes := ?_
    overlapConflicts := ?_
  }
  · rw [offsetAfter, drained.directionAfter]
    simp only [Option.some.injEq]
    ring
  · rw [offsetAfter]
    have := inOrder.nonnegative
    omega
  · rw [offsetAfter]
    exact within
  · rw [drained.directionAfter]
    exact sameOffset.2.1.trans inOrder.noGap
  · rw [drained.directionAfter]
    exact sameOffset.2.2.trans inOrder.notMidstream
  · intro position byte origin held
    apply storedAgrees
    rw [drained.split]
    rw [drained.directionAfter] at held
    exact holds_append.mpr (.inr held)
  · intro position byte retained
    rcases drained.retained retained with old | ⟨origin, held⟩
    · apply inOrder.retainedAgrees
      rw [storedIs] at old
      exact old
    · exact readyAgrees held
  · intro position fromBase
    have split :
        Covers stored.direction.pending position ↔
          Covers ready position ∨ Covers blocked position := by
      rw [drained.split]
      simp [Covers, or_and_right, exists_or]
    rw [offsetAfter, inOrder.receivedIff fromBase, drained.directionAfter]
    simp only
    by_cases ahead : base + view.direction.streamOffset ≤ position
    · have afterStoring := stores.covers_iff ahead
      rw [split, drained.chained.covers_iff] at afterStoring
      have notYet : ¬ position < base + view.direction.streamOffset := by
        omega
      simp only [notYet, false_or, ← afterStoring]
      constructor
      · rintro (⟨-, inReady⟩ | inBlocked)
        · exact .inl (by omega)
        · exact .inr inBlocked
      · rintro (inReady | inBlocked)
        · exact .inl ⟨ahead, by omega⟩
        · exact .inr inBlocked
    · have already : position < base + view.direction.streamOffset := by
        omega
      have later :
          position <
            base + (view.direction.streamOffset + totalLength ready) := by
        omega
      simp [already, later]
  · rw [offsetAfter]
    intro segment member
    have := drained.stopped segment (by
      rw [drained.directionAfter] at member
      exact member)
    omega
  · by_cases noneReady : ready = []
    · rw [drained.silent noneReady, offsetAfter, noneReady]
      simp [Transfers]
    · obtain ⟨chunk, eventsAre, -, -, -, startIs, dataIs, label, -, -,
        bytes⟩ := drained.emits noneReady
      have lengthIs : chunk.data.length = totalLength ready := by
        rw [dataIs, length_flatten_data]
      have endIs :
          chunk.streamEnd = outcome.state.direction.streamOffset := by
        rw [StreamChunk.streamEnd, lengthIs, offsetAfter, startIs,
          sameOffset.1]
      have startAt :
          chunk.streamOffset = view.direction.streamOffset :=
        startIs.trans sameOffset.1
      rw [eventsAre]
      simp only [chunks_singleton, TcpEvent.chunk?, Option.toList_some]
      refine ⟨startAt, ?_, ?_, ?_, endIs⟩
      · rw [label]
        simp [completenessOf, sameOffset, inOrder.noGap,
          inOrder.notMidstream]
      · obtain ⟨segment, rest, readyIs⟩ :=
          List.exists_cons_of_ne_nil noneReady
        have solid :=
          storedWf.solid segment (by rw [drained.split, readyIs]; simp)
        have positive := List.length_pos_iff.mpr solid
        intro empty
        rw [empty, readyIs, totalLength_cons] at lengthIs
        simp only [List.length_nil] at lengthIs
        omega
      · apply List.ext_getElem?
        intro index
        have fromZero := inOrder.nonnegative
        have sliced :=
          @getElem?_slice _ 0 stream _ chunk.streamEnd fromZero index
        simp only [sub_zero] at sliced
        rw [sliced]
        split
        case isTrue inside =>
          have inData : index < chunk.data.length := by
            unfold StreamChunk.streamEnd at inside
            omega
          have isByte := List.getElem?_eq_getElem inData
          obtain ⟨origin, held, -⟩ := bytes isByte
          have agreed := readyAgrees held
          rw [isByte]
          unfold valueAt at agreed ⊢
          rw [if_pos (by omega)] at agreed ⊢
          rw [← agreed]
          congr 1
          omega
        case isFalse outside =>
          rw [List.getElem?_eq_none]
          unfold StreamChunk.streamEnd at outside
          omega
  · rw [drained.countersAfter]
    exact stores.gapBytes
  · rw [drained.countersAfter]
    exact sameConflicts

end InOrder

end PacketAudit
