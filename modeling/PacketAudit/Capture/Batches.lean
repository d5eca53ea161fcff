import PacketAudit.Library.Batches
import PacketAudit.Capture.Pcap

namespace PacketAudit

open Library

/-!
# Capture files read in batches

What `read_batch` delivers of a file, call after call, and how that depends on
the sizes asked for: a malformed record takes the records before it in its
batch with it.
-/

namespace OfflineSource

/-- What successive calls deliver, and whether the file ended or a call raised. -/
def deliver : (sizes : List Nat) → OfflineSource → List CapturedPacket × Bool
  | [], source => ([], source.eof)
  | size :: later, source =>
      match source.readBatch (some size) with
      | .error _ => ([], true)
      | .ok (batch, source) =>
          let (more, ended) := deliver later source
          (batch ++ more, ended)

/-- The packets of what is left of the file, and the error behind them. -/
def remaining (source : OfflineSource) :
    List CapturedPacket × Option PcapFault :=
  readAll nextPacket (source.handle.file.length + 1) source

/-- How many whole, valid records there are up to the end or the first other. -/
def wholeRecords (source : OfflineSource) : Nat :=
  source.remaining.1.length

/-- All records up to the end of the file are whole and valid. -/
def endsCleanly (source : OfflineSource) : Bool :=
  source.remaining.2.isNone

end OfflineSource

/-! ## One packet -/

theorem ClassicPcapHandle.next_file
    {handle behind : ClassicPcapHandle}
    {record : ClassicPcapHeader × Bytes}
    (isRecord : handle.next = .ok (some (record, behind))) :
    behind.file.length < handle.file.length := by
  unfold next at isRecord
  split at isRecord
  case isTrue => cases isRecord
  dsimp only at isRecord
  split at isRecord
  case isTrue => cases isRecord
  split at isRecord
  case isTrue => cases isRecord
  case isFalse whole =>
    rw [List.length_take] at whole
    split at isRecord
    case isTrue => cases isRecord
    split at isRecord
    case isTrue => cases isRecord
    split at isRecord
    case isTrue => cases isRecord
    split at isRecord
    case isTrue => cases isRecord
    case isFalse =>
      cases isRecord
      rw [List.length_drop]
      omega

namespace OfflineSource

/-- What a packet that is read leaves behind. -/
structure Follows
    (source : OfflineSource)
    (packet : CapturedPacket)
    (behind : OfflineSource) : Prop where
  packetId : packet.packetId = source.packetId + 1
  counted : behind.packetId = source.packetId + 1
  shorter : behind.handle.file.length < source.handle.file.length
  closed : behind.closed = source.closed
  eof : behind.eof = source.eof

theorem nextPacket_follows
    {source behind : OfflineSource}
    {packet : CapturedPacket}
    (isPacket : source.nextPacket = .ok (some (packet, behind))) :
    source.Follows packet behind := by
  rw [nextPacket] at isPacket
  cases isNext : source.handle.next with
  | error fault =>
      rw [isNext] at isPacket
      cases isPacket
  | ok found =>
      rw [isNext] at isPacket
      match found with
      | none => cases isPacket
      | some ((header, data), handle) =>
          have shorter := ClassicPcapHandle.next_file isNext
          simp only [ok_bind, record] at isPacket
          split at isPacket
          case isTrue => cases isPacket
          case isFalse =>
            cases isPacket
            exact ⟨rfl, rfl, shorter, rfl, rfl⟩

/-- The source behind a batch. -/
def behindBatch (last : OfflineSource) (ended : Bool) : OfflineSource :=
  { last with eof := last.eof || ended }

/-- The loop takes a batch and notes whether the file ended. -/
theorem readPackets_eq
    (limit : Nat)
    (source : OfflineSource) :
    source.readPackets limit =
      (takeBatch nextPacket limit source).map fun found =>
        (found.1, found.2.1.behindBatch found.2.2) := by
  induction limit generalizing source with
  | zero =>
      have same : source.behindBatch false = source := by
        rw [behindBatch, Bool.or_false]
      rw [readPackets, takeBatch, Except.map, same]
  | succ limit inductionHypothesis =>
      rw [readPackets, takeBatch]
      cases source.nextPacket with
      | error fault => rfl
      | ok found =>
          rcases found with _ | ⟨packet, behind⟩
          · rw [ok_bind, Except.map, behindBatch, Bool.or_true]
          · simp only [ok_bind, inductionHypothesis]
            cases takeBatch nextPacket limit behind <;> rfl

theorem takeBatch_open
    {source last : OfflineSource}
    {size : Nat}
    {packets : List CapturedPacket}
    {ended : Bool}
    (batch : takeBatch nextPacket size source = .ok (packets, last, ended)) :
    last.closed = source.closed ∧ last.eof = source.eof := by
  induction size generalizing source packets with
  | zero =>
      cases batch
      exact ⟨rfl, rfl⟩
  | succ size inductionHypothesis =>
      rw [takeBatch] at batch
      split at batch
      case h_1 => cases batch
      case h_2 =>
        cases batch
        exact ⟨rfl, rfl⟩
      case h_3 packet behind isPacket =>
        have follows := nextPacket_follows isPacket
        split at batch
        case h_1 => cases batch
        case h_2 rest later again isRest =>
          cases batch
          obtain ⟨closed, eof⟩ := inductionHypothesis isRest
          exact ⟨closed.trans follows.closed, eof.trans follows.eof⟩

/-- A source that is neither closed nor at its end. -/
def IsOpen (source : OfflineSource) : Prop :=
  source.closed = false ∧ source.eof = false

theorem readBatch_of_isOpen
    {source : OfflineSource}
    (isOpen : source.IsOpen)
    {size : Nat}
    (positive : 1 ≤ size) :
    source.readBatch (some size) =
      (source.readPackets size).mapError .capture := by
  have notBelow : ¬((size : Int) < 1) := by omega
  rw [readBatch, if_neg (by simp [isOpen.1, isOpen.2])]
  simp only [Option.getD_some, if_neg notBelow, Int.toNat_natCast]

/-- Behind the end nothing more is delivered. -/
theorem deliver_of_eof
    {source : OfflineSource}
    (atEnd : source.eof = true)
    (sizes : List Nat) :
    source.deliver sizes = ([], true) := by
  induction sizes with
  | nil => rw [deliver, atEnd]
  | cons size later inductionHypothesis =>
      rw [deliver, readBatch, if_pos (.inr atEnd)]
      simp only [inductionHypothesis, List.nil_append]

/-- Successive calls take successive batches. -/
theorem deliver_eq
    {source : OfflineSource}
    (isOpen : source.IsOpen)
    {sizes : List Nat}
    (positive : ∀ size ∈ sizes, 1 ≤ size) :
    source.deliver sizes = takeBatches nextPacket sizes source := by
  induction sizes generalizing source with
  | nil => rw [deliver, isOpen.2, takeBatches]
  | cons size later inductionHypothesis =>
      obtain ⟨isPositive, laterPositive⟩ := List.forall_mem_cons.mp positive
      rw [deliver, readBatch_of_isOpen isOpen isPositive, readPackets_eq,
        takeBatches]
      cases batch : takeBatch nextPacket size source with
      | error fault => rfl
      | ok found =>
          obtain ⟨packets, last, ended⟩ := found
          obtain ⟨closed, eof⟩ := takeBatch_open batch
          cases ended with
          | true =>
              have atEnd : (last.behindBatch true).eof = true :=
                Bool.or_true _
              simp only [Except.map, Except.mapError, deliver_of_eof atEnd,
                List.append_nil]
          | false =>
              have same : last.behindBatch false = last := by
                rw [behindBatch, Bool.or_false]
              have lastOpen : last.IsOpen :=
                ⟨closed.trans isOpen.1, eof.trans isOpen.2⟩
              simp only [Except.map, Except.mapError, same,
                inductionHypothesis lastOpen laterPositive]

/-- The rest of the file is read up to its end or to an error. -/
theorem reads_remaining (source : OfflineSource) :
    ReadsAll nextPacket source source.remaining.1 source.remaining.2 := by
  rw [remaining]
  exact readsAll_readAll
    (fun reader _ _ isPacket => (nextPacket_follows isPacket).shorter)
    (Nat.lt_succ_self source.handle.file.length)

theorem packetIds_of_reads
    {source : OfflineSource}
    {packets : List CapturedPacket}
    {fault : Option PcapFault}
    (reads : ReadsAll nextPacket source packets fault) :
    packets.map (·.packetId) =
      List.range' (source.packetId + 1) packets.length := by
  induction reads with
  | stop => rfl
  | fail => rfl
  | item isPacket reads inductionHypothesis =>
      have follows := nextPacket_follows isPacket
      rw [List.map_cons, inductionHypothesis, List.length_cons,
        List.range'_succ, follows.packetId, follows.counted]

/-- How many packets a run that comes to an end or an error delivers. -/
theorem deliver_of_ended
    {source : OfflineSource}
    (isOpen : source.IsOpen)
    {sizes : List Nat}
    (positive : ∀ size ∈ sizes, 1 ≤ size)
    (ended : (source.deliver sizes).2 = true) :
    (source.deliver sizes).1 =
      if source.endsCleanly then source.remaining.1
      else source.remaining.1.take (fittingTotal source.wholeRecords sizes) := by
  have batches := source.reads_remaining.takeBatches_eq sizes
  rw [deliver_eq isOpen positive, batches, decide_eq_true_iff] at ended
  rw [deliver_eq isOpen positive, batches, endsCleanly, wholeRecords]
  split
  · exact List.take_of_length_le ended.le
  · rfl

end OfflineSource

/-! ## Whole runs -/

theorem take_inj_of_le
    {α : Type}
    {items : List α}
    {first second : Nat}
    (firstInside : first ≤ items.length)
    (secondInside : second ≤ items.length) :
    items.take first = items.take second ↔ first = second := by
  constructor
  · intro same
    have lengths := congrArg List.length same
    rw [List.length_take, List.length_take] at lengths
    omega
  · rintro rfl
    rfl

/-- A source that is just opened has read nothing. -/
theorem OfflineSource.openFile_fresh
    {path interface sessionId : String}
    {content : Bytes}
    {batchSize : Nat}
    {source : OfflineSource}
    (opened :
      openFile path content interface sessionId batchSize = .ok source) :
    source.IsOpen ∧ source.packetId = 0 := by
  rw [openFile] at opened
  split at opened
  case h_1 => cases opened
  case h_2 =>
    split at opened
    case isTrue => cases opened
    case isFalse =>
      cases opened
      exact ⟨⟨rfl, rfl⟩, rfl⟩

/--
Two runs over a capture file deliver the same packets just if the file is well
formed to its end or their batches end at the same last record before the
malformed one; the packets are numbered from 1 in either case.
-/
theorem pcap_batches_agree_iff
    {path interface sessionId : String}
    {content : Bytes}
    {batchSize : Nat}
    {source : OfflineSource}
    (opened :
      OfflineSource.openFile path content interface sessionId batchSize =
        .ok source)
    {first second : List Nat}
    (firstPositive : ∀ size ∈ first, 1 ≤ size)
    (secondPositive : ∀ size ∈ second, 1 ≤ size)
    (firstEnded : (source.deliver first).2 = true)
    (secondEnded : (source.deliver second).2 = true) :
    (source.deliver first).1.map (·.packetId) =
        List.range' 1 (source.deliver first).1.length ∧
      ((source.deliver first).1 = (source.deliver second).1 ↔
        source.endsCleanly = true ∨
          fittingTotal source.wholeRecords first =
            fittingTotal source.wholeRecords second) := by
  obtain ⟨isOpen, isFirst⟩ := OfflineSource.openFile_fresh opened
  have ids := OfflineSource.packetIds_of_reads source.reads_remaining
  rw [isFirst, Nat.zero_add] at ids
  rw [OfflineSource.deliver_of_ended isOpen firstPositive firstEnded,
    OfflineSource.deliver_of_ended isOpen secondPositive secondEnded]
  by_cases isClean : source.endsCleanly = true
  · rw [if_pos isClean, if_pos isClean]
    exact ⟨ids, iff_of_true rfl (.inl isClean)⟩
  · rw [if_neg isClean, if_neg isClean, or_iff_right isClean]
    have inside :
        fittingTotal source.wholeRecords first ≤ source.remaining.1.length :=
      fittingTotal_le source.wholeRecords first
    refine ⟨?_, take_inj_of_le inside (fittingTotal_le _ second)⟩
    rw [List.map_take, ids, List.length_take,
      List.take_range'_of_length_ge inside, Nat.min_eq_left inside]

/-- A little-endian file with two packets of one byte, and a third cut off. -/
def cutCapture : Bytes :=
  [0xd4, 0xc3, 0xb2, 0xa1, 2, 0, 4, 0, 0, 0, 0, 0, 0, 0, 0, 0, 255, 255, 0, 0,
    1, 0, 0, 0,
    1, 0, 0, 0, 5, 0, 0, 0, 1, 0, 0, 0, 1, 0, 0, 0, 7,
    2, 0, 0, 0, 6, 0, 0, 0, 1, 0, 0, 0, 1, 0, 0, 0, 8,
    3, 0, 0]

/-- The source of that file. -/
def cutSource : OfflineSource where
  handle := {
    file := cutCapture.drop 24
    endian := .little
    precision := .micro
    datalink := 1
    snaplen := 65535
  }
  interface := "pcap:cut.pcap"
  sessionId := "session"
  batchSize := 128

theorem cutCapture_batches :
    (cutSource.deliver [1, 1, 1]).1.map (·.packetId) = List.range' 1 2 ∧
      ((cutSource.deliver [1, 1, 1]).1 = (cutSource.deliver [2, 128]).1 ↔
        cutSource.endsCleanly = true ∨
          fittingTotal cutSource.wholeRecords [1, 1, 1] =
            fittingTotal cutSource.wholeRecords [2, 128]) := by
  have opened :
      OfflineSource.openFile "cut.pcap" cutCapture "pcap:cut.pcap" "session"
        128 = .ok cutSource := by
    decide +kernel
  exact pcap_batches_agree_iff opened (by decide) (by decide)
    (by decide +kernel) (by decide +kernel)

/-- Single packets are delivered up to the cut, a batch of three is lost. -/
theorem cutCapture_loses_batch :
    OfflineSource.openFile "cut.pcap" cutCapture "pcap:cut.pcap" "session"
        128 = .ok cutSource ∧
      ((cutSource.deliver [1, 1, 1]).1.map fun packet =>
          (packet.packetId, packet.timestampNs, packet.raw)) =
        [(1, 1000005000, [7]), (2, 2000006000, [8])] ∧
      cutSource.deliver [128] = ([], true) := by
  decide +kernel

end PacketAudit
