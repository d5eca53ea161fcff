import PacketAudit.Detector.Caps

namespace PacketAudit.Detector

/-!
# Merging a chunk into a retained tail

`_merge_stream`: one branch of the source is one function here, and each of
them gives the new tail, the provenance counters and what is scanned.
-/

open Library

/-- `data[-count:]`. -/
def lastBytes (count : Nat) (data : Bytes) : Bytes :=
  data.drop (data.length - count)

/-- `data[offset : offset + len(patch)] = patch`. -/
def writeAt (data : Bytes) (offset : Nat) (patch : Bytes) : Bytes :=
  data.take offset ++ patch ++ data.drop (offset + patch.length)

/-- The spans a scan reads: a copy of them, or the deque of the tail itself. -/
inductive ScanSpans where
  | copied (spans : List ProvenanceSpan)
  | retained
  deriving Repr, DecidableEq

/-- The locals of `_merge_stream` after its branches. -/
structure MergedTail where
  tail : DirectionState
  counts : ProvenanceCounts
  scanStart : Int
  scanData : Bytes
  scanSpans : ScanSpans
  deriving Repr, DecidableEq

/-- `_replace_direction_provenance` with `_clip_provenance` to the tail. -/
def replaceClipped
    (spans : List ProvenanceSpan)
    (tail : DirectionState) : DirectionState :=
  { tail with
    provenanceSpans :=
      coalesceProvenance
        (clipProvenance spans tail.baseOffset tail.tailEnd) }

/-- Keep the last bytes of a chunk as the new tail. -/
def restartTail
    (overlapBytes : Nat)
    (tail : DirectionState)
    (chunk : StreamChunk) : DirectionState :=
  let kept := lastBytes overlapBytes chunk.data
  replaceClipped (chunkProvenance chunk) {
    tail with
    baseOffset := chunk.streamEnd - kept.length
    data := kept
    packetIds := uniqueIds chunk.packetIds
  }

/-- The branches for an empty tail and for a chunk beyond a hole. -/
def mergeIsland
    (overlapBytes : Nat)
    (counts : ProvenanceCounts)
    (tail : DirectionState)
    (chunk : StreamChunk) : MergedTail :=
  let merged := restartTail overlapBytes tail chunk
  {
    tail := merged
    counts := counts.replaced tail.provenanceSpans merged.provenanceSpans
    scanStart := chunk.streamOffset
    scanData := chunk.data
    scanSpans := .copied (chunkProvenance chunk)
  }

/-- The branch for a chunk the tail holds already. -/
def mergeReplay
    (counts : ProvenanceCounts)
    (tail : DirectionState)
    (chunk : StreamChunk) : MergedTail where
  tail := tail
  counts := counts
  scanStart := chunk.streamOffset
  scanData := []
  scanSpans := .copied []

/-- The tail with the bytes and the spans of an adjoining chunk. -/
def extended
    (tail : DirectionState)
    (chunk : StreamChunk) : DirectionState :=
  { tail with
    data := tail.data ++ chunk.data
    provenanceSpans :=
      appendProvenance tail.provenanceSpans (chunkProvenance chunk) }

/-- `trim_slack`. -/
def trimSlack (overlapBytes : Nat) : Nat :=
  min (64 * 1024) (max 4096 (overlapBytes / 4))

/-- The branch for an adjoining chunk. -/
def mergeAdjoining
    (overlapBytes : Nat)
    (counts : ProvenanceCounts)
    (tail : DirectionState)
    (chunk : StreamChunk) : MergedTail :=
  let longer := extended tail chunk
  let appended :=
    counts.appended tail.provenanceSpans longer.provenanceSpans
  let packetIds := uniqueIds chunk.packetIds
  if overlapBytes < chunk.data.length then
    let kept := lastBytes overlapBytes chunk.data
    let merged :=
      replaceClipped longer.provenanceSpans {
        longer with
        baseOffset := chunk.streamEnd - kept.length
        data := kept
        packetIds
      }
    {
      tail := merged
      counts :=
        appended.replaced longer.provenanceSpans merged.provenanceSpans
      scanStart := tail.baseOffset
      scanData := longer.data
      scanSpans := .copied longer.provenanceSpans
    }
  else if overlapBytes + trimSlack overlapBytes < longer.data.length then
    let overflow := longer.data.length - overlapBytes
    let merged :=
      replaceClipped longer.provenanceSpans {
        longer with
        baseOffset := longer.baseOffset + overflow
        data := longer.data.drop overflow
        packetIds
      }
    {
      tail := merged
      counts :=
        appended.replaced longer.provenanceSpans merged.provenanceSpans
      scanStart := merged.baseOffset
      scanData := merged.data
      scanSpans := .retained
    }
  else
    {
      tail := { longer with packetIds }
      counts := appended
      scanStart := longer.baseOffset
      scanData := longer.data
      scanSpans := .retained
    }

/-- The branch for a chunk that overlaps the tail. -/
def mergeOverlapping
    (overlapBytes : Nat)
    (counts : ProvenanceCounts)
    (tail : DirectionState)
    (chunk : StreamChunk) : MergedTail :=
  let scanStart := min tail.baseOffset chunk.streamOffset
  let scanEnd := max tail.tailEnd chunk.streamEnd
  let blank := List.replicate (scanEnd - scanStart).toNat 0
  let merged :=
    writeAt
      (writeAt blank (tail.baseOffset - scanStart).toNat tail.data)
      (chunk.streamOffset - scanStart).toNat chunk.data
  let spans :=
    overlayProvenance tail.provenanceSpans (chunkProvenance chunk)
      chunk.streamOffset chunk.streamEnd
  let scanSpans := .copied (clipProvenance spans scanStart scanEnd)
  if tail.tailEnd ≤ chunk.streamEnd then
    let retain := lastBytes overlapBytes merged
    let newer :=
      replaceClipped spans {
        tail with
        baseOffset := scanStart + merged.length - retain.length
        data := retain
        packetIds := uniqueIds chunk.packetIds
      }
    {
      tail := newer
      counts := counts.replaced tail.provenanceSpans newer.provenanceSpans
      scanStart
      scanData := merged
      scanSpans
    }
  else
    { tail, counts, scanStart, scanData := merged, scanSpans }

/-- The branches of `_merge_stream`. -/
def mergeTail
    (overlapBytes : Nat)
    (counts : ProvenanceCounts)
    (tail : DirectionState)
    (chunk : StreamChunk) : MergedTail :=
  if tail.data.isEmpty then
    mergeIsland overlapBytes counts tail chunk
  else if
      tail.baseOffset ≤ chunk.streamOffset ∧
        chunk.streamEnd ≤ tail.tailEnd ∧
        tail.data.extract (chunk.streamOffset - tail.baseOffset).toNat
            (chunk.streamEnd - tail.baseOffset).toNat =
          chunk.data then
    mergeReplay counts tail chunk
  else if tail.tailEnd < chunk.streamOffset ∨
      chunk.streamEnd < tail.baseOffset then
    mergeIsland overlapBytes counts tail chunk
  else if chunk.streamOffset = tail.tailEnd then
    mergeAdjoining overlapBytes counts tail chunk
  else
    mergeOverlapping overlapBytes counts tail chunk

/-- The flow id of a chunk's connection. -/
def chunkFlowId (chunk : StreamChunk) : FlowId where
  flow := chunk.flow
  connectionEpoch := some chunk.connectionEpoch

namespace SensitiveDetector

/-- The tail a chunk is merged into. -/
def tailFor
    (chunk : StreamChunk)
    (detector : SensitiveDetector) : DirectionState :=
  ((detector.stateOf (chunkFlowId chunk)).directions.get?
    chunk.direction).getD {}

/-- `_merge_stream` up to the provenance cap. -/
def replaceTail
    (limits : DetectorLimits)
    (chunk : StreamChunk)
    (detector : SensitiveDetector) : SensitiveDetector :=
  let tail := detector.tailFor chunk
  let merged :=
    mergeTail limits.overlapBytes detector.provenance tail chunk
  { detector.reviseFlow (chunkFlowId chunk) fun state =>
      { state with
        directions := state.directions.set chunk.direction merged.tail } with
    provenance := merged.counts
    retainedTailBytes :=
      detector.retainedTailBytes +
        (merged.tail.data.length - tail.data.length) }

/-- The scan context of a chunk, once the cap on spans is enforced. -/
def chunkContext
    (chunk : StreamChunk)
    (merged : MergedTail)
    (detector : SensitiveDetector) : ScanContext where
  flow := chunk.flow
  flowId := chunkFlowId chunk
  connectionEpoch := some chunk.connectionEpoch
  direction := chunk.direction
  baseOffset := some merged.scanStart
  data := merged.scanData
  packetIds := uniqueIds chunk.packetIds
  provenanceSpans :=
    match merged.scanSpans with
    | .copied spans => spans
    | .retained => (detector.tailFor chunk).provenanceSpans
  packetIdsComplete := true
  observedTimestampNs := chunk.lastTimestampNs
  completeness := chunk.completeness

/-- `_merge_stream`. -/
def mergeStream
    (limits : DetectorLimits)
    (chunk : StreamChunk)
    (detector : SensitiveDetector) :
    Outcome (SensitiveDetector × ScanContext) DetectorEvent :=
  let merged :=
    mergeTail limits.overlapBytes detector.provenance
      (detector.tailFor chunk) chunk
  ({
      state := detector.replaceTail limits chunk
      events := [.fed chunk]
    } : Outcome SensitiveDetector DetectorEvent).bind fun replaced =>
    (enforceProvenanceCap limits (chunkFlowId chunk) replaced).bind
      fun capped =>
        .quiet (capped, capped.chunkContext chunk merged)

end SensitiveDetector

end PacketAudit.Detector
