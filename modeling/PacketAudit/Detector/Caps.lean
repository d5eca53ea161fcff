import PacketAudit.Detector.Stores

namespace PacketAudit.Detector

/-!
# Pending authentications, the provenance cap and the byte cap

`_refresh_pending_auth_accounting`, `_enforce_provenance_cap` and
`_enforce_retained_cap`, stage by stage.
-/

open Library

/-! ## Provenance counters -/

/-- The counter updates of `_replace_direction_provenance`. -/
def ProvenanceCounts.replaced
    (counts : ProvenanceCounts)
    (old new : List ProvenanceSpan) : ProvenanceCounts where
  spans :=
    max 0
      (counts.spans +
        ((provenanceCounts new).spans - (provenanceCounts old).spans))
  packetIdRefs :=
    max 0
      (counts.packetIdRefs +
        ((provenanceCounts new).packetIdRefs -
          (provenanceCounts old).packetIdRefs))

/-- The counter updates of `_append_direction_provenance`. -/
def ProvenanceCounts.appended
    (counts : ProvenanceCounts)
    (old new : List ProvenanceSpan) : ProvenanceCounts where
  spans :=
    counts.spans +
      ((provenanceCounts new).spans - (provenanceCounts old).spans)
  packetIdRefs :=
    counts.packetIdRefs +
      ((provenanceCounts new).packetIdRefs -
        (provenanceCounts old).packetIdRefs)

namespace SensitiveDetector

/-- `over_cap` of `_enforce_provenance_cap`. -/
def overProvenanceCap
    (limits : DetectorLimits)
    (detector : SensitiveDetector) : Bool :=
  decide
      ((limits.maxProvenanceSpans : Int) < detector.provenance.spans) ||
    decide
      ((limits.maxProvenancePacketIdRefs : Int) <
        detector.provenance.packetIdRefs)

/-- The first span of a direction's tail. -/
def firstSpan?
    (flowId : FlowId)
    (direction : Direction)
    (detector : SensitiveDetector) : Option ProvenanceSpan :=
  ((detector.stateOf flowId).directions.get? direction).bind fun tail =>
    tail.provenanceSpans.head?

/-- `direction.provenance_spans.popleft()`, with its counter updates. -/
def popSpan
    (flowId : FlowId)
    (direction : Direction)
    (detector : SensitiveDetector) : SensitiveDetector :=
  match (detector.stateOf flowId).directions.get? direction with
  | none => detector
  | some tail =>
      let remaining := tail.provenanceSpans.drop 1
      let revised := detector.reviseFlow flowId fun state =>
        { state with
          directions :=
            state.directions.set direction
              { tail with provenanceSpans := remaining } }
      { revised with
        provenance :=
          detector.provenance.appended tail.provenanceSpans remaining }

/-- One round over the directions of a flow, until the cap is met. -/
def trimSpans
    (limits : DetectorLimits)
    (flowId : FlowId) :
    List Direction → SensitiveDetector → SensitiveDetector
  | [], detector => detector
  | direction :: rest, detector =>
      if (detector.firstSpan? flowId direction).isNone then
        trimSpans limits flowId rest detector
      else
        let popped := detector.popSpan flowId direction
        if popped.overProvenanceCap limits then
          trimSpans limits flowId rest popped
        else
          popped

/-- The body of the trimming loop of `_enforce_provenance_cap`. -/
def trimRound
    (limits : DetectorLimits)
    (flowId : FlowId)
    (detector : SensitiveDetector) :
    Outcome (SensitiveDetector × Bool) DetectorEvent :=
  let directions :=
    (detector.stateOf flowId).directions.entries.map Prod.fst
  .quiet
    (trimSpans limits flowId directions detector,
      directions.any fun direction =>
        (detector.firstSpan? flowId direction).isSome)

/-- The spans of a flow's tails. -/
def spanCount (flowId : FlowId) (detector : SensitiveDetector) : Nat :=
  (detector.stateOf flowId).directions.total fun _ tail =>
    tail.provenanceSpans.length

/-- `_enforce_provenance_cap`. -/
def enforceProvenanceCap
    (limits : DetectorLimits)
    (current : FlowId)
    (detector : SensitiveDetector) :
    Outcome SensitiveDetector DetectorEvent :=
  (dropOthersWhile (overProvenanceCap limits) current detector).bind
    fun next =>
      whileSucceeds (overProvenanceCap limits) (trimRound limits current)
        (next.spanCount current + 1) next

/-! ## Pending authentications -/

/-- `_refresh_pending_auth_accounting`. -/
def refreshPendingAuth
    (flowId : FlowId)
    (detector : SensitiveDetector) :
    Outcome SensitiveDetector DetectorEvent :=
  match detector.flows.get? flowId with
  | none => .quiet detector
  | some state =>
      let measured := state.pendingAuth.measured
      let bytes :=
        detector.pendingAuthBytes + (measured.1 - state.pendingAuthBytes)
      let objects :=
        detector.pendingAuthObjects +
          (measured.2 - state.pendingAuthObjects)
      {
        state := {
          detector with
          flows :=
            detector.flows.set flowId {
              state with
              pendingAuthBytes := measured.1
              pendingAuthObjects := measured.2
            }
          pendingAuthBytes := max 0 bytes
          pendingAuthObjects := max 0 objects
        }
        events := [
          .clamped .pendingAuthBytes bytes,
          .clamped .pendingAuthObjects objects
        ]
      }

end SensitiveDetector

namespace PendingAuth

/-- `repr(key)` of a plaintext user's key. -/
def keyText (key : String × Direction) : String :=
  "('" ++ key.1 ++ "', " ++ toString (directionNumber key.2) ++ ")"

/-- `state.pending_auth_loss.add(marker)`. -/
def addLoss
    (marker : String × Direction)
    (pending : PendingAuth) : PendingAuth :=
  if marker ∈ pending.pendingAuthLoss then
    pending
  else
    { pending with pendingAuthLoss := pending.pendingAuthLoss ++ [marker] }

/-- The first key of a mapping by a text of the keys. -/
def firstKey?
    {κ : Type}
    (text : κ → String)
    (mapping : OrderedTable κ Value) : Option κ :=
  (mapping.entries.map Prod.fst).argmin text

/-- The entry `_discard_one_pending_auth_entry` replaces by a loss marker. -/
def discardOne? (pending : PendingAuth) : Option PendingAuth :=
  match firstKey? keyText pending.plaintextUsers with
  | some key =>
      some
        ({ pending with
            plaintextUsers := pending.plaintextUsers.erase key }.addLoss
          ("plaintext:" ++ key.1, key.2))
  | none =>
      let text := fun direction => toString (directionNumber direction)
      match firstKey? text pending.smtpPending with
      | some key =>
          some
            ({ pending with
                smtpPending := pending.smtpPending.erase key }.addLoss
              ("smtp", key))
      | none =>
          (firstKey? text pending.imapPending).map fun key =>
            { pending with
              imapPending := pending.imapPending.erase key }.addLoss
                ("imap", key)

/-- The entries that can be discarded. -/
def discardable (pending : PendingAuth) : Nat :=
  pending.plaintextUsers.size + pending.smtpPending.size +
    pending.imapPending.size

end PendingAuth

namespace SensitiveDetector

/-- `_discard_one_pending_auth_entry`. -/
def discardOnePendingAuthEntry
    (flowId : FlowId)
    (detector : SensitiveDetector) :
    Outcome (SensitiveDetector × Bool) DetectorEvent :=
  match (detector.stateOf flowId).pendingAuth.discardOne? with
  | none => .quiet (detector, false)
  | some pending =>
      (refreshPendingAuth flowId
          (detector.reviseFlow flowId fun state =>
            { state with pendingAuth := pending })).bind fun next =>
        .quiet (next, true)

/-! ## The byte cap -/

/-- `self._retained_bytes() > self.max_retained_bytes`. -/
def overRetainedCap
    (limits : DetectorLimits)
    (detector : SensitiveDetector) : Bool :=
  decide ((limits.maxRetainedBytes : Int) < detector.retainedBytes)

/-- Drop what a tail holds before its last `keep` bytes. -/
def keepLast (keep : Nat) (tail : DirectionState) : DirectionState :=
  if keep < tail.data.length then
    let dropped := tail.data.length - keep
    {
      tail with
      baseOffset := tail.baseOffset + dropped
      data := tail.data.drop dropped
      provenanceSpans :=
        coalesceProvenance
          (clipProvenance tail.provenanceSpans (tail.baseOffset + dropped)
            (tail.baseOffset + tail.data.length))
    }
  else
    tail

/-- The counter updates of a tail's trimming. -/
def keepLastCounts
    (keep : Nat)
    (tail : DirectionState)
    (counts : ProvenanceCounts) : ProvenanceCounts :=
  if keep < tail.data.length then
    counts.replaced tail.provenanceSpans (keepLast keep tail).provenanceSpans
  else
    counts

/-- The tail trimming of `_enforce_retained_cap`. -/
def trimTails
    (limits : DetectorLimits)
    (flowId : FlowId)
    (detector : SensitiveDetector) : SensitiveDetector :=
  match detector.flows.get? flowId with
  | none => detector
  | some state =>
      let tailBudget :=
        ((limits.maxRetainedBytes : Int) - detector.ntlmCorrelationBytes -
          detector.pendingAuthBytes).toNat
      let number := state.directions.size
      let share := tailBudget / max 1 number
      let remainder := tailBudget - share * number
      let keep := fun (index : Nat) =>
        share + (if index < remainder then 1 else 0)
      let trimmed := {
        state with
        directions :=
          state.directions.mapIdx fun index tail =>
            keepLast (keep index) tail
      }
      { detector with
        flows := detector.flows.set flowId trimmed
        provenance :=
          (state.directions.entries.zipIdx).foldl
            (fun counts entry =>
              keepLastCounts (keep entry.2) entry.1.2 counts)
            detector.provenance
        retainedTailBytes :=
          detector.retainedTailBytes - (state.tailBytes - trimmed.tailBytes) }

/-- `_enforce_retained_cap` without its last resort. -/
def shrinkRetained
    (limits : DetectorLimits)
    (current : FlowId)
    (detector : SensitiveDetector) :
    Outcome SensitiveDetector DetectorEvent :=
  (dropOthersWhile (overRetainedCap limits) current detector).bind
    fun alone =>
      let trimmed :=
        if alone.overRetainedCap limits then alone.trimTails limits current
        else alone
      (whileSucceeds (overRetainedCap limits) evictOldestNtlmEntry
          (trimmed.ntlmObjects + 1) trimmed).bind fun unpaired =>
        whileSucceeds (overRetainedCap limits)
          (discardOnePendingAuthEntry current)
          ((unpaired.stateOf current).pendingAuth.discardable + 1) unpaired

/-- `_enforce_retained_cap`. -/
def enforceRetainedCap
    (limits : DetectorLimits)
    (current : FlowId)
    (detector : SensitiveDetector) :
    Outcome SensitiveDetector DetectorEvent :=
  (detector.shrinkRetained limits current).andThen fun shrunk =>
    if shrunk.overRetainedCap limits then
      shrunk.dropFlow current
    else
      .quiet shrunk

end SensitiveDetector

end PacketAudit.Detector
