import PacketAudit.Library.Loop
import PacketAudit.Library.TableTotals
import PacketAudit.Detector.State

namespace PacketAudit.Detector

/-!
# Flows, stores and caps

The methods of `SensitiveDetector` that add, drop and trim what the flow
states hold, each with its counter updates, and the eviction loops.
-/

open Library

/-! ## NTLM entries -/

namespace FlowState

/-- The correlation id and the retained size of an entry, if it is kept. -/
def ntlmEntryOf (state : FlowState) : NtlmKey → Option (Nat × Nat)
  | .challenge scope =>
      (state.ntlmChallenges.get? scope).map fun challenge =>
        (challenge.correlationId, challenge.retainedSize)
  | .response correlationId =>
      (state.ntlmResponses.get? correlationId).map fun response =>
        (response.correlationId, response.retainedSize)

/-- Pop an entry from its mapping. -/
def popNtlm (state : FlowState) : NtlmKey → FlowState
  | .challenge scope =>
      { state with ntlmChallenges := state.ntlmChallenges.erase scope }
  | .response correlationId =>
      { state with ntlmResponses := state.ntlmResponses.erase correlationId }

/-- The keys of all entries, challenges first. -/
def ntlmKeys (state : FlowState) : List NtlmKey :=
  (state.ntlmChallenges.entries.map fun entry => .challenge entry.1) ++
    state.ntlmResponses.entries.map fun entry => .response entry.1

/-- `_oldest_state_ntlm_entry`; correlation ids are distinct. -/
def oldestNtlmKey? (state : FlowState) : Option NtlmKey :=
  let challenges := state.ntlmChallenges.entries.map fun entry =>
    (entry.2.correlationId, NtlmKey.challenge entry.1)
  let response := state.ntlmResponses.oldest?.toList.map fun correlationId =>
    (correlationId, NtlmKey.response correlationId)
  ((challenges ++ response).argmin Prod.fst).map Prod.snd

end FlowState

/-- A flow's state beside the detector, as a method with `state` sees it. -/
structure Holding where
  detector : SensitiveDetector
  state : FlowState

/-- `_remove_ntlm_entry`. -/
def removeNtlmEntry
    (key : NtlmKey)
    (holding : Holding) : Outcome Holding DetectorEvent :=
  match holding.state.ntlmEntryOf key with
  | none => .quiet holding
  | some (correlationId, retainedSize) =>
      let flowBytes := holding.state.ntlmCorrelationBytes - retainedSize
      let bytes := holding.detector.ntlmCorrelationBytes - retainedSize
      {
        state := {
          detector := {
            holding.detector with
            ntlmCorrelationIndex :=
              holding.detector.ntlmCorrelationIndex.erase correlationId
            ntlmCorrelationBytes := max 0 bytes
          }
          state := {
            holding.state.popNtlm key with
            ntlmCorrelationBytes := max 0 flowBytes
          }
        }
        events := [
          .clamped .flowNtlmCorrelationBytes flowBytes,
          .clamped .ntlmCorrelationBytes bytes
        ]
      }

namespace SensitiveDetector

/-- The state of a flow; a flow that is not kept has an empty one. -/
def stateOf (detector : SensitiveDetector) (flowId : FlowId) : FlowState :=
  (detector.flows.get? flowId).getD {}

/-- Change the state of a flow in place. -/
def reviseFlow
    (flowId : FlowId)
    (revise : FlowState → FlowState)
    (detector : SensitiveDetector) : SensitiveDetector :=
  match detector.flows.get? flowId with
  | none => detector
  | some state =>
      { detector with flows := detector.flows.set flowId (revise state) }

/-- `_remove_ntlm_entry` for a flow that is kept. -/
def removeEntry
    (flowId : FlowId)
    (key : NtlmKey)
    (detector : SensitiveDetector) :
    Outcome SensitiveDetector DetectorEvent :=
  match detector.flows.get? flowId with
  | none => .quiet detector
  | some state =>
      (removeNtlmEntry key ⟨detector, state⟩).bind fun holding =>
        .quiet { holding.detector with
          flows := holding.detector.flows.set flowId holding.state }

/-! ## Dropping flows -/

/-- `_drop_flow`. -/
def dropFlow
    (flowId : FlowId)
    (detector : SensitiveDetector) :
    Outcome SensitiveDetector DetectorEvent :=
  match detector.flows.get? flowId with
  | none => .quiet detector
  | some state =>
      let counts := state.flowProvenanceCounts
      let popped := {
        detector with
        flows := detector.flows.erase flowId
        retainedTailBytes := detector.retainedTailBytes - state.tailBytes
        pendingAuthBytes :=
          detector.pendingAuthBytes - state.pendingAuthBytes
        pendingAuthObjects :=
          detector.pendingAuthObjects - state.pendingAuthObjects
        provenance := {
          spans := detector.provenance.spans - counts.spans
          packetIdRefs :=
            detector.provenance.packetIdRefs - counts.packetIdRefs
        }
      }
      (runAll removeNtlmEntry state.ntlmKeys ⟨popped, state⟩).bind
        fun emptied =>
          let bare := emptied.detector
          {
            state := {
              bare with
              retainedTailBytes := max 0 bare.retainedTailBytes
              metadataEntries :=
                max 0 (bare.metadataEntries - state.metadataEntries)
              provenance := {
                spans := max 0 bare.provenance.spans
                packetIdRefs := max 0 bare.provenance.packetIdRefs
              }
              pendingAuthBytes := max 0 bare.pendingAuthBytes
              pendingAuthObjects := max 0 bare.pendingAuthObjects
            }
            events := [
              .clamped .retainedTailBytes bare.retainedTailBytes,
              .clamped .pendingAuthBytes bare.pendingAuthBytes,
              .clamped .pendingAuthObjects bare.pendingAuthObjects,
              .dropped flowId
            ]
          }

/-- Drop the oldest flow. -/
def dropOldest
    (detector : SensitiveDetector) :
    Outcome (SensitiveDetector × Bool) DetectorEvent :=
  match detector.flows.oldest? with
  | none => .quiet (detector, false)
  | some oldest =>
      (dropFlow oldest detector).bind fun rest => .quiet (rest, true)

/-- Drop the oldest flow other than the current one, which is moved away. -/
def dropOldestOther
    (current : FlowId)
    (detector : SensitiveDetector) :
    Outcome (SensitiveDetector × Bool) DetectorEvent :=
  if detector.flows.oldest? = some current then
    dropOldest { detector with flows := detector.flows.moveToEnd current }
  else
    dropOldest detector

/-- `while over_cap() and len(self._flows) > 1`, dropping other flows. -/
def dropOthersWhile
    (exceeds : SensitiveDetector → Bool)
    (current : FlowId)
    (detector : SensitiveDetector) :
    Outcome SensitiveDetector DetectorEvent :=
  whileSucceeds
    (fun next => exceeds next && decide (1 < next.flows.size))
    (dropOldestOther current)
    (detector.flows.size + 1)
    detector

/-- `len(self._flows) >= self.max_flows`. -/
def flowTableFull
    (limits : DetectorLimits)
    (detector : SensitiveDetector) : Bool :=
  decide (limits.maxFlows ≤ detector.flows.size)

/-- `_flow_state`, at a monotonic clock reading. -/
def openFlow
    (limits : DetectorLimits)
    (clock : Int)
    (flowId : FlowId)
    (detector : SensitiveDetector) :
    Outcome SensitiveDetector DetectorEvent :=
  match detector.flows.get? flowId with
  | none =>
      (whileSucceeds (flowTableFull limits) dropOldest
          (detector.flows.size + 1) detector).bind fun roomy =>
        .quiet { roomy with
          flows := roomy.flows.set flowId { lastActivityNs := clock } }
  | some state =>
      .quiet { detector with
        flows :=
          (detector.flows.moveToEnd flowId).set flowId
            { state with lastActivityNs := clock } }

/-! ## High-water marks -/

/-- `self._metadata_entries >= self.max_metadata_entries`. -/
def metadataFull
    (limits : DetectorLimits)
    (detector : SensitiveDetector) : Bool :=
  decide ((limits.maxMetadataEntries : Int) ≤ detector.metadataEntries)

/-- `_reserve_metadata_entry`. -/
def reserveMetadataEntry
    (limits : DetectorLimits)
    (current : FlowId)
    (detector : SensitiveDetector) :
    Outcome (SensitiveDetector × Bool) DetectorEvent :=
  (dropOthersWhile (metadataFull limits) current detector).bind fun next =>
    if metadataFull limits next then
      .quiet (next, false)
    else
      .quiet
        ({ next with metadataEntries := next.metadataEntries + 1 }, true)

/-- `_set_highwater`, for the mapping that two functions read and write. -/
def setHighwater
    (limits : DetectorLimits)
    (current : FlowId)
    (previous : FlowState → Option Marker)
    (assign : FlowState → FlowState)
    (marker : Marker)
    (detector : SensitiveDetector) :
    Outcome (SensitiveDetector × Bool) DetectorEvent :=
  match previous (detector.stateOf current) with
  | some before =>
      if before.before marker then
        .quiet (detector.reviseFlow current assign, true)
      else
        .quiet (detector, false)
  | none =>
      (reserveMetadataEntry limits current detector).bind fun answer =>
        if answer.2 then
          .quiet (answer.1.reviseFlow current assign, true)
        else
          .quiet (answer.1, false)

/-! ## Room for NTLM entries -/

/-- The index entry of the oldest NTLM entry belongs to a flow dropped. -/
def staleIndexEntry (detector : SensitiveDetector) : Bool :=
  match detector.ntlmCorrelationIndex.entries.head? with
  | none => false
  | some (_, flowId, _) => (detector.flows.get? flowId).isNone

/-- `self._ntlm_correlation_index.popitem(last=False)`. -/
def popIndex
    (detector : SensitiveDetector) :
    Outcome (SensitiveDetector × Bool) DetectorEvent :=
  match detector.ntlmCorrelationIndex.oldest? with
  | none => .quiet (detector, false)
  | some correlationId =>
      .quiet
        ({ detector with
            ntlmCorrelationIndex :=
              detector.ntlmCorrelationIndex.erase correlationId },
          true)

/-- `_evict_oldest_ntlm_entry`. -/
def evictOldestNtlmEntry
    (detector : SensitiveDetector) :
    Outcome (SensitiveDetector × Bool) DetectorEvent :=
  (whileSucceeds staleIndexEntry popIndex
      (detector.ntlmCorrelationIndex.size + 1) detector).bind fun next =>
    match next.ntlmCorrelationIndex.entries.head? with
    | none => .quiet (next, false)
    | some (_, flowId, key) =>
        (next.removeEntry flowId key).bind fun rest =>
          .quiet (rest, ((next.stateOf flowId).ntlmEntryOf key).isSome)

/-- Evict the oldest NTLM entry of one flow. -/
def evictOldestOfFlow
    (flowId : FlowId)
    (detector : SensitiveDetector) :
    Outcome (SensitiveDetector × Bool) DetectorEvent :=
  match (detector.stateOf flowId).oldestNtlmKey? with
  | none => .quiet (detector, false)
  | some key =>
      (detector.removeEntry flowId key).bind fun rest =>
        .quiet (rest, true)

/-- A flow has no room for another NTLM entry of this size. -/
def flowNtlmFull
    (limits : DetectorLimits)
    (flowId : FlowId)
    (retainedSize : Nat)
    (detector : SensitiveDetector) : Bool :=
  let state := detector.stateOf flowId
  decide
      (limits.maxNtlmCorrelationObjectsPerFlow ≤ state.ntlmObjects) ||
    decide
      ((limits.maxNtlmCorrelationBytesPerFlow : Int) <
        state.ntlmCorrelationBytes + retainedSize)

/-- The detector has no room for another NTLM entry of this size. -/
def ntlmFull
    (limits : DetectorLimits)
    (retainedSize : Nat)
    (detector : SensitiveDetector) : Bool :=
  decide
      (limits.maxNtlmCorrelationObjects ≤
        detector.ntlmCorrelationIndex.size) ||
    decide
      ((limits.maxNtlmCorrelationBytes : Int) <
        detector.ntlmCorrelationBytes + retainedSize)

/-- The NTLM entries of all flows. -/
def ntlmObjects (detector : SensitiveDetector) : Nat :=
  detector.flows.total fun _ state => state.ntlmObjects

/-- `_reserve_ntlm_entry`. -/
def reserveNtlmEntry
    (limits : DetectorLimits)
    (flowId : FlowId)
    (retainedSize : Nat)
    (detector : SensitiveDetector) :
    Outcome (SensitiveDetector × Bool) DetectorEvent :=
  if limits.maxNtlmCorrelationBytesPerFlow < retainedSize ∨
      limits.maxNtlmCorrelationBytes < retainedSize then
    .quiet (detector, false)
  else
    (whileSucceeds (flowNtlmFull limits flowId retainedSize)
        (evictOldestOfFlow flowId)
        ((detector.stateOf flowId).ntlmObjects + 1) detector).bind
      fun next =>
        (whileSucceeds (ntlmFull limits retainedSize) evictOldestNtlmEntry
            (next.ntlmObjects + 1) next).bind fun roomy =>
          .quiet
            (roomy,
              !(flowNtlmFull limits flowId retainedSize roomy ||
                ntlmFull limits retainedSize roomy))

/-- Keep an entry under the next correlation id. -/
def storeEntry
    (flowId : FlowId)
    (key : NtlmKey)
    (retainedSize : Nat)
    (store : FlowState → FlowState)
    (detector : SensitiveDetector) : SensitiveDetector :=
  match detector.flows.get? flowId with
  | none => detector
  | some state =>
      { detector with
        flows :=
          detector.flows.set flowId {
            store state with
            ntlmCorrelationBytes := state.ntlmCorrelationBytes + retainedSize
          }
        ntlmCorrelationIndex :=
          detector.ntlmCorrelationIndex.set detector.nextNtlmCorrelationId
            (flowId, key)
        nextNtlmCorrelationId := detector.nextNtlmCorrelationId + 1
        ntlmCorrelationBytes :=
          detector.ntlmCorrelationBytes + retainedSize }

/-- The end of `_retain_ntlm_challenge`, once there is room. -/
def storeChallenge
    (flowId : FlowId)
    (challenge : NtlmChallenge)
    (detector : SensitiveDetector) : SensitiveDetector :=
  let stored := {
    challenge with
    retainedSize := challenge.size
    correlationId := detector.nextNtlmCorrelationId
  }
  detector.storeEntry flowId (.challenge challenge.scope) challenge.size
    fun state => { state with
      ntlmChallenges := state.ntlmChallenges.set challenge.scope stored }

/-- `_retain_ntlm_challenge`: it takes the place of an earlier one. -/
def retainNtlmChallenge
    (limits : DetectorLimits)
    (flowId : FlowId)
    (challenge : NtlmChallenge)
    (detector : SensitiveDetector) :
    Outcome SensitiveDetector DetectorEvent :=
  (detector.removeEntry flowId (.challenge challenge.scope)).bind
    fun superseded =>
      (superseded.reserveNtlmEntry limits flowId challenge.size).bind
        fun answer =>
          if answer.2 then
            .quiet (answer.1.storeChallenge flowId challenge)
          else
            .quiet answer.1

/-- The end of `_retain_ntlm_response`, once there is room. -/
def storeResponse
    (flowId : FlowId)
    (response : NtlmResponse)
    (detector : SensitiveDetector) : SensitiveDetector :=
  let correlationId := detector.nextNtlmCorrelationId
  let stored := {
    response with
    retainedSize := response.size
    correlationId := correlationId
  }
  detector.storeEntry flowId (.response correlationId) response.size
    fun state => { state with
      ntlmResponses := state.ntlmResponses.set correlationId stored }

/-- `_retain_ntlm_response`. -/
def retainNtlmResponse
    (limits : DetectorLimits)
    (flowId : FlowId)
    (response : NtlmResponse)
    (detector : SensitiveDetector) :
    Outcome SensitiveDetector DetectorEvent :=
  (detector.reserveNtlmEntry limits flowId response.size).bind
    fun answer =>
      if answer.2 then
        .quiet (answer.1.storeResponse flowId response)
      else
        .quiet answer.1

end SensitiveDetector

end PacketAudit.Detector
