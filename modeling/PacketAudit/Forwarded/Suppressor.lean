import PacketAudit.Forwarded.Frames
import PacketAudit.Library.TableTotals
import PacketAudit.Library.Trace

namespace PacketAudit

open Library

/-!
# Matching forwarded copies to admitted ingress

`ForwardedDuplicateSuppressor`: admitted ingress frames are kept by key and
hop count, bounded in age, copies, entries and key bytes.  `plan` matches the
egress frames of a batch one to one, `commit` makes the matches final once the
batch is queued.  The matches of a plan are reported as events, at low
pressure too, where the plan record itself does not list them.
-/

/-- `(packet_id, timestamp_ns, ip_checksum)` of an ingress frame. -/
structure IngressRecord where
  packetId : Nat
  timestampNs : Int
  ipChecksum : Option Nat
  deriving Repr, DecidableEq

/-- A frame key and the hop count of the ingress. -/
abbrev MatchKey := Bytes × Nat

/-- `MAX_INGRESS_COPIES_PER_KEY`. -/
def maxIngressCopiesPerKey : Nat := 8

/-- The constructor's arguments, as it accepts them. -/
structure SuppressorLimits where
  localMac : Bytes
  maxBytes : Nat := 16 * 1024 * 1024
  maxEntries : Nat := 16384
  maxAgeNs : Nat := 2000000000
  macLength : localMac.length = 6
  maxBytesPositive : 0 < maxBytes := by decide
  maxEntriesPositive : 0 < maxEntries := by decide

/-- The fields of a suppressor that change. -/
structure Suppressor where
  accepted : OrderedTable MatchKey (List IngressRecord) := .empty
  keyBytes : Int := 0
  nextExpireNs : Int := 0
  expired : Nat := 0
  evicted : Nat := 0

/-- `DuplicatePlan`. -/
structure DuplicatePlan where
  retained : List ParsedPacket := []
  pairs : List (Nat × Nat) := []
  priorPairs : List (Nat × Nat) := []
  acceptedUses : OrderedTable MatchKey Nat := .empty
  ingress : OrderedTable MatchKey (List IngressRecord) := .empty
  pressure : Bool

/-- One match made by a plan: the copy, the ingress and how they were matched. -/
structure PlanMatch where
  packetId : Nat
  frame : ForwardedFrame
  key : MatchKey
  record : IngressRecord
  decremented : Bool
  prior : Bool
  suppressed : Bool
  deriving Repr, DecidableEq

/-- The tracker's two `RuntimeError`s, and `next` on an empty table. -/
inductive SuppressorFault where
  | changedBeforeFailureAccounting
  | changedBeforeCommit
  | noOldestEntry
  deriving Repr, DecidableEq

namespace Suppressor

variable (limits : SuppressorLimits)

/-- `_remove`. -/
def remove (suppressor : Suppressor) (key : MatchKey) : Suppressor :=
  {
    suppressor with
    accepted := suppressor.accepted.erase key
    keyBytes := suppressor.keyBytes - key.1.length
  }

/-! ## Expiry -/

/-- The condition under which an ingress is popped. -/
def isStale (nowNs : Int) (record : IngressRecord) : Bool :=
  decide ((limits.maxAgeNs : Int) < nowNs - record.timestampNs)

/-- One round of the expiry loop. -/
def expireKey
    (nowNs : Int)
    (suppressor : Suppressor)
    (key : MatchKey) : Suppressor :=
  match suppressor.accepted.get? key with
  | none => suppressor
  | some ids =>
      let fresh := ids.dropWhile (isStale limits nowNs)
      let trimmed := {
        suppressor with
        accepted := suppressor.accepted.set key fresh
        expired := suppressor.expired + (ids.length - fresh.length)
      }
      if fresh.isEmpty then trimmed.remove key else trimmed

/-- `_expire`. -/
def expire (nowNs : Int) (suppressor : Suppressor) : Suppressor :=
  if nowNs < suppressor.nextExpireNs then
    suppressor
  else
    (suppressor.accepted.entries.map Prod.fst).foldl
      (expireKey limits nowNs)
      {
        suppressor with
        nextExpireNs := nowNs + min 250000000 (limits.maxAgeNs / 4 : Nat)
      }

end Suppressor

/-! ## Planning -/

namespace DuplicatePlan

variable (limits : SuppressorLimits)

/-- `retained.append(packet)`. -/
def retain (plan : DuplicatePlan) (packet : ParsedPacket) : DuplicatePlan :=
  { plan with retained := plan.retained ++ [packet] }

/-- The ingress frames of this batch that are still unmatched under a key. -/
def localIngress (plan : DuplicatePlan) (key : MatchKey) :
    List IngressRecord :=
  (plan.ingress.get? key).getD []

/-- `accepted_uses.get(key, 0)`. -/
def uses (plan : DuplicatePlan) (key : MatchKey) : Nat :=
  (plan.acceptedUses.get? key).getD 0

/-- `ingress.setdefault(key, deque()).append(record)`. -/
def addIngress
    (plan : DuplicatePlan)
    (key : MatchKey)
    (record : IngressRecord) : DuplicatePlan :=
  {
    plan with
    ingress := plan.ingress.set key (plan.localIngress key ++ [record])
  }

/-- The age and checksum conditions for a pair. -/
def authorises
    (frame : ForwardedFrame)
    (decremented : Bool)
    (record : IngressRecord) : Bool :=
  decide (0 ≤ frame.timestampNs - record.timestampNs ∧
      frame.timestampNs - record.timestampNs ≤ limits.maxAgeNs) &&
    checksumMatches record.ipChecksum frame.ipChecksum decremented

/-- Pair a packet with the first unmatched ingress of this batch. -/
def matchLocal
    (plan : DuplicatePlan)
    (packet : ParsedPacket)
    (key : MatchKey)
    (record : IngressRecord) : DuplicatePlan :=
  let popped := {
    plan with
    ingress := plan.ingress.set key (plan.localIngress key).tail
  }
  if plan.pressure then
    {
      popped with
      pairs := popped.pairs ++ [(packet.packetId, record.packetId)]
    }
  else
    popped.retain packet

/-- Pair a packet with the next unused ingress of an earlier batch. -/
def matchPrior
    (plan : DuplicatePlan)
    (packet : ParsedPacket)
    (key : MatchKey)
    (record : IngressRecord) : DuplicatePlan :=
  let used := {
    plan with
    acceptedUses := plan.acceptedUses.set key (plan.uses key + 1)
  }
  if plan.pressure then
    let pair := (packet.packetId, record.packetId)
    {
      used with
      pairs := used.pairs ++ [pair]
      priorPairs := used.priorPairs ++ [pair]
    }
  else
    used.retain packet

/-- One round of the loop over the two possible hop counts. -/
def tryHop
    (accepted : OrderedTable MatchKey (List IngressRecord))
    (packet : ParsedPacket)
    (frame : ForwardedFrame)
    (ingressHop : Nat)
    (decremented : Bool)
    (plan : DuplicatePlan) : Option (DuplicatePlan × PlanMatch) :=
  let key := (frame.key, ingressHop)
  let found (record : IngressRecord) (prior : Bool) : PlanMatch :=
    {
      packetId := packet.packetId
      frame
      key
      record
      decremented
      prior
      suppressed := plan.pressure
    }
  match (plan.localIngress key).head?.filter
      (authorises limits frame decremented) with
  | some record =>
      some (plan.matchLocal packet key record, found record false)
  | none =>
      match (((accepted.get? key).getD [])[plan.uses key]?).filter
          (authorises limits frame decremented) with
      | some record =>
          some (plan.matchPrior packet key record, found record true)
      | none => none

/-- One round of the loop over the packets. -/
def planPacket
    (accepted : OrderedTable MatchKey (List IngressRecord))
    (frames : OrderedTable Nat ForwardedFrame)
    (packet : ParsedPacket)
    (plan : DuplicatePlan) : Outcome DuplicatePlan PlanMatch :=
  match frames.get? packet.packetId with
  | none => .quiet (plan.retain packet)
  | some frame =>
      match frame.role with
      | .ingress =>
          .quiet
            ((plan.addIngress (frame.key, frame.hopLimit)
              ⟨packet.packetId, frame.timestampNs,
                frame.ipChecksum⟩).retain packet)
      | .egress =>
          match tryHop limits accepted packet frame (frame.hopLimit + 1) true
              plan with
          | some (matched, found) => ⟨matched, [found]⟩
          | none =>
              match tryHop limits accepted packet frame frame.hopLimit false
                  plan with
              | some (matched, found) => ⟨matched, [found]⟩
              | none => .quiet (plan.retain packet)

end DuplicatePlan

namespace Suppressor

variable (limits : SuppressorLimits)

/-- `max(packet.timestamp_ns for packet in packets)`. -/
def latestTimestamp (first : ParsedPacket) (rest : List ParsedPacket) : Int :=
  rest.foldl (fun latest packet => max latest packet.timestampNs)
    first.timestampNs

/-- The expiry that `plan` begins with. -/
def expireFor
    (suppressor : Suppressor)
    (packets : List ParsedPacket) : Suppressor :=
  match packets with
  | [] => suppressor
  | first :: rest => suppressor.expire limits (latestTimestamp first rest)

/-- What `plan` returns, for the table that its expiry leaves. -/
def planned
    (suppressor : Suppressor)
    (packets : List ParsedPacket)
    (frames : OrderedTable Nat ForwardedFrame)
    (pressure : Bool) : Outcome DuplicatePlan PlanMatch :=
  runAll (DuplicatePlan.planPacket limits suppressor.accepted frames) packets
    { pressure }

/-! ## Committing -/

/-- Consume the first matches of a key. -/
def consume
    (fault : SuppressorFault)
    (suppressor : Suppressor)
    (use : MatchKey × Nat) : Except SuppressorFault Suppressor :=
  match suppressor.accepted.get? use.1 with
  | none => .error fault
  | some ids =>
      if ids.length < use.2 then
        .error fault
      else
        let rest := ids.drop use.2
        let consumed := {
          suppressor with accepted := suppressor.accepted.set use.1 rest
        }
        if rest.isEmpty then
          .ok (consumed.remove use.1)
        else
          .ok {
            consumed with accepted := consumed.accepted.moveToEnd use.1
          }

/-- `commit_prior_skips_on_failure`. -/
def commitPriorSkipsOnFailure
    (suppressor : Suppressor)
    (plan : DuplicatePlan) : Except SuppressorFault Suppressor :=
  plan.acceptedUses.entries.foldlM
    (consume .changedBeforeFailureAccounting) suppressor

/-- Drop the oldest ingress of a key until at most eight are left. -/
def trimCopies (ids : List IngressRecord) : List IngressRecord :=
  ids.drop (ids.length - maxIngressCopiesPerKey)

/-- Append the unmatched ingress frames of a key. -/
def admitIngress
    (suppressor : Suppressor)
    (added : MatchKey × List IngressRecord) : Suppressor :=
  let (key, records) := added
  if records.isEmpty ∨ limits.maxBytes < key.1.length then
    suppressor
  else
    let held :=
      match suppressor.accepted.get? key with
      | none => { suppressor with
          accepted := suppressor.accepted.set key []
          keyBytes := suppressor.keyBytes + key.1.length }
      | some _ => { suppressor with
          accepted := suppressor.accepted.moveToEnd key }
    let ids := (held.accepted.get? key).getD [] ++ records
    {
      held with
      accepted := held.accepted.set key (trimCopies ids)
      evicted := held.evicted + (ids.length - (trimCopies ids).length)
    }

/-- The condition of the eviction loop. -/
def overLimits (suppressor : Suppressor) : Bool :=
  decide (limits.maxEntries < suppressor.accepted.size) ||
    decide ((limits.maxBytes : Int) < suppressor.keyBytes)

/-- The eviction loop, for at most as many rounds as there are entries. -/
def evictWhileOverLimits :
    Nat → Suppressor → Except SuppressorFault Suppressor
  | 0, suppressor =>
      if suppressor.overLimits limits then .error .noOldestEntry
      else .ok suppressor
  | rounds + 1, suppressor =>
      if suppressor.overLimits limits then
        match suppressor.accepted.oldest? with
        | none => .error .noOldestEntry
        | some oldest =>
            let ids := (suppressor.accepted.get? oldest).getD []
            evictWhileOverLimits rounds
              ({
                suppressor with evicted := suppressor.evicted + ids.length
              }.remove oldest)
      else
        .ok suppressor

/-- `commit`. -/
def commit
    (suppressor : Suppressor)
    (plan : DuplicatePlan) : Except SuppressorFault Suppressor := do
  let consumed ←
    plan.acceptedUses.entries.foldlM (consume .changedBeforeCommit) suppressor
  let admitted := plan.ingress.entries.foldl (admitIngress limits) consumed
  admitted.evictWhileOverLimits limits admitted.accepted.size

end Suppressor

end PacketAudit
