import PacketAudit.Forwarded.Matching

namespace PacketAudit

open Library

/-!
# Dispatching a batch to a worker queue

`_dispatch_batch`: plan the forwarded duplicates of a batch, reserve its bytes
on the worker's byte counter, put it on the worker's queue and commit the
plan; or count the batch as dropped.  What the counters and the queue answer
is a parameter of each call, since the workers change them concurrently.  The
peaks, which nothing here reads, are left out.
-/

/-- The configuration that dispatch reads; `offline` is `offline_path`. -/
structure DispatchConfig where
  offline : Bool
  maxWorkerQueueBytes : Nat
  queueSize : Nat
  deriving Repr, DecidableEq

/-- The supervisor's suppressor and counters. -/
structure DispatchState where
  suppressor : Suppressor := {}
  dispatchedPackets : Nat := 0
  suppressedPackets : Nat := 0
  suppressedBytes : Int := 0
  userspaceQueueDrops : Nat := 0
  byteBudgetDroppedPackets : Nat := 0
  byteBudgetDroppedBytes : Int := 0
  slotDroppedPackets : Nat := 0

/-- `drop_reason`. -/
inductive DropReason where
  | workerQueueByteBudget
  | workerQueueSlots
  deriving Repr, DecidableEq

/-- The fields of an `analysis_queue_drop` record. -/
structure DropReport where
  firstPacketId : Nat
  lastPacketId : Nat
  packetCount : Nat
  capturedBytes : Int
  workerId : Nat
  dropReason : DropReason
  deriving Repr, DecidableEq

/-- Why a call raised. -/
inductive DispatchFault where
  | interrupted
  | putFailed
  | emptyDroppedList
  | suppressor (fault : SuppressorFault)
  deriving Repr, DecidableEq

/-- How a call ended; one that waits for capacity for ever does not. -/
inductive DispatchEnding where
  | returned
  | raised (fault : DispatchFault)
  | waiting
  deriving Repr, DecidableEq

/-- What a call did to the packets of its batch. -/
inductive DispatchEvent where
  | queued
      (shard : Nat)
      (packet : ParsedPacket)
      (frame : Option ForwardedFrame)
  | matched (found : PlanMatch)
  | dropped (packet : ParsedPacket)
  | reported (report : DropReport)
  | ended (ending : DispatchEnding)
  deriving Repr, DecidableEq

/-- One attempt to reserve bytes, and whether waiting after it is ended. -/
structure ReserveAttempt where
  counter : Nat
  interrupted : Bool
  deriving Repr, DecidableEq

/-- One attempt to put the batch on the queue. -/
inductive PutAttempt where
  | accepted
  | full (interrupted : Bool)
  | failed
  deriving Repr, DecidableEq

/-- What a call reads from the counters and gets from the queue. -/
structure QueueConditions where
  counter : Nat
  batchCounter : Nat
  reserve : List ReserveAttempt
  put : List PutAttempt
  deriving Repr, DecidableEq

/-- `sum(max(0, int(packet.captured_length)) for packet in packets)`. -/
def batchBytes (packets : List ParsedPacket) : Nat :=
  (packets.map ParsedPacket.capturedLength).sum

namespace DispatchConfig

variable (config : DispatchConfig)

/-- The counter after a reservation, unless it would exceed the budget. -/
def reserveBytes (counter bytes : Nat) : Option Nat :=
  let nextBytes := counter + bytes
  if config.maxWorkerQueueBytes < nextBytes then none else some nextBytes

/-- How waiting for a reservation ends. -/
inductive Reservation where
  | reserved
  | refused
  | interrupted
  | waiting
  deriving Repr, DecidableEq

/-- The reservation loop. -/
def reserve (bytes : Nat) : List ReserveAttempt → Reservation
  | [] => .waiting
  | attempt :: later =>
      match config.reserveBytes attempt.counter bytes with
      | some _ => .reserved
      | none =>
          if !config.offline ∨ config.maxWorkerQueueBytes < bytes then
            .refused
          else if attempt.interrupted then
            .interrupted
          else
            reserve bytes later

/-- How putting the batch on the queue ends. -/
inductive Put where
  | accepted
  | full
  | failed (fault : DispatchFault)
  | waiting
  deriving Repr, DecidableEq

/-- The put: one attempt live, a loop offline. -/
def put : List PutAttempt → Put
  | [] => .waiting
  | .accepted :: _ => .accepted
  | .failed :: _ => .failed .putFailed
  | .full interrupted :: later =>
      if !config.offline then .full
      else if interrupted then .failed .interrupted
      else put later

/-- Whether the backlog of the shard is large enough to suppress. -/
def pressure (conditions : QueueConditions) (originalBytes : Nat) : Bool :=
  decide (max 1048576 (config.maxWorkerQueueBytes / 20) ≤
      conditions.counter + originalBytes) ||
    decide (max 1 (config.queueSize / 20) ≤ conditions.batchCounter)

end DispatchConfig

/-- The locals of a call once its duplicates are planned. -/
structure Admission where
  shard : Nat
  original : List ParsedPacket
  frames : OrderedTable Nat ForwardedFrame
  plan : Option (SuppressorLimits × Outcome DuplicatePlan PlanMatch)

namespace Admission

/-- `packets`: the batch, or what the plan retains of it. -/
def packets (admission : Admission) : List ParsedPacket :=
  match admission.plan with
  | none => admission.original
  | some (_, planned) => planned.state.retained

/-- The events of the packets that were put on the queue. -/
def queuedEvents (admission : Admission) : List DispatchEvent :=
  admission.packets.map fun packet =>
    .queued admission.shard packet (admission.frames.get? packet.packetId)

end Admission

/-- A state with the events of a call and its ending. -/
def finish
    (state : DispatchState)
    (events : List DispatchEvent)
    (ending : DispatchEnding) : Outcome DispatchState DispatchEvent where
  state := state
  events := events ++ [.ended ending]

/-- What `failed_admission_packets` returns and does. -/
structure FailedAdmission where
  state : DispatchState
  dropped : List ParsedPacket
  droppedBytes : Int
  skips : List PlanMatch

/-- `failed_admission_packets`. -/
def failedAdmissionPackets
    (admission : Admission)
    (state : DispatchState) : Except SuppressorFault FailedAdmission :=
  match admission.plan with
  | none =>
      .ok {
        state
        dropped := admission.original
        droppedBytes := batchBytes admission.original
        skips := []
      }
  | some (_, planned) => do
      let suppressor ←
        state.suppressor.commitPriorSkipsOnFailure planned.state
      let committed := { state with suppressor }
      let skips := planned.events.filter fun found => found.prior
      if planned.state.priorPairs.isEmpty then
        pure {
          state := committed
          dropped := admission.original
          droppedBytes := batchBytes admission.original
          skips
        }
      else
        let priorIds := (planned.state.priorPairs.map Prod.fst).dedup
        let skippedBytes : Int :=
          batchBytes (admission.original.filter fun packet =>
            packet.packetId ∈ priorIds)
        pure {
          state := {
            committed with
            suppressedPackets := state.suppressedPackets + priorIds.length
            suppressedBytes := state.suppressedBytes + skippedBytes
          }
          dropped := admission.original.filter fun packet =>
            packet.packetId ∉ priorIds
          droppedBytes := batchBytes admission.original - skippedBytes
          skips
        }

/-- The counters that the two failure branches add to. -/
def countDropped
    (reason : DropReason)
    (failed : FailedAdmission) : DispatchState :=
  let count := failed.dropped.length
  match reason with
  | .workerQueueByteBudget => {
      failed.state with
      userspaceQueueDrops := failed.state.userspaceQueueDrops + count
      byteBudgetDroppedPackets :=
        failed.state.byteBudgetDroppedPackets + count
      byteBudgetDroppedBytes :=
        failed.state.byteBudgetDroppedBytes + failed.droppedBytes
    }
  | .workerQueueSlots => {
      failed.state with
      userspaceQueueDrops := failed.state.userspaceQueueDrops + count
      slotDroppedPackets := failed.state.slotDroppedPackets + count
    }

/-- The operational record of the two failure branches. -/
def dropReport
    (admission : Admission)
    (reason : DropReason)
    (failed : FailedAdmission)
    (first last : ParsedPacket) : DropReport where
  firstPacketId := first.packetId
  lastPacketId := last.packetId
  packetCount := failed.dropped.length
  capturedBytes := failed.droppedBytes
  workerId := admission.shard
  dropReason := reason

/-- The two failure branches. -/
def dropBatch
    (admission : Admission)
    (reason : DropReason)
    (state : DispatchState) : Outcome DispatchState DispatchEvent :=
  match failedAdmissionPackets admission state with
  | .error fault => finish state [] (.raised (.suppressor fault))
  | .ok failed =>
      let counted := countDropped reason failed
      let events :=
        failed.skips.map DispatchEvent.matched ++
          failed.dropped.map DispatchEvent.dropped
      match failed.dropped.head?, failed.dropped.getLast? with
      | some first, some last =>
          finish counted
            (events ++
              [.reported (dropReport admission reason failed first last)])
            .returned
      | _, _ => finish counted events (.raised .emptyDroppedList)

/-- The branch in which the batch was put on the queue. -/
def admitBatch
    (admission : Admission)
    (state : DispatchState) : Outcome DispatchState DispatchEvent :=
  let dispatched := {
    state with
    dispatchedPackets := state.dispatchedPackets + admission.packets.length
  }
  match admission.plan with
  | none => finish dispatched admission.queuedEvents .returned
  | some (limits, planned) =>
      match dispatched.suppressor.commit limits planned.state with
      | .error fault =>
          finish dispatched admission.queuedEvents
            (.raised (.suppressor fault))
      | .ok suppressor =>
          finish
            {
              dispatched with
              suppressor
              suppressedPackets :=
                state.suppressedPackets + planned.state.pairs.length
              suppressedBytes :=
                state.suppressedBytes +
                  ((batchBytes admission.original : Int) -
                    batchBytes admission.packets)
            }
            (admission.queuedEvents ++
              planned.events.map DispatchEvent.matched)
            .returned

/-- From the reservation on. -/
def reserveAndPut
    (config : DispatchConfig)
    (conditions : QueueConditions)
    (admission : Admission)
    (state : DispatchState) : Outcome DispatchState DispatchEvent :=
  match config.reserve (batchBytes admission.packets) conditions.reserve with
  | .waiting => finish state [] .waiting
  | .interrupted => finish state [] (.raised .interrupted)
  | .refused => dropBatch admission .workerQueueByteBudget state
  | .reserved =>
      match config.put conditions.put with
      | .waiting => finish state [] .waiting
      | .failed fault => finish state [] (.raised fault)
      | .full => dropBatch admission .workerQueueSlots state
      | .accepted => admitBatch admission state

/-- The branch in which nothing is retained: every packet is skipped. -/
def skipBatch
    (limits : SuppressorLimits)
    (packets : List ParsedPacket)
    (planned : Outcome DuplicatePlan PlanMatch)
    (state : DispatchState) : Outcome DispatchState DispatchEvent :=
  match state.suppressor.commit limits planned.state with
  | .error fault => finish state [] (.raised (.suppressor fault))
  | .ok suppressor =>
      finish
        {
          state with
          suppressor
          suppressedPackets :=
            state.suppressedPackets + planned.state.pairs.length
          suppressedBytes := state.suppressedBytes + batchBytes packets
        }
        (planned.events.map DispatchEvent.matched)
        .returned

/-- The arguments of a call and what it meets. -/
structure DispatchCall where
  shard : Nat
  packets : List ParsedPacket
  frames : OrderedTable Nat ForwardedFrame := .empty
  conditions : QueueConditions

/-- `_dispatch_batch`, with or without an active suppressor. -/
def dispatchBatch
    (config : DispatchConfig)
    (suppressing : Option SuppressorLimits)
    (call : DispatchCall)
    (state : DispatchState) : Outcome DispatchState DispatchEvent :=
  if call.packets.isEmpty then
    finish state [] .returned
  else
    match suppressing with
    | none =>
        reserveAndPut config call.conditions
          ⟨call.shard, call.packets, call.frames, none⟩ state
    | some limits =>
        let suppressor := state.suppressor.expireFor limits call.packets
        let planned :=
          suppressor.planned limits call.packets call.frames
            (config.pressure call.conditions (batchBytes call.packets))
        let expired := { state with suppressor }
        if planned.state.retained.isEmpty then
          skipBatch limits call.packets planned expired
        else
          reserveAndPut config call.conditions
            {
              shard := call.shard
              original := call.packets
              frames := call.frames
              plan := some (limits, planned)
            }
            expired

/-- A sequence of calls. -/
def dispatchAll
    (config : DispatchConfig)
    (suppressing : Option SuppressorLimits) :
    List DispatchCall → DispatchState →
      Outcome DispatchState DispatchEvent :=
  runAll (dispatchBatch config suppressing)

end PacketAudit
