import PacketAudit.Supervisor.Pairing

namespace PacketAudit

open Library

/-!
# Reserving room on a worker queue

The supervisor and a worker share a bounded queue and two counters.  The
supervisor adds a batch to both counters before it puts the batch on the
queue, and takes it off again when the put or the commit that follows it
raises; the worker takes it off when it has processed the batch, whether that
raised or not.  Every access to a counter holds its lock, so it is one step of
the relation below.
-/

/-- `_release_reserved_queue_units`. -/
def releaseReservedQueueUnits (counter reservedUnits : Int) : Int :=
  if reservedUnits ≤ 0 then counter else max 0 (counter - reservedUnits)

/-- The subtraction in the two roll-back branches of `_dispatch_batch`. -/
def rollBackUnits (counter reservedUnits : Int) : Int :=
  max 0 (counter - reservedUnits)

/-- What `_dispatch_batch` has computed when it comes to reserve bytes. -/
def prepareAdmission
    (config : DispatchConfig)
    (suppressing : Option SuppressorLimits)
    (call : DispatchCall)
    (state : DispatchState) : DispatchState × Admission :=
  match suppressing with
  | none => (state, ⟨call.shard, call.packets, call.frames, none⟩)
  | some limits =>
      let suppressor := state.suppressor.expireFor limits call.packets
      let planned :=
        suppressor.planned limits call.packets call.frames
          (config.pressure call.conditions (batchBytes call.packets))
      ({ state with suppressor },
        ⟨call.shard, call.packets, call.frames, some (limits, planned)⟩)

/-- The call goes on with the prepared admission, if it retains a packet. -/
theorem dispatchBatch_eq_reserveAndPut
    {config : DispatchConfig}
    {suppressing : Option SuppressorLimits}
    {call : DispatchCall}
    {state : DispatchState}
    (retains :
      (prepareAdmission config suppressing call state).2.packets ≠ []) :
    dispatchBatch config suppressing call state =
      reserveAndPut config call.conditions
        (prepareAdmission config suppressing call state).2
        (prepareAdmission config suppressing call state).1 := by
  have nonempty : call.packets ≠ [] := by
    rintro isEmpty
    cases suppressing with
    | none =>
        exact retains isEmpty
    | some limits =>
        apply retains
        simp [prepareAdmission, Admission.packets, isEmpty,
          Suppressor.planned]
  unfold dispatchBatch
  rw [if_neg (by simpa using nonempty)]
  cases suppressing with
  | none =>
      rfl
  | some limits =>
      simp only [prepareAdmission, Admission.packets] at retains ⊢
      rw [if_neg (by simpa using retains)]

/-- The prepared admission is planned for the prepared suppressor. -/
theorem prepareAdmission_planned
    (config : DispatchConfig)
    (suppressing : Option SuppressorLimits)
    (call : DispatchCall)
    (state : DispatchState) :
    ∃ made,
      (prepareAdmission config suppressing call state).2.Planned suppressing
        (prepareAdmission config suppressing call state).1.suppressor
        made := by
  cases suppressing with
  | none =>
      exact ⟨[], .inactive rfl rfl rfl⟩
  | some limits =>
      exact ⟨_, .active rfl rfl (PlannedFrom.planned _ _)⟩

/-- Preparing an admission keeps the suppressor within its limits. -/
theorem prepareAdmission_bounded
    (config : DispatchConfig)
    {limits : SuppressorLimits}
    (call : DispatchCall)
    {state : DispatchState}
    (bounded : state.suppressor.Bounded limits) :
    (prepareAdmission config (some limits) call state).1.suppressor.Bounded
      limits :=
  (Suppressor.keepsLess_expireFor _ _).bounded bounded

/-- A batch with its reserved bytes; the number tells batches apart. -/
structure ReservedBatch where
  number : Nat
  bytes : Nat
  deriving Repr, DecidableEq

/-- What the queue holds: a batch, or the sentinel that stops the worker. -/
inductive QueueItem where
  | reserved (batch : ReservedBatch)
  | stopSentinel
  deriving Repr, DecidableEq

/-- Where `_dispatch_batch` stands with a batch of this queue. -/
inductive ProducerPhase where
  | idle
  | bytesReserved (batch : ReservedBatch) (admission : Admission)
  | putting (batch : ReservedBatch) (admission : Admission)
  | committing (batch : ReservedBatch) (admission : Admission)
  | bytesRolledBack (batch : ReservedBatch) (admission : Admission)

/-- Where the worker loop stands; `raising` tells whether processing raised. -/
inductive WorkerPhase where
  | idle
  | processing (batch : ReservedBatch)
  | bytesReleased (batch : ReservedBatch) (raising : Bool)
  | exited
  deriving Repr, DecidableEq

/-- The shared queue and counters, and both parties. -/
structure QueueState where
  supervisor : DispatchState := {}
  producer : ProducerPhase := .idle
  worker : WorkerPhase := .idle
  queue : List QueueItem := []
  byteCounter : Int := 0
  batchCounter : Int := 0
  nextNumber : Nat := 0

/-- What a step reports. -/
inductive QueueEvent where
  | subtracted (counter reservedUnits : Int)
  | released (batch : ReservedBatch)
  | rolledBack (batch : ReservedBatch)
  deriving Repr, DecidableEq

/-- One step of the supervisor or of the worker. -/
inductive QueueStep
    (config : DispatchConfig)
    (suppressing : Option SuppressorLimits) :
    QueueState → List QueueEvent → QueueState → Prop where
  /-- A call for another queue, or one that reserves nothing here. -/
  | dispatchElsewhere
      {state : QueueState}
      (isIdle : state.producer = .idle)
      (call : DispatchCall) :
      QueueStep config suppressing state [] {
        state with
        supervisor :=
          (dispatchBatch config suppressing call state.supervisor).state
      }
  /-- The reservation succeeds. -/
  | reserve
      {state : QueueState}
      {call : DispatchCall}
      {prepared : DispatchState}
      {admission : Admission}
      {nextBytes : Nat}
      (isIdle : state.producer = .idle)
      (prepares :
        prepareAdmission config suppressing call state.supervisor =
          (prepared, admission))
      (retains : admission.packets ≠ [])
      (reserves :
        config.reserveBytes state.byteCounter.toNat
          (batchBytes admission.packets) = some nextBytes) :
      QueueStep config suppressing state [] {
        state with
        supervisor := prepared
        producer :=
          .bytesReserved
            ⟨state.nextNumber, batchBytes admission.packets⟩ admission
        byteCounter := nextBytes
        nextNumber := state.nextNumber + 1
      }
  /-- `batch_counter.value += 1`. -/
  | count
      {state : QueueState}
      {batch : ReservedBatch}
      {admission : Admission}
      (isReserved : state.producer = .bytesReserved batch admission) :
      QueueStep config suppressing state [] {
        state with
        producer := .putting batch admission
        batchCounter := state.batchCounter + 1
      }
  /-- The put succeeds. -/
  | put
      {state : QueueState}
      {batch : ReservedBatch}
      {admission : Admission}
      (isPutting : state.producer = .putting batch admission)
      (hasRoom : state.queue.length < config.queueSize) :
      QueueStep config suppressing state [] {
        state with
        producer := .committing batch admission
        queue := state.queue ++ [.reserved batch]
      }
  /-- The rest of the `try` block returns. -/
  | commit
      {state : QueueState}
      {batch : ReservedBatch}
      {admission : Admission}
      (isCommitting : state.producer = .committing batch admission)
      (returns :
        .ended .returned ∈ (admitBatch admission state.supervisor).events) :
      QueueStep config suppressing state [] {
        state with
        producer := .idle
        supervisor := (admitBatch admission state.supervisor).state
      }
  /-- The put raises. -/
  | putRaises
      {state : QueueState}
      {batch : ReservedBatch}
      {admission : Admission}
      (isPutting : state.producer = .putting batch admission) :
      QueueStep config suppressing state
        [.subtracted state.byteCounter batch.bytes, .rolledBack batch] {
        state with
        producer := .bytesRolledBack batch admission
        byteCounter := rollBackUnits state.byteCounter batch.bytes
      }
  /-- The rest of the `try` block raises. -/
  | commitRaises
      {state : QueueState}
      {batch : ReservedBatch}
      {admission : Admission}
      {fault : DispatchFault}
      (isCommitting : state.producer = .committing batch admission)
      (raises :
        .ended (.raised fault) ∈
          (admitBatch admission state.supervisor).events) :
      QueueStep config suppressing state
        [.subtracted state.byteCounter batch.bytes, .rolledBack batch] {
        state with
        producer := .bytesRolledBack batch admission
        supervisor := (admitBatch admission state.supervisor).state
        byteCounter := rollBackUnits state.byteCounter batch.bytes
      }
  /-- The second half of a roll-back; on `queue.Full` the drop follows. -/
  | rollBackBatch
      {state : QueueState}
      {batch : ReservedBatch}
      {admission : Admission}
      (isRolledBack : state.producer = .bytesRolledBack batch admission)
      (full : Bool) :
      QueueStep config suppressing state
        [.subtracted state.batchCounter 1] {
        state with
        producer := .idle
        supervisor :=
          if full then
            (dropBatch admission .workerQueueSlots state.supervisor).state
          else
            state.supervisor
        batchCounter := rollBackUnits state.batchCounter 1
      }
  /-- The sentinel is put at shutdown. -/
  | putSentinel
      {state : QueueState}
      (isIdle : state.producer = .idle)
      (hasRoom : state.queue.length < config.queueSize) :
      QueueStep config suppressing state [] {
        state with queue := state.queue ++ [.stopSentinel]
      }
  /-- The worker gets a batch. -/
  | get
      {state : QueueState}
      {batch : ReservedBatch}
      {rest : List QueueItem}
      (isIdle : state.worker = .idle)
      (isFirst : state.queue = .reserved batch :: rest) :
      QueueStep config suppressing state [] {
        state with
        worker := .processing batch
        queue := rest
      }
  /-- The worker gets the sentinel. -/
  | stop
      {state : QueueState}
      {rest : List QueueItem}
      (isIdle : state.worker = .idle)
      (isFirst : state.queue = .stopSentinel :: rest) :
      QueueStep config suppressing state [] {
        state with
        worker := .exited
        queue := rest
      }
  /-- The batch was processed, or processing it raised. -/
  | releaseBytes
      {state : QueueState}
      {batch : ReservedBatch}
      (isProcessing : state.worker = .processing batch)
      (raising : Bool) :
      QueueStep config suppressing state
        [.subtracted state.byteCounter batch.bytes, .released batch] {
        state with
        worker := .bytesReleased batch raising
        byteCounter :=
          releaseReservedQueueUnits state.byteCounter batch.bytes
      }
  | releaseBatch
      {state : QueueState}
      {batch : ReservedBatch}
      {raising : Bool}
      (isReleased : state.worker = .bytesReleased batch raising) :
      QueueStep config suppressing state
        [.subtracted state.batchCounter 1] {
        state with
        worker := if raising then .exited else .idle
        batchCounter := releaseReservedQueueUnits state.batchCounter 1
      }
  /-- `_check_children` starts a new worker on the same queue. -/
  | restart
      {state : QueueState}
      (hasExited : state.worker = .exited) :
      QueueStep config suppressing state [] { state with worker := .idle }

/-! ## Batches in flight -/

/-- The batch of a queue item. -/
def QueueItem.batch? : QueueItem → Option ReservedBatch
  | .reserved batch => some batch
  | .stopSentinel => none

/-- The batch whose bytes the supervisor has reserved but not put. -/
def ProducerPhase.holdsBytes : ProducerPhase → List ReservedBatch
  | .bytesReserved batch _ => [batch]
  | .putting batch _ => [batch]
  | _ => []

/-- The batch that the supervisor has counted but not put. -/
def ProducerPhase.holdsSlot : ProducerPhase → List ReservedBatch
  | .putting batch _ => [batch]
  | .bytesRolledBack batch _ => [batch]
  | _ => []

/-- The batch whose bytes the worker has not released. -/
def WorkerPhase.holdsBytes : WorkerPhase → List ReservedBatch
  | .processing batch => [batch]
  | _ => []

/-- The batch that the worker has not taken off the batch counter. -/
def WorkerPhase.holdsSlot : WorkerPhase → List ReservedBatch
  | .processing batch => [batch]
  | .bytesReleased batch _ => [batch]
  | _ => []

/-- The admission that the supervisor is busy with. -/
def ProducerPhase.admission? : ProducerPhase → Option Admission
  | .idle => none
  | .bytesReserved _ admission => some admission
  | .putting _ admission => some admission
  | .committing _ admission => some admission
  | .bytesRolledBack _ admission => some admission

/-- The batches of a queue. -/
def queuedBatches (queue : List QueueItem) : List ReservedBatch :=
  queue.filterMap QueueItem.batch?

namespace QueueState

/-- The batches between their byte reservation and its end. -/
def byteReservations (state : QueueState) : List ReservedBatch :=
  state.producer.holdsBytes ++ queuedBatches state.queue ++
    state.worker.holdsBytes

/-- The batches between their increment and their decrement. -/
def slotReservations (state : QueueState) : List ReservedBatch :=
  state.producer.holdsSlot ++ queuedBatches state.queue ++
    state.worker.holdsSlot

end QueueState

/-- The bytes of several batches. -/
def reservedBytes (batches : List ReservedBatch) : Nat :=
  (batches.map ReservedBatch.bytes).sum

/-- The batches that were released or rolled back. -/
def closedBatches (events : List QueueEvent) : List ReservedBatch :=
  events.filterMap fun
    | .released batch => some batch
    | .rolledBack batch => some batch
    | .subtracted _ _ => none

/-- No subtraction goes below zero. -/
def NeverClamped (events : List QueueEvent) : Prop :=
  ∀ counter reservedUnits,
    .subtracted counter reservedUnits ∈ events → reservedUnits ≤ counter

end PacketAudit
