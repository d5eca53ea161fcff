import PacketAudit.Supervisor.Reservations

namespace PacketAudit

open Library

/-!
# Reservations in every run

Along every interleaving the two counters are exact: each holds what the
batches between its increment and its decrement add up to, and every batch
that was ever reserved is still open or was closed once.
-/

@[simp] theorem queuedBatches_append
    (first second : List QueueItem) :
    queuedBatches (first ++ second) =
      queuedBatches first ++ queuedBatches second :=
  List.filterMap_append

@[simp] theorem queuedBatches_reserved
    (batch : ReservedBatch)
    (rest : List QueueItem) :
    queuedBatches (.reserved batch :: rest) =
      batch :: queuedBatches rest := rfl

@[simp] theorem queuedBatches_stopSentinel
    (rest : List QueueItem) :
    queuedBatches (.stopSentinel :: rest) = queuedBatches rest := rfl

@[simp] theorem queuedBatches_nil :
    queuedBatches [] = [] := rfl

theorem queuedBatches_length_le
    (queue : List QueueItem) :
    (queuedBatches queue).length ≤ queue.length :=
  List.length_filterMap_le _ _

@[simp] theorem closedBatches_append
    (first second : List QueueEvent) :
    closedBatches (first ++ second) =
      closedBatches first ++ closedBatches second :=
  List.filterMap_append

theorem reservedBytes_perm
    {first second : List ReservedBatch}
    (perm : first.Perm second) :
    reservedBytes first = reservedBytes second :=
  (perm.map _).sum_eq

@[simp] theorem reservedBytes_cons
    (batch : ReservedBatch)
    (rest : List ReservedBatch) :
    reservedBytes (batch :: rest) = batch.bytes + reservedBytes rest := rfl

theorem NeverClamped.append
    {first second : List QueueEvent}
    (earlier : NeverClamped first)
    (later : NeverClamped second) :
    NeverClamped (first ++ second) := by
  intro counter reservedUnits member
  rcases List.mem_append.mp member with isEarlier | isLater
  · exact earlier _ _ isEarlier
  · exact later _ _ isLater

theorem ProducerPhase.holdsSlot_length_le
    (phase : ProducerPhase) :
    phase.holdsSlot.length ≤ 1 := by
  cases phase <;> simp [holdsSlot]

theorem WorkerPhase.holdsSlot_length_le
    (phase : WorkerPhase) :
    phase.holdsSlot.length ≤ 1 := by
  cases phase <;> simp [holdsSlot]

/-- A worker between two batches holds none, whether it still runs. -/
theorem WorkerPhase.holdsBytes_afterBatch (raising : Bool) :
    (if raising then exited else idle).holdsBytes = [] := by
  cases raising <;> rfl

theorem WorkerPhase.holdsSlot_afterBatch (raising : Bool) :
    (if raising then exited else idle).holdsSlot = [] := by
  cases raising <;> rfl

@[simp] theorem WorkerPhase.holdsBytes_bytesReleased
    (batch : ReservedBatch)
    (raising : Bool) :
    (bytesReleased batch raising).holdsBytes = [] := rfl

@[simp] theorem WorkerPhase.holdsSlot_bytesReleased
    (batch : ReservedBatch)
    (raising : Bool) :
    (bytesReleased batch raising).holdsSlot = [batch] := rfl

/-! ## The supervisor's plan -/

/-- The plan of the call in progress fits the suppressor. -/
structure SupervisorReady
    (suppressing : Option SuppressorLimits)
    (state : QueueState) : Prop where
  planned :
    ∀ {admission : Admission},
      state.producer.admission? = some admission →
        ∃ made,
          admission.Planned suppressing state.supervisor.suppressor made
  bounded :
    ∀ {limits : SuppressorLimits}, suppressing = some limits →
      state.supervisor.suppressor.Bounded limits

/-- A call keeps the suppressor within its limits. -/
theorem dispatchBatch_bounded
    (config : DispatchConfig)
    {limits : SuppressorLimits}
    (call : DispatchCall)
    {state : DispatchState}
    (bounded : state.suppressor.Bounded limits) :
    (dispatchBatch config (some limits) call state).state.suppressor.Bounded
      limits := by
  by_cases nonempty : call.packets = []
  · simpa [dispatchBatch, nonempty, finish] using bounded
  · obtain ⟨prepared, admission, made, preparation, branch⟩ :=
      dispatchBatch_branch config (some limits) state nonempty
    exact (branchPairs preparation.planned
      (preparation.keepsLess.bounded bounded) branch).bounded

section Commit

variable {suppressing : Option SuppressorLimits}
variable {state : DispatchState}
variable {admission : Admission}
variable {made : List PlanMatch}
variable (planned : admission.Planned suppressing state.suppressor made)
variable
  (bounded :
    ∀ {limits : SuppressorLimits}, suppressing = some limits →
      state.suppressor.Bounded limits)

include planned bounded

/-- The commit after a put does not raise. -/
theorem admitBatch_does_not_raise
    (fault : DispatchFault) :
    .ended (.raised fault) ∉ (admitBatch admission state).events := by
  rcases admitBatch_spec planned with commits | fails
  · rw [commits.events]
    simp
  · cases planned with
    | inactive isNone noPlan noMatch =>
        simp [admitBatch, noPlan, finish, Admission.queuedEvents]
    | active isSome isPlan plans =>
        exact (fails.corrupt (bounded isSome).toExact).elim

/-- The commit keeps the suppressor within its limits. -/
theorem admitBatch_bounded
    {limits : SuppressorLimits}
    (isSome : suppressing = some limits) :
    (admitBatch admission state).state.suppressor.Bounded limits := by
  rcases admitBatch_spec planned with commits | fails
  · exact (commits.safe isSome (bounded isSome).toExact).1
  · exact (fails.corrupt (bounded isSome).toExact).elim

/-- So does the account of a batch that the queue refused. -/
theorem dropBatch_bounded
    (reason : DropReason)
    {limits : SuppressorLimits}
    (isSome : suppressing = some limits) :
    (dropBatch admission reason state).state.suppressor.Bounded limits := by
  obtain ⟨next, dropped, reports, isDrop, keeps, -⟩ :=
    dropBatch_spec planned reason
  rw [isDrop]
  exact keeps isSome (bounded isSome)

end Commit

section Ready

variable {config : DispatchConfig}
variable {suppressing : Option SuppressorLimits}
variable {state next : QueueState}
variable {events : List QueueEvent}

/-- Nothing changed for the plan of the call in progress. -/
theorem SupervisorReady.same
    (ready : SupervisorReady suppressing state)
    (sameSupervisor : next.supervisor = state.supervisor)
    (sameAdmission :
      ∀ admission,
        next.producer.admission? = some admission →
          state.producer.admission? = some admission) :
    SupervisorReady suppressing next where
  planned := by
    intro admission isAdmission
    rw [sameSupervisor]
    exact ready.planned (sameAdmission admission isAdmission)
  bounded := by
    rw [sameSupervisor]
    exact ready.bounded

/-- Each step keeps the plan in step with the suppressor. -/
theorem QueueStep.ready
    (step : QueueStep config suppressing state events next)
    (ready : SupervisorReady suppressing state) :
    SupervisorReady suppressing next := by
  cases step with
  | dispatchElsewhere isIdle call =>
      refine { planned := ?_, bounded := ?_ }
      · intro admission isAdmission
        rw [isIdle] at isAdmission
        cases isAdmission
      · intro limits isSome
        subst isSome
        exact dispatchBatch_bounded config call (ready.bounded rfl)
  | @reserve call prepared admission nextBytes isIdle prepares retains
      reserves =>
      have isPlanned :=
        prepareAdmission_planned config suppressing call state.supervisor
      rw [prepares] at isPlanned
      refine { planned := ?_, bounded := ?_ }
      · intro other isAdmission
        cases isAdmission
        exact isPlanned
      · intro limits isSome
        subst isSome
        have bounded :=
          prepareAdmission_bounded config call (ready.bounded rfl)
        rw [prepares] at bounded
        exact bounded
  | count isReserved =>
      refine ready.same rfl fun admission same => ?_
      rw [isReserved]
      exact same
  | put isPutting hasRoom =>
      refine ready.same rfl fun admission same => ?_
      rw [isPutting]
      exact same
  | commit isCommitting returns =>
      obtain ⟨made, planned⟩ := ready.planned (by rw [isCommitting]; rfl)
      refine { planned := ?_, bounded := ?_ }
      · intro admission isAdmission
        cases isAdmission
      · exact admitBatch_bounded planned ready.bounded
  | putRaises isPutting =>
      refine ready.same rfl fun admission same => ?_
      rw [isPutting]
      exact same
  | @commitRaises batch admission fault isCommitting raises =>
      obtain ⟨made, planned⟩ := ready.planned (by rw [isCommitting]; rfl)
      exact (admitBatch_does_not_raise planned ready.bounded fault
        raises).elim
  | @rollBackBatch batch admission isRolledBack full =>
      obtain ⟨made, planned⟩ := ready.planned (by rw [isRolledBack]; rfl)
      refine { planned := ?_, bounded := ?_ }
      · intro other isAdmission
        cases isAdmission
      · intro limits isSome
        cases full with
        | true =>
            exact dropBatch_bounded planned ready.bounded _ isSome
        | false =>
            exact ready.bounded isSome
  | putSentinel isIdle hasRoom =>
      exact ready.same rfl fun admission same => same
  | get isIdle isFirst =>
      exact ready.same rfl fun admission same => same
  | stop isIdle isFirst =>
      exact ready.same rfl fun admission same => same
  | releaseBytes isProcessing raising =>
      exact ready.same rfl fun admission same => same
  | releaseBatch isReleased =>
      exact ready.same rfl fun admission same => same
  | restart hasExited =>
      exact ready.same rfl fun admission same => same

end Ready

/-! ## The counters -/

/-- The invariant of the counters. -/
structure ReservationsKept
    (config : DispatchConfig)
    (log : List QueueEvent)
    (state : QueueState) : Prop where
  bytes : state.byteCounter = reservedBytes state.byteReservations
  bytesBound : state.byteCounter ≤ config.maxWorkerQueueBytes
  batches : state.batchCounter = state.slotReservations.length
  queueBound : state.queue.length ≤ config.queueSize
  numbers :
    ((state.byteReservations ++ closedBatches log).map
      ReservedBatch.number).Perm (List.range state.nextNumber)
  neverClamped : NeverClamped log

namespace ReservationsKept

variable {config : DispatchConfig}
variable {log : List QueueEvent}
variable {state next : QueueState}

theorem initial
    (config : DispatchConfig) :
    ReservationsKept config [] {} where
  bytes := rfl
  bytesBound := Int.natCast_nonneg _
  batches := rfl
  queueBound := Nat.zero_le _
  numbers := .refl _
  neverClamped := by simp [NeverClamped]

/-- A batch that moves on keeps its reservation. -/
theorem move
    (kept : ReservationsKept config log state)
    (sameBytes : next.byteCounter = state.byteCounter)
    (sameBatches : next.batchCounter = state.batchCounter)
    (sameNumber : next.nextNumber = state.nextNumber)
    (queueBound : next.queue.length ≤ config.queueSize)
    (bytePerm : next.byteReservations.Perm state.byteReservations)
    (slotPerm : next.slotReservations.Perm state.slotReservations) :
    ReservationsKept config (log ++ []) next where
  bytes := by
    rw [sameBytes, kept.bytes, reservedBytes_perm bytePerm]
  bytesBound := by
    rw [sameBytes]
    exact kept.bytesBound
  batches := by
    rw [sameBatches, kept.batches, slotPerm.length_eq]
  queueBound := queueBound
  numbers := by
    rw [List.append_nil, sameNumber]
    exact ((bytePerm.append_right _).map _).trans kept.numbers
  neverClamped := by
    rw [List.append_nil]
    exact kept.neverClamped

/-- The end of a batch takes its bytes off the counter. -/
theorem closeBytes
    (kept : ReservationsKept config log state)
    {batch : ReservedBatch}
    {closing : QueueEvent}
    (isClosing :
      closing = .released batch ∨ closing = .rolledBack batch)
    (clamped :
      next.byteCounter = max 0 (state.byteCounter - batch.bytes))
    (sameBatches : next.batchCounter = state.batchCounter)
    (sameNumber : next.nextNumber = state.nextNumber)
    (sameQueue : next.queue = state.queue)
    (bytePerm :
      state.byteReservations.Perm (batch :: next.byteReservations))
    (slotPerm : next.slotReservations.Perm state.slotReservations) :
    ReservationsKept config
      (log ++ [.subtracted state.byteCounter batch.bytes, closing])
      next := by
  have total := kept.bytes
  rw [reservedBytes_perm bytePerm, reservedBytes_cons] at total
  have exact : next.byteCounter = reservedBytes next.byteReservations := by
    omega
  have isClosed :
      closedBatches [.subtracted state.byteCounter batch.bytes, closing] =
        [batch] := by
    rcases isClosing with rfl | rfl <;> rfl
  refine {
    bytes := exact
    bytesBound := ?_
    batches := ?_
    queueBound := ?_
    numbers := ?_
    neverClamped := kept.neverClamped.append ?_
  }
  · have bound := kept.bytesBound
    omega
  · rw [sameBatches, kept.batches, slotPerm.length_eq]
  · rw [sameQueue]
    exact kept.queueBound
  · rw [closedBatches_append, isClosed, sameNumber]
    refine List.Perm.trans (List.Perm.map _ ?_) kept.numbers
    rw [← List.append_assoc]
    refine List.perm_append_comm.trans ?_
    exact (bytePerm.append_right _).symm
  · intro counter reservedUnits member
    rcases isClosing with rfl | rfl
    all_goals
      obtain ⟨rfl, rfl⟩ := by simpa using member
      omega

/-- The end of a batch takes it off the batch counter. -/
theorem closeSlot
    (kept : ReservationsKept config log state)
    (clamped : next.batchCounter = max 0 (state.batchCounter - 1))
    (sameBytes : next.byteCounter = state.byteCounter)
    (sameNumber : next.nextNumber = state.nextNumber)
    (sameQueue : next.queue = state.queue)
    {batch : ReservedBatch}
    (bytePerm : next.byteReservations.Perm state.byteReservations)
    (slotPerm :
      state.slotReservations.Perm (batch :: next.slotReservations)) :
    ReservationsKept config
      (log ++ [.subtracted state.batchCounter 1]) next := by
  have total := kept.batches
  rw [slotPerm.length_eq, List.length_cons] at total
  refine {
    bytes := ?_
    bytesBound := ?_
    batches := ?_
    queueBound := ?_
    numbers := ?_
    neverClamped := kept.neverClamped.append ?_
  }
  · rw [sameBytes, kept.bytes, reservedBytes_perm bytePerm]
  · rw [sameBytes]
    exact kept.bytesBound
  · omega
  · rw [sameQueue]
    exact kept.queueBound
  · rw [closedBatches_append, sameNumber]
    refine List.Perm.trans (List.Perm.map _ ?_) kept.numbers
    simpa [closedBatches] using bytePerm.append_right (closedBatches log)
  · intro counter reservedUnits member
    obtain ⟨rfl, rfl⟩ := by simpa using member
    omega

end ReservationsKept

theorem releaseReservedQueueUnits_eq
    {counter reservedUnits : Int}
    (counterNonneg : 0 ≤ counter)
    (nonneg : 0 ≤ reservedUnits) :
    releaseReservedQueueUnits counter reservedUnits =
      max 0 (counter - reservedUnits) := by
  unfold releaseReservedQueueUnits
  split <;> omega

theorem reserveBytes_eq_some
    {config : DispatchConfig}
    {counter bytes nextBytes : Nat}
    (reserves : config.reserveBytes counter bytes = some nextBytes) :
    nextBytes = counter + bytes ∧
      nextBytes ≤ config.maxWorkerQueueBytes := by
  simp only [DispatchConfig.reserveBytes] at reserves
  split at reserves
  · cases reserves
  · cases reserves
    omega

/-- Each step keeps the counters exact. -/
theorem QueueStep.kept
    {config : DispatchConfig}
    {suppressing : Option SuppressorLimits}
    {state next : QueueState}
    {log events : List QueueEvent}
    (step : QueueStep config suppressing state events next)
    (ready : SupervisorReady suppressing state)
    (kept : ReservationsKept config log state) :
    ReservationsKept config (log ++ events) next := by
  have byteNonneg : 0 ≤ state.byteCounter := by
    rw [kept.bytes]
    exact Int.natCast_nonneg _
  have batchNonneg : 0 ≤ state.batchCounter := by
    rw [kept.batches]
    exact Int.natCast_nonneg _
  cases step with
  | dispatchElsewhere isIdle call =>
      exact kept.move rfl rfl rfl kept.queueBound (.refl _) (.refl _)
  | @reserve call prepared admission nextBytes isIdle prepares retains
      reserves =>
      obtain ⟨isNext, isBounded⟩ := reserveBytes_eq_some reserves
      have total := kept.bytes
      refine {
        bytes := ?_
        bytesBound := Int.ofNat_le.mpr isBounded
        batches := ?_
        queueBound := kept.queueBound
        numbers := ?_
        neverClamped := by simpa using kept.neverClamped
      }
      · simp only [QueueState.byteReservations, isIdle,
          ProducerPhase.holdsBytes, List.nil_append, List.cons_append,
          reservedBytes_cons] at total ⊢
        omega
      · simpa [QueueState.slotReservations, isIdle,
          ProducerPhase.holdsSlot] using kept.batches
      · have numbers := kept.numbers
        simp only [QueueState.byteReservations, isIdle,
          ProducerPhase.holdsBytes, List.nil_append, List.cons_append,
          List.append_nil, List.map_cons] at numbers ⊢
        rw [List.range_succ]
        exact (numbers.cons _).trans (List.perm_append_singleton _ _).symm
  | @count batch admission isReserved =>
      refine {
        bytes := ?_
        bytesBound := kept.bytesBound
        batches := ?_
        queueBound := kept.queueBound
        numbers := ?_
        neverClamped := by simpa using kept.neverClamped
      }
      · simpa [QueueState.byteReservations, isReserved,
          ProducerPhase.holdsBytes] using kept.bytes
      · simp [QueueState.slotReservations, isReserved,
          ProducerPhase.holdsSlot, kept.batches]
      · simpa [QueueState.byteReservations, isReserved,
          ProducerPhase.holdsBytes] using kept.numbers
  | @put batch admission isPutting hasRoom =>
      refine kept.move rfl rfl rfl (by simpa using hasRoom) ?_ ?_
      all_goals
        simp only [QueueState.byteReservations, QueueState.slotReservations,
          isPutting, ProducerPhase.holdsBytes, ProducerPhase.holdsSlot,
          queuedBatches_append, queuedBatches_reserved, queuedBatches_nil,
          List.nil_append]
        exact List.perm_append_comm.append_right _
  | commit isCommitting returns =>
      refine kept.move rfl rfl rfl kept.queueBound ?_ ?_
      · rw [QueueState.byteReservations, QueueState.byteReservations,
          isCommitting]
        rfl
      · rw [QueueState.slotReservations, QueueState.slotReservations,
          isCommitting]
        rfl
  | @putRaises batch admission isPutting =>
      refine kept.closeBytes (.inr rfl) rfl rfl rfl rfl ?_ ?_
      · rw [QueueState.byteReservations, QueueState.byteReservations,
          isPutting]
        rfl
      · rw [QueueState.slotReservations, QueueState.slotReservations,
          isPutting]
        rfl
  | @commitRaises batch admission fault isCommitting raises =>
      obtain ⟨made, planned⟩ := ready.planned (by rw [isCommitting]; rfl)
      exact (admitBatch_does_not_raise planned ready.bounded fault
        raises).elim
  | @rollBackBatch batch admission isRolledBack full =>
      refine @ReservationsKept.closeSlot _ _ _ _ kept rfl rfl rfl rfl batch ?_ ?_
      · rw [QueueState.byteReservations, QueueState.byteReservations,
          isRolledBack]
        rfl
      · rw [QueueState.slotReservations, QueueState.slotReservations,
          isRolledBack]
        rfl
  | putSentinel isIdle hasRoom =>
      refine kept.move rfl rfl rfl (by simpa using hasRoom) ?_ ?_
      all_goals
        simp [QueueState.byteReservations, QueueState.slotReservations]
  | @get batch rest isIdle isFirst =>
      have bound := kept.queueBound
      rw [isFirst, List.length_cons] at bound
      refine kept.move rfl rfl rfl (Nat.le_of_succ_le bound) ?_ ?_
      all_goals
        simp only [QueueState.byteReservations, QueueState.slotReservations,
          isIdle, isFirst, WorkerPhase.holdsBytes, WorkerPhase.holdsSlot,
          queuedBatches_reserved, List.append_nil, List.append_assoc]
        exact List.perm_append_comm.append_left _
  | @stop rest isIdle isFirst =>
      have bound := kept.queueBound
      rw [isFirst, List.length_cons] at bound
      refine kept.move rfl rfl rfl (Nat.le_of_succ_le bound) ?_ ?_
      all_goals
        simp only [QueueState.byteReservations, QueueState.slotReservations,
          isIdle, isFirst, WorkerPhase.holdsBytes, WorkerPhase.holdsSlot,
          queuedBatches_stopSentinel]
        exact .refl _
  | @releaseBytes batch isProcessing raising =>
      refine kept.closeBytes (.inl rfl)
        (releaseReservedQueueUnits_eq byteNonneg (Int.natCast_nonneg _))
        rfl rfl rfl ?_ ?_
      · simp only [QueueState.byteReservations, isProcessing,
          WorkerPhase.holdsBytes, List.append_nil]
        exact List.perm_append_comm
      · rw [QueueState.slotReservations, QueueState.slotReservations,
          isProcessing]
        rfl
  | @releaseBatch batch raising isReleased =>
      refine @ReservationsKept.closeSlot _ _ _ _ kept
        (releaseReservedQueueUnits_eq batchNonneg Int.one_nonneg) rfl rfl rfl
        batch ?_ ?_
      · simp only [QueueState.byteReservations, isReleased,
          WorkerPhase.holdsBytes_afterBatch,
          WorkerPhase.holdsBytes_bytesReleased]
        exact .refl _
      · simp only [QueueState.slotReservations, isReleased,
          WorkerPhase.holdsSlot_afterBatch,
          WorkerPhase.holdsSlot_bytesReleased, List.append_nil]
        exact List.perm_append_comm
  | restart hasExited =>
      refine kept.move rfl rfl rfl kept.queueBound ?_ ?_
      all_goals
        simp [QueueState.byteReservations, QueueState.slotReservations,
          hasExited, WorkerPhase.holdsBytes, WorkerPhase.holdsSlot]

/-! ## Every run -/

/-- Every run keeps the plan and the counters. -/
theorem queueSteps_kept
    {config : DispatchConfig}
    {suppressing : Option SuppressorLimits}
    {events : List QueueEvent}
    {final : QueueState}
    (steps : Steps (QueueStep config suppressing) {} events final) :
    SupervisorReady suppressing final ∧
      ReservationsKept config events final := by
  have initial :
      SupervisorReady suppressing {} ∧ ReservationsKept config [] {} := by
    refine ⟨{ planned := ?_, bounded := ?_ }, .initial config⟩
    · intro admission isAdmission
      cases isAdmission
    · intro limits isSome
      exact Suppressor.bounded_initial
  refine @Steps.invariant _ _ _
    (fun log state =>
      SupervisorReady suppressing state ∧ ReservationsKept config log state)
    ?_ _ _ [] _ steps initial
  rintro log state events next ⟨ready, kept⟩ step
  exact ⟨step.ready ready, step.kept ready kept⟩

/-- At most the queue and one batch of each party are counted. -/
theorem QueueState.slotReservations_length_le
    (state : QueueState) :
    state.slotReservations.length ≤ state.queue.length + 2 := by
  have producer := state.producer.holdsSlot_length_le
  have worker := state.worker.holdsSlot_length_le
  have queued := queuedBatches_length_le state.queue
  simp only [slotReservations, List.length_append]
  omega

/--
The reservation protocol.  In every reachable state both counters are exact
and bounded; every batch that was ever reserved is either in flight or was
released or rolled back once; and no clamp changed a value.
-/
theorem reservations_exact
    {config : DispatchConfig}
    {suppressing : Option SuppressorLimits}
    {events : List QueueEvent}
    {final : QueueState}
    (steps : Steps (QueueStep config suppressing) {} events final) :
    final.byteCounter = reservedBytes final.byteReservations ∧
      final.byteCounter ≤ config.maxWorkerQueueBytes ∧
      final.batchCounter = final.slotReservations.length ∧
      final.batchCounter ≤ config.queueSize + 2 ∧
      final.queue.length ≤ config.queueSize ∧
      ((closedBatches events).map ReservedBatch.number).Nodup ∧
      ((final.byteReservations ++ closedBatches events).map
        ReservedBatch.number).Perm (List.range final.nextNumber) ∧
      NeverClamped events ∧
      (final.byteReservations = [] → final.byteCounter = 0) ∧
      (final.slotReservations = [] → final.batchCounter = 0) := by
  obtain ⟨-, kept⟩ := queueSteps_kept steps
  have all := kept.numbers.nodup_iff.mpr List.nodup_range
  rw [List.map_append] at all
  have slots := final.slotReservations_length_le
  refine ⟨kept.bytes, kept.bytesBound, kept.batches, ?_, kept.queueBound,
    (List.nodup_append.mp all).2.1, kept.numbers, kept.neverClamped, ?_, ?_⟩
  · have counted := kept.batches
    have bound := kept.queueBound
    omega
  · intro isEmpty
    rw [kept.bytes, isEmpty]
    rfl
  · intro isEmpty
    rw [kept.batches, isEmpty]
    rfl

/-- A call for a batch of one packet. -/
def onePacketCall : DispatchCall where
  shard := 0
  packets := [{
    sessionId := "s"
    packetId := 1
    timestampNs := 0
    interface := "eth0"
    capturedLength := 60
    wireLength := 60
    ipVersion := 4
    src := "10.0.0.1"
    dst := "10.0.0.2"
    protocol := 6
    vlanIds := []
    networkPayload := []
  }]
  conditions := ⟨0, 0, [], []⟩

/-- The batch is processed while the supervisor still commits it. -/
theorem onePacketCall_reservations_exact :
    ∃ (final : QueueState) (events : List QueueEvent),
      Steps (QueueStep ⟨false, 1048576, 8⟩ none) {} events final ∧
        closedBatches events = [⟨0, 60⟩] ∧
        final.byteReservations = [] ∧
        final.byteCounter = 0 := by
  let config : DispatchConfig := ⟨false, 1048576, 8⟩
  let prepared := prepareAdmission config none onePacketCall {}
  have reserved :=
    @QueueStep.reserve config none {} onePacketCall prepared.1 prepared.2 60
      rfl rfl (by decide) (by decide)
  have putting := (Steps.single reserved).tail (.count rfl)
  have committing := putting.tail (.put rfl (by decide))
  have processing := committing.tail (.get rfl rfl)
  have released := processing.tail (.releaseBytes rfl false)
  have idle := released.tail (.releaseBatch rfl)
  have steps := idle.tail (.commit rfl (by decide))
  have exact := reservations_exact steps
  exact ⟨_, _, steps, rfl, rfl, exact.2.2.2.2.2.2.2.2.1 rfl⟩

end PacketAudit
