import PacketAudit.Supervisor.Dispatch

namespace PacketAudit

open Library

/-!
# Every packet of a batch is accounted for once

Each branch of `_dispatch_batch` splits the batch into packets that are put on
the queue, packets that are suppressed and packets that are dropped, and adds
the three numbers to the supervisor's counters.
-/

/-- The packets put on a queue. -/
def queuedPackets (events : List DispatchEvent) : List ParsedPacket :=
  events.filterMap fun
    | .queued _ packet _ => some packet
    | _ => none

/-- The matches that became final. -/
def committedMatches (events : List DispatchEvent) : List PlanMatch :=
  events.filterMap fun
    | .matched found => some found
    | _ => none

/-- The packets counted as dropped. -/
def droppedPackets (events : List DispatchEvent) : List ParsedPacket :=
  events.filterMap fun
    | .dropped packet => some packet
    | _ => none

/-- The identifiers of the packets skipped as forwarded copies. -/
def suppressedIds (events : List DispatchEvent) : List Nat :=
  ((committedMatches events).filter fun found =>
    found.suppressed).map PlanMatch.packetId

/-- The ingress frames among the packets put on a queue. -/
def queuedIngress
    (events : List DispatchEvent) : List (MatchKey × IngressRecord) :=
  events.filterMap fun
    | .queued _ packet frame => ingressEntry packet frame
    | _ => none

section Extraction

variable (first second : List DispatchEvent)

@[simp] theorem queuedPackets_append :
    queuedPackets (first ++ second) =
      queuedPackets first ++ queuedPackets second :=
  List.filterMap_append

@[simp] theorem committedMatches_append :
    committedMatches (first ++ second) =
      committedMatches first ++ committedMatches second :=
  List.filterMap_append

@[simp] theorem droppedPackets_append :
    droppedPackets (first ++ second) =
      droppedPackets first ++ droppedPackets second :=
  List.filterMap_append

@[simp] theorem queuedIngress_append :
    queuedIngress (first ++ second) =
      queuedIngress first ++ queuedIngress second :=
  List.filterMap_append

end Extraction

/-- The events of one call, by kind. -/
def callEvents
    (admission : Admission)
    (queued : List ParsedPacket)
    (made : List PlanMatch)
    (dropped : List ParsedPacket)
    (reports : List DropReport)
    (ending : DispatchEnding) : List DispatchEvent :=
  (queued.map fun packet =>
      DispatchEvent.queued admission.shard packet
        (admission.frames.get? packet.packetId)) ++
    made.map .matched ++ dropped.map .dropped ++ reports.map .reported ++
    [.ended ending]

section CallEvents

variable (admission : Admission)
variable (queued dropped : List ParsedPacket)
variable (made : List PlanMatch)
variable (reports : List DropReport)
variable (ending : DispatchEnding)

@[simp] theorem queuedPackets_callEvents :
    queuedPackets
        (callEvents admission queued made dropped reports ending) =
      queued := by
  simp [callEvents, queuedPackets, List.filterMap_map]

@[simp] theorem committedMatches_callEvents :
    committedMatches
        (callEvents admission queued made dropped reports ending) =
      made := by
  simp [callEvents, committedMatches, List.filterMap_map]

@[simp] theorem droppedPackets_callEvents :
    droppedPackets
        (callEvents admission queued made dropped reports ending) =
      dropped := by
  simp [callEvents, droppedPackets, List.filterMap_map]

@[simp] theorem queuedIngress_callEvents :
    queuedIngress
        (callEvents admission queued made dropped reports ending) =
      ingressEntries admission.frames queued := by
  simp [callEvents, queuedIngress, ingressEntries, List.filterMap_map]

@[simp] theorem ended_mem_callEvents (other : DispatchEnding) :
    .ended other ∈
        callEvents admission queued made dropped reports ending ↔
      other = ending := by
  simp [callEvents]

theorem queued_mem_callEvents
    {shard : Nat}
    {packet : ParsedPacket}
    {frame : Option ForwardedFrame}
    (member :
      .queued shard packet frame ∈
        callEvents admission queued made dropped reports ending) :
    shard = admission.shard := by
  obtain ⟨-, same, -⟩ := by simpa [callEvents] using member
  exact same.symm

end CallEvents

/-! ## The branches of a call -/

/-- The plan of an admission and its matches, for the suppressor it is for. -/
inductive Admission.Planned
    (suppressing : Option SuppressorLimits)
    (suppressor : Suppressor)
    (admission : Admission)
    (made : List PlanMatch) : Prop where
  | inactive
      (isNone : suppressing = none)
      (noPlan : admission.plan = none)
      (noMatch : made = [])
  | active
      {limits : SuppressorLimits}
      {plan : DuplicatePlan}
      {pressure : Bool}
      (isSome : suppressing = some limits)
      (isPlan : admission.plan = some (limits, ⟨plan, made⟩))
      (planned :
        PlannedFrom limits suppressor.accepted admission.frames pressure
          admission.original plan made)

/-- What a call has computed before it reserves bytes. -/
structure Prepared
    (suppressing : Option SuppressorLimits)
    (call : DispatchCall)
    (state prepared : DispatchState)
    (admission : Admission)
    (made : List PlanMatch) : Prop where
  shard : admission.shard = call.shard
  original : admission.original = call.packets
  frames : admission.frames = call.frames
  planned :
    Admission.Planned suppressing prepared.suppressor admission made
  sameCounters :
    prepared = { state with suppressor := prepared.suppressor }
  keepsLess : prepared.suppressor.KeepsLess state.suppressor

/-- The endings of a call that gives up before it touches the batch. -/
def DispatchEnding.Unfinished : DispatchEnding → Prop
  | .waiting => True
  | .raised .interrupted => True
  | .raised .putFailed => True
  | _ => False

/-- What the rest of a call can be. -/
inductive Branch
    (prepared : DispatchState)
    (admission : Admission)
    (made : List PlanMatch) :
    Outcome DispatchState DispatchEvent → Prop where
  | unfinished
      {ending : DispatchEnding}
      (isUnfinished : ending.Unfinished) :
      Branch prepared admission made (finish prepared [] ending)
  | dropped
      (reason : DropReason)
      (nonempty : admission.packets ≠ []) :
      Branch prepared admission made (dropBatch admission reason prepared)
  | admitted :
      Branch prepared admission made (admitBatch admission prepared)
  | skipped
      {limits : SuppressorLimits}
      {plan : DuplicatePlan}
      (isPlan : admission.plan = some (limits, ⟨plan, made⟩))
      (isEmpty : plan.retained = []) :
      Branch prepared admission made
        (skipBatch limits admission.original ⟨plan, made⟩ prepared)

theorem put_unfinished
    {config : DispatchConfig}
    {attempts : List PutAttempt}
    {fault : DispatchFault}
    (fails : config.put attempts = .failed fault) :
    (DispatchEnding.raised fault).Unfinished := by
  induction attempts with
  | nil =>
      cases fails
  | cons attempt later inductionHypothesis =>
      cases attempt with
      | accepted =>
          cases fails
      | failed =>
          cases fails
          trivial
      | full interrupted =>
          simp only [DispatchConfig.put] at fails
          split at fails
          · cases fails
          · split at fails
            · cases fails
              trivial
            · exact inductionHypothesis fails

theorem reserveAndPut_branch
    (config : DispatchConfig)
    (conditions : QueueConditions)
    {admission : Admission}
    (prepared : DispatchState)
    (made : List PlanMatch)
    (nonempty : admission.packets ≠ []) :
    Branch prepared admission made
      (reserveAndPut config conditions admission prepared) := by
  unfold reserveAndPut
  split
  · exact .unfinished trivial
  · exact .unfinished trivial
  · exact .dropped _ nonempty
  · split
    case h_1 => exact .unfinished trivial
    case h_2 fault fails => exact .unfinished (put_unfinished fails)
    case h_3 => exact .dropped _ nonempty
    case h_4 => exact .admitted

/-- What a call for a nonempty batch does. -/
theorem dispatchBatch_branch
    (config : DispatchConfig)
    (suppressing : Option SuppressorLimits)
    {call : DispatchCall}
    (state : DispatchState)
    (nonempty : call.packets ≠ []) :
    ∃ prepared admission made,
      Prepared suppressing call state prepared admission made ∧
        Branch prepared admission made
          (dispatchBatch config suppressing call state) := by
  unfold dispatchBatch
  rw [if_neg (by simpa using nonempty)]
  cases suppressing with
  | none =>
      refine ⟨state, ⟨call.shard, call.packets, call.frames, none⟩, [], ?_,
        reserveAndPut_branch config _ state [] nonempty⟩
      exact {
        shard := rfl
        original := rfl
        frames := rfl
        planned := .inactive rfl rfl rfl
        sameCounters := rfl
        keepsLess := .refl _
      }
  | some limits =>
      generalize isPressure :
        config.pressure call.conditions (batchBytes call.packets) = pressure
      have plans :=
        @PlannedFrom.planned limits call.frames pressure
          (state.suppressor.expireFor limits call.packets) call.packets
      generalize isPlan :
        (state.suppressor.expireFor limits call.packets).planned limits
          call.packets call.frames pressure = planned at plans
      refine ⟨{
          state with
          suppressor := state.suppressor.expireFor limits call.packets
        }, ⟨call.shard, call.packets, call.frames, some (limits, planned)⟩,
        planned.events, ?_, ?_⟩
      · exact {
          shard := rfl
          original := rfl
          frames := rfl
          planned := .active rfl rfl plans
          sameCounters := rfl
          keepsLess := Suppressor.keepsLess_expireFor _ _
        }
      · simp only [isPlan]
        split
        case isTrue isEmpty =>
          exact .skipped rfl (by simpa using isEmpty)
        case isFalse retains =>
          exact reserveAndPut_branch config _ _ _
            (by simpa [Admission.packets] using retains)

/-! ## The failure branches -/

/-- `prior_ids`: the packets that stay suppressed when the batch fails. -/
def skippedIds (made : List PlanMatch) : List Nat :=
  ((made.filter fun found =>
    found.suppressed && found.prior).map PlanMatch.packetId).dedup

/-- The pairs of matches name the packets that were matched. -/
theorem map_fst_pair (made : List PlanMatch) :
    (made.map PlanMatch.pair).map Prod.fst = made.map PlanMatch.packetId := by
  rw [List.map_map]
  rfl

/-- Committing a failed admission keeps its matches to earlier batches. -/
theorem failedAdmissionPackets_spec
    {suppressing : Option SuppressorLimits}
    {state : DispatchState}
    {admission : Admission}
    {made : List PlanMatch}
    (planned : admission.Planned suppressing state.suppressor made) :
    ∃ suppressor failed,
      failedAdmissionPackets admission state = .ok failed ∧
        (∀ {limits : SuppressorLimits}, suppressing = some limits →
          state.suppressor.Bounded limits → suppressor.Bounded limits) ∧
        suppressor.held +
            entriesOf (made.filter fun found => found.prior) =
          state.suppressor.held ∧
        failed.skips = (made.filter fun found => found.prior) ∧
        failed.dropped =
          (admission.original.filter fun packet =>
            packet.packetId ∉ skippedIds made) ∧
        ∃ suppressedBytes, failed.state = {
          state with
          suppressor
          suppressedPackets :=
            state.suppressedPackets + (skippedIds made).length
          suppressedBytes
        } := by
  unfold failedAdmissionPackets
  cases planned with
  | inactive isNone noPlan noMatch =>
      subst noMatch
      simp only [noPlan]
      exact ⟨state.suppressor, _, rfl, fun _ bounded => bounded,
        by simp, rfl, by simp [skippedIds], _, rfl⟩
  | @active limits plan pressure isSome isPlan plans =>
      obtain ⟨suppressor, commits, bounded, counted⟩ :=
        plans.commitPriorSkipsOnFailure
      have priorIds :
          (plan.priorPairs.map Prod.fst).dedup = skippedIds made := by
        rw [plans.priorPairs, map_fst_pair, skippedIds]
      have keeps
          {other : SuppressorLimits}
          (isOther : suppressing = some other)
          (before : state.suppressor.Bounded other) :
          suppressor.Bounded other := by
        rw [isSome] at isOther
        cases isOther
        exact bounded before
      simp only [isPlan, commits, ok_bind, pure, Except.pure]
      split
      case isTrue isEmpty =>
        have noIds : skippedIds made = [] := by
          rw [← priorIds, List.isEmpty_iff.mp isEmpty]
          rfl
        exact ⟨suppressor, _, rfl, keeps, counted, rfl, by simp [noIds],
          state.suppressedBytes, by simp [noIds]⟩
      case isFalse =>
        exact ⟨suppressor, _, rfl, keeps, counted, rfl, by simp [priorIds],
          _, by simp [priorIds]; rfl⟩

/-- The counters of a state after a batch. -/
structure Counted
    (before after : DispatchState)
    (dispatched suppressed dropped : Nat) : Prop where
  dispatched :
    after.dispatchedPackets = before.dispatchedPackets + dispatched
  suppressed :
    after.suppressedPackets = before.suppressedPackets + suppressed
  dropped :
    after.userspaceQueueDrops = before.userspaceQueueDrops + dropped

/-- What a failed batch does. -/
theorem dropBatch_spec
    {suppressing : Option SuppressorLimits}
    {state : DispatchState}
    {admission : Admission}
    {made : List PlanMatch}
    (planned : admission.Planned suppressing state.suppressor made)
    (reason : DropReason) :
    ∃ next dropped reports,
      dropBatch admission reason state = {
        state := next
        events :=
          callEvents admission [] (made.filter fun found => found.prior)
            dropped reports
            (if dropped = [] then .raised .emptyDroppedList else .returned)
      } ∧
        (∀ {limits : SuppressorLimits}, suppressing = some limits →
          state.suppressor.Bounded limits →
            next.suppressor.Bounded limits) ∧
        next.suppressor.held +
            entriesOf (made.filter fun found => found.prior) =
          state.suppressor.held ∧
        dropped =
          (admission.original.filter fun packet =>
            packet.packetId ∉ skippedIds made) ∧
        Counted state next 0 (skippedIds made).length dropped.length := by
  obtain ⟨suppressor, failed, fails, bounded, counted, skips, isDropped,
    suppressedBytes, isState⟩ := failedAdmissionPackets_spec planned
  have counters :
      Counted state (countDropped reason failed) 0 (skippedIds made).length
        failed.dropped.length := by
    cases reason <;> exact ⟨by simp [countDropped, isState],
      by simp [countDropped, isState], by simp [countDropped, isState]⟩
  have sameSuppressor :
      (countDropped reason failed).suppressor = suppressor := by
    cases reason <;> simp [countDropped, isState]
  have shape :
      ∃ reports,
        dropBatch admission reason state = {
          state := countDropped reason failed
          events :=
            callEvents admission [] failed.skips failed.dropped reports
              (if failed.dropped = [] then .raised .emptyDroppedList
              else .returned)
        } := by
    unfold dropBatch
    simp only [fails]
    cases failed.dropped with
    | nil =>
        exact ⟨[], by simp [finish, callEvents]⟩
    | cons first rest =>
        obtain ⟨last, isLast⟩ :
            ∃ last, (first :: rest).getLast? = some last :=
          ⟨_, List.getLast?_eq_some_getLast (List.cons_ne_nil _ _)⟩
        refine ⟨[dropReport admission reason failed first last], ?_⟩
        simp [isLast, finish, callEvents]
  obtain ⟨reports, shape⟩ := shape
  refine ⟨_, failed.dropped, reports, ?_, ?_, ?_, isDropped, counters⟩
  · rw [shape, skips]
  · rw [sameSuppressor]
    exact bounded
  · rw [sameSuppressor]
    exact counted

/-! ## The branches that commit -/

/-- What a committed batch leaves in the suppressor. -/
def CommitSafe
    (suppressing : Option SuppressorLimits)
    (admission : Admission)
    (made : List PlanMatch)
    (before after : Suppressor) : Prop :=
  ∀ {limits : SuppressorLimits}, suppressing = some limits → before.Exact →
    after.Bounded limits ∧
      after.held + entriesOf made ≤
        before.held + ingressEntries admission.frames admission.original

/-- A branch that committed its plan. -/
structure Commits
    (suppressing : Option SuppressorLimits)
    (state : DispatchState)
    (admission : Admission)
    (made : List PlanMatch)
    (queued : List ParsedPacket)
    (result : Outcome DispatchState DispatchEvent) : Prop where
  events : result.events = callEvents admission queued made [] [] .returned
  counted :
    Counted state result.state queued.length
      (made.filter fun found => found.suppressed).length 0
  safe :
    CommitSafe suppressing admission made state.suppressor
      result.state.suppressor

/-- A branch whose commit raised, which a consistent table rules out. -/
structure CommitFails
    (state : DispatchState)
    (admission : Admission)
    (queued : List ParsedPacket)
    (result : Outcome DispatchState DispatchEvent) : Prop where
  corrupt : ¬ state.suppressor.Exact
  events :
    ∃ fault,
      result.events =
        callEvents admission queued [] [] [] (.raised (.suppressor fault))

/-- The suppressor after a successful commit. -/
theorem commitSafe_of_commit
    {suppressing : Option SuppressorLimits}
    {suppressor committed : Suppressor}
    {admission : Admission}
    {limits : SuppressorLimits}
    {plan : DuplicatePlan}
    {pressure : Bool}
    {made : List PlanMatch}
    (isSome : suppressing = some limits)
    (plans :
      PlannedFrom limits suppressor.accepted admission.frames pressure
        admission.original plan made)
    (commits : suppressor.commit limits plan = .ok committed) :
    CommitSafe suppressing admission made suppressor committed := by
  intro other isOther exact
  obtain ⟨reached, succeeds, bounded, counted⟩ := plans.commit exact
  rw [succeeds] at commits
  cases commits
  rw [isSome] at isOther
  cases isOther
  exact ⟨bounded, counted⟩

/-- A commit raises on an inconsistent table only. -/
theorem corrupt_of_commit
    {suppressor : Suppressor}
    {frames : OrderedTable Nat ForwardedFrame}
    {limits : SuppressorLimits}
    {packets : List ParsedPacket}
    {plan : DuplicatePlan}
    {pressure : Bool}
    {made : List PlanMatch}
    {fault : SuppressorFault}
    (plans :
      PlannedFrom limits suppressor.accepted frames pressure packets plan
        made)
    (commits : suppressor.commit limits plan = .error fault) :
    ¬ suppressor.Exact := by
  intro exact
  obtain ⟨committed, succeeds, -⟩ := plans.commit exact
  rw [succeeds] at commits
  cases commits

/-- What a queued batch does. -/
theorem admitBatch_spec
    {suppressing : Option SuppressorLimits}
    {state : DispatchState}
    {admission : Admission}
    {made : List PlanMatch}
    (planned : admission.Planned suppressing state.suppressor made) :
    Commits suppressing state admission made admission.packets
        (admitBatch admission state) ∨
      CommitFails state admission admission.packets
        (admitBatch admission state) := by
  unfold admitBatch
  cases planned with
  | inactive isNone noPlan noMatch =>
      left
      subst noMatch
      simp only [noPlan]
      refine { events := ?_, counted := ⟨rfl, rfl, rfl⟩, safe := ?_ }
      · simp [finish, callEvents, Admission.queuedEvents]
      · intro limits isSome
        rw [isNone] at isSome
        cases isSome
  | @active limits plan pressure isSome isPlan plans =>
      simp only [isPlan]
      cases commits : state.suppressor.commit limits plan with
      | error fault =>
          right
          refine { corrupt := corrupt_of_commit plans commits, events := ?_ }
          exact ⟨fault, by
            simp [finish, callEvents, Admission.queuedEvents]⟩
      | ok suppressor =>
          left
          refine {
            events := ?_
            counted := ⟨rfl, ?_, rfl⟩
            safe := commitSafe_of_commit isSome plans commits
          }
          · simp [finish, callEvents, Admission.queuedEvents]
          · simp [finish, plans.pairs]

/-- What a batch of nothing but copies does. -/
theorem skipBatch_spec
    {suppressing : Option SuppressorLimits}
    {state : DispatchState}
    {admission : Admission}
    {limits : SuppressorLimits}
    {plan : DuplicatePlan}
    {made : List PlanMatch}
    (planned : admission.Planned suppressing state.suppressor made)
    (isPlan : admission.plan = some (limits, ⟨plan, made⟩)) :
    Commits suppressing state admission made []
        (skipBatch limits admission.original ⟨plan, made⟩ state) ∨
      CommitFails state admission []
        (skipBatch limits admission.original ⟨plan, made⟩ state) := by
  unfold skipBatch
  cases planned with
  | inactive isNone noPlan noMatch =>
      rw [noPlan] at isPlan
      cases isPlan
  | @active planLimits activePlan pressure isSome isActive plans =>
      rw [isActive] at isPlan
      cases isPlan
      simp only
      cases commits : state.suppressor.commit limits plan with
      | error fault =>
          right
          refine { corrupt := corrupt_of_commit plans commits, events := ?_ }
          exact ⟨fault, by simp [finish, callEvents]⟩
      | ok suppressor =>
          left
          refine {
            events := ?_
            counted := ⟨rfl, ?_, rfl⟩
            safe := commitSafe_of_commit isSome plans commits
          }
          · simp [finish, callEvents]
          · simp [finish, plans.pairs]

/-! ## Splitting the batch -/

section Splitting

variable {suppressing : Option SuppressorLimits}
variable {suppressor : Suppressor}
variable {admission : Admission}
variable {made : List PlanMatch}

/-- A batch is split into the retained packets and the suppressed ones. -/
theorem Admission.Planned.split
    (planned : admission.Planned suppressing suppressor made) :
    (admission.packets.map ParsedPacket.packetId ++
        (made.filter fun found =>
          found.suppressed).map PlanMatch.packetId).Perm
      (admission.original.map ParsedPacket.packetId) := by
  cases planned with
  | inactive isNone noPlan noMatch =>
      subst noMatch
      simp [Admission.packets, noPlan]
  | active isSome isPlan plans =>
      have split := plans.split
      rw [plans.pairs, map_fst_pair] at split
      simpa [Admission.packets, isPlan] using split

/-- Retained packets are packets of the batch. -/
theorem Admission.Planned.retained
    (planned : admission.Planned suppressing suppressor made) :
    admission.packets.Sublist admission.original := by
  cases planned with
  | inactive isNone noPlan noMatch =>
      simp [Admission.packets, noPlan]
  | active isSome isPlan plans =>
      simpa [Admission.packets, isPlan] using plans.retained

/-- Skipped packets are suppressed ones. -/
theorem skippedIds_sublist (made : List PlanMatch) :
    ((made.filter fun found =>
        found.suppressed && found.prior).map PlanMatch.packetId).Sublist
      ((made.filter fun found =>
        found.suppressed).map PlanMatch.packetId) := by
  apply List.Sublist.map
  have nested :
      (made.filter fun found => found.suppressed && found.prior) =
        (made.filter fun found => found.suppressed).filter fun found =>
          found.prior := by
    rw [List.filter_filter]
    congr 1
    funext found
    exact Bool.and_comm _ _
  rw [nested]
  exact List.filter_sublist

variable
  (planned : admission.Planned suppressing suppressor made)
  (distinct : (admission.original.map ParsedPacket.packetId).Nodup)

include planned distinct

/-- With distinct identifiers no identifier is listed twice. -/
theorem skippedIds_eq :
    skippedIds made =
      (made.filter fun found =>
        found.suppressed && found.prior).map PlanMatch.packetId := by
  have all := planned.split.nodup_iff.mpr distinct
  exact List.Nodup.dedup ((List.nodup_append.mp all).2.1.sublist
    (skippedIds_sublist made))

/-- When a batch fails, its packets are skipped or dropped, never both. -/
theorem skipped_append_dropped :
    (skippedIds made ++
        (admission.original.filter fun packet =>
          packet.packetId ∉ skippedIds made).map
            ParsedPacket.packetId).Perm
      (admission.original.map ParsedPacket.packetId) := by
  have subset :
      ∀ packetId ∈ skippedIds made,
        packetId ∈ admission.original.map ParsedPacket.packetId := by
    intro packetId member
    rw [skippedIds_eq planned distinct] at member
    exact planned.split.mem_iff.mp
      (List.mem_append_right _ ((skippedIds_sublist made).subset member))
  have keptIds :
      ∀ packetId,
        packetId ∈ (admission.original.filter fun packet =>
            packet.packetId ∉ skippedIds made).map ParsedPacket.packetId ↔
          packetId ∈ admission.original.map ParsedPacket.packetId ∧
            packetId ∉ skippedIds made := by
    intro packetId
    simp only [List.mem_map, List.mem_filter, decide_eq_true_eq]
    constructor
    · rintro ⟨packet, ⟨member, notSkipped⟩, rfl⟩
      exact ⟨⟨packet, member, rfl⟩, notSkipped⟩
    · rintro ⟨⟨packet, member, rfl⟩, notSkipped⟩
      exact ⟨packet, ⟨member, notSkipped⟩, rfl⟩
  have noRepeats :
      (skippedIds made ++
        (admission.original.filter fun packet =>
          packet.packetId ∉ skippedIds made).map
            ParsedPacket.packetId).Nodup := by
    refine List.nodup_append.mpr ⟨List.nodup_dedup _,
      distinct.sublist (List.filter_sublist.map _), ?_⟩
    rintro packetId isSkipped other isKept rfl
    exact ((keptIds packetId).mp isKept).2 isSkipped
  refine (List.perm_ext_iff_of_nodup noRepeats distinct).mpr ?_
  intro packetId
  rw [List.mem_append, keptIds]
  constructor
  · rintro (isSkipped | ⟨member, -⟩)
    · exact subset packetId isSkipped
    · exact member
  · intro member
    by_cases isSkipped : packetId ∈ skippedIds made
    · exact .inl isSkipped
    · exact .inr ⟨member, isSkipped⟩

/-- The failure branches never have an empty dropped list. -/
theorem dropped_ne_nil
    (nonempty : admission.packets ≠ []) :
    (admission.original.filter fun packet =>
        packet.packetId ∉ skippedIds made) ≠ [] := by
  have all := planned.split.nodup_iff.mpr distinct
  obtain ⟨packet, member⟩ := List.exists_mem_of_ne_nil _ nonempty
  intro isEmpty
  have isOriginal := planned.retained.subset member
  have isSkipped : packet.packetId ∈ skippedIds made := by
    by_contra notSkipped
    have kept :
        packet ∈ admission.original.filter fun packet =>
          packet.packetId ∉ skippedIds made :=
      List.mem_filter.mpr ⟨isOriginal, by simpa using notSkipped⟩
    rw [isEmpty] at kept
    cases kept
  rw [skippedIds_eq planned distinct] at isSkipped
  exact (List.nodup_append.mp all).2.2 _ (List.mem_map_of_mem member) _
    ((skippedIds_sublist made).subset isSkipped) rfl

end Splitting

/-! ## The account of a call -/

/-- A call that returned put, skipped or dropped each packet exactly once. -/
structure Accounts
    (call : DispatchCall)
    (before : DispatchState)
    (result : Outcome DispatchState DispatchEvent) : Prop where
  split :
    ((queuedPackets result.events).map ParsedPacket.packetId ++
        suppressedIds result.events ++
        (droppedPackets result.events).map ParsedPacket.packetId).Perm
      (call.packets.map ParsedPacket.packetId)
  oneQueue :
    ∀ {shard : Nat} {packet : ParsedPacket} {frame : Option ForwardedFrame},
      .queued shard packet frame ∈ result.events → shard = call.shard
  counted :
    Counted before result.state (queuedPackets result.events).length
      (suppressedIds result.events).length
      (droppedPackets result.events).length

/-- The suppressed packets of a failed batch are the skipped ones. -/
theorem suppressedIds_prior (made : List PlanMatch) :
    ((made.filter fun found => found.prior).filter fun found =>
        found.suppressed).map PlanMatch.packetId =
      (made.filter fun found =>
        found.suppressed && found.prior).map PlanMatch.packetId := by
  rw [List.filter_filter]

/-- Counters that a call reads from the table do not matter to the account. -/
theorem Counted.of_prepared
    {suppressing : Option SuppressorLimits}
    {call : DispatchCall}
    {state prepared after : DispatchState}
    {admission : Admission}
    {made : List PlanMatch}
    {dispatched suppressed dropped : Nat}
    (preparation :
      Prepared suppressing call state prepared admission made)
    (counted : Counted prepared after dispatched suppressed dropped) :
    Counted state after dispatched suppressed dropped := by
  have same := preparation.sameCounters
  rw [same] at counted
  exact ⟨counted.dispatched, counted.suppressed, counted.dropped⟩

/-- The account of a branch that commits its plan. -/
theorem accounts_of_commits
    {suppressing : Option SuppressorLimits}
    {call : DispatchCall}
    {state prepared : DispatchState}
    {admission : Admission}
    {made : List PlanMatch}
    {queued : List ParsedPacket}
    {result : Outcome DispatchState DispatchEvent}
    (preparation :
      Prepared suppressing call state prepared admission made)
    (split :
      (queued.map ParsedPacket.packetId ++
          (made.filter fun found =>
            found.suppressed).map PlanMatch.packetId).Perm
        (call.packets.map ParsedPacket.packetId))
    (committing :
      Commits suppressing prepared admission made queued result ∨
        CommitFails prepared admission queued result) :
    .ended (.raised .emptyDroppedList) ∉ result.events ∧
      (.ended .returned ∈ result.events → Accounts call state result) := by
  rcases committing with commits | fails
  · rw [commits.events]
    refine ⟨by simp, fun _ => ?_⟩
    refine { split := ?_, oneQueue := ?_, counted := ?_ }
    · rw [commits.events]
      simpa [suppressedIds] using split
    · intro shard packet frame member
      rw [commits.events] at member
      exact (queued_mem_callEvents _ _ _ _ _ _ member).trans
        preparation.shard
    · rw [commits.events]
      simpa [suppressedIds] using commits.counted.of_prepared preparation
  · obtain ⟨fault, isEvents⟩ := fails.events
    rw [isEvents]
    exact ⟨by simp, fun returned => by simp at returned⟩

/-- The account of every call that returns, and no call drops nothing. -/
theorem dispatchBatch_accounts
    (config : DispatchConfig)
    (suppressing : Option SuppressorLimits)
    {call : DispatchCall}
    (state : DispatchState)
    (distinct : (call.packets.map ParsedPacket.packetId).Nodup) :
    let result := dispatchBatch config suppressing call state
    .ended (.raised .emptyDroppedList) ∉ result.events ∧
      (.ended .returned ∈ result.events → Accounts call state result) := by
  intro result
  by_cases nonempty : call.packets = []
  · have isEmpty : result = finish state [] .returned := by
      show dispatchBatch config suppressing call state = _
      simp [dispatchBatch, nonempty]
    rw [isEmpty]
    refine ⟨by simp [finish], fun _ => ?_⟩
    exact {
      split := by
        simp [finish, queuedPackets, suppressedIds, committedMatches,
          droppedPackets, nonempty]
      oneQueue := by simp [finish]
      counted := by
        constructor <;>
          simp [finish, queuedPackets, suppressedIds, committedMatches,
            droppedPackets]
    }
  obtain ⟨prepared, admission, made, preparation, branch⟩ :=
    dispatchBatch_branch config suppressing state nonempty
  have isResult : dispatchBatch config suppressing call state = result := rfl
  rw [isResult] at branch
  clear_value result
  clear isResult
  have distinctOriginal :
      (admission.original.map ParsedPacket.packetId).Nodup := by
    rw [preparation.original]
    exact distinct
  have planned := preparation.planned
  cases branch with
  | @unfinished ending isUnfinished =>
      refine ⟨?_, ?_⟩
      · intro member
        obtain rfl : _ = ending := by simpa [finish] using member
        exact isUnfinished
      · intro member
        obtain rfl : _ = ending := by simpa [finish] using member
        exact isUnfinished.elim
  | dropped reason retains =>
      obtain ⟨next, dropped, reports, isDrop, -, -, isDropped, counted⟩ :=
        dropBatch_spec planned reason
      have someDropped : dropped ≠ [] := by
        rw [isDropped]
        exact dropped_ne_nil planned distinctOriginal retains
      rw [if_neg someDropped] at isDrop
      rw [isDrop]
      refine ⟨by simp, fun _ => ?_⟩
      have ids := skippedIds_eq planned distinctOriginal
      have split := skipped_append_dropped planned distinctOriginal
      rw [← isDropped, preparation.original] at split
      exact {
        split := by
          simp only [queuedPackets_callEvents, suppressedIds,
            committedMatches_callEvents, droppedPackets_callEvents,
            suppressedIds_prior, ← ids, List.map_nil, List.nil_append]
          exact split
        oneQueue := fun member =>
          (queued_mem_callEvents _ _ _ _ _ _ member).trans
            preparation.shard
        counted := by
          simp only [queuedPackets_callEvents, suppressedIds,
            committedMatches_callEvents, droppedPackets_callEvents,
            suppressedIds_prior, ← ids, List.length_nil]
          exact counted.of_prepared preparation
      }
  | admitted =>
      have split := planned.split
      rw [preparation.original] at split
      exact accounts_of_commits preparation split (admitBatch_spec planned)
  | @skipped limits plan isPlan isEmpty =>
      have noPackets : admission.packets = [] := by
        simp [Admission.packets, isPlan, isEmpty]
      have split := planned.split
      rw [noPackets, preparation.original] at split
      exact accounts_of_commits preparation split
        (skipBatch_spec planned isPlan)

end PacketAudit
