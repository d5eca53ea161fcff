import PacketAudit.Supervisor.CaptureTotals
import PacketAudit.Supervisor.Pairing
import PacketAudit.Forwarded.Content

namespace PacketAudit

open Library

/-!
# Suppressed copies repeat what was queued

Every pair of every plan of a capture joins a packet of the batch to a queued
packet whose frame has the same key, so both have the same content.
-/

/-- A call whose packets and descriptions come from the given frames. -/
structure CallFrom
    (localMac : Bytes)
    (frames : List CapturedPacket)
    (call : DispatchCall) : Prop where
  decoded : ∀ parsed ∈ call.packets, DecodedFrom frames parsed
  described :
    ∀ {packetId : Nat} {frame : ForwardedFrame},
      call.frames.get? packetId = some frame →
        DescribedFrom localMac frames packetId frame

/-- The queued packets and their descriptions come from the given frames. -/
def QueuedFrom
    (localMac : Bytes)
    (frames : List CapturedPacket)
    (events : List DispatchEvent) : Prop :=
  ∀ {shard : Nat} {packet : ParsedPacket} {frame : ForwardedFrame},
    .queued shard packet (some frame) ∈ events →
      DecodedFrom frames packet ∧
        DescribedFrom localMac frames packet.packetId frame

/-- A capture so far: its frames, the events and the dispatch state. -/
structure CapturedSoFar
    (limits : SuppressorLimits)
    (frames : List CapturedPacket)
    (log : List DispatchEvent)
    (state : DispatchState) : Prop where
  paired : PairedUp limits log state
  queued : QueuedFrom limits.localMac frames log

variable {limits : SuppressorLimits}
variable {frames : List CapturedPacket}

theorem CallFrom.mono
    {localMac : Bytes}
    {larger : List CapturedPacket}
    {call : DispatchCall}
    (comes : CallFrom localMac frames call)
    (subset : frames ⊆ larger) :
    CallFrom localMac larger call where
  decoded := fun parsed member => (comes.decoded parsed member).mono subset
  described := fun found => (comes.described found).mono subset

theorem CapturedSoFar.mono
    {larger : List CapturedPacket}
    {log : List DispatchEvent}
    {state : DispatchState}
    (soFar : CapturedSoFar limits frames log state)
    (subset : frames ⊆ larger) :
    CapturedSoFar limits larger log state where
  paired := soFar.paired
  queued := by
    intro shard packet frame member
    obtain ⟨decoded, described⟩ := soFar.queued member
    exact ⟨decoded.mono subset, described.mono subset⟩

/-- A call queues packets of its batch under their own descriptions. -/
theorem dispatchBatch_queued
    (config : DispatchConfig)
    (suppressing : Option SuppressorLimits)
    (call : DispatchCall)
    (state : DispatchState)
    {shard : Nat}
    {packet : ParsedPacket}
    {frame : Option ForwardedFrame}
    (member :
      .queued shard packet frame ∈
        (dispatchBatch config suppressing call state).events) :
    packet ∈ call.packets ∧ frame = call.frames.get? packet.packetId := by
  by_cases nonempty : call.packets = []
  · simp [dispatchBatch, nonempty, finish] at member
  obtain ⟨prepared, admission, made, preparation, branch⟩ :=
    dispatchBatch_branch config suppressing state nonempty
  have planned := preparation.planned
  generalize dispatchBatch config suppressing call state = result
    at branch member
  have ofCall
      {queued : List ParsedPacket}
      {committed : List PlanMatch}
      {dropped : List ParsedPacket}
      {reports : List DropReport}
      {ending : DispatchEnding}
      (subset : queued ⊆ admission.original)
      (isQueued :
        .queued shard packet frame ∈
          callEvents admission queued committed dropped reports ending) :
      packet ∈ call.packets ∧ frame = call.frames.get? packet.packetId := by
    obtain ⟨isPacket, -, isFrame⟩ := by simpa [callEvents] using isQueued
    rw [← preparation.original, ← preparation.frames]
    exact ⟨subset isPacket, isFrame.symm⟩
  cases branch with
  | unfinished isUnfinished =>
      simp [finish] at member
  | dropped reason retains =>
      obtain ⟨next, dropped, reports, isDrop, -⟩ :=
        dropBatch_spec planned reason
      rw [isDrop] at member
      exact ofCall (List.nil_subset _) member
  | admitted =>
      rcases admitBatch_spec planned with commits | fails
      · rw [commits.events] at member
        exact ofCall planned.retained.subset member
      · obtain ⟨fault, isEvents⟩ := fails.events
        rw [isEvents] at member
        exact ofCall planned.retained.subset member
  | skipped isPlan isEmpty =>
      rcases skipBatch_spec planned isPlan with commits | fails
      · rw [commits.events] at member
        exact ofCall (List.nil_subset _) member
      · obtain ⟨fault, isEvents⟩ := fails.events
        rw [isEvents] at member
        exact ofCall (List.nil_subset _) member

/-- One call on packets of the capture. -/
theorem CapturedSoFar.call
    (config : DispatchConfig)
    {call : DispatchCall}
    {log : List DispatchEvent}
    {state : DispatchState}
    (comes : CallFrom limits.localMac frames call)
    (soFar : CapturedSoFar limits frames log state) :
    CapturedSoFar limits frames
      (log ++ (dispatchBatch config (some limits) call state).events)
      (dispatchBatch config (some limits) call state).state where
  paired := dispatchBatch_pairedUp config call soFar.paired
  queued := by
    intro shard packet frame member
    rcases List.mem_append.mp member with earlier | new
    · exact soFar.queued earlier
    · obtain ⟨isPacket, isFrame⟩ :=
        dispatchBatch_queued config (some limits) call state new
      exact ⟨comes.decoded packet isPacket, comes.described isFrame.symm⟩

/-- Several calls on packets of the capture. -/
theorem CapturedSoFar.calls
    (config : DispatchConfig)
    {calls : List DispatchCall}
    {log : List DispatchEvent}
    {state : DispatchState}
    (come : ∀ call ∈ calls, CallFrom limits.localMac frames call)
    (soFar : CapturedSoFar limits frames log state) :
    CapturedSoFar limits frames
      (log ++ (dispatchAll config (some limits) calls state).events)
      (dispatchAll config (some limits) calls state).state :=
  @runAll_invariant _ _ _ (dispatchBatch config (some limits))
    (CallFrom limits.localMac frames) (CapturedSoFar limits frames)
    (fun comes held => held.call config comes) calls come log state soFar

/-- The calls of a round are on packets of its frames. -/
theorem pendingCalls_from
    {config : CaptureConfig}
    {start : CaptureState}
    {gathering : Gathering}
    (isSuppressing : config.suppressing = some limits)
    (gathered : GatheredFrom config start frames gathering)
    (conditions : Nat → QueueConditions) :
    ∀ call ∈ pendingCalls gathering conditions,
      CallFrom limits.localMac frames call := by
  intro call member
  obtain ⟨shard, within, rfl⟩ := List.mem_mapIdx.mp member
  exact {
    decoded := fun parsed isPending =>
      gathered.decoded parsed
        (List.mem_flatten_of_mem (List.getElem_mem within) isPending)
    described := fun found => gathered.described isSuppressing found
  }

/-- The frames of several batches, as their source numbers them. -/
def capturedFrames : Nat → List CaptureBatch → List CapturedPacket
  | _, [] => []
  | last, batch :: rest =>
      numberFrames last batch.frames ++
        capturedFrames (last + batch.frames.length) rest

theorem packetId_capturedFrames
    (last : Nat)
    (batches : List CaptureBatch) :
    (capturedFrames last batches).map CapturedPacket.packetId =
      List.range' (last + 1)
        (batches.map fun batch => batch.frames.length).sum := by
  induction batches generalizing last with
  | nil =>
      rfl
  | cons batch rest inductionHypothesis =>
      rw [capturedFrames, List.map_append, packetId_numberFrames,
        inductionHypothesis, List.map_cons, List.sum_cons,
        ← List.range'_append_1]
      congr 2
      omega

/-- A round on the next frames of the source. -/
theorem CapturedSoFar.round
    {digest : String → Nat}
    {config : CaptureConfig}
    {batch : CaptureBatch}
    {state : CaptureState}
    {log : List DispatchEvent}
    {result : Outcome CaptureState DispatchEvent}
    (isSuppressing : config.suppressing = some limits)
    (soFar : CapturedSoFar limits frames log state.dispatch)
    (succeeds : captureBatch digest config batch state = .ok result) :
    CapturedSoFar limits
        (frames ++ numberFrames state.packetId batch.frames)
        (log ++ result.events) result.state.dispatch ∧
      result.state.packetId = state.packetId + batch.frames.length := by
  obtain ⟨gathering, gathers, -, rfl⟩ := captureBatch_eq_ok succeeds
  have gathered := gatherRound_gathered gathers
  have come :
      ∀ call ∈ pendingCalls gathering batch.conditions,
        CallFrom limits.localMac
          (frames ++ numberFrames state.packetId batch.frames) call := by
    intro call member
    exact (pendingCalls_from isSuppressing gathered _ call member).mono
      (List.subset_append_right _ _)
  refine ⟨?_, gathered.samePacketId⟩
  rw [isSuppressing]
  exact (soFar.mono (List.subset_append_left _ _)).calls config.dispatch come

/-- A whole capture. -/
theorem captureAll_capturedSoFar
    {digest : String → Nat}
    {config : CaptureConfig}
    {batches : List CaptureBatch}
    {state : CaptureState}
    {log : List DispatchEvent}
    {result : Outcome CaptureState DispatchEvent}
    (isSuppressing : config.suppressing = some limits)
    (soFar : CapturedSoFar limits frames log state.dispatch)
    (succeeds : captureAll digest config batches state = .ok result) :
    CapturedSoFar limits
        (frames ++ capturedFrames state.packetId batches)
        (log ++ result.events) result.state.dispatch ∧
      result.state.packetId =
        state.packetId +
          (batches.map fun batch => batch.frames.length).sum := by
  induction batches generalizing frames log state result with
  | nil =>
      obtain rfl := Except.ok.inj succeeds
      exact ⟨by simpa [capturedFrames] using soFar, rfl⟩
  | cons batch rest inductionHypothesis =>
      obtain ⟨first, later, isFirst, isLater, rfl⟩ :=
        captureAll_cons_eq_ok succeeds
      obtain ⟨round, nextId⟩ := soFar.round isSuppressing isFirst
      obtain ⟨all, lastId⟩ := inductionHypothesis round isLater
      rw [nextId, List.append_assoc, List.append_assoc] at all
      refine ⟨all, ?_⟩
      simp only [lastId, nextId, List.map_cons, List.sum_cons]
      omega

/-! ## Pairs of a plan -/

/-- One identifier means one frame and one decoded packet. -/
theorem described_eq_decoded
    {localMac : Bytes}
    {packet : ParsedPacket}
    {frame : ForwardedFrame}
    (distinct : (frames.map CapturedPacket.packetId).Nodup)
    (decoded : DecodedFrom frames packet)
    (described :
      DescribedFrom localMac frames packet.packetId frame) :
    ∃ captured ∈ frames,
      parsePacketStrict captured = .ok (some packet) ∧
        describeForwardedFrame captured packet localMac = some frame := by
  obtain ⟨first, firstMember, parses⟩ := decoded
  obtain ⟨second, secondMember, parsed, sameId, otherParses, describes⟩ :=
    described
  have same : second = first := by
    refine List.inj_on_of_nodup_map distinct secondMember firstMember ?_
    rw [sameId, parsePacketStrict_packetId parses]
  subst same
  rw [parses] at otherParses
  cases otherParses
  exact ⟨second, firstMember, parses, describes⟩

/-- The plan that a call makes, under a given pressure. -/
def plannedBy
    (limits : SuppressorLimits)
    (call : DispatchCall)
    (pressure : Bool)
    (state : DispatchState) : Outcome DuplicatePlan PlanMatch :=
  (state.suppressor.expireFor limits call.packets).planned limits
    call.packets call.frames pressure

/-- A pair joins a packet of the batch to a queued packet of equal content. -/
def PairsContent
    (call : DispatchCall)
    (log : List DispatchEvent)
    (plan : DuplicatePlan)
    (pair : Nat × Nat) : Prop :=
  ∃ skipped ∈ call.packets, ∃ queued,
    (queued ∈ queuedPackets log ∨ queued ∈ plan.retained) ∧
      skipped.packetId = pair.1 ∧
      queued.packetId = pair.2 ∧
      skipped.content = queued.content

/-- The ingress of a match is a queued packet, of this batch or before. -/
theorem queued_of_match
    {call : DispatchCall}
    {log : List DispatchEvent}
    {state : DispatchState}
    {pressure : Bool}
    (comes : CallFrom limits.localMac frames call)
    (soFar : CapturedSoFar limits frames log state)
    {found : PlanMatch}
    (isMatch :
      found ∈ (plannedBy limits call pressure state).events) :
    ∃ queued frame,
      (queued ∈ queuedPackets log ∨
          queued ∈ (plannedBy limits call pressure state).state.retained) ∧
        DecodedFrom frames queued ∧
        DescribedFrom limits.localMac frames queued.packetId frame ∧
        ingressEntry queued (some frame) = some found.entry := by
  have plans :=
    @PlannedFrom.planned limits call.frames pressure
      (state.suppressor.expireFor limits call.packets) call.packets
  have isPlan :
      (state.suppressor.expireFor limits call.packets).planned limits
          call.packets call.frames pressure =
        plannedBy limits call pressure state := rfl
  rw [isPlan] at plans
  cases isPrior : found.prior with
  | true =>
      obtain ⟨consumed, -, -, counted⟩ :=
        plans.consume_uses .changedBeforeCommit
      have isUsed :
          found.entry ∈
            entriesOf ((plannedBy limits call pressure state).events.filter
              fun found => found.prior) :=
        List.mem_map_of_mem
          (List.mem_filter.mpr ⟨isMatch, by simpa using isPrior⟩)
      have isHeld :
          found.entry ∈
            (state.suppressor.expireFor limits call.packets).held := by
        rw [← counted]
        exact Multiset.mem_add.mpr (.inr isUsed)
      have wasHeld :=
        Multiset.mem_of_le
          (Suppressor.keepsLess_expireFor _ call.packets).held isHeld
      have wasQueued : found.entry ∈ queuedIngress log :=
        Multiset.mem_of_le
          ((Multiset.le_add_left _ _).trans soFar.paired.oneToOne) wasHeld
      obtain ⟨event, member, isEntry⟩ := List.mem_filterMap.mp wasQueued
      cases event with
      | queued shard packet frame =>
          cases frame with
          | none =>
              cases isEntry
          | some frame =>
              obtain ⟨decoded, described⟩ := soFar.queued member
              refine ⟨packet, frame, .inl ?_, decoded, described, isEntry⟩
              exact List.mem_filterMap.mpr ⟨_, member, rfl⟩
      | matched found => cases isEntry
      | dropped packet => cases isEntry
      | reported report => cases isEntry
      | ended ending => cases isEntry
  | false =>
      have isUsed :
          found.entry ∈
            entriesOf ((plannedBy limits call pressure state).events.filter
              fun found => !found.prior) :=
        List.mem_map_of_mem
          (List.mem_filter.mpr ⟨isMatch, by simpa using isPrior⟩)
      have isIngress :
          found.entry ∈ ingressEntries call.frames call.packets := by
        have total := plans.fresh
        have member := Multiset.mem_add.mpr
          (Or.inl isUsed :
            _ ∨ found.entry ∈
              (plannedBy limits call pressure state).state.ingress.total
                heldAt)
        rw [total] at member
        exact member
      rw [← plans.ingressRetained] at isIngress
      obtain ⟨packet, isRetained, isEntry⟩ := List.mem_filterMap.mp isIngress
      cases described : call.frames.get? packet.packetId with
      | none =>
          rw [described] at isEntry
          cases isEntry
      | some frame =>
          rw [described] at isEntry
          exact ⟨packet, frame, .inr isRetained,
            comes.decoded packet (plans.retained.subset isRetained),
            comes.described described, isEntry⟩

/-- Every pair of a plan has equal content. -/
theorem pairsContent_of_capturedSoFar
    {call : DispatchCall}
    {log : List DispatchEvent}
    {state : DispatchState}
    {pressure : Bool}
    (distinct : (frames.map CapturedPacket.packetId).Nodup)
    (comes : CallFrom limits.localMac frames call)
    (soFar : CapturedSoFar limits frames log state) :
    ∀ pair ∈ (plannedBy limits call pressure state).state.pairs,
      PairsContent call log (plannedBy limits call pressure state).state
        pair := by
  have plans :=
    @PlannedFrom.planned limits call.frames pressure
      (state.suppressor.expireFor limits call.packets) call.packets
  have isPlan :
      (state.suppressor.expireFor limits call.packets).planned limits
          call.packets call.frames pressure =
        plannedBy limits call pressure state := rfl
  rw [isPlan] at plans
  intro pair member
  have isOfBatch :
      pair.1 ∈ call.packets.map ParsedPacket.packetId :=
    plans.split.mem_iff.mp
      (List.mem_append_right _ (List.mem_map_of_mem member))
  obtain ⟨skipped, isSkipped, skippedId⟩ := List.mem_map.mp isOfBatch
  rw [plans.pairs] at member
  obtain ⟨found, isMatch, rfl⟩ := List.mem_map.mp member
  replace isMatch := (List.mem_filter.mp isMatch).1
  obtain ⟨queued, frame, isQueued, queuedDecoded, queuedDescribed, isEntry⟩ :=
    queued_of_match comes soFar isMatch
  obtain ⟨captured, -, parses, describes⟩ :=
    described_eq_decoded distinct (comes.decoded skipped isSkipped)
      (by
        rw [skippedId]
        exact comes.described (plans.framed found isMatch))
  obtain ⟨ingress, -, ingressParses, ingressDescribes⟩ :=
    described_eq_decoded distinct queuedDecoded queuedDescribed
  have justified := plans.justified found isMatch
  have entryOfFrame :
      found.key.1 = frame.key ∧ found.record.packetId = queued.packetId := by
    simp only [ingressEntry] at isEntry
    split at isEntry
    · have same := Option.some.inj isEntry
      exact ⟨congrArg (fun entry => entry.1.1) same.symm,
        congrArg (fun entry => entry.2.packetId) same.symm⟩
    · cases isEntry
  have equalKeys : found.frame.key = frame.key :=
    justified.sameKey.symm.trans entryOfFrame.1
  exact ⟨skipped, isSkipped, queued, isQueued, skippedId,
    entryOfFrame.2.symm,
    content_of_equal_keys parses ingressParses describes ingressDescribes
      equalKeys⟩

/-- The fields of decoded packets that the analysis reads. -/
structure SameAnalysis (first second : ParsedPacket) : Prop where
  vlanIds : first.vlanIds = second.vlanIds
  ipVersion : first.ipVersion = second.ipVersion
  src : first.src = second.src
  dst : first.dst = second.dst
  protocol : first.protocol = second.protocol
  sport : first.sport = second.sport
  dport : first.dport = second.dport
  tcpSeq : first.tcpSeq = second.tcpSeq
  tcpAck : first.tcpAck = second.tcpAck
  tcpFlags : first.tcpFlags = second.tcpFlags
  transportPayload : first.transportPayload = second.transportPayload

theorem sameAnalysis_of_content
    {first second : ParsedPacket}
    (same : first.content = second.content) :
    SameAnalysis first second where
  vlanIds := congrArg PacketContent.vlanIds same
  ipVersion := congrArg PacketContent.ipVersion same
  src := congrArg PacketContent.src same
  dst := congrArg PacketContent.dst same
  protocol := congrArg PacketContent.protocol same
  sport := congrArg PacketContent.sport same
  dport := congrArg PacketContent.dport same
  tcpSeq := congrArg PacketContent.tcpSeq same
  tcpAck := congrArg PacketContent.tcpAck same
  tcpFlags := congrArg PacketContent.tcpFlags same
  transportPayload := congrArg PacketContent.transportPayload same

/--
Suppression hides no content.  Frames described with equal keys decode to
packets that the analysis cannot tell apart; and in every round of every
capture, each pair of each plan joins a packet of the batch to such a packet
that was queued before or is retained with the batch.
-/
theorem suppression_hides_no_content :
    (∀ (localMac : Bytes)
        (first second : CapturedPacket)
        (firstParsed secondParsed : ParsedPacket)
        (firstFrame secondFrame : ForwardedFrame),
      parsePacketStrict first = .ok (some firstParsed) →
      parsePacketStrict second = .ok (some secondParsed) →
      describeForwardedFrame first firstParsed localMac = some firstFrame →
      describeForwardedFrame second secondParsed localMac =
          some secondFrame →
      firstFrame.key = secondFrame.key →
        SameAnalysis firstParsed secondParsed) ∧
      ∀ (digest : String → Nat)
        (config : CaptureConfig)
        (limits : SuppressorLimits)
        (batches : List CaptureBatch)
        (result : Outcome CaptureState DispatchEvent)
        (batch : CaptureBatch)
        (gathering : Gathering)
        (earlier : List DispatchCall)
        (call : DispatchCall)
        (later : List DispatchCall)
        (pressure : Bool),
        config.suppressing = some limits →
        captureAll digest config batches {} = .ok result →
        gatherRound digest config batch result.state = .ok gathering →
        pendingCalls gathering batch.conditions = earlier ++ call :: later →
          let before :=
            dispatchAll config.dispatch (some limits) earlier
              result.state.dispatch
          let plan := (plannedBy limits call pressure before.state).state
          ∀ pair ∈ plan.pairs,
            ∃ skipped ∈ call.packets, ∃ queued,
              (queued ∈ queuedPackets (result.events ++ before.events) ∨
                  queued ∈ plan.retained) ∧
                skipped.packetId = pair.1 ∧
                queued.packetId = pair.2 ∧
                SameAnalysis skipped queued := by
  refine ⟨?_, ?_⟩
  · intro localMac first second firstParsed secondParsed firstFrame
      secondFrame firstParses secondParses firstDescribes secondDescribes
      equalKeys
    exact sameAnalysis_of_content
      (content_of_equal_keys firstParses secondParses firstDescribes
        secondDescribes equalKeys)
  · intro digest config limits batches result batch gathering earlier call
      later pressure isSuppressing succeeds gathers isSplit before plan pair
      member
    have initial : CapturedSoFar limits [] [] ({} : CaptureState).dispatch := {
      paired := dispatchAll_pairedUp config.dispatch limits []
      queued := by
        intro shard packet frame isQueued
        cases isQueued
    }
    obtain ⟨soFar, nextId⟩ :=
      captureAll_capturedSoFar isSuppressing initial succeeds
    have gathered := gatherRound_gathered gathers
    generalize isFrames :
      capturedFrames ({} : CaptureState).packetId batches ++
        numberFrames result.state.packetId batch.frames = frames
    have distinct : (frames.map CapturedPacket.packetId).Nodup := by
      rw [← isFrames, List.map_append, packetId_capturedFrames,
        packetId_numberFrames, nextId, Nat.add_right_comm,
        List.range'_append_1]
      exact List.nodup_range'
    have come :
        ∀ other ∈ earlier ++ call :: later,
          CallFrom limits.localMac frames other := by
      intro other isPending
      rw [← isSplit] at isPending
      refine (pendingCalls_from isSuppressing gathered _ other
        isPending).mono ?_
      rw [← isFrames]
      exact List.subset_append_right _ _
    have reached :
        CapturedSoFar limits frames (result.events ++ before.events)
          before.state := by
      have known : CapturedSoFar limits frames result.events
          result.state.dispatch := by
        refine CapturedSoFar.mono (by simpa using soFar) ?_
        rw [← isFrames]
        exact List.subset_append_left _ _
      exact known.calls config.dispatch (fun other isEarlier =>
        come other (List.mem_append_left _ isEarlier))
    obtain ⟨skipped, isSkipped, queued, isQueued, skippedId, queuedId,
      same⟩ :=
      pairsContent_of_capturedSoFar distinct (come call (by simp)) reached
        pair member
    exact ⟨skipped, isSkipped, queued, isQueued, skippedId, queuedId,
      sameAnalysis_of_content same⟩

end PacketAudit
