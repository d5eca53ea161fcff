import PacketAudit.Supervisor.Capture

namespace PacketAudit

open Library

/-!
# Every captured frame is accounted for

What a round gathers from the frames of its batch, and the account of whole
captures: every captured frame was dispatched, suppressed, dropped, rejected
by the decoder or ignored.
-/

/-! ## Numbered frames -/

theorem packetId_numberFrames
    (last : Nat)
    (frames : List CapturedPacket) :
    (numberFrames last frames).map CapturedPacket.packetId =
      List.range' (last + 1) frames.length := by
  induction frames generalizing last with
  | nil =>
      rfl
  | cons frame rest inductionHypothesis =>
      rw [numberFrames, List.map_cons, inductionHypothesis, List.length_cons,
        List.range'_succ]

theorem length_numberFrames
    (last : Nat)
    (frames : List CapturedPacket) :
    (numberFrames last frames).length = frames.length := by
  have lengths :=
    congrArg List.length (packetId_numberFrames last frames)
  simpa using lengths

/-! ## Gathering a batch -/

/-- Appending to one pending batch adds one packet to all of them. -/
theorem flatten_modify_append
    {pending : List (List ParsedPacket)}
    {shard : Nat}
    (within : shard < pending.length)
    (parsed : ParsedPacket) :
    (pending.modify shard fun packets =>
        packets ++ [parsed]).flatten.Perm (pending.flatten ++ [parsed]) := by
  induction pending generalizing shard with
  | nil =>
      simp at within
  | cons packets rest inductionHypothesis =>
      cases shard with
      | zero =>
          simp only [List.modify_zero_cons, List.flatten_cons,
            List.append_assoc]
          exact (List.perm_append_comm).append_left packets
      | succ shard =>
          simp only [List.modify_succ_cons, List.flatten_cons,
            List.append_assoc]
          exact (inductionHypothesis (by simpa using within)).append_left
            packets

/-- A packet that was decoded from one of the frames. -/
def DecodedFrom
    (frames : List CapturedPacket)
    (parsed : ParsedPacket) : Prop :=
  ∃ captured ∈ frames, parsePacketStrict captured = .ok (some parsed)

/-- A description that was made of one of the frames. -/
def DescribedFrom
    (localMac : Bytes)
    (frames : List CapturedPacket)
    (packetId : Nat)
    (frame : ForwardedFrame) : Prop :=
  ∃ captured ∈ frames, ∃ parsed,
    captured.packetId = packetId ∧
      parsePacketStrict captured = .ok (some parsed) ∧
      describeForwardedFrame captured parsed localMac = some frame

/-- What a round has gathered from the first frames of its batch. -/
structure GatheredFrom
    (config : CaptureConfig)
    (start : CaptureState)
    (frames : List CapturedPacket)
    (gathering : Gathering) : Prop where
  captured :
    gathering.state.capturedPackets = start.capturedPackets + frames.length
  split :
    gathering.pending.flatten.length + gathering.state.captureParseErrors +
        gathering.state.captureIgnoredPackets =
      frames.length + start.captureParseErrors +
        start.captureIgnoredPackets
  ids :
    ∃ decoded, decoded.Sublist (frames.map CapturedPacket.packetId) ∧
      (gathering.pending.flatten.map ParsedPacket.packetId).Perm decoded
  sameDispatch : gathering.state.dispatch = start.dispatch
  samePacketId : gathering.state.packetId = start.packetId
  decoded :
    ∀ parsed ∈ gathering.pending.flatten, DecodedFrom frames parsed
  described :
    ∀ {limits : SuppressorLimits} {packetId : Nat} {frame : ForwardedFrame},
      config.suppressing = some limits →
        gathering.frameCandidates.get? packetId = some frame →
          DescribedFrom limits.localMac frames packetId frame

variable {digest : String → Nat}
variable {config : CaptureConfig}

theorem DecodedFrom.mono
    {frames larger : List CapturedPacket}
    {parsed : ParsedPacket}
    (decoded : DecodedFrom frames parsed)
    (subset : frames ⊆ larger) :
    DecodedFrom larger parsed := by
  obtain ⟨captured, member, parses⟩ := decoded
  exact ⟨captured, subset member, parses⟩

theorem DescribedFrom.mono
    {localMac : Bytes}
    {frames larger : List CapturedPacket}
    {packetId : Nat}
    {frame : ForwardedFrame}
    (described : DescribedFrom localMac frames packetId frame)
    (subset : frames ⊆ larger) :
    DescribedFrom localMac larger packetId frame := by
  obtain ⟨captured, member, rest⟩ := described
  exact ⟨captured, subset member, rest⟩

/-- A frame that adds no packet to a pending batch. -/
theorem GatheredFrom.skip
    {start state : CaptureState}
    {frames : List CapturedPacket}
    {gathering : Gathering}
    (gathered : GatheredFrom config start frames gathering)
    (captured : CapturedPacket)
    (counted :
      state.capturedPackets = gathering.state.capturedPackets + 1)
    (skipped :
      state.captureParseErrors + state.captureIgnoredPackets =
        gathering.state.captureParseErrors +
          gathering.state.captureIgnoredPackets + 1)
    (sameDispatch : state.dispatch = gathering.state.dispatch)
    (samePacketId : state.packetId = gathering.state.packetId) :
    GatheredFrom config start (frames ++ [captured])
      { gathering with state } := by
  obtain ⟨decoded, sublist, perm⟩ := gathered.ids
  have split := gathered.split
  refine {
    captured := ?_
    split := ?_
    ids := ⟨decoded, ?_, perm⟩
    sameDispatch := sameDispatch.trans gathered.sameDispatch
    samePacketId := samePacketId.trans gathered.samePacketId
    decoded := fun parsed member =>
      (gathered.decoded parsed member).mono (List.subset_append_left _ _)
    described := fun isSome found =>
      (gathered.described isSome found).mono (List.subset_append_left _ _)
  }
  · rw [counted, gathered.captured, List.length_append]
    rfl
  · simp only [List.length_append, List.length_singleton]
    omega
  · rw [List.map_append]
    exact sublist.trans (List.sublist_append_left _ _)

/-- A frame that was decoded and routed. -/
theorem GatheredFrom.decode
    {start : CaptureState}
    {frames : List CapturedPacket}
    {gathering : Gathering}
    {captured : CapturedPacket}
    {parsed : ParsedPacket}
    {shard : Nat}
    (gathered : GatheredFrom config start frames gathering)
    (parses : parsePacketStrict captured = .ok (some parsed))
    (within : shard < gathering.pending.length)
    (routes : RouteState) :
    GatheredFrom config start (frames ++ [captured]) {
      state := {
        gathering.state with
        capturedPackets := gathering.state.capturedPackets + 1
        routes
      }
      pending :=
        gathering.pending.modify shard fun packets => packets ++ [parsed]
      frameCandidates :=
        addCandidate config.suppressing captured parsed
          gathering.frameCandidates
    } := by
  obtain ⟨decoded, sublist, perm⟩ := gathered.ids
  have split := gathered.split
  have added := flatten_modify_append within parsed
  have sameId := parsePacketStrict_packetId parses
  have own : DecodedFrom (frames ++ [captured]) parsed :=
    ⟨captured, by simp, parses⟩
  refine {
    captured := ?_
    split := ?_
    ids := ⟨decoded ++ [captured.packetId], ?_, ?_⟩
    sameDispatch := gathered.sameDispatch
    samePacketId := gathered.samePacketId
    decoded := ?_
    described := ?_
  }
  · simp only [gathered.captured, List.length_append, List.length_singleton]
    rfl
  · have lengths := added.length_eq
    simp only [List.length_append, List.length_singleton] at lengths ⊢
    omega
  · rw [List.map_append]
    exact sublist.append (.refl _)
  · refine (added.map ParsedPacket.packetId).trans ?_
    rw [List.map_append, ← sameId]
    exact perm.append_right _
  · intro other member
    rcases List.mem_append.mp (added.mem_iff.mp member) with earlier | isNew
    · exact (gathered.decoded other earlier).mono
        (List.subset_append_left _ _)
    · obtain rfl := List.mem_singleton.mp isNew
      exact own
  · intro limits packetId frame isSome found
    simp only [addCandidate, isSome] at found
    cases describes :
        describeForwardedFrame captured parsed limits.localMac with
    | none =>
        rw [describes] at found
        exact (gathered.described isSome found).mono
          (List.subset_append_left _ _)
    | some description =>
        rw [describes] at found
        simp only [OrderedTable.get?_set] at found
        split at found
        case isTrue same =>
          cases found
          exact ⟨captured, by simp, parsed, by rw [same, sameId], parses,
            describes⟩
        case isFalse =>
          exact (gathered.described isSome found).mono
            (List.subset_append_left _ _)

theorem gatherFrame_gathered
    {start : CaptureState}
    {frames : List CapturedPacket}
    {gathering next : Gathering}
    {captured : CapturedPacket}
    {now : Int}
    (gathered : GatheredFrom config start frames gathering)
    (gathers :
      gatherFrame digest config gathering captured now = .ok next) :
    GatheredFrom config start (frames ++ [captured]) next := by
  unfold gatherFrame at gathers
  dsimp only at gathers
  split at gathers
  case h_1 =>
    obtain rfl := Except.ok.inj gathers
    exact gathered.skip captured rfl (by simp; omega) rfl rfl
  case h_2 =>
    cases gathers
  case h_3 =>
    obtain rfl := Except.ok.inj gathers
    exact gathered.skip captured rfl rfl rfl rfl
  case h_4 parsed parses =>
    split at gathers
    case isTrue within =>
      obtain rfl := Except.ok.inj gathers
      exact gathered.decode parses within _
    case isFalse =>
      cases gathers

theorem gatherBatch_gathered
    {clock : Nat → Int}
    {start : CaptureState}
    {earlier later : List CapturedPacket}
    {gathering final : Gathering}
    (gathered : GatheredFrom config start earlier gathering)
    (gathers :
      gatherBatch digest config clock later gathering = .ok final) :
    GatheredFrom config start (earlier ++ later) final := by
  induction later generalizing earlier gathering with
  | nil =>
      obtain rfl := Except.ok.inj gathers
      simpa using gathered
  | cons captured rest inductionHypothesis =>
      unfold gatherBatch at gathers
      cases one :
          gatherFrame digest config gathering captured
            (clock captured.packetId) with
      | error fault =>
          rw [one] at gathers
          cases gathers
      | ok next =>
          rw [one] at gathers
          have all :=
            inductionHypothesis (gatherFrame_gathered gathered one) gathers
          simpa using all

/-! ## Dispatching the pending batches -/

/-- The packets that dispatch has counted, one way or another. -/
def DispatchState.accounted (state : DispatchState) : Nat :=
  state.dispatchedPackets + state.suppressedPackets +
    state.userspaceQueueDrops

/-- The account of a call covers its batch. -/
theorem Accounts.accounted
    {call : DispatchCall}
    {before : DispatchState}
    {result : Outcome DispatchState DispatchEvent}
    (accounts : Accounts call before result) :
    result.state.accounted = before.accounted + call.packets.length := by
  have lengths := accounts.split.length_eq
  simp only [List.length_append, List.length_map] at lengths
  have counted := accounts.counted
  rw [DispatchState.accounted, DispatchState.accounted, counted.dispatched,
    counted.suppressed, counted.dropped]
  omega

/-- Every call reports how it ended. -/
theorem dispatchBatch_ends
    (config : DispatchConfig)
    (suppressing : Option SuppressorLimits)
    (call : DispatchCall)
    (state : DispatchState) :
    ∃ ending,
      .ended ending ∈
        (dispatchBatch config suppressing call state).events := by
  by_cases nonempty : call.packets = []
  · exact ⟨.returned, by simp [dispatchBatch, nonempty, finish]⟩
  obtain ⟨prepared, admission, made, preparation, branch⟩ :=
    dispatchBatch_branch config suppressing state nonempty
  have planned := preparation.planned
  generalize dispatchBatch config suppressing call state = result at branch ⊢
  cases branch with
  | @unfinished ending isUnfinished =>
      exact ⟨ending, by simp [finish]⟩
  | dropped reason retains =>
      obtain ⟨next, dropped, reports, isDrop, -⟩ :=
        dropBatch_spec planned reason
      rw [isDrop]
      exact ⟨_, (ended_mem_callEvents _ _ _ _ _ _ _).mpr rfl⟩
  | admitted =>
      rcases admitBatch_spec planned with commits | fails
      · rw [commits.events]
        exact ⟨_, (ended_mem_callEvents _ _ _ _ _ _ _).mpr rfl⟩
      · obtain ⟨fault, isEvents⟩ := fails.events
        rw [isEvents]
        exact ⟨_, (ended_mem_callEvents _ _ _ _ _ _ _).mpr rfl⟩
  | skipped isPlan isEmpty =>
      rcases skipBatch_spec planned isPlan with commits | fails
      · rw [commits.events]
        exact ⟨_, (ended_mem_callEvents _ _ _ _ _ _ _).mpr rfl⟩
      · obtain ⟨fault, isEvents⟩ := fails.events
        rw [isEvents]
        exact ⟨_, (ended_mem_callEvents _ _ _ _ _ _ _).mpr rfl⟩

theorem allReturned_append
    (first second : List DispatchEvent) :
    allReturned (first ++ second) =
      (allReturned first && allReturned second) :=
  List.all_append

theorem returned_of_allReturned
    {events : List DispatchEvent}
    {ending : DispatchEnding}
    (returned : allReturned events = true)
    (member : .ended ending ∈ events) :
    ending = .returned := by
  have all := List.all_eq_true.mp returned _ member
  simpa using all

/-- Calls that all returned account for all of their packets. -/
theorem dispatchAll_accounted
    (dispatchConfig : DispatchConfig)
    (suppressing : Option SuppressorLimits)
    (calls : List DispatchCall)
    (state : DispatchState)
    (distinct :
      ∀ call ∈ calls, (call.packets.map ParsedPacket.packetId).Nodup)
    (returned :
      allReturned
        (dispatchAll dispatchConfig suppressing calls state).events =
          true) :
    (dispatchAll dispatchConfig suppressing calls state).state.accounted =
      state.accounted +
        (calls.map fun call => call.packets.length).sum := by
  induction calls generalizing state with
  | nil =>
      rfl
  | cons call rest inductionHypothesis =>
      have isRun :
          dispatchAll dispatchConfig suppressing (call :: rest) state =
            (dispatchBatch dispatchConfig suppressing call state).andThen
              (dispatchAll dispatchConfig suppressing rest) := rfl
      rw [isRun, Outcome.events_andThen, allReturned_append,
        Bool.and_eq_true] at returned
      obtain ⟨ending, ends⟩ :=
        dispatchBatch_ends dispatchConfig suppressing call state
      have isReturned := returned_of_allReturned returned.1 ends
      subst isReturned
      have accounts :=
        (dispatchBatch_accounts dispatchConfig suppressing state
          (distinct call (by simp))).2 ends
      rw [isRun, Outcome.state_andThen,
        inductionHypothesis _
          (fun later member =>
            distinct later (List.mem_cons_of_mem _ member))
          returned.2,
        accounts.accounted, List.map_cons, List.sum_cons]
      omega

/-! ## Whole captures -/

/-- The account of a capture. -/
def CaptureState.Balanced (state : CaptureState) : Prop :=
  state.capturedPackets =
    state.dispatch.accounted + state.captureParseErrors +
      state.captureIgnoredPackets

/-- What a round gathers. -/
theorem gatherRound_gathered
    {batch : CaptureBatch}
    {state : CaptureState}
    {gathering : Gathering}
    (gathers : gatherRound digest config batch state = .ok gathering) :
    GatheredFrom config
      { state with packetId := state.packetId + batch.frames.length }
      (numberFrames state.packetId batch.frames) gathering := by
  have initial :
      GatheredFrom config
        { state with packetId := state.packetId + batch.frames.length }
        [] (startRound config batch state) := {
    captured := rfl
    split := by simp [startRound]
    ids := ⟨[], by simp, by simp [startRound]⟩
    sameDispatch := rfl
    samePacketId := rfl
    decoded := by simp [startRound]
    described := by
      intro limits packetId frame _ found
      cases found
  }
  simpa using gatherBatch_gathered initial gathers

/-- What a round that ends normally has gathered and dispatched. -/
theorem captureBatch_eq_ok
    {batch : CaptureBatch}
    {state : CaptureState}
    {result : Outcome CaptureState DispatchEvent}
    (succeeds : captureBatch digest config batch state = .ok result) :
    ∃ gathering,
      gatherRound digest config batch state = .ok gathering ∧
        let dispatched :=
          dispatchAll config.dispatch config.suppressing
            (pendingCalls gathering batch.conditions) state.dispatch
        allReturned dispatched.events = true ∧
          result = {
            state := { gathering.state with dispatch := dispatched.state }
            events := dispatched.events
          } := by
  unfold captureBatch at succeeds
  cases gathers : gatherRound digest config batch state with
  | error fault =>
      rw [gathers] at succeeds
      cases succeeds
  | ok gathering =>
      rw [gathers] at succeeds
      refine ⟨gathering, rfl, ?_⟩
      intro dispatched
      have sameDispatch := (gatherRound_gathered gathers).sameDispatch
      change
        (if allReturned
            (dispatchAll config.dispatch config.suppressing
              (pendingCalls gathering batch.conditions)
              gathering.state.dispatch).events then
          _ else _) = _ at succeeds
      rw [sameDispatch] at succeeds
      split at succeeds
      case isTrue returned =>
        exact ⟨returned, (Except.ok.inj succeeds).symm⟩
      case isFalse =>
        cases succeeds

/-- The pending batches hold distinct packets. -/
theorem pendingCalls_distinct
    {start : CaptureState}
    {last : Nat}
    {frames : List CapturedPacket}
    {gathering : Gathering}
    (gathered :
      GatheredFrom config start (numberFrames last frames) gathering)
    (conditions : Nat → QueueConditions) :
    ∀ call ∈ pendingCalls gathering conditions,
      (call.packets.map ParsedPacket.packetId).Nodup := by
  intro call member
  obtain ⟨decoded, sublist, perm⟩ := gathered.ids
  rw [packetId_numberFrames] at sublist
  have all := perm.nodup_iff.mpr ((List.nodup_range').sublist sublist)
  obtain ⟨shard, within, rfl⟩ := List.mem_mapIdx.mp member
  have part :
      gathering.pending[shard].Sublist gathering.pending.flatten :=
    List.sublist_flatten_of_mem (List.getElem_mem within)
  exact all.sublist (part.map _)

/-- The pending batches hold all decoded packets. -/
theorem pendingCalls_lengths
    (gathering : Gathering)
    (conditions : Nat → QueueConditions) :
    ((pendingCalls gathering conditions).map fun call =>
        call.packets.length).sum =
      gathering.pending.flatten.length := by
  have lengths :
      (pendingCalls gathering conditions).map
          (fun call => call.packets.length) =
        gathering.pending.map List.length :=
    List.ext_getElem (by simp [pendingCalls]) (by simp [pendingCalls])
  rw [lengths, List.length_flatten]

theorem captureBatch_balanced
    {batch : CaptureBatch}
    {state : CaptureState}
    {result : Outcome CaptureState DispatchEvent}
    (balanced : state.Balanced)
    (succeeds : captureBatch digest config batch state = .ok result) :
    result.state.Balanced := by
  obtain ⟨gathering, gathers, returned, rfl⟩ := captureBatch_eq_ok succeeds
  have gathered := gatherRound_gathered gathers
  have dispatched :=
    dispatchAll_accounted config.dispatch config.suppressing _
      state.dispatch
      (pendingCalls_distinct gathered batch.conditions) returned
  have captured := gathered.captured
  have split := gathered.split
  rw [pendingCalls_lengths] at dispatched
  unfold CaptureState.Balanced at balanced ⊢
  simp only at captured split ⊢
  omega

/-- A capture is a round and the capture after it. -/
theorem captureAll_cons_eq_ok
    {batch : CaptureBatch}
    {rest : List CaptureBatch}
    {state : CaptureState}
    {result : Outcome CaptureState DispatchEvent}
    (succeeds :
      captureAll digest config (batch :: rest) state = .ok result) :
    ∃ first later,
      captureBatch digest config batch state = .ok first ∧
        captureAll digest config rest first.state = .ok later ∧
        result = {
          state := later.state
          events := first.events ++ later.events
        } := by
  unfold captureAll at succeeds
  cases isFirst : captureBatch digest config batch state with
  | error fault =>
      rw [isFirst] at succeeds
      cases succeeds
  | ok first =>
      rw [isFirst] at succeeds
      change (captureAll digest config rest first.state >>= _) = _
        at succeeds
      cases isLater : captureAll digest config rest first.state with
      | error fault =>
          rw [isLater] at succeeds
          cases succeeds
      | ok later =>
          rw [isLater] at succeeds
          exact ⟨first, later, rfl, isLater, (Except.ok.inj succeeds).symm⟩

/-- The account of every capture, however many batches it has. -/
theorem captureAll_balanced
    {batches : List CaptureBatch}
    {state : CaptureState}
    {result : Outcome CaptureState DispatchEvent}
    (balanced : state.Balanced)
    (succeeds : captureAll digest config batches state = .ok result) :
    result.state.Balanced := by
  induction batches generalizing state result with
  | nil =>
      obtain rfl := Except.ok.inj succeeds
      exact balanced
  | cons batch rest inductionHypothesis =>
      obtain ⟨first, later, isFirst, isLater, rfl⟩ :=
        captureAll_cons_eq_ok succeeds
      exact @inductionHypothesis first.state later
        (captureBatch_balanced balanced isFirst) isLater

/--
Packet accounting.  Every call of `_dispatch_batch` that returns puts, skips
or drops each packet of its batch exactly once and counts it so, no call finds
an empty list of dropped packets, and after every batch of a capture the
captured frames are all accounted for.
-/
theorem dispatch_accounts_for_every_packet :
    (∀ (dispatchConfig : DispatchConfig)
        (suppressing : Option SuppressorLimits)
        (call : DispatchCall)
        (state : DispatchState),
      (call.packets.map ParsedPacket.packetId).Nodup →
        let result := dispatchBatch dispatchConfig suppressing call state
        .ended (.raised .emptyDroppedList) ∉ result.events ∧
          (.ended .returned ∈ result.events →
            Accounts call state result ∧
              result.state.accounted =
                state.accounted + call.packets.length)) ∧
      ∀ (digest : String → Nat)
        (config : CaptureConfig)
        (batches : List CaptureBatch)
        (result : Outcome CaptureState DispatchEvent),
        captureAll digest config batches {} = .ok result →
          result.state.capturedPackets =
            result.state.dispatch.dispatchedPackets +
              result.state.dispatch.suppressedPackets +
              result.state.dispatch.userspaceQueueDrops +
              result.state.captureParseErrors +
              result.state.captureIgnoredPackets := by
  refine ⟨?_, ?_⟩
  · intro dispatchConfig suppressing call state distinct result
    obtain ⟨neverEmpty, accounts⟩ :=
      dispatchBatch_accounts dispatchConfig suppressing state distinct
    exact ⟨neverEmpty, fun returned =>
      ⟨accounts returned, (accounts returned).accounted⟩⟩
  · intro digest config batches result succeeds
    have initial : CaptureState.Balanced {} := rfl
    exact captureAll_balanced initial succeeds

end PacketAudit
