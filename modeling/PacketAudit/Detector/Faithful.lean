import PacketAudit.Detector.Feeding
import PacketAudit.Detector.Tails
import PacketAudit.Tcp.FirstSeen

namespace PacketAudit.Detector

/-!
# The retained tails are faithful

In a run on chunks of the reassembler every tail is a suffix of the latest
gap-free island of the chunks merged for its direction, and what the scanners
get of a chunk is the end of the tail before, followed by the chunk.
-/

open Library

/-! ## How tails change -/

/-- The tail kept for a direction of a flow. -/
def SensitiveDetector.tail?
    (flowId : FlowId)
    (direction : Direction)
    (detector : SensitiveDetector) : Option DirectionState :=
  (detector.flows.get? flowId).bind fun state =>
    state.directions.get? direction

/-- What may become of a tail while no chunk is merged into it. -/
def TailChange (isKept : Prop) :
    Option DirectionState → Option DirectionState → Prop
  | none, none => True
  | none, some _ => False
  | some _, none => ¬ isKept
  | some tail, some next => Narrowed tail next

section Changes

variable {limits : DetectorLimits}
variable {kept : Option FlowId}
variable {isKept : Prop}
variable {before after : SensitiveDetector}
variable {events : List DetectorEvent}
variable {flowId : FlowId}
variable {direction : Direction}

namespace TailChange

theorem refl (tail : Option DirectionState) :
    TailChange isKept tail tail := by
  cases tail with
  | none => trivial
  | some tail => exact Narrowed.refl tail

theorem trans
    {first second third : Option DirectionState}
    (earlier : TailChange isKept first second)
    (later : TailChange isKept second third) :
    TailChange isKept first third := by
  cases first with
  | none =>
      cases second with
      | none => exact later
      | some => exact earlier.elim
  | some first =>
      cases second with
      | none =>
          cases third with
          | none => exact earlier
          | some => exact later.elim
      | some second =>
          cases third with
          | none => exact later
          | some third => exact Narrowed.trans earlier later

/-- A flow with changed tails. -/
theorem of_set
    {other : FlowId}
    {state next : FlowState}
    (found : before.flows.get? other = some state)
    (flows : after.flows = before.flows.set other next)
    (changes :
      TailChange isKept (state.directions.get? direction)
        (next.directions.get? direction)) :
    TailChange isKept (before.tail? flowId direction)
      (after.tail? flowId direction) := by
  unfold SensitiveDetector.tail?
  rw [flows, OrderedTable.get?_set]
  split
  case isTrue same =>
    rw [same, found]
    exact changes
  case isFalse => exact .refl _

/-- A flow with the same tails. -/
theorem of_sameDirections
    {other : FlowId}
    {state next : FlowState}
    (found : before.flows.get? other = some state)
    (flows : after.flows = before.flows.set other next)
    (same : next.directions = state.directions) :
    TailChange isKept (before.tail? flowId direction)
      (after.tail? flowId direction) :=
  of_set found flows (by rw [same]; exact .refl _)

theorem popSpan
    (detector : SensitiveDetector)
    (other : FlowId)
    (otherDirection : Direction) :
    TailChange isKept (detector.tail? flowId direction)
      ((detector.popSpan other otherDirection).tail? flowId direction) := by
  unfold SensitiveDetector.popSpan
  cases found : detector.flows.get? other with
  | none =>
      have noState : detector.stateOf other = {} := by
        rw [SensitiveDetector.stateOf, found, Option.getD_none]
      rw [noState]
      exact .refl _
  | some state =>
      rw [SensitiveDetector.stateOf_of_found found]
      cases isTail : state.directions.get? otherDirection with
      | none => exact .refl _
      | some tail =>
          simp only [SensitiveDetector.reviseFlow_of_found found]
          refine of_set found rfl ?_
          rw [OrderedTable.get?_set]
          split
          case isTrue same =>
            rw [same, isTail]
            exact narrowed_dropSpan tail
          case isFalse => exact .refl _

theorem trimTails
    (limits : DetectorLimits)
    (detector : SensitiveDetector)
    (other : FlowId) :
    TailChange isKept (detector.tail? flowId direction)
      ((detector.trimTails limits other).tail? flowId direction) := by
  unfold SensitiveDetector.trimTails
  cases found : detector.flows.get? other with
  | none => exact .refl _
  | some state =>
      refine of_set found rfl ?_
      obtain ⟨index, isChanged⟩ :=
        state.directions.get?_mapIdx _ direction
      rw [isChanged]
      cases state.directions.get? direction with
      | none => trivial
      | some tail => exact narrowed_keepLast _ tail

end TailChange

/-- Tails are narrowed, or they go with their flow. -/
theorem DetectorStep.tailChange
    (step : DetectorStep limits kept before events after)
    (flowId : FlowId)
    (direction : Direction) :
    TailChange (kept = some flowId) (before.tail? flowId direction)
      (after.tail? flowId direction) := by
  cases step with
  | touches other =>
      unfold SensitiveDetector.tail?
      rw [OrderedTable.get?_moveToEnd]
      exact .refl _
  | revises found same => exact .of_sameDirections found rfl same.directions
  | notes isNote => exact .refl _
  | @drops other notKept =>
      unfold SensitiveDetector.tail?
      rw [flows_dropFlow]
      by_cases same : flowId = other
      · rw [same, OrderedTable.get?_erase_self]
        cases before.flows.get? other with
        | none => trivial
        | some state =>
            rw [Option.bind_some, Option.bind_none]
            cases state.directions.get? direction with
            | none => trivial
            | some tail => exact notKept
      · rw [OrderedTable.get?_erase_of_ne _ same]
        exact .refl _
  | pops other otherDirection => exact .popSpan before other otherDirection
  | trims other => exact .trimTails limits before other
  | marks found room oneMore =>
      exact .of_sameDirections found rfl oneMore.directions
  | removes other key =>
      rcases before.removeEntry_cases other key with
        nothing | ⟨state, correlationId, retainedSize, found, -, removed⟩
      · rw [nothing]
        exact .refl _
      · rw [removed]
        refine .of_sameDirections found rfl ?_
        cases key <;> rfl
  | storesChallenge challenge found absent room =>
      simp only [SensitiveDetector.storeChallenge,
        SensitiveDetector.storeEntry, found]
      exact .of_sameDirections found rfl rfl
  | storesResponse response found room =>
      simp only [SensitiveDetector.storeResponse,
        SensitiveDetector.storeEntry, found]
      exact .of_sameDirections found rfl rfl
  | pends isKept found next => exact .of_sameDirections found rfl rfl
  | refreshes other =>
      unfold SensitiveDetector.refreshPendingAuth
      cases found : before.flows.get? other with
      | none => exact .refl _
      | some state => exact .of_sameDirections found rfl rfl

theorem tailChange_of_steps
    (steps : Steps (DetectorStep limits kept) before events after)
    (flowId : FlowId)
    (direction : Direction) :
    TailChange (kept = some flowId) (before.tail? flowId direction)
      (after.tail? flowId direction) := by
  induction steps with
  | refl => exact .refl _
  | tail earlier last inductionHypothesis =>
      exact inductionHypothesis.trans (last.tailChange flowId direction)

/-- Merging a chunk gives its direction a new tail. -/
theorem tail?_replaceTail
    {chunk : StreamChunk}
    {detector : SensitiveDetector}
    (live : Live (chunkFlowId chunk) detector)
    (flowId : FlowId)
    (direction : Direction) :
    (detector.replaceTail limits chunk).tail? flowId direction =
      if flowId = chunkFlowId chunk ∧ direction = chunk.direction then
        some
          (mergeTail limits.overlapBytes detector.provenance
            (detector.tailFor chunk) chunk).tail
      else
        detector.tail? flowId direction := by
  obtain ⟨state, found⟩ := Option.isSome_iff_exists.mp live
  unfold SensitiveDetector.replaceTail SensitiveDetector.tail?
  simp only [SensitiveDetector.reviseFlow_of_found found]
  rw [OrderedTable.get?_set]
  by_cases sameFlow : flowId = chunkFlowId chunk
  · rw [if_pos sameFlow, Option.bind_some, OrderedTable.get?_set]
    by_cases sameDirection : direction = chunk.direction
    · rw [if_pos sameDirection, if_pos ⟨sameFlow, sameDirection⟩]
    · rw [if_neg sameDirection, if_neg fun both => sameDirection both.2,
        sameFlow, found]
      rfl
  · rw [if_neg sameFlow, if_neg fun both => sameFlow both.1]

theorem tailFor_eq
    (chunk : StreamChunk)
    (detector : SensitiveDetector) :
    detector.tailFor chunk =
      (detector.tail? (chunkFlowId chunk) chunk.direction).getD {} := by
  unfold SensitiveDetector.tailFor SensitiveDetector.stateOf
    SensitiveDetector.tail?
  cases detector.flows.get? (chunkFlowId chunk) with
  | none => rfl
  | some state => rfl

end Changes

/-! ## Tails that follow their chunks -/

/-- The bytes of a chunk at their stream offsets. -/
def stretch (chunk : StreamChunk) : Stretch UInt8 where
  start := chunk.streamOffset
  data := chunk.data

/-- The chunk belongs to a direction of a flow. -/
def belongsTo
    (flowId : FlowId)
    (direction : Direction)
    (chunk : StreamChunk) : Bool :=
  decide (chunkFlowId chunk = flowId) && decide (chunk.direction = direction)

/-- The bytes of one direction among chunks. -/
def stretchesOf
    (flowId : FlowId)
    (direction : Direction)
    (fed : List StreamChunk) : List (Stretch UInt8) :=
  (fed.filter (belongsTo flowId direction)).map stretch

/-- In each direction the chunks go on to the right, and none is empty. -/
structure InOrder (fed : List StreamChunk) : Prop where
  goingRight :
    ∀ flowId direction, GoingRight (stretchesOf flowId direction fed)
  nonempty : ∀ chunk ∈ fed, chunk.data ≠ []

/-- The tail ends the latest island of its chunks. -/
structure Follows
    (limits : DetectorLimits)
    (chunks : List (Stretch UInt8))
    (tail : DirectionState) : Prop where
  island :
    ∃ island,
      latestIsland chunks = some island ∧ tail.data <:+ island.data ∧
        tail.tailEnd = island.stop
  bounded :
    tail.data.length ≤ limits.overlapBytes + trimSlack limits.overlapBytes
  spans : tail.SpansInside

/-- Every tail follows the chunks merged for it. -/
def AllFollow
    (limits : DetectorLimits)
    (fed : List StreamChunk)
    (detector : SensitiveDetector) : Prop :=
  ∀ flowId direction tail,
    detector.tail? flowId direction = some tail →
      Follows limits (stretchesOf flowId direction fed) tail

section Following

variable {limits : DetectorLimits}
variable {fed : List StreamChunk}
variable {chunk : StreamChunk}

theorem stretchesOf_concat
    (flowId : FlowId)
    (direction : Direction) :
    stretchesOf flowId direction (fed ++ [chunk]) =
      stretchesOf flowId direction fed ++
        if flowId = chunkFlowId chunk ∧ direction = chunk.direction then
          [stretch chunk]
        else
          [] := by
  unfold stretchesOf
  rw [List.filter_append, List.map_append, List.filter_singleton]
  by_cases own : flowId = chunkFlowId chunk ∧ direction = chunk.direction
  · obtain ⟨rfl, rfl⟩ := own
    simp [belongsTo]
  · have other : belongsTo flowId direction chunk = false := by
      rw [Bool.eq_false_iff]
      intro belongs
      simp only [belongsTo, Bool.and_eq_true, decide_eq_true_eq] at belongs
      exact own ⟨belongs.1.symm, belongs.2.symm⟩
    rw [if_neg own, other]
    rfl

theorem InOrder.sublist
    {fewer : List StreamChunk}
    (inOrder : InOrder fed)
    (sublist : fewer.Sublist fed) :
    InOrder fewer where
  goingRight flowId direction :=
    (inOrder.goingRight flowId direction).sublist
      ((sublist.filter _).map _)
  nonempty chunk member := inOrder.nonempty chunk (sublist.subset member)

theorem Follows.narrowed
    {chunks : List (Stretch UInt8)}
    {tail next : DirectionState}
    (follows : Follows limits chunks tail)
    (narrowed : Narrowed tail next) :
    Follows limits chunks next where
  island := by
    obtain ⟨island, isLatest, suffix, ends⟩ := follows.island
    exact ⟨island, isLatest, narrowed.suffix.trans suffix,
      narrowed.tailEnd.trans ends⟩
  bounded := narrowed.suffix.length_le.trans follows.bounded
  spans := narrowed.spans follows.spans

/-- A chunk that goes on behind a tail makes one that follows, too. -/
theorem Follows.goesOn
    {chunks : List (Stretch UInt8)}
    {tail : DirectionState}
    {merged : MergedTail}
    (follows : tail.data ≠ [] → Follows limits chunks tail)
    (goesOn : GoesOn limits.overlapBytes tail chunk merged) :
    Follows limits (chunks ++ [stretch chunk]) merged.tail where
  island := by
    obtain ⟨earlier, isEnd, adjoins, -, scanData, -⟩ := goesOn.scanned
    refine ⟨_, latestIsland_concat chunks (stretch chunk), ?_, ?_⟩
    · apply goesOn.suffix.trans
      rw [scanData]
      by_cases empty : earlier = []
      · rw [empty]
        exact Stretch.suffix_follow _ (stretch chunk)
      · have notEmpty : tail.data ≠ [] := by
          rintro isEmpty
          rw [isEmpty, List.suffix_nil] at isEnd
          exact empty isEnd
        obtain ⟨island, isLatest, suffix, ends⟩ :=
          (follows notEmpty).island
        have meets : (stretch chunk).start = island.stop :=
          (adjoins empty).symm.trans ends
        rw [isLatest]
        unfold Stretch.follow
        simp only
        rw [if_pos meets]
        obtain ⟨front, whole⟩ := isEnd.trans suffix
        exact ⟨front, by rw [← whole, List.append_assoc]; rfl⟩
    · rw [Stretch.stop_follow]
      exact goesOn.tailEnd
  bounded := goesOn.bounded
  spans := goesOn.spans

/-- A tail that follows chunks ends before what comes later. -/
theorem Follows.tailEnd_le
    {chunks : List (Stretch UInt8)}
    {tail : DirectionState}
    {next : Stretch UInt8}
    (follows : Follows limits chunks tail)
    (goingRight : GoingRight (chunks ++ [next])) :
    tail.tailEnd ≤ next.start := by
  obtain ⟨island, isLatest, -, ends⟩ := follows.island
  obtain ⟨last, member, sameStop⟩ := stop_latestIsland isLatest
  rw [ends, ← sameStop]
  exact (List.pairwise_append.mp goingRight).2.2 last member next (by simp)

theorem AllFollow.tailFor
    {detector : SensitiveDetector}
    (allFollow : AllFollow limits fed detector)
    (notEmpty : (detector.tailFor chunk).data ≠ []) :
    Follows limits
      (stretchesOf (chunkFlowId chunk) chunk.direction fed)
      (detector.tailFor chunk) := by
  rw [tailFor_eq] at notEmpty ⊢
  cases isTail : detector.tail? (chunkFlowId chunk) chunk.direction with
  | none =>
      rw [isTail] at notEmpty
      exact absurd rfl notEmpty
  | some tail => exact allFollow _ _ tail isTail

/-- What merging the next chunk of a sequence in order gives. -/
theorem AllFollow.goesOn
    {detector : SensitiveDetector}
    (allFollow : AllFollow limits fed detector)
    (inOrder : InOrder (fed ++ [chunk])) :
    GoesOn limits.overlapBytes (detector.tailFor chunk) chunk
      (mergeTail limits.overlapBytes detector.provenance
        (detector.tailFor chunk) chunk) := by
  have goingRight :=
    inOrder.goingRight (chunkFlowId chunk) chunk.direction
  rw [stretchesOf_concat, if_pos ⟨rfl, rfl⟩] at goingRight
  refine goesOn_mergeTail _ ?_ ?_ (inOrder.nonempty chunk (by simp))
  · intro notEmpty
    exact (allFollow.tailFor notEmpty).spans
  · intro notEmpty
    exact (allFollow.tailFor notEmpty).tailEnd_le goingRight

theorem AllFollow.replaceTail
    {detector : SensitiveDetector}
    (allFollow : AllFollow limits fed detector)
    (inOrder : InOrder (fed ++ [chunk]))
    (live : Live (chunkFlowId chunk) detector) :
    AllFollow limits (fed ++ [chunk]) (detector.replaceTail limits chunk) := by
  intro flowId direction tail isTail
  rw [tail?_replaceTail live] at isTail
  rw [stretchesOf_concat]
  split at isTail
  case isTrue own =>
    obtain ⟨rfl, rfl⟩ := own
    obtain rfl := Option.some.inj isTail
    rw [if_pos ⟨rfl, rfl⟩]
    exact Follows.goesOn (fun notEmpty => allFollow.tailFor notEmpty)
      (allFollow.goesOn inOrder)
  case isFalse other =>
    rw [if_neg other, List.append_nil]
    exact allFollow flowId direction tail isTail

theorem AllFollow.tailChange
    {before after : SensitiveDetector}
    (allFollow : AllFollow limits fed before)
    (changes :
      ∀ flowId direction, ∃ isKept : Prop,
        TailChange isKept (before.tail? flowId direction)
          (after.tail? flowId direction)) :
    AllFollow limits fed after := by
  intro flowId direction tail isTail
  obtain ⟨_, change⟩ := changes flowId direction
  rw [isTail] at change
  cases wasTail : before.tail? flowId direction with
  | none =>
      rw [wasTail] at change
      exact change.elim
  | some earlier =>
      rw [wasTail] at change
      exact (allFollow flowId direction earlier wasTail).narrowed change

/-- In every state of a run on chunks in order the tails follow them. -/
theorem allFollow_of_runSteps
    {detector : SensitiveDetector}
    {log : List DetectorEvent}
    (steps : Steps (RunStep limits) {} log detector)
    (inOrder : InOrder (fedChunks log)) :
    AllFollow limits (fedChunks log) detector := by
  induction steps with
  | refl =>
      intro flowId direction tail isTail
      cases isTail
  | @tail middle final earlier events before last inductionHypothesis =>
      rw [fedChunks_append] at inOrder ⊢
      have allFollow :=
        inductionHypothesis
          (inOrder.sublist (List.sublist_append_left _ _))
      cases last with
      | changes step =>
          obtain ⟨_, step⟩ := step
          rw [step.fedChunks, List.append_nil]
          exact allFollow.tailChange fun flowId direction =>
            ⟨_, step.tailChange flowId direction⟩
      | @opens flowId absent clock =>
          refine @AllFollow.tailChange limits _ middle _
            (by simpa [fedChunks] using allFollow) ?_
          intro other direction
          refine ⟨False, ?_⟩
          unfold SensitiveDetector.tail?
          rw [OrderedTable.get?_set]
          split
          case isTrue same =>
            rw [same, absent]
            trivial
          case isFalse => exact .refl _
      | feeds live => exact allFollow.replaceTail inOrder live

end Following

/-! ## Chunks of the reassembler -/

/-- What a retained tail has to do with the chunks of its direction. -/
structure FaithfulTail
    (limits : DetectorLimits)
    (chunks : List (Stretch UInt8))
    (tail : DirectionState) : Prop where
  bytes :
    ∀ {index : Nat} {byte : UInt8},
      tail.data[index]? = some byte →
        streamValue chunks (tail.baseOffset + index) = some byte
  island :
    ∃ island,
      latestIsland chunks = some island ∧ tail.data <:+ island.data ∧
        tail.tailEnd = island.stop
  bounded :
    tail.data.length ≤ limits.overlapBytes + trimSlack limits.overlapBytes
  spansSorted :
    tail.provenanceSpans.Pairwise fun earlier later =>
      earlier.streamEnd ≤ later.streamStart
  spansInside :
    ∀ span ∈ tail.provenanceSpans,
      tail.baseOffset ≤ span.streamStart ∧
        span.streamStart < span.streamEnd ∧ span.streamEnd ≤ tail.tailEnd

/-- All the tails a detector retains are faithful to the merged chunks. -/
def TailsFaithful
    (limits : DetectorLimits)
    (fed : List StreamChunk)
    (detector : SensitiveDetector) : Prop :=
  ∀ flowId direction tail,
    detector.tail? flowId direction = some tail →
      FaithfulTail limits (stretchesOf flowId direction fed) tail

/--
What the scanners get of a chunk: the end of the old tail, if the chunk adjoins
it, and then the chunk at its own offset.
-/
structure HandsOver
    (limits : DetectorLimits)
    (old : DirectionState)
    (chunk : StreamChunk)
    (context : ScanContext)
    (retained : DirectionState) : Prop where
  contiguous :
    ∃ base earlier,
      context.baseOffset = some base ∧
        context.data = earlier ++ chunk.data ∧
        base + earlier.length = chunk.streamOffset ∧
        earlier <:+ old.data ∧
        (earlier ≠ [] → old.tailEnd = chunk.streamOffset) ∧
        (old.tailEnd = chunk.streamOffset →
          earlier = old.data ∨ context.data.length = limits.overlapBytes)
  retainedData : retained.data <:+ context.data
  retainedEnd : retained.tailEnd = chunk.streamEnd

section Emitted

variable {limits : DetectorLimits}

/-- The chunks of a run of the reassembler come in order. -/
theorem inOrder_of_emitted
    (tcpLimits : TcpLimits)
    (epochNamespace : Nat)
    (operations : List TcpOperation)
    {fed : List StreamChunk}
    (emitted :
      fed.Sublist
        (chunks
          ((TCPReassembler.new epochNamespace).run tcpLimits
            operations).events)) :
    InOrder fed where
  goingRight := by
    rintro ⟨flow, connectionEpoch⟩ direction
    unfold stretchesOf GoingRight
    rw [List.pairwise_map]
    cases connectionEpoch with
    | none =>
        have noChunk :
            fed.filter (belongsTo ⟨flow, none⟩ direction) = [] := by
          simp [belongsTo, chunkFlowId]
        rw [noChunk]
        exact .nil
    | some epoch =>
        have law :=
          run_firstSeen tcpLimits epochNamespace operations flow epoch
            direction
        refine law.increasing.sublist ((emitted.filter _).trans ?_)
        unfold chunksOf
        rw [List.filter_congr fun chunk _ => ?_]
        simp [belongsTo, chunkFlowId, Bool.and_assoc]
  nonempty := by
    intro chunk member
    have law :=
      run_firstSeen tcpLimits epochNamespace operations chunk.flow
        chunk.connectionEpoch chunk.direction
    refine law.nonempty chunk (List.mem_filter.mpr ?_)
    exact ⟨emitted.subset member, by simp⟩

theorem Follows.faithful
    {chunks : List (Stretch UInt8)}
    {tail : DirectionState}
    (follows : Follows limits chunks tail)
    (goingRight : GoingRight chunks) :
    FaithfulTail limits chunks tail where
  bytes := by
    intro index byte held
    obtain ⟨island, isLatest, suffix, ends⟩ := follows.island
    obtain ⟨piece, member, inPiece⟩ :=
      at?_latestIsland isLatest (Stretch.at?_of_suffix suffix ends held)
    exact streamValue_of_mem goingRight member inPiece
  island := follows.island
  bounded := follows.bounded
  spansSorted := by
    obtain ⟨_, -, tiles⟩ := follows.spans
    exact tiles.pairwise
  spansInside := by
    intro span member
    obtain ⟨first, begins, tiles⟩ := follows.spans
    obtain ⟨fromFirst, nonempty, ends⟩ := tiles.inside member
    exact ⟨begins.trans fromFirst, nonempty, ends⟩

theorem AllFollow.faithful
    {fed : List StreamChunk}
    {detector : SensitiveDetector}
    (allFollow : AllFollow limits fed detector)
    (inOrder : InOrder fed) :
    TailsFaithful limits fed detector :=
  fun flowId direction tail isTail =>
    (allFollow flowId direction tail isTail).faithful
      (inOrder.goingRight flowId direction)

/-- After the calls of a run the tails follow the chunks of the calls. -/
theorem allFollow_run
    (limits : DetectorLimits)
    (calls : List DetectorCall)
    (inOrder : InOrder (streamChunks calls)) :
    AllFollow limits (streamChunks calls)
      (SensitiveDetector.run limits calls).state := by
  have steps := (SensitiveDetector.run_steps limits calls).1
  have fed : fedChunks (SensitiveDetector.run limits calls).events = _ :=
    fedChunks_runAll (.initial limits) calls
  rw [← fed] at inOrder ⊢
  exact allFollow_of_runSteps steps inOrder

/-- The same right before the next chunk is merged. -/
theorem allFollow_beforeMerge
    (limits : DetectorLimits)
    (prior : List DetectorCall)
    (clock : Int)
    (chunk : StreamChunk)
    (inOrder : InOrder (streamChunks prior)) :
    AllFollow limits (streamChunks prior)
      ((SensitiveDetector.run limits prior).state.beforeMerge limits clock
        chunk) := by
  obtain ⟨steps, between⟩ := SensitiveDetector.run_steps limits prior
  have opened := SensitiveDetector.beforeMerge_opened between clock chunk
  have fed : fedChunks (SensitiveDetector.run limits prior).events = _ :=
    fedChunks_runAll (.initial limits) prior
  have all := steps.trans opened.steps
  have allFed :
      fedChunks
          ((SensitiveDetector.run limits prior).events ++
            ((SensitiveDetector.run limits prior).state.openFlow limits clock
              (chunkFlowId chunk)).events) =
        streamChunks prior := by
    rw [fedChunks_append, fed, SensitiveDetector.fedChunks_openFlow,
      List.append_nil]
  rw [← allFed] at inOrder ⊢
  exact allFollow_of_runSteps all inOrder

/-- What a merge hands over and retains. -/
theorem mergeStream_faithful
    {fed : List StreamChunk}
    {chunk : StreamChunk}
    {before : SensitiveDetector}
    (allFollow : AllFollow limits fed before)
    (inOrder : InOrder (fed ++ [chunk]))
    (ready : Ready limits (chunkFlowId chunk) before) :
    let merged := (before.mergeStream limits chunk).state
    TailsFaithful limits (fed ++ [chunk]) merged.1 ∧
      ∃ retained,
        merged.1.tail? (chunkFlowId chunk) chunk.direction =
            some retained ∧
          HandsOver limits (before.tailFor chunk) chunk merged.2
            retained := by
  have replaced := allFollow.replaceTail inOrder ready.live
  have capped :=
    SensitiveDetector.enforceProvenanceCap_steps limits (chunkFlowId chunk)
      (before.replaceTail limits chunk)
  have goesOn := allFollow.goesOn inOrder
  have changes := tailChange_of_steps capped
  constructor
  · exact (replaced.tailChange fun flowId direction =>
      ⟨_, changes flowId direction⟩).faithful inOrder
  · have own := changes (chunkFlowId chunk) chunk.direction
    rw [tail?_replaceTail ready.live, if_pos ⟨rfl, rfl⟩] at own
    cases isRetained :
        (SensitiveDetector.enforceProvenanceCap limits (chunkFlowId chunk)
          (before.replaceTail limits chunk)).state.tail?
            (chunkFlowId chunk) chunk.direction with
    | none =>
        rw [isRetained] at own
        exact absurd rfl own
    | some retained =>
        rw [isRetained] at own
        obtain ⟨earlier, isEnd, adjoins, whole, scanData, scanStart⟩ :=
          goesOn.scanned
        exact ⟨retained, isRetained, {
          contiguous := ⟨_, earlier, rfl, scanData, scanStart, isEnd,
            adjoins, whole⟩
          retainedData := own.suffix.trans goesOn.suffix
          retainedEnd := own.tailEnd.trans goesOn.tailEnd
        }⟩

/--
In every run on chunks that a run of the reassembler emits, every tail is
faithful to the chunks merged so far, right after each merge and after the
calls; and each merge hands the chunk to the scanners at its own offset, behind
the end of the tail before.
-/
theorem streamTail_faithful
    (limits : DetectorLimits)
    (tcpLimits : TcpLimits)
    (epochNamespace : Nat)
    (operations : List TcpOperation)
    (calls : List DetectorCall)
    (emitted :
      (streamChunks calls).Sublist
        (chunks
          ((TCPReassembler.new epochNamespace).run tcpLimits
            operations).events)) :
    (∀ prior clock chunk effects rest,
      calls = prior ++ .stream clock chunk effects :: rest →
        let before :=
          (SensitiveDetector.run limits prior).state.beforeMerge limits
            clock chunk
        let merged := (before.mergeStream limits chunk).state
        TailsFaithful limits (streamChunks prior ++ [chunk]) merged.1 ∧
          ∃ retained,
            merged.1.tail? (chunkFlowId chunk) chunk.direction =
                some retained ∧
              HandsOver limits (before.tailFor chunk) chunk merged.2
                retained) ∧
    TailsFaithful limits (streamChunks calls)
      (SensitiveDetector.run limits calls).state := by
  have inOrder := inOrder_of_emitted tcpLimits epochNamespace operations emitted
  refine ⟨?_, (allFollow_run limits calls inOrder).faithful inOrder⟩
  rintro prior clock chunk effects rest rfl
  have soFar :
      (streamChunks prior ++ [chunk]).Sublist
        (streamChunks (prior ++ .stream clock chunk effects :: rest)) := by
    unfold streamChunks
    rw [List.filterMap_append]
    refine (List.Sublist.refl _).append ?_
    exact (List.nil_sublist _).cons_cons chunk
  have inOrderSoFar := inOrder.sublist soFar
  have follows :=
    allFollow_beforeMerge limits prior clock chunk
      (inOrderSoFar.sublist (List.sublist_append_left _ _))
  have between := (SensitiveDetector.run_steps limits prior).2
  exact mergeStream_faithful follows inOrderSoFar
    (SensitiveDetector.beforeMerge_ready between clock chunk)

/-- The calls on chunks, without findings. -/
def callsOn (fed : List StreamChunk) : List DetectorCall :=
  fed.map fun chunk => .stream 0 chunk []

@[simp] theorem streamChunks_callsOn (fed : List StreamChunk) :
    streamChunks (callsOn fed) = fed := by
  unfold streamChunks callsOn
  rw [List.filterMap_map]
  exact List.filterMap_some

/-- A connection with two bytes in order and a third one behind a hole. -/
def gappedOperations : List TcpOperation :=
  [.process 0 (sampleSegment 1 99 0x02 []),
    .process 0 (sampleSegment 2 100 0x18 [65]),
    .process 0 (sampleSegment 3 101 0x18 [66]),
    .process 0 (sampleSegment 4 105 0x18 [67]),
    .flushAll none]

theorem gappedOperations_faithful :
    let emitted :=
      chunks ((TCPReassembler.new 0).run .default gappedOperations).events
    emitted.map StreamChunk.data = [[65], [66], [67]] ∧
      TailsFaithful .default emitted
        (SensitiveDetector.run .default (callsOn emitted)).state := by
  intro emitted
  have faithful :=
    (streamTail_faithful .default .default 0 gappedOperations
      (callsOn emitted) (by rw [streamChunks_callsOn])).2
  rw [streamChunks_callsOn] at faithful
  exact ⟨by decide, faithful⟩

end Emitted

end PacketAudit.Detector
