import PacketAudit.Detector.Bounded

namespace PacketAudit.Detector

/-!
# The chunks a run merges

A call merges its own chunk and no other, so the merged chunks of a run are
those of its calls, in their order.
-/

open Library

/-- The chunk an event tells of. -/
def DetectorEvent.fed? : DetectorEvent → Option StreamChunk
  | .fed chunk => some chunk
  | _ => none

/-- The chunks merged on the way. -/
def fedChunks (events : List DetectorEvent) : List StreamChunk :=
  events.filterMap DetectorEvent.fed?

@[simp] theorem fedChunks_append (first second : List DetectorEvent) :
    fedChunks (first ++ second) = fedChunks first ++ fedChunks second := by
  simp [fedChunks]

/-- The chunk of a call. -/
def DetectorCall.chunk? : DetectorCall → Option StreamChunk
  | .stream _ chunk _ => some chunk
  | _ => none

/-- The chunks of the calls, in order. -/
def streamChunks (calls : List DetectorCall) : List StreamChunk :=
  calls.filterMap DetectorCall.chunk?

section Chunks

variable {limits : DetectorLimits}
variable {kept : Option FlowId}
variable {before after detector : SensitiveDetector}
variable {events : List DetectorEvent}

theorem fedChunks_eq_nil
    (none : ∀ event ∈ events, event.fed? = none) :
    fedChunks events = [] :=
  List.filterMap_eq_nil_iff.mpr none

/-- Only the merging of a chunk tells of a chunk. -/
theorem DetectorStep.fedChunks
    (step : DetectorStep limits kept before events after) :
    fedChunks events = [] := by
  apply fedChunks_eq_nil
  intro event member
  cases step with
  | @notes note isNote =>
      rw [List.mem_singleton.mp member]
      cases note with
      | fed chunk => exact isNote.elim
      | _ => rfl
  | drops notKept =>
      rcases mem_dropFlow_events member with ⟨_, _, rfl⟩ | rfl
      · rfl
      · rfl
  | removes flowId key =>
      obtain ⟨_, _, rfl⟩ := clamped_of_mem_removeEntry member
      rfl
  | refreshes flowId =>
      unfold SensitiveDetector.refreshPendingAuth at member
      cases found : before.flows.get? flowId with
      | none => simp [found] at member
      | some state =>
          simp only [found, List.mem_cons, List.not_mem_nil,
            or_false] at member
          rcases member with rfl | rfl
          · rfl
          · rfl
  | _ => cases member

theorem fedChunks_of_anySteps
    (steps : Steps (AnyStep limits) before events after) :
    fedChunks events = [] := by
  induction steps with
  | refl => rfl
  | tail earlier last inductionHypothesis =>
      obtain ⟨_, step⟩ := last
      rw [fedChunks_append, inductionHypothesis, step.fedChunks]
      rfl

theorem fedChunks_of_steps
    (steps : Steps (DetectorStep limits kept) before events after) :
    fedChunks events = [] :=
  fedChunks_of_anySteps (steps.mono AnyStep.of)

namespace SensitiveDetector

theorem fedChunks_openFlow
    (clock : Int)
    (flowId : FlowId) :
    fedChunks (detector.openFlow limits clock flowId).events = [] := by
  unfold openFlow
  cases detector.flows.get? flowId with
  | some state => rfl
  | none =>
      simp only [Outcome.events_bind, Outcome.events_quiet,
        List.append_nil]
      exact fedChunks_of_steps (makeRoom_steps limits detector)

/-- The detector right before a chunk is merged. -/
def beforeMerge
    (limits : DetectorLimits)
    (clock : Int)
    (chunk : StreamChunk)
    (detector : SensitiveDetector) : SensitiveDetector :=
  (detector.openFlow limits clock
      (chunkFlowId chunk)).state.noteTimestamp
    (chunkFlowId chunk) chunk.lastTimestampNs

theorem beforeMerge_opened
    (between : BetweenCalls limits detector)
    (clock : Int)
    (chunk : StreamChunk) :
    Opened limits (chunkFlowId chunk) detector
      (detector.openFlow limits clock (chunkFlowId chunk)).events
      (detector.beforeMerge limits clock chunk) :=
  (openFlow_opened between.sound between.measured clock
    (chunkFlowId chunk)).noteTimestamp chunk.lastTimestampNs

theorem beforeMerge_ready
    (between : BetweenCalls limits detector)
    (clock : Int)
    (chunk : StreamChunk) :
    Ready limits (chunkFlowId chunk)
      (detector.beforeMerge limits clock chunk) := by
  have opened := beforeMerge_opened between clock chunk
  exact ⟨(between.sound.of_runSteps opened.steps).1, opened.live⟩

theorem fedChunks_mergeStream
    (limits : DetectorLimits)
    (chunk : StreamChunk)
    (detector : SensitiveDetector) :
    fedChunks (detector.mergeStream limits chunk).events = [chunk] := by
  have capped :=
    enforceProvenanceCap_steps limits (chunkFlowId chunk)
      (detector.replaceTail limits chunk)
  have parts :
      (detector.mergeStream limits chunk).events =
        [.fed chunk] ++
          ((enforceProvenanceCap limits (chunkFlowId chunk)
            (detector.replaceTail limits chunk)).events ++ []) :=
    rfl
  rw [parts, fedChunks_append, fedChunks_append, fedChunks_of_steps capped]
  rfl

end SensitiveDetector

/-- A call merges its own chunk and no other. -/
theorem DetectorCall.fedChunks_apply
    (between : BetweenCalls limits detector)
    (call : DetectorCall) :
    fedChunks (call.apply limits detector).events = call.chunk?.toList := by
  cases call with
  | stream clock chunk effects =>
      have opened := SensitiveDetector.beforeMerge_opened between clock chunk
      have ready := SensitiveDetector.beforeMerge_ready between clock chunk
      let merge :=
        (detector.beforeMerge limits clock chunk).mergeStream limits chunk
      have merged : SensitiveDetector.Merged limits chunk _ merge :=
        SensitiveDetector.mergeStream_merged ready opened.measured
      have scanReady := merged.ready
      rw [← merged.sameFlow] at scanReady
      have scanned :=
        SensitiveDetector.scanAndEnforce_steps scanReady effects
      have parts :
          (apply limits (.stream clock chunk effects) detector).events =
            (detector.openFlow limits clock (chunkFlowId chunk)).events ++
              (merge.events ++
                (merge.state.1.scanAndEnforce limits merge.state.2
                  effects).events) :=
        rfl
      rw [parts, fedChunks_append, fedChunks_append,
        SensitiveDetector.fedChunks_openFlow,
        SensitiveDetector.fedChunks_mergeStream,
        fedChunks_of_anySteps scanned]
      rfl
  | datagram clock packet effects =>
      change
        fedChunks
            (detector.processDatagram limits clock packet effects).events =
          []
      unfold SensitiveDetector.processDatagram
      split
      · rfl
      have opened :=
        (SensitiveDetector.openFlow_opened between.sound between.measured
          clock (SensitiveDetector.datagramContext packet).flowId).noteTimestamp
          packet.timestampNs
      have ready :
          Ready limits (SensitiveDetector.datagramContext packet).flowId _ :=
        ⟨(between.sound.of_runSteps opened.steps).1, opened.live⟩
      have scanned := SensitiveDetector.scanAndEnforce_steps ready effects
      rw [Outcome.events_bind, fedChunks_append,
        SensitiveDetector.fedChunks_openFlow,
        fedChunks_of_anySteps scanned]
      rfl
  | expire expiry =>
      exact fedChunks_of_steps (detector.expire_dropSteps limits expiry)

/-- A run merges the chunks of its calls. -/
theorem fedChunks_runAll
    (between : BetweenCalls limits detector)
    (calls : List DetectorCall) :
    fedChunks (runAll (DetectorCall.apply limits) calls detector).events =
      streamChunks calls := by
  induction calls generalizing detector with
  | nil => rfl
  | cons call rest inductionHypothesis =>
      have later := inductionHypothesis (call.apply_steps between).2
      rw [runAll, Outcome.events_andThen, fedChunks_append,
        call.fedChunks_apply between, later]
      cases shape : call.chunk? <;>
        simp [streamChunks, shape]

end Chunks

end PacketAudit.Detector
