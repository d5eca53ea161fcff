import PacketAudit.Tcp.Histories

namespace PacketAudit

/-!
# What a call logs of its packet

Flushing, skipping and evicting log outputs only.  The inputs a call logs, that
a direction was opened and that a payload arrived, come from the stages that
look at the packet itself.
-/

open Library

/-- The event records something the packet of a call brought. -/
def TcpEvent.isInput : TcpEvent → Bool
  | .opened .. => true
  | .arrived _ => true
  | .skipped .. => false
  | .emitted _ => false

/-- The inputs a list of events logs, in order. -/
def inputs (events : List TcpEvent) : List TcpEvent :=
  events.filter TcpEvent.isInput

@[simp] theorem inputs_nil : inputs [] = [] := rfl

@[simp] theorem inputs_append (first second : List TcpEvent) :
    inputs (first ++ second) = inputs first ++ inputs second :=
  List.filter_append ..

/-- What is read off inputs alone is not found in outputs. -/
theorem filterMap_of_inputs
    {α : Type}
    {project : TcpEvent → Option α}
    (reads : ∀ event, event.isInput = false → project event = none)
    {events : List TcpEvent}
    (outputsOnly : inputs events = []) :
    events.filterMap project = [] := by
  rw [List.filterMap_eq_nil_iff]
  intro event member
  have isOutput := List.filter_eq_nil_iff.mp outputsOnly event member
  exact reads event (by simpa using isOutput)

/-- Events without inputs bring no payload. -/
theorem arrivals_of_inputs
    {events : List TcpEvent}
    (outputsOnly : inputs events = []) :
    arrivals events = [] := by
  refine filterMap_of_inputs ?_ outputsOnly
  intro event isOutput
  cases event with
  | opened => rfl
  | arrived arrival => cases isOutput
  | skipped => rfl
  | emitted chunk => rfl

namespace TCPReassembler

section Direction

variable
  (limits : TcpLimits)
  (flow : FlowKey)
  (direction : Direction)
  (view : DirectionView)

theorem inputs_drain (forcedGap : Bool) :
    inputs (drain limits flow direction forcedGap view).events = [] := by
  unfold drain
  split
  · rfl
  · simp only
    split <;> rfl

theorem inputs_skipToNextSegment :
    inputs (skipToNextSegment limits flow direction view).events = [] := by
  unfold skipToNextSegment
  split
  · split
    · simp only [Outcome.events_andThen, inputs_append, inputs_drain]
      rfl
    · exact inputs_drain limits flow direction view true
  · rfl

theorem inputs_flushDirection :
    inputs (flushDirection limits flow direction view).events = [] := by
  unfold flushDirection
  induction view.direction.pending.length generalizing view with
  | zero =>
      rfl
  | succ fuel inductionHypothesis =>
      unfold flushLoop
      split
      · rfl
      · simp only [Outcome.events_andThen, inputs_append, inputs_drain,
          inductionHypothesis, List.nil_append, List.append_nil]
        split
        · exact inputs_skipToNextSegment limits flow direction _
        · rfl

theorem inputs_enforceDirectionLimits (fuel : Nat) :
    inputs
      (enforceDirectionLimits limits flow direction fuel view).events =
      [] := by
  induction fuel generalizing view with
  | zero =>
      rfl
  | succ fuel inductionHypothesis =>
      unfold enforceDirectionLimits
      split
      · simp only
        split
        · exact inputs_skipToNextSegment limits flow direction view
        · simp [inputs_skipToNextSegment, inductionHypothesis]
      · rfl

end Direction

section Flows

variable
  (limits : TcpLimits)
  (reassembler : TCPReassembler)

theorem inputs_onDirection
    {key : FlowId}
    {direction : Direction}
    {apply : DirectionView → Outcome DirectionView TcpEvent}
    (silent : ∀ view, inputs (apply view).events = []) :
    inputs (reassembler.onDirection key direction apply).events = [] := by
  unfold onDirection
  split
  · rfl
  · exact silent _

theorem inputs_closeFlow (key : FlowId) (flow : FlowKey) :
    inputs (reassembler.closeFlow limits key flow).events = [] := by
  simp [closeFlow,
    inputs_onDirection _ (inputs_flushDirection limits flow .aToB),
    inputs_onDirection _ (inputs_flushDirection limits flow .bToA)]

theorem inputs_evictOldest (budget : Bool) :
    inputs (reassembler.evictOldest limits budget).events = [] := by
  unfold evictOldest
  split
  · rfl
  · split
    · rfl
    · simp [inputs_closeFlow]

theorem inputs_evictWhile
    (budget : Bool)
    (condition : TCPReassembler → Bool)
    (fuel : Nat) :
    inputs
      (reassembler.evictWhile limits budget condition fuel).events = [] := by
  induction fuel generalizing reassembler with
  | zero =>
      rfl
  | succ fuel inductionHypothesis =>
      unfold evictWhile
      split
      · simp [inputs_evictOldest, inductionHypothesis]
      · rfl

theorem inputs_finish (packet : ParsedPacket) :
    inputs (reassembler.finish limits packet).events = [] := by
  have flushes (state : TCPReassembler) (direction : Direction) :
      inputs
        (state.onDirection packet.flowId direction
          (flushDirection limits packet.flow.1 direction)).events = [] :=
    inputs_onDirection state
      (inputs_flushDirection limits packet.flow.1 direction)
  unfold finish
  simp only [Outcome.events_andThen, inputs_append]
  split
  · split <;> simp [flushes]
  · split <;> simp [flushes]

theorem inputs_restart (packet : ParsedPacket) :
    inputs (reassembler.restart limits packet).events = [] := by
  unfold restart
  split
  · exact inputs_closeFlow limits reassembler _ _
  · rfl

theorem inputs_enter (clock : Int) (packet : ParsedPacket) :
    inputs (reassembler.enter limits clock packet).events = [] := by
  unfold enter
  split
  · rfl
  · simp [inputs_evictWhile]

theorem inputs_closeFlows (keys : List FlowId) :
    inputs (reassembler.closeFlows limits keys).events = [] := by
  induction keys generalizing reassembler with
  | nil =>
      rfl
  | cons key rest inductionHypothesis =>
      unfold closeFlows
      split
      · exact inductionHypothesis reassembler
      · simp [inputs_closeFlow, inductionHypothesis]

end Flows

end TCPReassembler

end PacketAudit
