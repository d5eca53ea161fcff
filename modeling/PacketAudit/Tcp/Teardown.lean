import PacketAudit.Tcp.Evictions

namespace PacketAudit

/-!
# Packets after the end of a connection

A connection may be followed by packets that neither open a sequence nor carry
bytes: the final acknowledgement of a teardown, or a late RST.  `process` looks
up the flow of every decoded TCP packet and creates a missing one before it
looks at the flags, so only some of these packets leave the table as it was.
-/

open Library

namespace TCPReassembler

variable
  {limits : TcpLimits}
  {reassembler : TCPReassembler}
  {packet : ParsedPacket}

/-- The packet belongs to no known flow and has neither SYN nor payload. -/
structure Stray
    (packet : ParsedPacket)
    (reassembler : TCPReassembler) : Prop where
  absent : reassembler.flows.get? packet.flowId = none
  noSyn : packet.syn = false
  noPayload : packet.transportPayload = []

/-- Processing the packet changes no entry of the table and evicts no flow. -/
def LeavesNoState
    (limits : TcpLimits)
    (clock : Int)
    (packet : ParsedPacket)
    (reassembler : TCPReassembler) : Prop :=
  let after := (reassembler.process limits clock packet).state
  after.flows = reassembler.flows ∧ after.evictions = reassembler.evictions

/-- The packet takes no part in reassembly, or it is a RST and there is room. -/
def PassesBy
    (limits : TcpLimits)
    (packet : ParsedPacket)
    (reassembler : TCPReassembler) : Prop :=
  accepts packet = true →
    packet.rst = true ∧ reassembler.flows.size < limits.maxFlows

/-! ## A table that gained one flow -/

/-- The table is the given one with a flow added that cannot be over yet. -/
def Gained
    (table : OrderedTable FlowId FlowState)
    (packet : ParsedPacket)
    (reassembler : TCPReassembler) : Prop :=
  ∃ state,
    reassembler.flows = table.set packet.flowId state ∧
      (state.directions packet.flow.2.opposite).closed = false

namespace Gained

variable {table : OrderedTable FlowId FlowState}

theorem createFlow
    (clock : Int)
    (packet : ParsedPacket)
    (reassembler : TCPReassembler) :
    Gained reassembler.flows packet (reassembler.createFlow clock packet) :=
  ⟨_, rfl, rfl⟩

/-- A change of the new flow that leaves its other direction open. -/
theorem reviseFlow
    (gained : Gained table packet reassembler)
    {revise : FlowState → FlowState}
    (open_revise :
      ∀ state,
        (state.directions packet.flow.2.opposite).closed = false →
        ((revise state).directions packet.flow.2.opposite).closed = false) :
    Gained table packet (reassembler.reviseFlow packet.flowId revise) := by
  obtain ⟨state, flows, isOpen⟩ := gained
  refine ⟨revise state, ?_, open_revise state isOpen⟩
  unfold TCPReassembler.reviseFlow
  rw [flows, OrderedTable.get?_set_self]
  exact OrderedTable.set_set _ _ _ _

/-- Work on the packet's own direction leaves the other one open. -/
theorem onDirection
    (gained : Gained table packet reassembler)
    (operation : DirectionView → Outcome DirectionView TcpEvent) :
    Gained table packet
      (reassembler.onDirection packet.flowId packet.flow.2 operation).state := by
  obtain ⟨state, flows, isOpen⟩ := gained
  have found : reassembler.flows.get? packet.flowId = some state := by
    rw [flows, OrderedTable.get?_set_self]
  rw [onDirection_of_get?_eq_some _ _ found]
  refine ⟨_, (congrArg (OrderedTable.set · _ _) flows).trans
    (OrderedTable.set_set _ _ _ _), ?_⟩
  rw [FlowState.directions_setDirection_opposite]
  exact isOpen

/-- Whatever happened to the new flow, the table without it is the old one. -/
theorem erase
    (gained : Gained table packet reassembler)
    (absent : table.get? packet.flowId = none) :
    reassembler.flows.erase packet.flowId = table := by
  obtain ⟨state, flows, _⟩ := gained
  rw [flows, OrderedTable.erase_set, OrderedTable.erase_of_get?_eq_none absent]

theorem ne
    (gained : Gained table packet reassembler)
    (absent : table.get? packet.flowId = none) :
    reassembler.flows ≠ table := by
  obtain ⟨state, flows, _⟩ := gained
  intro same
  rw [← same, flows, OrderedTable.get?_set_self] at absent
  cases absent

end Gained

/-! ## The stages of a call on a stray packet -/

theorem closed_acknowledged_touched
    (clock : Int)
    (packet : ParsedPacket)
    (state : FlowState)
    (isOpen : (state.directions packet.flow.2.opposite).closed = false) :
    ((acknowledged packet (touched clock packet state)).directions
      packet.flow.2.opposite).closed = false := by
  have touchedOpen :
      ((touched clock packet state).directions
        packet.flow.2.opposite).closed = false := by
    unfold touched
    simp only [FlowState.directions_setDirection_opposite]
    exact isOpen
  unfold acknowledged
  dsimp only
  split
  · split
    · rw [FlowState.directions_setDirection_self]
      exact touchedOpen
    · exact touchedOpen
  · exact touchedOpen

/-- Entry and sequence start add a flow to what the evictions left. -/
theorem Stray.gained_prepare
    (limits : TcpLimits)
    (stray : Stray packet reassembler)
    (clock : Int) :
    Gained
      (reassembler.evictWhile limits false (flowTableFull limits)
        reassembler.flows.size).state.flows
      packet
      (reassembler.prepare limits clock packet).state := by
  have unrestarted :
      reassembler.restart limits packet = .quiet reassembler := by
    simp [restart, restarts, stray.absent]
  unfold prepare
  rw [unrestarted, Outcome.quiet_andThen]
  unfold enter
  rw [stray.absent]
  simp only [Outcome.state_andThen, Outcome.state_quiet]
  apply Gained.onDirection
  apply Gained.reviseFlow (Gained.createFlow _ _ _)
  exact closed_acknowledged_touched clock packet

/-- Without a payload there is nothing to store or to answer at once. -/
theorem Stray.processTcp
    (stray : Stray packet reassembler)
    (clock : Int) :
    reassembler.processTcp limits clock packet =
      ((reassembler.prepare limits clock packet).andThen
        (onDirection packet.flowId packet.flow.2
          (acceptPayload limits packet))).andThen (finish limits packet) := by
  have noReturn
      (prepared : TCPReassembler) :
      prepared.returnsEarly packet = false := by
    unfold returnsEarly
    split
    · rfl
    split
    · rfl
    · simp [stray.noPayload]
  have noStore
      (prepared : TCPReassembler) :
      prepared.storesPayload packet = false := by
    unfold storesPayload
    split
    · rfl
    split
    · rfl
    · simp [stray.noPayload]
  unfold TCPReassembler.processTcp
  simp only [noReturn, noStore, Bool.false_eq_true, ↓reduceIte]
  rw [Outcome.andThen_assoc]

/-- The state after the first half of `finish`, which closes a direction. -/
def afterClosing
    (limits : TcpLimits)
    (packet : ParsedPacket)
    (reassembler : TCPReassembler) : TCPReassembler :=
  if packet.fin || packet.rst then
    (reassembler.onDirection packet.flowId packet.flow.2
      (flushDirection limits packet.flow.1
        packet.flow.2)).state.reviseFlow packet.flowId
          (markClosed packet.flow.2)
  else
    reassembler

theorem Gained.afterClosing
    (limits : TcpLimits)
    {table : OrderedTable FlowId FlowState}
    (gained : Gained table packet reassembler) :
    Gained table packet (reassembler.afterClosing limits packet) := by
  unfold TCPReassembler.afterClosing
  split
  · apply (gained.onDirection _).reviseFlow
    intro state isOpen
    unfold markClosed
    rw [FlowState.directions_setDirection_opposite]
    exact isOpen
  · exact gained

/-- The second half of `finish` removes the flow if the connection is over. -/
theorem state_finish :
    (reassembler.finish limits packet).state =
      let closed := reassembler.afterClosing limits packet
      if closed.endsConnection packet then
        (closed.onDirection packet.flowId packet.flow.2.opposite
          (flushDirection limits packet.flow.1
            packet.flow.2.opposite)).state.removeFlow packet.flowId
      else
        closed := by
  have closing :
      (if packet.fin || packet.rst then
        (reassembler.onDirection packet.flowId packet.flow.2
          (flushDirection limits packet.flow.1
            packet.flow.2)).andThen fun flushed =>
              .quiet (flushed.reviseFlow packet.flowId
                (markClosed packet.flow.2))
      else
        .quiet reassembler).state =
        reassembler.afterClosing limits packet := by
    unfold afterClosing
    split <;> rfl
  unfold finish
  simp only [Outcome.state_andThen, closing]
  split <;> rfl

/-- A RST removes the flow again. -/
theorem Gained.finish_of_rst
    {table : OrderedTable FlowId FlowState}
    (gained : Gained table packet reassembler)
    (absent : table.get? packet.flowId = none)
    (rst : packet.rst = true) :
    (reassembler.finish limits packet).state.flows = table := by
  have erased := (gained.afterClosing limits).erase absent
  obtain ⟨state, flows, _⟩ := gained.afterClosing limits
  rw [state_finish]
  generalize reassembler.afterClosing limits packet = closed at erased flows
  have found : closed.flows.get? packet.flowId = some state := by
    rw [flows, OrderedTable.get?_set_self]
  have ends : closed.endsConnection packet = true := by
    simp [endsConnection, found, rst]
  dsimp only
  rw [if_pos ends, onDirection_of_get?_eq_some _ _ found]
  unfold removeFlow
  rw [get?_putDirection_self]
  exact (OrderedTable.erase_set _ _ _).trans erased

/-- Anything but a RST leaves the flow in the table. -/
theorem Gained.finish_of_not_rst
    (limits : TcpLimits)
    {table : OrderedTable FlowId FlowState}
    (gained : Gained table packet reassembler)
    (noRst : packet.rst = false) :
    Gained table packet (reassembler.finish limits packet).state := by
  have closing := gained.afterClosing limits
  have goesOn :
      (reassembler.afterClosing limits packet).endsConnection packet =
        false := by
    obtain ⟨state, flows, isOpen⟩ := closing
    have notAll : state.allClosed = false := by
      unfold FlowState.allClosed
      cases side : packet.flow.2 with
      | aToB =>
          rw [side] at isOpen
          exact (congrArg _ isOpen).trans (Bool.and_false _)
      | bToA =>
          rw [side] at isOpen
          exact (congrArg (· && _) isOpen).trans (Bool.false_and _)
    unfold endsConnection
    rw [flows, OrderedTable.get?_set_self]
    simp [noRst, notAll]
  rw [state_finish]
  dsimp only
  rw [if_neg (by simp [goesOn])]
  exact closing

/-! ## Exactly which stray packets leave no state -/

theorem flowTableFull_eq_false :
    reassembler.flowTableFull limits = false ↔
      reassembler.flows.size < limits.maxFlows := by
  simp [flowTableFull]

/-- With room in the table a stray packet evicts nothing. -/
theorem Stray.evictions_of_roomy
    (stray : Stray packet reassembler)
    (clock : Int)
    (roomy : reassembler.flowTableFull limits = false) :
    (reassembler.processTcp limits clock packet).state.evictions =
      reassembler.evictions := by
  have unrestarted :
      reassembler.restart limits packet = .quiet reassembler := by
    simp [restart, restarts, stray.absent]
  rw [stray.processTcp]
  simp only [Outcome.state_andThen]
  rw [evictions_finish,
    evictions_onDirection (acceptPayload_countsNoEviction limits packet),
    evictions_prepare, unrestarted, Outcome.quiet_andThen]
  unfold enter
  rw [stray.absent]
  simp only
  rw [evictWhile_of_unwanted limits false _ roomy, Outcome.quiet_andThen]
  rfl

/-- What a stray packet leaves, exactly. -/
theorem Stray.leavesNoState_iff
    (stray : Stray packet reassembler)
    (clock : Int) :
    reassembler.LeavesNoState limits clock packet ↔
      reassembler.PassesBy limits packet := by
  have gained :=
    (stray.gained_prepare limits clock).onDirection
      (acceptPayload limits packet)
  unfold LeavesNoState PassesBy process
  constructor
  · rintro ⟨sameFlows, sameCount⟩ accepting
    rw [if_pos accepting] at sameFlows sameCount
    have roomy : reassembler.flowTableFull limits = false := by
      have room :=
        ((evictions_processTcp limits packet clock).2
          (le_of_eq sameCount)).table
      simpa [restart, restarts, stray.absent] using room
    refine ⟨?_, flowTableFull_eq_false.mp roomy⟩
    rw [evictWhile_of_unwanted limits false _ roomy] at gained
    cases isRst : packet.rst with
    | true => rfl
    | false =>
        have kept := gained.finish_of_not_rst limits isRst
        rw [stray.processTcp] at sameFlows
        exact (kept.ne stray.absent sameFlows).elim
  · intro passes
    split
    case isFalse => exact ⟨rfl, rfl⟩
    case isTrue accepting =>
      obtain ⟨isRst, room⟩ := passes accepting
      have roomy := flowTableFull_eq_false.mpr room
      rw [evictWhile_of_unwanted limits false _ roomy] at gained
      refine ⟨?_, stray.evictions_of_roomy clock roomy⟩
      rw [stray.processTcp]
      exact gained.finish_of_rst stray.absent isRst

end TCPReassembler

/-! ## Runs -/

/--
A condition on the packet of each `process` call of a run that meets a state
without its flow and has neither SYN nor payload.
-/
def ForEachStray
    (limits : TcpLimits)
    (epochNamespace : Nat)
    (operations : List TcpOperation)
    (holds : Int → ParsedPacket → TCPReassembler → Prop) : Prop :=
  ∀ prior clock packet later,
    operations = prior ++ .process clock packet :: later →
    ((TCPReassembler.new epochNamespace).run limits prior).state.Stray
      packet →
    holds clock packet
      ((TCPReassembler.new epochNamespace).run limits prior).state

/--
In every run, a packet with neither SYN nor payload that belongs to no known
flow leaves the table alone and evicts nothing if and only if it takes no part
in reassembly, or is a RST that finds room in the table.
-/
theorem stray_packets_leave_no_state_iff
    (limits : TcpLimits)
    (epochNamespace : Nat)
    (operations : List TcpOperation) :
    ForEachStray limits epochNamespace operations fun clock packet before =>
      before.LeavesNoState limits clock packet ↔
        before.PassesBy limits packet :=
  fun _ clock _ _ _ stray => stray.leavesNoState_iff clock

/-- A table for one flow. -/
def oneFlow : TcpLimits :=
  { TcpLimits.default with
    maxFlows := 1
    maxFlows_pos := by decide }

/-- The answer of the server of `sampleSegment`. -/
def sampleReply (packetId seq flags : Nat) : ParsedPacket :=
  { sampleSegment packetId seq flags [] with
    src := "10.0.0.2"
    dst := "10.0.0.1"
    sport := 80
    dport := 1234 }

/-- A connection up to both FINs, and then the SYN of another one. -/
def closedThenOpened : List TcpOperation :=
  [.process 0 (sampleSegment 1 99 0x02 []),
    .process 1 (sampleReply 2 499 0x12),
    .process 2 (sampleSegment 3 100 0x11 []),
    .process 3 (sampleReply 4 500 0x11),
    .process 4 { sampleSegment 5 700 0x02 [] with sport := 4321 }]

/--
The final acknowledgement after both FINs creates an entry for the closed
connection, and in a full table evicts the connection opened since.
-/
theorem finalAck_evicts_open_connection :
    ¬ ∀ (limits : TcpLimits) (epochNamespace : Nat)
        (operations : List TcpOperation) (clock : Int)
        (packet : ParsedPacket),
      ((TCPReassembler.new epochNamespace).run limits
        operations).state.Stray packet →
      ((TCPReassembler.new epochNamespace).run limits
        operations).state.LeavesNoState limits clock packet := by
  intro claimed
  have finalAck :=
    (claimed oneFlow 0 closedThenOpened 5 (sampleSegment 6 101 0x10 [])
      { absent := by decide +kernel
        noSyn := by decide
        noPayload := by decide }).2
  revert finalAck
  decide +kernel

end PacketAudit
