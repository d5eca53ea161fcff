import PacketAudit.Cleartext.MqttStreams
import PacketAudit.Detector.Merge

namespace PacketAudit.Detector.Mqtt

/-!
# The MQTT scanner on the chunks of a stream

`_scan_mqtt` behind its gate and its window, with the retained tail that
`_merge_stream` keeps.  However a client stream is cut, the scanner reports
what a single scan of all of it reports.
-/

open Library

/-! ## The scanner -/

/-- What the scanner reports. -/
inductive MqttFinding where
  /-- `mqtt_connect_username_password`. -/
  | password
      (start stop version : Nat)
      (clientId : Text)
      (username : Option Text)
      (password : Bytes)
  /-- `mqtt_connect_authentication_data`. -/
  | authenticationData
      (start stop : Nat)
      (clientId : Text)
      (method : Option Text)
      (data : Bytes)
  deriving Repr, DecidableEq

/-- `state.mqtt_connect_done`, and the scanner's coverage counters. -/
structure MqttState where
  done : Bool := false
  originMissing : Nat := 0
  frameLimit : Nat := 0
  malformed : Nat := 0
  deriving Repr, DecidableEq

/-- The part of `_scan_mqtt` about the password. -/
def passwordFindings
    (connect : MqttConnect) : Except MqttFault (List MqttFinding) :=
  match connect.password with
  | none => .ok []
  | some password =>
      match connect.credentialStart, connect.credentialEnd with
      | some start, some stop =>
          .ok [.password start stop connect.version connect.clientId
            connect.username password]
      | _, _ => .error .assertion

/-- The part of `_scan_mqtt` about the authentication data. -/
def authenticationFindings
    (connect : MqttConnect) : Except MqttFault (List MqttFinding) :=
  if connect.authenticationData.getD [] = [] then
    .ok []
  else
    match connect.authenticationMethodSpan, connect.authenticationDataSpan with
    | some _, some span =>
        .ok [.authenticationData span.1 span.2 connect.clientId
          connect.authenticationMethod (connect.authenticationData.getD [])]
    | _, _ => .error .assertion

/-- What `_scan_mqtt` reports of a packet; each is the first of its detector. -/
def connectFindings
    (connect : MqttConnect) : Except MqttFault (List MqttFinding) := do
  let passwords ← passwordFindings connect
  let others ← authenticationFindings connect
  return passwords ++ others

/-- `_scan_mqtt` on a stream window that starts at this offset. -/
def scanMqtt
    (base : Int)
    (data : Bytes)
    (state : MqttState) : Except MqttFault (MqttState × List MqttFinding) :=
  if state.done then
    .ok (state, [])
  else if base ≠ 0 then
    .ok ({ state with
      done := true
      originMissing := state.originMissing + 1 }, [])
  else
    match parseMqttConnect data with
    | .error (.limit _) =>
        .ok ({ state with
          done := true
          frameLimit := state.frameLimit + 1 }, [])
    | .error (.malformed _) =>
        .ok ({ state with
          done := true
          malformed := state.malformed + 1 }, [])
    | .error fault => .error fault
    | .ok none => .ok (state, [])
    | .ok (some connect) => do
        let findings ← connectFindings connect
        return ({ state with done := true }, findings)

/-! ## Calls -/

/-- The endpoints a direction goes from and to. -/
def endpointsOf (flow : FlowKey) : Direction → Endpoint × Endpoint
  | .aToB => (flow.endpointA, flow.endpointB)
  | .bToA => (flow.endpointB, flow.endpointA)

/-- `_scanner_gate` for `_scan_mqtt`. -/
def mqttGate
    (chunk : StreamChunk)
    (data : Bytes)
    (state : MqttState) : Bool :=
  let (source, destination) := endpointsOf chunk.flow chunk.direction
  !data.isEmpty && !state.done &&
    (destination.port == 1883 && source.port != 1883)

/-- What is kept of one direction of a flow between two calls. -/
structure MqttWatch where
  tail : DirectionState := {}
  provenance : ProvenanceCounts := ⟨0, 0⟩
  /-- `state.scan_cursors.get((direction, "_scan_mqtt"))`. -/
  cursor : Option Int := none
  state : MqttState := {}

/-- `_scanner_window` for `_scan_mqtt`: the base offset, and the data. -/
def mqttWindow
    (overlapBytes : Nat)
    (cursor base : Int)
    (data : Bytes) : Int × Bytes :=
  let overlap := min overlapBytes maxConnectBytes
  let wantedStart := max base (cursor - overlap)
  if wantedStart - base ≤ 0 then
    (base, data)
  else
    (wantedStart, data.drop (wantedStart - base).toNat)

/-- `process_stream` for the scanner, in a flow that no cap cuts. -/
def process
    (overlapBytes : Nat)
    (chunk : StreamChunk)
    (watch : MqttWatch) : Except MqttFault (MqttWatch × List MqttFinding) := do
  let merged := mergeTail overlapBytes watch.provenance watch.tail chunk
  let cursor := watch.cursor.getD merged.scanStart
  let window :=
    mqttWindow overlapBytes cursor merged.scanStart merged.scanData
  let advanced : MqttWatch := { watch with
    tail := merged.tail
    provenance := merged.counts
    cursor := some (max cursor (merged.scanStart + merged.scanData.length)) }
  if mqttGate chunk merged.scanData watch.state && !window.2.isEmpty then
    let (state, found) ← scanMqtt window.1 window.2 watch.state
    return ({ advanced with state }, found)
  else
    return (advanced, [])

/-- One call after the other, and all that is reported. -/
def processAll (overlapBytes : Nat) :
    List StreamChunk →
    MqttWatch →
    Except MqttFault (MqttWatch × List MqttFinding)
  | [], watch => .ok (watch, [])
  | chunk :: rest, watch => do
      let (next, found) ← process overlapBytes chunk watch
      let (last, others) ← processAll overlapBytes rest next
      return (last, found ++ others)

/-- The chunks of one client stream, one after the other. -/
def FollowOn : (offset : Nat) → List StreamChunk → Prop
  | _, [] => True
  | offset, chunk :: rest =>
      chunk.streamOffset = offset ∧
        chunk.data ≠ [] ∧
        (endpointsOf chunk.flow chunk.direction).2.port = 1883 ∧
        (endpointsOf chunk.flow chunk.direction).1.port ≠ 1883 ∧
        FollowOn (offset + chunk.data.length) rest

/-- The bytes of the chunks. -/
def streamOf (chunks : List StreamChunk) : Bytes :=
  chunks.flatMap StreamChunk.data

/-! ## What a scan reports -/

section Scanning

theorem located_isSome
    {identifier start : Nat}
    {list : List MqttProperty} :
    (located identifier start list).isSome ↔
      identifier ∈ list.map MqttProperty.identifier := by
  induction list generalizing start with
  | nil => simp [located]
  | cons property rest inductionHypothesis =>
      unfold located
      dsimp only
      rw [List.map_cons, List.mem_cons]
      split
      case isTrue found =>
        exact ⟨fun _ => .inl found.symm, fun _ => rfl⟩
      case isFalse other =>
        rw [inductionHypothesis]
        exact ⟨.inr, fun member => member.resolve_left (Ne.symm other)⟩

/-- Authentication data stands beside the method it belongs to. -/
theorem hasMethodSpan
    (given : PropertySection false)
    {position : Nat}
    {data : Bytes}
    (hasData : (given.result position).authenticationData = some data) :
    ∃ method span,
      (given.result position).authenticationMethodSpan = some method ∧
        (given.result position).authenticationDataSpan = some span := by
  unfold PropertySection.result PropertySection.find? at hasData ⊢
  simp only [Bool.false_eq_true, if_false] at hasData ⊢
  obtain ⟨found, isFound, -⟩ := Option.bind_eq_some_iff.mp hasData
  have isData :=
    located_isSome.mp (Option.isSome_iff_exists.mpr ⟨found, isFound⟩)
  obtain ⟨method, isMethod⟩ :=
    Option.isSome_iff_exists.mp
      (located_isSome.mpr (given.hasMethod rfl isData))
  rw [isFound, isMethod]
  exact ⟨_, _, rfl, rfl⟩

/-- The assertions of the scanner hold for every packet. -/
theorem exists_connectFindings (packet : ConnectPacket) :
    ∃ found, connectFindings packet.connect = .ok found := by
  have passwords :
      ∃ found, passwordFindings packet.connect = .ok found := by
    unfold passwordFindings ConnectPacket.connect ConnectPacket.connectBetween
    dsimp only
    cases packet.password with
    | none => exact ⟨_, rfl⟩
    | some password =>
        rw [Option.isSome_some, Bool.or_true]
        exact ⟨_, rfl⟩
  have others :
      ∃ found, authenticationFindings packet.connect = .ok found := by
    unfold authenticationFindings ConnectPacket.connect
      ConnectPacket.connectBetween
    dsimp only
    split
    case isTrue => exact ⟨_, rfl⟩
    case isFalse present =>
      cases hasSection : packet.properties with
      | none =>
          rw [hasSection] at present
          exact absurd rfl present
      | some given =>
          rw [hasSection, Option.elim_some] at present
          cases hasData :
              (given.result
                (1 + (varintBytes 4 packet.body.length).length + 10)
                ).authenticationData with
          | none =>
              rw [hasData] at present
              exact absurd rfl present
          | some data =>
              obtain ⟨method, span, isMethod, isSpan⟩ :=
                hasMethodSpan given hasData
              rw [Option.elim_some, isMethod, isSpan]
              exact ⟨_, rfl⟩
  obtain ⟨passwordsFound, isPasswords⟩ := passwords
  obtain ⟨othersFound, isOthers⟩ := others
  unfold connectFindings
  rw [isPasswords, ok_bind, isOthers, ok_bind]
  exact ⟨_, rfl⟩

/-- A scan raises nothing. -/
theorem scanMqtt_total
    (base : Int)
    (data : Bytes)
    (state : MqttState) :
    ∃ answer, scanMqtt base data state = .ok answer := by
  unfold scanMqtt
  split
  · exact ⟨_, rfl⟩
  split
  · exact ⟨_, rfl⟩
  cases verdict : parseMqttConnect data with
  | error fault =>
      obtain ⟨message, rfl | rfl⟩ := parseMqttConnect_faults verdict
      · exact ⟨_, rfl⟩
      · exact ⟨_, rfl⟩
  | ok found =>
      cases found with
      | none => exact ⟨_, rfl⟩
      | some connect =>
          obtain ⟨packet, -, -, rfl⟩ := parseMqttConnect_eq_some.mp verdict
          obtain ⟨found, isFound⟩ := exists_connectFindings packet
          dsimp only
          rw [isFound, ok_bind]
          exact ⟨_, rfl⟩

/-- A scan that decides is the last one. -/
theorem scanMqtt_done
    {data : Bytes}
    {state next : MqttState}
    {found : List MqttFinding}
    (decided : parseMqttConnect data ≠ .ok none)
    (scanned : scanMqtt 0 data state = .ok (next, found)) :
    next.done = true := by
  unfold scanMqtt at scanned
  split at scanned
  case isTrue done =>
    obtain ⟨rfl, -⟩ := Prod.mk.inj (Except.ok.inj scanned)
    exact done
  rw [if_neg (not_not.mpr rfl)] at scanned
  split at scanned
  case h_4 => exact absurd ‹_› decided
  case h_5 =>
    obtain ⟨findings, -, returns⟩ := bind_eq_ok.mp scanned
    obtain ⟨rfl, -⟩ := Prod.mk.inj (Except.ok.inj returns)
    rfl
  case h_3 => cases scanned
  all_goals
    obtain ⟨rfl, -⟩ := Prod.mk.inj (Except.ok.inj scanned)
    rfl

/-- A scan that decides says what a scan of more data would say. -/
theorem scanMqtt_append
    {data : Bytes}
    (more : Bytes)
    (decided : parseMqttConnect data ≠ .ok none)
    (state : MqttState) :
    scanMqtt 0 (data ++ more) state = scanMqtt 0 data state := by
  unfold scanMqtt
  rw [parseMqttConnect_append more decided]

theorem scanMqtt_waits
    {data : Bytes}
    (waits : parseMqttConnect data = .ok none)
    (state : MqttState) :
    scanMqtt 0 data state = .ok (state, []) := by
  unfold scanMqtt
  rw [waits]
  split
  · rfl
  · rw [if_neg (not_not.mpr rfl)]

end Scanning

/-! ## Runs -/

section Runs

variable {overlapBytes : Nat}

/-- So far the scanner has seen all of a stream, and waits for more of it. -/
structure Waits (seen : Bytes) (watch : MqttWatch) : Prop where
  data : watch.tail.data = seen
  base : watch.tail.baseOffset = 0
  cursor : watch.cursor.getD 0 = seen.length
  state : watch.state = {}
  undecided : parseMqttConnect seen = .ok none

theorem Waits.short
    {seen : Bytes}
    {watch : MqttWatch}
    (waits : Waits seen watch) :
    seen.length < maxConnectBytes := by
  by_contra long
  exact parseMqttConnect_decides (Nat.not_lt.mp long) waits.undecided

/-- The next chunk is merged with all that has been seen. -/
theorem Waits.merged
    {seen : Bytes}
    {watch : MqttWatch}
    (waits : Waits seen watch)
    {chunk : StreamChunk}
    (goesOn : chunk.streamOffset = seen.length)
    (notEmpty : chunk.data ≠ [])
    (bounded : maxConnectBytes ≤ overlapBytes)
    (small : chunk.data.length ≤ trimSlack overlapBytes) :
    let merged := mergeTail overlapBytes watch.provenance watch.tail chunk
    merged.scanStart = 0 ∧
      merged.scanData = seen ++ chunk.data ∧
      ((seen ++ chunk.data).length ≤ overlapBytes →
        merged.tail.data = seen ++ chunk.data ∧
          merged.tail.baseOffset = 0) := by
  have short := waits.short
  have slack : trimSlack overlapBytes ≤ overlapBytes := by
    unfold trimSlack
    unfold maxConnectBytes at bounded
    omega
  unfold mergeTail
  by_cases isNew : seen = []
  · subst isNew
    rw [if_pos (by rw [waits.data]; rfl)]
    refine ⟨goesOn, rfl, fun fits => ?_⟩
    have kept : lastBytes overlapBytes chunk.data = chunk.data := by
      have fits : chunk.data.length ≤ overlapBytes := fits
      unfold lastBytes
      rw [Nat.sub_eq_zero_of_le fits, List.drop_zero]
    refine ⟨kept, ?_⟩
    change chunk.streamEnd - (lastBytes overlapBytes chunk.data).length = 0
    rw [kept]
    unfold StreamChunk.streamEnd
    rw [goesOn]
    simp
  · have tailEnd : watch.tail.tailEnd = seen.length := by
      unfold DirectionState.tailEnd
      rw [waits.base, waits.data, zero_add]
    have longer := List.length_pos_iff.mpr notEmpty
    have behind : watch.tail.tailEnd < chunk.streamEnd := by
      unfold StreamChunk.streamEnd
      omega
    have appended :
        (extended watch.tail chunk).data = seen ++ chunk.data := by
      unfold extended
      rw [waits.data]
    rw [if_neg (by rw [waits.data, List.isEmpty_iff]; exact isNew),
      if_neg (fun replayed => absurd replayed.2.1 (not_le.mpr behind)),
      if_neg (by rw [waits.base, tailEnd]; omega),
      if_pos (goesOn.trans tailEnd.symm)]
    unfold mergeAdjoining
    dsimp only
    rw [if_neg (by omega), appended,
      if_neg (by rw [List.length_append]; omega)]
    exact ⟨waits.base, rfl, fun _ => ⟨rfl, waits.base⟩⟩

theorem processAll_cons
    {chunk : StreamChunk}
    {rest : List StreamChunk}
    {watch next last : MqttWatch}
    {found others : List MqttFinding}
    (first : process overlapBytes chunk watch = .ok (next, found))
    (later : processAll overlapBytes rest next = .ok (last, others)) :
    processAll overlapBytes (chunk :: rest) watch =
      .ok (last, found ++ others) := by
  rw [processAll, first, ok_bind]
  dsimp only
  rw [later]
  rfl

/-- After the deciding scan nothing more is reported. -/
theorem processAll_done
    (chunks : List StreamChunk)
    {watch : MqttWatch}
    (done : watch.state.done = true) :
    ∃ last,
      processAll overlapBytes chunks watch = .ok (last, []) ∧
        last.state = watch.state := by
  induction chunks generalizing watch with
  | nil => exact ⟨watch, rfl, rfl⟩
  | cons chunk rest inductionHypothesis =>
      obtain ⟨next, processed, isState⟩ :
          ∃ next : MqttWatch,
            process overlapBytes chunk watch = .ok (next, []) ∧
              next.state = watch.state := by
        have closed
            (data : Bytes) :
            mqttGate chunk data watch.state = false := by
          unfold mqttGate
          simp [done]
        unfold process
        dsimp only
        rw [closed, Bool.false_and, if_neg (by decide)]
        exact ⟨_, rfl, rfl⟩
      obtain ⟨last, processedAll, isLast⟩ :=
        @inductionHypothesis next (isState ▸ done)
      exact ⟨last, processAll_cons processed processedAll,
        isLast.trans isState⟩

/-- The scanner gets all that has been seen. -/
theorem Waits.process_eq
    {seen : Bytes}
    {watch : MqttWatch}
    (waits : Waits seen watch)
    {chunk : StreamChunk}
    (goesOn : chunk.streamOffset = seen.length)
    (notEmpty : chunk.data ≠ [])
    (destination : (endpointsOf chunk.flow chunk.direction).2.port = 1883)
    (source : (endpointsOf chunk.flow chunk.direction).1.port ≠ 1883)
    (bounded : maxConnectBytes ≤ overlapBytes)
    (small : chunk.data.length ≤ trimSlack overlapBytes) :
    ∃ advanced : MqttWatch,
      process overlapBytes chunk watch =
          (do
            let (state, found) ← scanMqtt 0 (seen ++ chunk.data) {}
            return ({ advanced with state }, found)) ∧
        (parseMqttConnect (seen ++ chunk.data) = .ok none →
          Waits (seen ++ chunk.data) { advanced with state := {} }) := by
  obtain ⟨scanStart, scanData, kept⟩ :=
    waits.merged goesOn notEmpty bounded small
  have short := waits.short
  have isWindow :
      mqttWindow overlapBytes seen.length 0 (seen ++ chunk.data) =
        (0, seen ++ chunk.data) := by
    unfold mqttWindow
    dsimp only
    rw [if_pos (by omega)]
  have whole : seen ++ chunk.data ≠ [] :=
    List.append_ne_nil_of_right_ne_nil _ notEmpty
  have opened : mqttGate chunk (seen ++ chunk.data) {} = true := by
    unfold mqttGate
    simp [destination, source, notEmpty]
  refine ⟨{
    tail := (mergeTail overlapBytes watch.provenance watch.tail chunk).tail
    provenance :=
      (mergeTail overlapBytes watch.provenance watch.tail chunk).counts
    cursor :=
      some (max (seen.length : Int) (0 + ((seen ++ chunk.data).length : Nat)))
    state := {} }, ?_, ?_⟩
  · unfold process
    dsimp only
    rw [scanStart, scanData, waits.cursor, waits.state, isWindow, opened]
    simp only [Bool.true_and]
    rw [if_pos (by simpa using whole)]
  · intro undecided
    have undecidedShort : (seen ++ chunk.data).length < maxConnectBytes := by
      by_contra long
      exact parseMqttConnect_decides (Nat.not_lt.mp long) undecided
    obtain ⟨isData, isBase⟩ := kept (by omega)
    refine ⟨isData, isBase, ?_, rfl, undecided⟩
    rw [Option.getD_some, List.length_append]
    omega

/-- A waiting scanner reports what one scan of the whole stream reports. -/
theorem Waits.processAll_eq
    (bounded : maxConnectBytes ≤ overlapBytes)
    {chunks : List StreamChunk}
    (small : ∀ chunk ∈ chunks, chunk.data.length ≤ trimSlack overlapBytes)
    {seen : Bytes}
    {watch : MqttWatch}
    (waits : Waits seen watch)
    (followOn : FollowOn seen.length chunks) :
    ∃ last found,
      processAll overlapBytes chunks watch = .ok (last, found) ∧
        scanMqtt 0 (seen ++ streamOf chunks) {} = .ok (last.state, found) := by
  induction chunks generalizing seen watch with
  | nil =>
      refine ⟨watch, [], rfl, ?_⟩
      rw [waits.state]
      unfold streamOf
      rw [List.flatMap_nil, List.append_nil]
      exact scanMqtt_waits waits.undecided _
  | cons chunk rest inductionHypothesis =>
      obtain ⟨smallFirst, smallRest⟩ := List.forall_mem_cons.mp small
      obtain ⟨goesOn, notEmpty, destination, source, followOn⟩ := followOn
      obtain ⟨advanced, processed, waitsOn⟩ :=
        waits.process_eq goesOn notEmpty destination source bounded smallFirst
      have isStream :
          seen ++ streamOf (chunk :: rest) =
            seen ++ chunk.data ++ streamOf rest := by
        unfold streamOf
        rw [List.flatMap_cons, List.append_assoc]
      rw [isStream]
      by_cases undecided : parseMqttConnect (seen ++ chunk.data) = .ok none
      · rw [← List.length_append] at followOn
        obtain ⟨last, found, processedAll, isScan⟩ :=
          inductionHypothesis smallRest (waitsOn undecided) followOn
        rw [scanMqtt_waits undecided] at processed
        exact ⟨last, found, processAll_cons processed processedAll, isScan⟩
      · obtain ⟨⟨state, found⟩, scanned⟩ :=
          scanMqtt_total 0 (seen ++ chunk.data) {}
        have done := scanMqtt_done undecided scanned
        obtain ⟨last, processedAll, isState⟩ :=
          @processAll_done overlapBytes rest { advanced with state } done
        rw [scanned] at processed
        refine ⟨last, found, ?_, ?_⟩
        · exact (List.append_nil found) ▸
            processAll_cons processed processedAll
        · rw [scanMqtt_append _ undecided, scanned, isState]

/-- However a stream is cut, what is reported is what one scan of it reports. -/
theorem processAll_eq_scanMqtt
    (bounded : maxConnectBytes ≤ overlapBytes)
    {chunks : List StreamChunk}
    (small : ∀ chunk ∈ chunks, chunk.data.length ≤ trimSlack overlapBytes)
    (followOn : FollowOn 0 chunks) :
    ∃ last found,
      processAll overlapBytes chunks {} = .ok (last, found) ∧
        scanMqtt 0 (streamOf chunks) {} = .ok (last.state, found) :=
  Waits.processAll_eq bounded small
    (⟨rfl, rfl, rfl, rfl, rfl⟩ : Waits [] {}) followOn

end Runs

/-! ## The credentials of a stream -/

section Credentials

variable {overlapBytes : Nat}

/-- A stream begins with a CONNECT packet of supported size. -/
def BeginsWith (packet : ConnectPacket) (stream : Bytes) : Prop :=
  packet.bytes <+: stream ∧ packet.bytes.length ≤ maxConnectBytes

/-- What one scan reports is the packet's. -/
theorem scanMqtt_packet
    {packet : ConnectPacket}
    {stream : Bytes}
    (begins : BeginsWith packet stream) :
    ∃ found,
      connectFindings packet.connect = .ok found ∧
        scanMqtt 0 stream {} = .ok ({ done := true }, found) := by
  obtain ⟨found, isFound⟩ := exists_connectFindings packet
  refine ⟨found, isFound, ?_⟩
  unfold scanMqtt
  rw [parseMqttConnect_eq_some.mpr ⟨packet, begins.1, begins.2, rfl⟩]
  dsimp only
  rw [if_neg (by decide), if_neg (not_not.mpr rfl), isFound]
  rfl

/-- A scan reports nothing but packets. -/
theorem exists_packet_of_found
    {stream : Bytes}
    {state : MqttState}
    {found : List MqttFinding}
    (scanned : scanMqtt 0 stream {} = .ok (state, found))
    (reported : found ≠ []) :
    ∃ packet, BeginsWith packet stream := by
  unfold scanMqtt at scanned
  rw [if_neg (by decide), if_neg (not_not.mpr rfl)] at scanned
  split at scanned
  case h_5 connect verdict =>
    obtain ⟨packet, isPrefix, bounded, -⟩ :=
      parseMqttConnect_eq_some.mp verdict
    exact ⟨packet, isPrefix, bounded⟩
  case h_3 => cases scanned
  all_goals
    obtain ⟨-, isFound⟩ := Prod.mk.inj (Except.ok.inj scanned)
    exact absurd isFound.symm reported

end Credentials

/-! ## A client of a broker -/

/-- A chunk of what a client sends to its broker. -/
def clientChunk (offset : Nat) (data : Bytes) : StreamChunk where
  flow := ⟨6, ⟨"10.0.0.1", 40000⟩, ⟨"10.0.0.2", 1883⟩, "eth0", []⟩
  direction := .aToB
  streamOffset := offset
  data := data
  packetIds := [1]
  firstTimestampNs := 0
  lastTimestampNs := 0

/-- The client `c` connects as `u` with the password `p`, in two chunks. -/
def clientChunks : List StreamChunk :=
  [clientChunk 0 [0x10, 0x13, 0x00, 0x04, 0x4D, 0x51, 0x54, 0x54, 0x04],
    clientChunk 9 [0xC2, 0x00, 0x3C, 0x00, 0x01, 0x63, 0x00, 0x01, 0x75, 0x00,
      0x01, 0x70]]

end PacketAudit.Detector.Mqtt
