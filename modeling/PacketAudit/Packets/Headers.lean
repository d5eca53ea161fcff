import PacketAudit.Packets.Decode

namespace PacketAudit

/-!
# Header reads that cannot fail

Every read behind a length check of its own succeeds, so the two decoders that
run after IP reconstruction return on every packet.
-/

theorem u16_of_le
    {data : Bytes}
    {offset : Nat}
    (inside : offset + 2 ≤ data.length) :
    u16 data offset =
      .ok (bigEndian (data.extract offset (offset + 2))) :=
  u16_eq_ok.mpr ⟨inside, rfl⟩

theorem u32_of_le
    {data : Bytes}
    {offset : Nat}
    (inside : offset + 4 ≤ data.length) :
    u32 data offset =
      .ok (bigEndian (data.extract offset (offset + 4))) :=
  u32_eq_ok.mpr ⟨inside, rfl⟩

/-- What a header scan finds when its end lies inside the data. -/
theorem scanHeader_eq
    {data : Bytes}
    {stop : Nat}
    (within : stop ≤ data.length)
    (offset : Nat)
    (lengthOf : Nat → Nat) :
    scanHeader data stop offset lengthOf =
      if inside : offset + 2 ≤ stop then
        let following := data[offset].toNat
        let length := lengthOf data[offset + 1].toNat
        if length < 8 ∨ stop < offset + length then
          .ok .invalid
        else
          .ok (.next following length)
      else
        .ok .short := by
  unfold scanHeader
  by_cases inside : offset + 2 ≤ stop
  · rw [if_neg (by omega), dif_pos inside,
      byteAt_of_lt (show offset < data.length by omega),
      byteAt_of_lt (show offset + 1 < data.length by omega)]
    simp only [ok_bind]
  · rw [if_pos (by omega), dif_neg inside]

theorem scanHeader_total
    {data : Bytes}
    {stop : Nat}
    (within : stop ≤ data.length)
    (offset : Nat)
    (lengthOf : Nat → Nat) :
    ∃ scan, scanHeader data stop offset lengthOf = .ok scan := by
  rw [scanHeader_eq within]
  split
  · dsimp only
    split
    · exact ⟨_, rfl⟩
    · exact ⟨_, rfl⟩
  · exact ⟨_, rfl⟩

/-- What goes on after a header goes on whichever the header is. -/
theorem scanHeader_bind_total
    {α : Type}
    {data : Bytes}
    {stop offset : Nat}
    {lengthOf : Nat → Nat}
    {goOn : HeaderScan → Except PacketFault α}
    (within : stop ≤ data.length)
    (short : ∃ result, goOn .short = .ok result)
    (invalid : ∃ result, goOn .invalid = .ok result)
    (next :
      ∀ following length, ∃ result, goOn (.next following length) = .ok result) :
    ∃ result, (scanHeader data stop offset lengthOf >>= goOn) = .ok result := by
  obtain ⟨scan, scanned⟩ := scanHeader_total within offset lengthOf
  rw [scanned, ok_bind]
  cases scan with
  | short => exact short
  | invalid => exact invalid
  | next following length => exact next following length

/-- The walk over extension headers only moves forward. -/
theorem le_offset_of_walkIpv6
    {network : Bytes}
    {stop rounds nextHeader offset : Nat}
    {walk : Ipv6Walk}
    (walked :
      walkIpv6 network stop rounds nextHeader offset = .ok walk) :
    offset ≤ walk.offset := by
  induction rounds generalizing nextHeader offset with
  | zero => cases walked
  | succ rounds inductionHypothesis =>
      unfold walkIpv6 at walked
      split at walked
      · simp only [bind_eq_ok] at walked
        obtain ⟨-, -, _, -, _, -, _, -, isWalk⟩ := walked
        obtain rfl := Except.ok.inj isWalk
        exact Nat.le_add_right _ _
      split at walked
      · obtain ⟨scan, -, continues⟩ := bind_eq_ok.mp walked
        cases scan with
        | short => cases continues
        | invalid => cases continues
        | next following length =>
            exact le_trans (Nat.le_add_right _ _)
              (inductionHypothesis continues)
      split at walked
      · obtain ⟨scan, -, continues⟩ := bind_eq_ok.mp walked
        cases scan with
        | short => cases continues
        | invalid => cases continues
        | next following length =>
            exact le_trans (Nat.le_add_right _ _)
              (inductionHypothesis continues)
      · obtain rfl := Except.ok.inj walked
        exact le_refl _

/-- The walk over the headers of a reassembled payload always ends. -/
theorem walkReassembled_total
    (payload : Bytes)
    (rounds nextHeader offset : Nat) :
    ∃ walk, walkReassembled payload rounds nextHeader offset = .ok walk := by
  induction rounds generalizing nextHeader offset with
  | zero =>
      exact ⟨_, rfl⟩
  | succ rounds inductionHypothesis =>
      unfold walkReassembled
      split
      · exact scanHeader_bind_total (le_refl _) ⟨_, rfl⟩ ⟨_, rfl⟩
          fun _ _ => inductionHypothesis _ _
      · split
        · exact scanHeader_bind_total (le_refl _) ⟨_, rfl⟩ ⟨_, rfl⟩
            fun _ _ => inductionHypothesis _ _
        · exact ⟨_, rfl⟩

theorem normalizeReassembledIpv6_total (packet : ParsedPacket) :
    ∃ normalized, normalizeReassembledIpv6 packet = .ok normalized := by
  unfold normalizeReassembledIpv6
  split
  · exact ⟨_, rfl⟩
  · obtain ⟨walk, walked⟩ :=
      walkReassembled_total packet.networkPayload maxIpv6ExtensionHeaders
        packet.protocol 0
    rw [walked, ok_bind]
    cases walk with
    | none => exact ⟨_, rfl⟩
    | some reached => exact ⟨_, rfl⟩

/-- The TCP decoder on a payload its checks accept. -/
theorem parseTcp_of_le
    {packet : ParsedPacket}
    (long : 20 ≤ packet.networkPayload.length) :
    let payload := packet.networkPayload
    let dataOffset := (payload[12].toNat >>> 4) * 4
    parseTcp packet =
      if dataOffset < 20 ∨ payload.length < dataOffset then
        .ok packet.transportMissing
      else
        .ok { packet with
          networkPayload := []
          sport := bigEndian (payload.extract 0 2)
          dport := bigEndian (payload.extract 2 4)
          tcpSeq := bigEndian (payload.extract 4 8)
          tcpAck := bigEndian (payload.extract 8 12)
          tcpFlags := payload[13].toNat
          transportPayload := payload.drop dataOffset
          transportParsed := true } := by
  intro payload dataOffset
  have longPayload : 20 ≤ payload.length := long
  unfold parseTcp
  dsimp only
  rw [if_neg (by omega),
    byteAt_of_lt (show 12 < packet.networkPayload.length by omega), ok_bind]
  split
  case isTrue => rfl
  case isFalse =>
    rw [u16_of_le (by omega), u16_of_le (by omega), u32_of_le (by omega),
      u32_of_le (by omega),
      byteAt_of_lt (show 13 < packet.networkPayload.length by omega)]
    simp only [ok_bind]
    rfl

theorem parseTcp_total (packet : ParsedPacket) :
    ∃ parsed, parseTcp packet = .ok parsed := by
  by_cases long : 20 ≤ packet.networkPayload.length
  · have parsed := parseTcp_of_le long
    dsimp only at parsed
    rw [parsed]
    split
    · exact ⟨_, rfl⟩
    · exact ⟨_, rfl⟩
  · unfold parseTcp
    dsimp only
    rw [if_pos (by omega)]
    exact ⟨_, rfl⟩

theorem parseUdp_total (packet : ParsedPacket) :
    ∃ parsed, parseUdp packet = .ok parsed := by
  unfold parseUdp
  dsimp only
  split
  · exact ⟨_, rfl⟩
  · rw [u16_of_le (by omega), ok_bind]
    split
    · exact ⟨_, rfl⟩
    · rw [u16_of_le (by omega), u16_of_le (by omega)]
      exact ⟨_, rfl⟩

theorem parseTransport_total (packet : ParsedPacket) :
    ∃ parsed, parseTransport packet = .ok parsed := by
  unfold parseTransport
  split
  · exact ⟨_, rfl⟩
  · split
    · exact parseTcp_total packet
    · split
      · exact parseUdp_total packet
      · exact ⟨_, rfl⟩

/-! ## The packet identifier of a decoded packet -/

theorem parseIpv4_packetId
    {captured : CapturedPacket}
    {network : Bytes}
    {vlanIds : List Nat}
    {parsed : ParsedPacket}
    (parses : parseIpv4 captured network vlanIds = .ok parsed) :
    parsed.packetId = captured.packetId := by
  unfold parseIpv4 at parses
  simp only [bind_eq_ok, Except.ok.injEq] at parses
  obtain ⟨-, -, -, -, -, -, -, -, -, -, -, -, -, -, -, -, -, -, rfl⟩ := parses
  rfl

theorem parseIpv6_packetId
    {captured : CapturedPacket}
    {network : Bytes}
    {vlanIds : List Nat}
    {parsed : ParsedPacket}
    (parses : parseIpv6 captured network vlanIds = .ok parsed) :
    parsed.packetId = captured.packetId := by
  unfold parseIpv6 at parses
  simp only [bind_eq_ok, Except.ok.injEq] at parses
  obtain ⟨-, -, -, -, -, -, -, -, -, -, -, -, -, -, rfl⟩ := parses
  rfl

theorem parseTcp_packetId
    {packet parsed : ParsedPacket}
    (parses : parseTcp packet = .ok parsed) :
    parsed.packetId = packet.packetId := by
  by_cases long : 20 ≤ packet.networkPayload.length
  · have isResult := parseTcp_of_le long
    dsimp only at isResult
    rw [isResult] at parses
    split at parses <;> obtain rfl := Except.ok.inj parses <;> rfl
  · unfold parseTcp at parses
    dsimp only at parses
    rw [if_pos (by omega)] at parses
    obtain rfl := Except.ok.inj parses
    rfl

theorem parseUdp_packetId
    {packet parsed : ParsedPacket}
    (parses : parseUdp packet = .ok parsed) :
    parsed.packetId = packet.packetId := by
  unfold parseUdp at parses
  dsimp only at parses
  split at parses
  case isTrue short =>
    obtain rfl := Except.ok.inj parses
    rfl
  case isFalse long =>
    rw [u16_of_le (by omega), ok_bind] at parses
    split at parses
    case isTrue rejected =>
      obtain rfl := Except.ok.inj parses
      rfl
    case isFalse accepted =>
      rw [u16_of_le (by omega), ok_bind, u16_of_le (by omega), ok_bind]
        at parses
      obtain rfl := Except.ok.inj parses
      rfl

theorem parseTransport_packetId
    {packet parsed : ParsedPacket}
    (parses : parseTransport packet = .ok parsed) :
    parsed.packetId = packet.packetId := by
  unfold parseTransport at parses
  split at parses
  · exact congrArg ParsedPacket.packetId (Except.ok.inj parses).symm
  · split at parses
    · exact parseTcp_packetId parses
    · split at parses
      · exact parseUdp_packetId parses
      · exact congrArg ParsedPacket.packetId (Except.ok.inj parses).symm

/-- A decoded packet keeps the identifier of its frame. -/
theorem parsePacketStrict_packetId
    {captured : CapturedPacket}
    {parsed : ParsedPacket}
    (parses : parsePacketStrict captured = .ok (some parsed)) :
    parsed.packetId = captured.packetId := by
  have transported
      {base : ParsedPacket}
      (transport : some <$> parseTransport base = .ok (some parsed)) :
      parsed.packetId = base.packetId := by
    cases parsesTo : parseTransport base with
    | error fault =>
        rw [parsesTo] at transport
        cases transport
    | ok reached =>
        rw [parsesTo] at transport
        obtain rfl := Option.some.inj (Except.ok.inj transport)
        exact parseTransport_packetId parsesTo
  unfold parsePacketStrict at parses
  obtain ⟨link, -, parses⟩ := bind_eq_ok.mp parses
  split at parses
  · obtain ⟨base, network, transport⟩ := bind_eq_ok.mp parses
    exact (transported transport).trans (parseIpv4_packetId network)
  · split at parses
    · obtain ⟨base, network, transport⟩ := bind_eq_ok.mp parses
      exact (transported transport).trans (parseIpv6_packetId network)
    · cases parses

end PacketAudit
