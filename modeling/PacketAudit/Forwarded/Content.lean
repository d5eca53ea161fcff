import PacketAudit.Forwarded.Frames

namespace PacketAudit

/-!
# Equal keys mean equal content

A described frame decodes to the same content as the frame made of its key
alone, whatever its hop count, checksum, MAC addresses and padding were.  So
frames with equal keys decode to equal content.
-/

/-- What the analysis of a packet depends on, capture metadata aside. -/
structure PacketContent where
  ipVersion : Nat
  src : String
  dst : String
  protocol : Nat
  vlanIds : List Nat
  networkPayload : Bytes
  fragmentOffset : Nat
  moreFragments : Bool
  transportParsed : Bool
  sport : Nat
  dport : Nat
  tcpSeq : Nat
  tcpAck : Nat
  tcpFlags : Nat
  transportPayload : Bytes
  deriving Repr, DecidableEq

/-- The content of a packet. -/
def ParsedPacket.content (packet : ParsedPacket) : PacketContent where
  ipVersion := packet.ipVersion
  src := packet.src
  dst := packet.dst
  protocol := packet.protocol
  vlanIds := packet.vlanIds
  networkPayload := packet.networkPayload
  fragmentOffset := packet.fragmentOffset
  moreFragments := packet.moreFragments
  transportParsed := packet.transportParsed
  sport := packet.sport
  dport := packet.dport
  tcpSeq := packet.tcpSeq
  tcpAck := packet.tcpAck
  tcpFlags := packet.tcpFlags
  transportPayload := packet.transportPayload

/-! ## Transport headers -/

/-- The TCP decoder turns equal content into equal content. -/
theorem parseTcp_content
    {first second firstParsed secondParsed : ParsedPacket}
    (same : first.content = second.content)
    (firstParses : parseTcp first = .ok firstParsed)
    (secondParses : parseTcp second = .ok secondParsed) :
    firstParsed.content = secondParsed.content := by
  have samePayload : first.networkPayload = second.networkPayload :=
    congrArg PacketContent.networkPayload same
  by_cases long : 20 ≤ first.networkPayload.length
  · have firstEq := parseTcp_of_le long
    have secondEq := parseTcp_of_le (samePayload ▸ long)
    dsimp only at firstEq secondEq
    rw [firstEq] at firstParses
    rw [secondEq] at secondParses
    simp only [← samePayload] at secondParses
    split at firstParses
    case isTrue rejected =>
      rw [if_pos rejected] at secondParses
      obtain rfl := Except.ok.inj firstParses
      obtain rfl := Except.ok.inj secondParses
      simp_all [ParsedPacket.content, ParsedPacket.transportMissing]
    case isFalse accepted =>
      rw [if_neg accepted] at secondParses
      obtain rfl := Except.ok.inj firstParses
      obtain rfl := Except.ok.inj secondParses
      simp_all [ParsedPacket.content]
  · unfold parseTcp at firstParses secondParses
    dsimp only at firstParses secondParses
    rw [if_pos (by omega)] at firstParses
    rw [if_pos (by rw [← samePayload]; omega)] at secondParses
    obtain rfl := Except.ok.inj firstParses
    obtain rfl := Except.ok.inj secondParses
    simp_all [ParsedPacket.content, ParsedPacket.transportMissing]

/-- The UDP decoder turns equal content into equal content. -/
theorem parseUdp_content
    {first second firstParsed secondParsed : ParsedPacket}
    (same : first.content = second.content)
    (firstParses : parseUdp first = .ok firstParsed)
    (secondParses : parseUdp second = .ok secondParsed) :
    firstParsed.content = secondParsed.content := by
  have samePayload : first.networkPayload = second.networkPayload :=
    congrArg PacketContent.networkPayload same
  have sameVersion : first.ipVersion = second.ipVersion :=
    congrArg PacketContent.ipVersion same
  unfold parseUdp at firstParses secondParses
  simp only [← samePayload, ← sameVersion] at secondParses
  dsimp only at firstParses
  split at firstParses
  case isTrue short =>
    rw [if_pos short] at secondParses
    obtain rfl := Except.ok.inj firstParses
    obtain rfl := Except.ok.inj secondParses
    simp_all [ParsedPacket.content, ParsedPacket.transportMissing]
  case isFalse long =>
    rw [if_neg long] at secondParses
    rw [u16_of_le (by omega), ok_bind] at firstParses secondParses
    split at firstParses
    case isTrue rejected =>
      rw [if_pos rejected] at secondParses
      obtain rfl := Except.ok.inj firstParses
      obtain rfl := Except.ok.inj secondParses
      simp_all [ParsedPacket.content, ParsedPacket.transportMissing]
    case isFalse accepted =>
      rw [if_neg accepted] at secondParses
      rw [u16_of_le (by omega), ok_bind, u16_of_le (by omega), ok_bind]
        at firstParses secondParses
      obtain rfl := Except.ok.inj firstParses
      obtain rfl := Except.ok.inj secondParses
      simp_all [ParsedPacket.content]

/-- The transport decoder turns equal content into equal content. -/
theorem parseTransport_content
    {first second firstParsed secondParsed : ParsedPacket}
    (same : first.content = second.content)
    (firstParses : parseTransport first = .ok firstParsed)
    (secondParses : parseTransport second = .ok secondParsed) :
    firstParsed.content = secondParsed.content := by
  have sameOffset : first.fragmentOffset = second.fragmentOffset :=
    congrArg PacketContent.fragmentOffset same
  have sameMore : first.moreFragments = second.moreFragments :=
    congrArg PacketContent.moreFragments same
  have sameProtocol : first.protocol = second.protocol :=
    congrArg PacketContent.protocol same
  unfold parseTransport at firstParses secondParses
  rw [← sameOffset, ← sameMore, ← sameProtocol] at secondParses
  split at firstParses
  case isTrue fragment =>
    rw [if_pos fragment] at secondParses
    obtain rfl := Except.ok.inj firstParses
    obtain rfl := Except.ok.inj secondParses
    exact same
  case isFalse whole =>
    rw [if_neg whole] at secondParses
    split at firstParses
    case isTrue tcp =>
      rw [if_pos tcp] at secondParses
      exact parseTcp_content same firstParses secondParses
    case isFalse notTcp =>
      rw [if_neg notTcp] at secondParses
      split at firstParses
      case isTrue udp =>
        rw [if_pos udp] at secondParses
        exact parseUdp_content same firstParses secondParses
      case isFalse notUdp =>
        rw [if_neg notUdp] at secondParses
        obtain rfl := Except.ok.inj firstParses
        obtain rfl := Except.ok.inj secondParses
        exact same

/-! ## Byte strings that agree on an interval -/

/-- Two byte strings agree at every index of an interval. -/
def AgreeOn (first last : Nat) (one other : Bytes) : Prop :=
  ∀ index, first ≤ index → index < last → one[index]? = other[index]?

namespace AgreeOn

variable
  {first last : Nat}
  {one other : Bytes}

theorem symm (agree : AgreeOn first last one other) :
    AgreeOn first last other one :=
  fun index fromFirst beforeLast =>
    (agree index fromFirst beforeLast).symm

/-- Agreement on a larger interval. -/
theorem narrow
    (agree : AgreeOn first last one other)
    {low high : Nat}
    (fromFirst : first ≤ low)
    (toLast : high ≤ last) :
    AgreeOn low high one other :=
  fun index inside before =>
    agree index (le_trans fromFirst inside) (lt_of_lt_of_le before toLast)

theorem extract (agree : AgreeOn first last one other) :
    one.extract first last = other.extract first last := by
  simp only [List.extract_eq_take_drop]
  apply List.ext_getElem?
  intro index
  by_cases inside : index < last - first
  · rw [List.getElem?_take_of_lt inside, List.getElem?_take_of_lt inside,
      List.getElem?_drop, List.getElem?_drop]
    exact agree _ (by omega) (by omega)
  · rw [List.getElem?_take, List.getElem?_take, if_neg inside,
      if_neg inside]

/-- The interval lies inside both strings or inside neither. -/
theorem length_lt_iff
    (agree : AgreeOn first last one other)
    (nonempty : first < last) :
    one.length < last ↔ other.length < last := by
  have atLast := agree (last - 1) (by omega) (by omega)
  have oneShort : one.length < last ↔ one[last - 1]? = none := by
    rw [List.getElem?_eq_none_iff]
    omega
  have otherShort : other.length < last ↔ other[last - 1]? = none := by
    rw [List.getElem?_eq_none_iff]
    omega
  rw [oneShort, otherShort, atLast]

theorem byteAt
    (agree : AgreeOn first last one other)
    {index : Nat}
    (inside : first ≤ index ∧ index < last) :
    PacketAudit.byteAt one index = PacketAudit.byteAt other index := by
  unfold PacketAudit.byteAt
  rw [agree index inside.1 inside.2]

theorem u16
    (agree : AgreeOn first last one other)
    {offset : Nat}
    (inside : first ≤ offset ∧ offset + 2 ≤ last) :
    PacketAudit.u16 one offset = PacketAudit.u16 other offset := by
  have field : AgreeOn offset (offset + 2) one other :=
    agree.narrow inside.1 inside.2
  unfold PacketAudit.u16
  simp only [field.length_lt_iff (by omega), field.extract]

theorem u32
    (agree : AgreeOn first last one other)
    {offset : Nat}
    (inside : first ≤ offset ∧ offset + 4 ≤ last) :
    PacketAudit.u32 one offset = PacketAudit.u32 other offset := by
  have field : AgreeOn offset (offset + 4) one other :=
    agree.narrow inside.1 inside.2
  unfold PacketAudit.u32
  simp only [field.length_lt_iff (by omega), field.extract]

/-- A header scan reads only before its end. -/
theorem scanHeader
    (agree : AgreeOn first last one other)
    {offset : Nat}
    (fromFirst : first ≤ offset)
    (lengthOf : Nat → Nat) :
    PacketAudit.scanHeader one last offset lengthOf =
      PacketAudit.scanHeader other last offset lengthOf := by
  unfold PacketAudit.scanHeader
  split
  · rfl
  · rw [agree.byteAt ⟨fromFirst, by omega⟩,
      agree.byteAt (show first ≤ offset + 1 ∧ offset + 1 < last by omega)]

/-- The walk over extension headers reads only before its end. -/
theorem walkIpv6
    (agree : AgreeOn first last one other)
    {offset : Nat}
    (fromFirst : first ≤ offset)
    (rounds nextHeader : Nat) :
    PacketAudit.walkIpv6 one last rounds nextHeader offset =
      PacketAudit.walkIpv6 other last rounds nextHeader offset := by
  induction rounds generalizing nextHeader offset with
  | zero =>
      rfl
  | succ rounds inductionHypothesis =>
      have later
          (following length : Nat) :
          PacketAudit.walkIpv6 one last rounds following (offset + length) =
            PacketAudit.walkIpv6 other last rounds following
              (offset + length) :=
        inductionHypothesis (by omega) following
      unfold PacketAudit.walkIpv6
      simp only [agree.scanHeader fromFirst, later]
      split
      · unfold raiseIf
        split
        · rfl
        · rw [agree.byteAt ⟨fromFirst, by omega⟩,
            agree.u16 (show first ≤ offset + 2 ∧ offset + 2 + 2 ≤ last by
              omega),
            agree.u32 (show first ≤ offset + 4 ∧ offset + 4 + 4 ≤ last by
              omega)]
      · rfl

end AgreeOn

/-! ## IP headers -/

/-- The IPv4 decoder reads neither hop count nor header checksum. -/
theorem parseIpv4_content
    {packet canonical : CapturedPacket}
    {network other : Bytes}
    {vlanIds : List Nat}
    {parsed : ParsedPacket}
    {length : Nat}
    (parses : parseIpv4 packet network vlanIds = .ok parsed)
    (isLength : bigEndian (network.extract 2 4) = length)
    (complete : length ≤ network.length)
    (otherLength : other.length = length)
    (before : AgreeOn 0 8 network other)
    (protocolByte : AgreeOn 9 10 network other)
    (after : AgreeOn 12 length network other) :
    ∃ otherParsed,
      parseIpv4 canonical other vlanIds = .ok otherParsed ∧
        otherParsed.content = parsed.content := by
  simp only [parseIpv4, bind_eq_ok, raiseIf_eq_ok, exists_const] at parses
  obtain ⟨long, versionByte, readVersion, isVersion, headerFits, totalLength,
    readLength, covers, flags, readFlags, protocol, readProtocol,
    identification, readIdentification, isParsed⟩ := parses
  have sameTotal : totalLength = length := by
    rw [← (u16_eq_ok.mp readLength).2, ← isLength]
  subst sameTotal
  have header : 20 ≤ totalLength := by omega
  obtain rfl := Except.ok.inj isParsed
  apply Exists.intro
  constructor
  · simp only [parseIpv4, bind_eq_ok, raiseIf_eq_ok, exists_const]
    refine ⟨by omega, versionByte, ?_, isVersion, by omega, totalLength, ?_,
      covers, flags, ?_, protocol, ?_, identification, ?_, rfl⟩
    · rw [← before.byteAt (by omega)]
      exact readVersion
    · rw [← before.u16 (by omega)]
      exact readLength
    · rw [← before.u16 (by omega)]
      exact readFlags
    · rw [← protocolByte.byteAt (by omega)]
      exact readProtocol
    · rw [← before.u16 (by omega)]
      exact readIdentification
  · have addresses (low : Nat) (inside : 12 ≤ low ∧ low + 4 ≤ 20) :
        network.extract low (low + 4) = other.extract low (low + 4) :=
      (after.narrow inside.1 (by omega)).extract
    have payload :
        network.extract ((versionByte &&& 0x0F) * 4) totalLength =
          other.extract ((versionByte &&& 0x0F) * 4) totalLength :=
      (after.narrow (by omega) (le_refl _)).extract
    have ends : min network.length totalLength = totalLength := by omega
    simp only [ParsedPacket.content, otherLength, min_self, ends, payload]
    rw [addresses 12 (by omega), addresses 16 (by omega)]

/-- The IPv6 decoder does not read the hop limit. -/
theorem parseIpv6_content
    {packet canonical : CapturedPacket}
    {network other : Bytes}
    {vlanIds : List Nat}
    {parsed : ParsedPacket}
    {length : Nat}
    (parses : parseIpv6 packet network vlanIds = .ok parsed)
    (isLength : bigEndian (network.extract 4 6) = length)
    (notJumbo : length ≠ 0)
    (complete : 40 + length ≤ network.length)
    (otherLength : other.length = 40 + length)
    (before : AgreeOn 0 7 network other)
    (after : AgreeOn 8 (40 + length) network other) :
    ∃ otherParsed,
      parseIpv6 canonical other vlanIds = .ok otherParsed ∧
        otherParsed.content = parsed.content := by
  simp only [parseIpv6, bind_eq_ok, raiseIf_eq_ok, exists_const] at parses
  obtain ⟨long, versionByte, readVersion, isVersion, payloadLength,
    readLength, firstHeader, readHeader, walk, walked, isParsed⟩ := parses
  have sameLength : payloadLength = length := by
    rw [← (u16_eq_ok.mp readLength).2, ← isLength]
  subst sameLength
  have ends : min network.length (40 + payloadLength) = 40 + payloadLength :=
    by omega
  rw [if_pos notJumbo, ends] at walked
  obtain rfl := Except.ok.inj isParsed
  have walkFrom : 40 ≤ walk.offset := le_offset_of_walkIpv6 walked
  apply Exists.intro
  constructor
  · simp only [parseIpv6, bind_eq_ok, raiseIf_eq_ok, exists_const]
    refine ⟨by omega, versionByte, ?_, isVersion, payloadLength, ?_,
      firstHeader, ?_, walk, ?_, rfl⟩
    · rw [← before.byteAt (by omega)]
      exact readVersion
    · rw [← before.u16 (by omega)]
      exact readLength
    · rw [← before.byteAt (by omega)]
      exact readHeader
    · rw [if_pos notJumbo, otherLength, min_self,
        ← (after.narrow (show 8 ≤ 40 by omega) (le_refl _)).walkIpv6
          (le_refl 40)]
      exact walked
  · have source : network.extract 8 24 = other.extract 8 24 :=
      (after.narrow (le_refl _) (by omega)).extract
    have destination : network.extract 24 40 = other.extract 24 40 :=
      (after.narrow (by omega) (by omega)).extract
    have payload :
        network.extract walk.offset (40 + payloadLength) =
          other.extract walk.offset (40 + payloadLength) :=
      (after.narrow (by omega) (le_refl _)).extract
    simp only [ParsedPacket.content, otherLength, if_pos notJumbo, min_self,
      ends, payload, source, destination]

/-! ## Link headers -/

theorem u16_of_agreeOn
    {one other : Bytes}
    {offset last : Nat}
    (agree : AgreeOn offset last one other)
    (inside : offset + 2 ≤ last)
    (long : offset + 2 ≤ one.length) :
    u16 other offset =
      .ok (bigEndian (one.extract offset (offset + 2))) := by
  rw [← agree.u16 ⟨le_refl _, inside⟩]
  exact u16_of_le long

/-- The two VLAN loops agree on every frame with the same link header. -/
theorem stripVlanTags_of_skipVlanTags
    {raw : Bytes}
    {room etherType offset inner stop : Nat}
    (skips : skipVlanTags raw room etherType offset = some (inner, stop))
    (inside : offset ≤ raw.length)
    (vlans : List Nat) :
    (offset ≤ stop ∧ stop ≤ raw.length) ∧
      ∃ vlanIds,
        ∀ other,
          AgreeOn offset stop raw other → stop ≤ other.length →
            stripVlanTags other room etherType offset vlans =
              .ok ⟨inner, other.drop stop, vlanIds⟩ := by
  induction room generalizing etherType offset vlans with
  | zero =>
      unfold skipVlanTags at skips
      split at skips
      · cases skips
      case isFalse untagged =>
        obtain ⟨rfl, rfl⟩ := Prod.mk.inj (Option.some.inj skips)
        refine ⟨⟨le_refl _, inside⟩, vlans, ?_⟩
        intro other _ _
        simp [stripVlanTags, untagged]
  | succ room inductionHypothesis =>
      unfold skipVlanTags at skips
      split at skips
      case isTrue tagged =>
        dsimp only at skips
        split at skips
        · cases skips
        · obtain ⟨⟨forward, within⟩, vlanIds, strips⟩ :=
            inductionHypothesis skips (by omega)
              (vlans ++
                [bigEndian (raw.extract offset (offset + 2)) &&& 0x0FFF])
          refine ⟨⟨by omega, within⟩, vlanIds, ?_⟩
          intro other agree long
          have rest : AgreeOn (offset + 4) stop raw other :=
            agree.narrow (by omega) (le_refl _)
          have typeField : AgreeOn (offset + 2) stop raw other :=
            agree.narrow (by omega) (le_refl _)
          rw [stripVlanTags.eq_def, if_pos tagged]
          simp only [raiseIf, if_neg (show ¬ other.length < offset + 4 by
            omega), ok_bind]
          rw [u16_of_agreeOn agree (by omega) (by omega), ok_bind,
            u16_of_agreeOn typeField (by omega) (by omega), ok_bind]
          exact strips other rest long
      case isFalse untagged =>
        obtain ⟨rfl, rfl⟩ := Prod.mk.inj (Option.some.inj skips)
        refine ⟨⟨le_refl _, inside⟩, vlans, ?_⟩
        intro other _ _
        simp [stripVlanTags, untagged]

/-- The frame made of a key alone, behind two empty MAC addresses. -/
def canonicalFrame (key : Bytes) : CapturedPacket where
  sessionId := ""
  packetId := 0
  timestampNs := 0
  interface := ""
  datalink := dltEn10mb
  capturedLength := 0
  wireLength := 0
  raw := List.replicate 12 0 ++ key

/-- Masking changes no byte but the masked ones. -/
theorem agreeOn_ipv4Datagram
    {network : Bytes}
    {length first last : Nat}
    (within : last ≤ length)
    (unmasked : last ≤ 8 ∨ (9 ≤ first ∧ last ≤ 10) ∨ 12 ≤ first) :
    AgreeOn first last network
      ((((network.take length).set 8 0).set 10 0).set 11 0) := by
  intro index fromFirst beforeLast
  rw [List.getElem?_set_ne (by omega), List.getElem?_set_ne (by omega),
    List.getElem?_set_ne (by omega), List.getElem?_take_of_lt (by omega)]

theorem agreeOn_ipv6Datagram
    {network : Bytes}
    {length first last : Nat}
    (within : last ≤ length)
    (unmasked : last ≤ 7 ∨ 8 ≤ first) :
    AgreeOn first last network ((network.take length).set 7 0) := by
  intro index fromFirst beforeLast
  rw [List.getElem?_set_ne (by omega), List.getElem?_take_of_lt (by omega)]

/-- The masked datagram decodes to the content of the unmasked one. -/
theorem normalizeDatagram_content
    {captured canonical : CapturedPacket}
    {etherType : Nat}
    {network : Bytes}
    {vlanIds : List Nat}
    {normalized : NormalizedDatagram}
    {parsed : ParsedPacket}
    (normalizes :
      normalizeDatagram etherType network = some normalized)
    (ipv4Parses :
      etherType = ethertypeIpv4 →
        parseIpv4 captured network vlanIds = .ok parsed)
    (ipv6Parses :
      etherType = ethertypeIpv6 →
        parseIpv6 captured network vlanIds = .ok parsed) :
    ∃ otherParsed,
      otherParsed.content = parsed.content ∧
        ((etherType = ethertypeIpv4 ∧
            parseIpv4 canonical normalized.datagram vlanIds =
              .ok otherParsed) ∨
          (etherType = ethertypeIpv6 ∧
            parseIpv6 canonical normalized.datagram vlanIds =
              .ok otherParsed)) := by
  unfold normalizeDatagram at normalizes
  split at normalizes
  case isTrue isIpv4 =>
    unfold normalizeIpv4 at normalizes
    split at normalizes
    · cases normalizes
    case _ first rest =>
      dsimp only at normalizes
      split at normalizes
      · cases normalizes
      split at normalizes
      · cases normalizes
      split at normalizes
      · cases normalizes
      obtain rfl := Option.some.inj normalizes
      obtain ⟨otherParsed, parses, same⟩ :=
        @parseIpv4_content captured canonical (first :: rest)
          _ vlanIds parsed _ (ipv4Parses isIpv4) rfl (by omega)
          (by simp only [List.length_set, List.length_take]; omega)
          (agreeOn_ipv4Datagram (by omega) (by omega))
          (agreeOn_ipv4Datagram (by omega) (by omega))
          (agreeOn_ipv4Datagram (le_refl _) (by omega))
      exact ⟨otherParsed, same, .inl ⟨isIpv4, parses⟩⟩
  case isFalse =>
    split at normalizes
    case isTrue isIpv6 =>
      unfold normalizeIpv6 at normalizes
      split at normalizes
      · cases normalizes
      case _ first rest =>
        dsimp only at normalizes
        split at normalizes
        · cases normalizes
        split at normalizes
        · cases normalizes
        split at normalizes
        · cases normalizes
        obtain rfl := Option.some.inj normalizes
        obtain ⟨otherParsed, parses, same⟩ :=
          @parseIpv6_content captured canonical (first :: rest)
            _ vlanIds parsed _ (ipv6Parses isIpv6) rfl (by omega) (by omega)
            (by simp only [List.length_set, List.length_take]; omega)
            (agreeOn_ipv6Datagram (by omega) (by omega))
            (agreeOn_ipv6Datagram (le_refl _) (by omega))
        exact ⟨otherParsed, same, .inr ⟨isIpv6, parses⟩⟩
    case isFalse => cases normalizes

/-- What a description of a frame was computed from. -/
theorem describeForwardedFrame_eq_some
    {captured : CapturedPacket}
    {parsed : ParsedPacket}
    {localMac : Bytes}
    {frame : ForwardedFrame}
    (describes :
      describeForwardedFrame captured parsed localMac = some frame) :
    captured.datalink = dltEn10mb ∧ 14 ≤ captured.raw.length ∧
      frame.packetId = captured.packetId ∧
      frame.timestampNs = captured.timestampNs ∧
      ∃ etherType stop normalized,
        skipVlanTags captured.raw maxVlanTags
            (bigEndian (captured.raw.extract 12 14)) 14 =
          some (etherType, stop) ∧
        normalizeDatagram etherType (captured.raw.drop stop) =
          some normalized ∧
        frame.key = captured.raw.extract 12 stop ++ normalized.datagram := by
  unfold describeForwardedFrame at describes
  cases describable : isDescribable captured parsed localMac with
  | false => simp [describable] at describes
  | true =>
      simp only [describable, Bool.not_true, Bool.false_eq_true, ↓reduceIte,
        Option.bind_eq_bind, Option.bind_eq_some_iff, Option.some.injEq,
        Prod.exists] at describes
      obtain ⟨role, -, etherType, stop, skips, normalized, normalizes, rfl⟩ :=
        describes
      have checks : _ ∧ _ := of_decide_eq_true describable
      obtain ⟨isEthernet, -, -, -, -, -, -, long⟩ := checks
      exact ⟨isEthernet, long, rfl, rfl, etherType, stop, normalized, skips,
        normalizes, rfl⟩

/-- The link layer of a described frame and of the frame of its key. -/
theorem linkPayload_canonicalFrame
    {raw datagram : Bytes}
    {etherType stop : Nat}
    (long : 14 ≤ raw.length)
    (skips :
      skipVlanTags raw maxVlanTags (bigEndian (raw.extract 12 14)) 14 =
        some (etherType, stop)) :
    ∃ vlanIds,
      linkPayload raw dltEn10mb =
          .ok ⟨etherType, raw.drop stop, vlanIds⟩ ∧
        linkPayload
            (List.replicate 12 0 ++ (raw.extract 12 stop ++ datagram))
            dltEn10mb =
          .ok ⟨etherType, datagram, vlanIds⟩ := by
  obtain ⟨⟨behindHeader, within⟩, vlanIds, strips⟩ :=
    stripVlanTags_of_skipVlanTags skips long []
  generalize isCanonical :
    List.replicate 12 0 ++ (raw.extract 12 stop ++ datagram) = canonical
  have headerLength :
      (List.replicate 12 (0 : UInt8) ++ raw.extract 12 stop).length =
        stop := by
    simp only [List.length_append, List.length_replicate,
      List.extract_eq_take_drop, List.length_take, List.length_drop]
    omega
  have shape :
      canonical =
        (List.replicate 12 0 ++ raw.extract 12 stop) ++ datagram := by
    rw [← isCanonical, List.append_assoc]
  have agree : AgreeOn 12 stop raw canonical := by
    intro index fromFirst beforeStop
    rw [shape, List.getElem?_append_left (by omega),
      List.getElem?_append_right (by simp; omega), List.length_replicate,
      List.extract_eq_take_drop, List.getElem?_take_of_lt (by omega),
      List.getElem?_drop]
    congr 1
    omega
  have canonicalLong : stop ≤ canonical.length := by
    rw [shape, List.length_append, headerLength]
    omega
  have rest : canonical.drop stop = datagram := by
    rw [shape]
    exact List.drop_left' headerLength
  have link
      {frame : Bytes}
      (agreeFrame : AgreeOn 12 stop raw frame)
      (frameLong : stop ≤ frame.length) :
      linkPayload frame dltEn10mb =
        .ok ⟨etherType, frame.drop stop, vlanIds⟩ := by
    unfold linkPayload
    simp only [↓reduceIte, raiseIf,
      if_neg (show ¬ frame.length < 14 by omega), ok_bind]
    rw [u16_of_agreeOn agreeFrame behindHeader long, ok_bind]
    exact strips frame (agreeFrame.narrow (by omega) (le_refl _)) frameLong
  refine ⟨vlanIds, link (fun _ _ _ => rfl) within, ?_⟩
  rw [link agree canonicalLong, rest]

/-- A described frame decodes to the content its key alone decodes to. -/
theorem canonicalFrame_content
    {captured : CapturedPacket}
    {parsed : ParsedPacket}
    {localMac : Bytes}
    {frame : ForwardedFrame}
    (parses : parsePacketStrict captured = .ok (some parsed))
    (describes :
      describeForwardedFrame captured parsed localMac = some frame) :
    ∃ canonical,
      parsePacketStrict (canonicalFrame frame.key) =
          .ok (some canonical) ∧
        canonical.content = parsed.content := by
  obtain ⟨isEthernet, long, -, -, etherType, stop, normalized, skips,
    normalizes, isKey⟩ := describeForwardedFrame_eq_some describes
  obtain ⟨vlanIds, link, canonicalLink⟩ :=
    @linkPayload_canonicalFrame captured.raw normalized.datagram etherType
      stop long skips
  have canonicalRaw :
      (canonicalFrame frame.key).raw =
        List.replicate 12 0 ++
          (captured.raw.extract 12 stop ++ normalized.datagram) := by
    rw [isKey]
    rfl
  have different : ethertypeIpv6 ≠ ethertypeIpv4 := by decide
  unfold parsePacketStrict at parses ⊢
  rw [isEthernet, link, ok_bind] at parses
  have canonicalDatalink :
      (canonicalFrame frame.key).datalink = dltEn10mb := rfl
  rw [canonicalDatalink, canonicalRaw, canonicalLink, ok_bind]
  dsimp only at parses ⊢
  have decodes
      {network : Except PacketFault ParsedPacket}
      {result : ParsedPacket}
      (succeeds :
        (do
          let packet ← network
          some <$> parseTransport packet) = .ok (some result)) :
      ∃ packet,
        network = .ok packet ∧ parseTransport packet = .ok result := by
    obtain ⟨packet, isPacket, transport⟩ := bind_eq_ok.mp succeeds
    refine ⟨packet, isPacket, ?_⟩
    cases parsesTo : parseTransport packet with
    | error fault => simp [parsesTo] at transport
    | ok reached => simpa [parsesTo] using transport
  split at parses
  case isTrue isIpv4 =>
    obtain ⟨base, network, transport⟩ := decodes parses
    obtain ⟨other, sameBase, ⟨-, otherNetwork⟩ | ⟨isIpv6, -⟩⟩ :=
      @normalizeDatagram_content captured (canonicalFrame frame.key) _ _ _ _
        _ normalizes (fun _ => network)
        (fun isIpv6 => (different (isIpv6.symm.trans isIpv4)).elim)
    · obtain ⟨result, otherTransport⟩ := parseTransport_total other
      refine ⟨result, ?_,
        parseTransport_content sameBase otherTransport transport⟩
      rw [if_pos isIpv4, otherNetwork, ok_bind, otherTransport]
      rfl
    · exact (different (isIpv6.symm.trans isIpv4)).elim
  case isFalse notIpv4 =>
    split at parses
    case isTrue isIpv6 =>
      obtain ⟨base, network, transport⟩ := decodes parses
      obtain ⟨other, sameBase, ⟨isIpv4, -⟩ | ⟨-, otherNetwork⟩⟩ :=
        @normalizeDatagram_content captured (canonicalFrame frame.key) _ _ _
          _ _ normalizes (fun isIpv4 => (notIpv4 isIpv4).elim)
          (fun _ => network)
      · exact (notIpv4 isIpv4).elim
      · obtain ⟨result, otherTransport⟩ := parseTransport_total other
        refine ⟨result, ?_,
          parseTransport_content sameBase otherTransport transport⟩
        rw [if_neg notIpv4, if_pos isIpv6, otherNetwork, ok_bind,
          otherTransport]
        rfl
    case isFalse => cases parses

/-- Frames described with equal keys carry the same content. -/
theorem content_of_equal_keys
    {first second : CapturedPacket}
    {firstParsed secondParsed : ParsedPacket}
    {localMac : Bytes}
    {firstFrame secondFrame : ForwardedFrame}
    (firstParses : parsePacketStrict first = .ok (some firstParsed))
    (secondParses : parsePacketStrict second = .ok (some secondParsed))
    (firstDescribes :
      describeForwardedFrame first firstParsed localMac = some firstFrame)
    (secondDescribes :
      describeForwardedFrame second secondParsed localMac =
        some secondFrame)
    (equalKeys : firstFrame.key = secondFrame.key) :
    firstParsed.content = secondParsed.content := by
  obtain ⟨canonical, parses, same⟩ :=
    canonicalFrame_content firstParses firstDescribes
  obtain ⟨other, otherParses, otherSame⟩ :=
    canonicalFrame_content secondParses secondDescribes
  rw [equalKeys, otherParses] at parses
  obtain rfl := Option.some.inj (Except.ok.inj parses)
  exact same.symm.trans otherSame

end PacketAudit
