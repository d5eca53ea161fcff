import PacketAudit.Packets.Fields

namespace PacketAudit

/-!
# Decoding of captured packets

The link, IPv4, IPv6, TCP and UDP decoders of `packets.py`.  Each follows its
source function check by check; a failed check is the exception the source
raises there.  The loops over VLAN tags and IPv6 extension headers recurse on
the number of rounds the source still allows.
-/

/-! ## Link layer -/

/-- The Ethernet type, network bytes and VLAN tags below a link header. -/
structure LinkPayload where
  etherType : Nat
  network : Bytes
  vlanIds : List Nat
  deriving Repr, DecidableEq

/--
`_strip_vlan_tags`.  `room` is the number of tags still allowed; the tags read
so far are in `vlans`.
-/
def stripVlanTags
    (raw : Bytes)
    (room etherType offset : Nat)
    (vlans : List Nat) : Except PacketFault LinkPayload :=
  if etherType ∈ vlanEthertypes then
    match room with
    | 0 => .error (.decode "too many stacked VLAN tags")
    | room + 1 => do
        raiseIf (raw.length < offset + 4) "short VLAN header"
        let tci ← u16 raw offset
        let inner ← u16 raw (offset + 2)
        stripVlanTags raw room inner (offset + 4) (vlans ++ [tci &&& 0x0FFF])
  else
    .ok ⟨etherType, raw.drop offset, vlans⟩

/-- `_link_payload`. -/
def linkPayload
    (raw : Bytes)
    (datalink : Nat) : Except PacketFault LinkPayload := do
  if datalink = dltEn10mb then
    raiseIf (raw.length < 14) "short Ethernet header"
    let etherType ← u16 raw 12
    stripVlanTags raw maxVlanTags etherType 14 []
  else if datalink = dltLinuxSll then
    raiseIf (raw.length < 16) "short Linux SLL header"
    let etherType ← u16 raw 14
    stripVlanTags raw maxVlanTags etherType 16 []
  else if datalink = dltLinuxSll2 then
    raiseIf (raw.length < 20) "short Linux SLL2 header"
    let etherType ← u16 raw 0
    stripVlanTags raw maxVlanTags etherType 20 []
  else if datalink = dltRaw then
    raiseIf (raw = []) "empty raw IP packet"
    let first ← byteAt raw 0
    if first >>> 4 = 4 then
      .ok ⟨ethertypeIpv4, raw, []⟩
    else if first >>> 4 = 6 then
      .ok ⟨ethertypeIpv6, raw, []⟩
    else
      .error (.decode "raw packet is neither IPv4 nor IPv6")
  else if datalink = dltIpv4 then
    .ok ⟨ethertypeIpv4, raw, []⟩
  else if datalink = dltIpv6 then
    .ok ⟨ethertypeIpv6, raw, []⟩
  else
    .error (.decode s!"unsupported libpcap datalink type {datalink}")

/-! ## IPv4 -/

/-- `_parse_ipv4`. -/
def parseIpv4
    (packet : CapturedPacket)
    (network : Bytes)
    (vlanIds : List Nat) : Except PacketFault ParsedPacket := do
  raiseIf (network.length < 20) "short IPv4 header"
  let versionByte ← byteAt network 0
  raiseIf (versionByte >>> 4 ≠ 4) "invalid IPv4 version"
  let ihl := (versionByte &&& 0x0F) * 4
  raiseIf (ihl < 20 ∨ network.length < ihl)
    "invalid or truncated IPv4 header length"
  let totalLength ← u16 network 2
  raiseIf (totalLength < ihl)
    "IPv4 total length is shorter than its header"
  let availableLength := min network.length totalLength
  let truncated :=
    decide (network.length < totalLength ∨
      packet.capturedLength < packet.wireLength)
  let flagsAndOffset ← u16 network 6
  let fragmentOffset := (flagsAndOffset &&& 0x1FFF) * 8
  let moreFragments := decide (flagsAndOffset &&& 0x2000 ≠ 0)
  let protocol ← byteAt network 9
  let identification ← u16 network 4
  .ok {
    sessionId := packet.sessionId
    packetId := packet.packetId
    timestampNs := packet.timestampNs
    interface := packet.interface
    capturedLength := packet.capturedLength
    wireLength := packet.wireLength
    ipVersion := 4
    src := ipv4Text (network.extract 12 16)
    dst := ipv4Text (network.extract 16 20)
    protocol
    vlanIds
    networkPayload := network.extract ihl availableLength
    truncated
    fragmentId :=
      if moreFragments ∨ fragmentOffset ≠ 0 then some identification else none
    fragmentOffset
    moreFragments
  }

/-! ## IPv6 -/

/-- What is found where an extension header should start. -/
inductive HeaderScan where
  /-- Not even the first two bytes lie before the end. -/
  | short
  /-- The announced length is invalid or passes the end. -/
  | invalid
  /-- The header's Next Header value and its length. -/
  | next (following length : Nat)
  deriving Repr, DecidableEq

/-- Read an extension header, its length computed from its second byte. -/
def scanHeader
    (data : Bytes)
    (stop offset : Nat)
    (lengthOf : Nat → Nat) : Except PacketFault HeaderScan :=
  if stop < offset + 2 then
    .ok .short
  else do
    let following ← byteAt data offset
    let lengthByte ← byteAt data (offset + 1)
    let length := lengthOf lengthByte
    if length < 8 ∨ stop < offset + length then
      .ok .invalid
    else
      .ok (.next following length)

/-- The length of an ordinary extension header. -/
def extensionLength (lengthByte : Nat) : Nat :=
  (lengthByte + 1) * 8

/-- The length of an Authentication Header. -/
def authenticationLength (lengthByte : Nat) : Nat :=
  (lengthByte + 2) * 4

/-- Where the walk over the extension headers of a packet ended. -/
structure Ipv6Walk where
  nextHeader : Nat
  offset : Nat
  fragmentId : Option Nat := none
  fragmentOffset : Nat := 0
  moreFragments : Bool := false
  deriving Repr, DecidableEq

/-- The extension header loop of `_parse_ipv6`, with its rounds left. -/
def walkIpv6
    (network : Bytes)
    (availableEnd : Nat) :
    (rounds nextHeader offset : Nat) → Except PacketFault Ipv6Walk
  | 0, _, _ => .error (.decode "too many IPv6 extension headers")
  | rounds + 1, nextHeader, offset =>
      if nextHeader = ipprotoFragment then do
        raiseIf (availableEnd < offset + 8) "short IPv6 fragment header"
        let fragmentNext ← byteAt network offset
        let fragmentBits ← u16 network (offset + 2)
        let fragmentId ← u32 network (offset + 4)
        .ok {
          nextHeader := fragmentNext
          offset := offset + 8
          fragmentId := some fragmentId
          fragmentOffset := (fragmentBits >>> 3 &&& 0x1FFF) * 8
          moreFragments := decide (fragmentBits &&& 0x0001 ≠ 0)
        }
      else if nextHeader ∈ ipv6ExtensionHeaders then do
        match ← scanHeader network availableEnd offset extensionLength with
        | .short => .error (.decode "short IPv6 extension header")
        | .invalid => .error (.decode "invalid IPv6 extension header length")
        | .next following length =>
            walkIpv6 network availableEnd rounds following (offset + length)
      else if nextHeader = ipprotoAuthentication then do
        match ← scanHeader network availableEnd offset authenticationLength
        with
        | .short => .error (.decode "short IPv6 authentication header")
        | .invalid =>
            .error (.decode "invalid IPv6 authentication header length")
        | .next following length =>
            walkIpv6 network availableEnd rounds following (offset + length)
      else
        .ok { nextHeader, offset }

/-- `_parse_ipv6`. -/
def parseIpv6
    (packet : CapturedPacket)
    (network : Bytes)
    (vlanIds : List Nat) : Except PacketFault ParsedPacket := do
  raiseIf (network.length < 40) "short IPv6 header"
  let versionByte ← byteAt network 0
  raiseIf (versionByte >>> 4 ≠ 6) "invalid IPv6 version"
  let payloadLength ← u16 network 4
  -- A zero length may announce a jumbogram, so all captured bytes count.
  let declaredEnd :=
    if payloadLength ≠ 0 then 40 + payloadLength else network.length
  let availableEnd := min network.length declaredEnd
  let truncated :=
    decide ((payloadLength ≠ 0 ∧ network.length < declaredEnd) ∨
      packet.capturedLength < packet.wireLength)
  let firstHeader ← byteAt network 6
  let walk ←
    walkIpv6 network availableEnd maxIpv6ExtensionHeaders firstHeader 40
  .ok {
    sessionId := packet.sessionId
    packetId := packet.packetId
    timestampNs := packet.timestampNs
    interface := packet.interface
    capturedLength := packet.capturedLength
    wireLength := packet.wireLength
    ipVersion := 6
    src := ipv6Text (network.extract 8 24)
    dst := ipv6Text (network.extract 24 40)
    protocol := walk.nextHeader
    vlanIds
    networkPayload := network.extract walk.offset availableEnd
    truncated
    fragmentId := walk.fragmentId
    fragmentOffset := walk.fragmentOffset
    moreFragments := walk.moreFragments
  }

/-- The header loop of `normalize_reassembled_ipv6`; `none` when it gives up. -/
def walkReassembled
    (payload : Bytes) :
    (rounds nextHeader offset : Nat) →
      Except PacketFault (Option (Nat × Nat))
  | 0, nextHeader, offset => .ok (some (nextHeader, offset))
  | rounds + 1, nextHeader, offset =>
      if nextHeader ∈ ipv6ExtensionHeaders then do
        match ← scanHeader payload payload.length offset extensionLength with
        | .next following length =>
            walkReassembled payload rounds following (offset + length)
        | _ => .ok none
      else if nextHeader = ipprotoAuthentication then do
        match ← scanHeader payload payload.length offset authenticationLength
        with
        | .next following length =>
            walkReassembled payload rounds following (offset + length)
        | _ => .ok none
      else
        .ok (some (nextHeader, offset))

/-- The packet as returned when its transport header cannot be read. -/
def ParsedPacket.transportMissing (packet : ParsedPacket) : ParsedPacket :=
  { packet with truncated := true, transportParsed := false }

/-- `normalize_reassembled_ipv6`. -/
def normalizeReassembledIpv6
    (packet : ParsedPacket) : Except PacketFault ParsedPacket :=
  if packet.ipVersion ≠ 6 then
    .ok packet
  else do
    match ← walkReassembled packet.networkPayload maxIpv6ExtensionHeaders
        packet.protocol 0 with
    | none => .ok packet.transportMissing
    | some (nextHeader, offset) =>
        .ok { packet with
          protocol := nextHeader
          networkPayload := packet.networkPayload.drop offset }

/-! ## Transport layer -/

/-- The TCP branch of `parse_transport`. -/
def parseTcp (packet : ParsedPacket) : Except PacketFault ParsedPacket :=
  let payload := packet.networkPayload
  if payload.length < 20 then
    .ok packet.transportMissing
  else do
    let offsetByte ← byteAt payload 12
    let dataOffset := (offsetByte >>> 4) * 4
    if dataOffset < 20 ∨ payload.length < dataOffset then
      .ok packet.transportMissing
    else do
      let sport ← u16 payload 0
      let dport ← u16 payload 2
      let tcpSeq ← u32 payload 4
      let tcpAck ← u32 payload 8
      let tcpFlags ← byteAt payload 13
      .ok { packet with
        networkPayload := []
        sport, dport, tcpSeq, tcpAck, tcpFlags
        transportPayload := payload.drop dataOffset
        transportParsed := true }

/-- The UDP branch of `parse_transport`. -/
def parseUdp (packet : ParsedPacket) : Except PacketFault ParsedPacket :=
  let payload := packet.networkPayload
  if payload.length < 8 then
    .ok packet.transportMissing
  else do
    let udpLength ← u16 payload 4
    -- A zero length over IPv6 is a UDP jumbogram.
    if ¬ (udpLength = 0 ∧ packet.ipVersion = 6) ∧ udpLength < 8 then
      .ok packet.transportMissing
    else do
      let udpEnd :=
        if udpLength = 0 ∧ packet.ipVersion = 6 then payload.length
        else min payload.length udpLength
      let sport ← u16 payload 0
      let dport ← u16 payload 2
      .ok { packet with
        networkPayload := []
        sport, dport
        transportPayload := payload.extract 8 udpEnd
        transportParsed := true
        truncated :=
          packet.truncated ||
            decide (udpLength ≠ 0 ∧ payload.length < udpLength) }

/-- `parse_transport`. -/
def parseTransport (packet : ParsedPacket) : Except PacketFault ParsedPacket :=
  if packet.fragmentOffset ≠ 0 ∨ packet.moreFragments then
    .ok packet
  else if packet.protocol = ipprotoTcp then
    parseTcp packet
  else if packet.protocol = ipprotoUdp then
    parseUdp packet
  else
    .ok packet

/-- `parse_packet_strict`: `none` for frames that carry no IP packet. -/
def parsePacketStrict
    (packet : CapturedPacket) : Except PacketFault (Option ParsedPacket) := do
  let link ← linkPayload packet.raw packet.datalink
  if link.etherType = ethertypeIpv4 then
    let parsed ← parseIpv4 packet link.network link.vlanIds
    some <$> parseTransport parsed
  else if link.etherType = ethertypeIpv6 then
    let parsed ← parseIpv6 packet link.network link.vlanIds
    some <$> parseTransport parsed
  else
    .ok none

end PacketAudit
