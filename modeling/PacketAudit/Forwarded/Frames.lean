import PacketAudit.Packets.Headers

namespace PacketAudit

/-!
# Describing forwarded frames

`describe_forwarded_frame`: the role of a complete Ethernet frame at the local
interface and the key that a forwarded copy shares with it, which is the VLAN
encapsulation and the IP datagram without hop count and header checksum.
-/

/-- The direction of a frame relative to the local MAC address. -/
inductive FrameRole where
  | ingress
  | egress
  deriving Repr, DecidableEq

/-- `ForwardedFrame`. -/
structure ForwardedFrame where
  role : FrameRole
  key : Bytes
  hopLimit : Nat
  packetId : Nat
  timestampNs : Int
  ipChecksum : Option Nat
  deriving Repr, DecidableEq

/-- The role of a frame, from its two MAC addresses. -/
def frameRole (raw localMac : Bytes) : Option FrameRole :=
  let dstMac := raw.take 6
  let srcMac := raw.extract 6 12
  if dstMac = localMac ∧ srcMac ≠ localMac then
    some .ingress
  else if srcMac = localMac ∧ dstMac ≠ localMac ∧
      dstMac.head?.all fun first => decide (first.toNat &&& 1 = 0) then
    some .egress
  else
    none

/-- The VLAN loop: the inner Ethernet type and where the network bytes start. -/
def skipVlanTags
    (raw : Bytes) :
    (room etherType offset : Nat) → Option (Nat × Nat)
  | room, etherType, offset =>
      if etherType ∈ vlanEthertypes then
        match room with
        | 0 => none
        | room + 1 =>
            if raw.length < offset + 4 then
              none
            else
              skipVlanTags raw room
                (bigEndian (raw.extract (offset + 2) (offset + 4)))
                (offset + 4)
      else
        some (etherType, offset)

/-- The hop count, the checksum and the datagram with both erased. -/
structure NormalizedDatagram where
  hopLimit : Nat
  ipChecksum : Option Nat
  datagram : Bytes
  deriving Repr, DecidableEq

/-- The IPv4 branch. -/
def normalizeIpv4 (network : Bytes) : Option NormalizedDatagram :=
  match network with
  | [] => none
  | first :: _ =>
      if network.length < 20 ∨ first.toNat >>> 4 ≠ 4 then
        none
      else
        let headerLength := (first.toNat &&& 15) * 4
        let length := bigEndian (network.extract 2 4)
        if headerLength < 20 ∨ length < headerLength ∨
            network.length < length then
          none
        else
          let hopLimit := bigEndian (network.extract 8 9)
          if hopLimit < 1 then
            none
          else
            some {
              hopLimit
              ipChecksum := some (bigEndian (network.extract 10 12))
              datagram :=
                (((network.take length).set 8 0).set 10 0).set 11 0
            }

/-- The IPv6 branch. -/
def normalizeIpv6 (network : Bytes) : Option NormalizedDatagram :=
  match network with
  | [] => none
  | first :: _ =>
      if network.length < 40 ∨ first.toNat >>> 4 ≠ 6 then
        none
      else
        let payloadLength := bigEndian (network.extract 4 6)
        -- A zero length may be a jumbogram; its end is not provable here.
        if payloadLength = 0 ∨ network.length < 40 + payloadLength then
          none
        else
          let hopLimit := bigEndian (network.extract 7 8)
          if hopLimit < 1 then
            none
          else
            some {
              hopLimit
              ipChecksum := none
              datagram := (network.take (40 + payloadLength)).set 7 0
            }

/-- The branch taken for an Ethernet type. -/
def normalizeDatagram
    (etherType : Nat)
    (network : Bytes) : Option NormalizedDatagram :=
  if etherType = ethertypeIpv4 then normalizeIpv4 network
  else if etherType = ethertypeIpv6 then normalizeIpv6 network
  else none

/-- The checks on the packet as a whole. -/
def isDescribable
    (captured : CapturedPacket)
    (parsed : ParsedPacket)
    (localMac : Bytes) : Bool :=
  decide
    (captured.datalink = dltEn10mb ∧
      captured.capturedLength = captured.wireLength ∧
      parsed.truncated = false ∧
      parsed.transportParsed = true ∧
      parsed.fragmentId = none ∧
      (parsed.protocol = ipprotoTcp ∨ parsed.protocol = ipprotoUdp) ∧
      localMac.length = 6 ∧
      14 ≤ captured.raw.length)

/-- `describe_forwarded_frame`. -/
def describeForwardedFrame
    (captured : CapturedPacket)
    (parsed : ParsedPacket)
    (localMac : Bytes) : Option ForwardedFrame := do
  if !isDescribable captured parsed localMac then
    none
  let raw := captured.raw
  let role ← frameRole raw localMac
  let (etherType, offset) ←
    skipVlanTags raw maxVlanTags (bigEndian (raw.extract 12 14)) 14
  let normalized ← normalizeDatagram etherType (raw.drop offset)
  some {
    role
    key := raw.extract 12 offset ++ normalized.datagram
    hopLimit := normalized.hopLimit
    packetId := captured.packetId
    timestampNs := captured.timestampNs
    ipChecksum := normalized.ipChecksum
  }

/-- `_checksum_matches`. -/
def checksumMatches
    (ingress egress : Option Nat)
    (decremented : Bool) : Bool :=
  match ingress, egress with
  | some ingress, some egress =>
      if !decremented then
        decide (ingress = egress)
      else
        let total := ingress + 0x0100
        decide ((total &&& 0xFFFF) + (total >>> 16) = egress)
  | none, none => true
  | _, _ => false

end PacketAudit
