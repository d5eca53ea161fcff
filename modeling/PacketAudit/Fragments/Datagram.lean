import PacketAudit.Fragments.Steps

namespace PacketAudit

/-!
# One datagram in fragments

What the fragments of one datagram amount to: which of its bytes they cover,
when they are all there, which of them supplied a byte first, and the packet
they stand for.  None of this looks at the reassembler's state.
-/

open Library

namespace ParsedPacket

/-- The fragment carries the byte at this offset of its datagram. -/
def CarriesByte (packet : ParsedPacket) (position : Nat) : Prop :=
  packet.fragmentOffset ≤ position ∧ position < packet.fragmentEnd

instance (packet : ParsedPacket) (position : Nat) :
    Decidable (packet.CarriesByte position) :=
  inferInstanceAs (Decidable (_ ∧ _))

theorem carriesByte_iff_contains
    {packet : ParsedPacket}
    {position : Nat} :
    packet.CarriesByte position ↔
      packet.byteRange.Contains (position : Int) := by
  unfold CarriesByte fragmentEnd Segment.Contains Segment.stop byteRange
  simp only
  omega

end ParsedPacket

/-- The packet is an untruncated fragment of the payload under the key. -/
structure FragmentOf
    (key : FragmentKey)
    (payload : Bytes)
    (packet : ParsedPacket) : Prop where
  keyed : packet.fragmentKey? = some key
  untruncated : packet.truncated = false
  bytes :
    payload.extract packet.fragmentOffset packet.fragmentEnd =
      packet.networkPayload
  aligned :
    packet.moreFragments = true →
      packet.networkPayload ≠ [] ∧ packet.networkPayload.length % 8 = 0
  last :
    packet.moreFragments = false →
      packet.fragmentEnd = payload.length ∧ packet.fragmentOffset ≠ 0

theorem fragmentOf_iff
    {key : FragmentKey}
    {payload : Bytes}
    {packet : ParsedPacket} :
    FragmentOf key payload packet ↔
      packet.fragmentKey? = some key ∧ packet.truncated = false ∧
        payload.extract packet.fragmentOffset packet.fragmentEnd =
          packet.networkPayload ∧
        (packet.moreFragments = true →
          packet.networkPayload ≠ [] ∧
            packet.networkPayload.length % 8 = 0) ∧
        (packet.moreFragments = false →
          packet.fragmentEnd = payload.length ∧
            packet.fragmentOffset ≠ 0) :=
  ⟨fun fragment =>
    ⟨fragment.keyed, fragment.untruncated, fragment.bytes,
      fragment.aligned, fragment.last⟩,
    fun ⟨keyed, untruncated, bytes, aligned, last⟩ =>
      ⟨keyed, untruncated, bytes, aligned, last⟩⟩

instance
    (key : FragmentKey)
    (payload : Bytes)
    (packet : ParsedPacket) :
    Decidable (FragmentOf key payload packet) :=
  decidable_of_iff _ fragmentOf_iff.symm

/-- Some fragment carries the byte. -/
def Covered (packets : List ParsedPacket) (position : Nat) : Prop :=
  ∃ packet ∈ packets, packet.CarriesByte position

instance (packets : List ParsedPacket) (position : Nat) :
    Decidable (Covered packets position) :=
  inferInstanceAs (Decidable (∃ packet ∈ packets, _))

/-- A final fragment and every byte of the payload are there. -/
def Finished (payload : Bytes) (packets : List ParsedPacket) : Prop :=
  (∃ packet ∈ packets, packet.moreFragments = false) ∧
    ∀ position < payload.length, Covered packets position

instance (payload : Bytes) (packets : List ParsedPacket) :
    Decidable (Finished payload packets) :=
  inferInstanceAs (Decidable (_ ∧ _))

/-- The fragment carries a byte that none of the earlier ones carries. -/
def SuppliesNewByte
    (earlier : List ParsedPacket)
    (packet : ParsedPacket) : Prop :=
  ∃ position < packet.fragmentEnd,
    packet.CarriesByte position ∧ ¬ Covered earlier position

instance (earlier : List ParsedPacket) (packet : ParsedPacket) :
    Decidable (SuppliesNewByte earlier packet) :=
  inferInstanceAs (Decidable (∃ position < packet.fragmentEnd, _))

/-- The fragments that carry a byte first, in order of arrival. -/
def suppliers :
    (earlier packets : List ParsedPacket) → List ParsedPacket
  | _, [] => []
  | earlier, packet :: rest =>
      if SuppliesNewByte earlier packet then
        packet :: suppliers (earlier ++ [packet]) rest
      else
        suppliers (earlier ++ [packet]) rest

/-- The packets that supplied bytes, each once, in order of arrival. -/
def supplierIds (packets : List ParsedPacket) : List Nat :=
  ((suppliers [] packets).flatMap ParsedPacket.contributingIds).eraseDups

/-- The largest of a list of values, 0 for none. -/
def largest {ι : Type} [Max ι] [Zero ι] : List ι → ι
  | [] => 0
  | first :: rest => rest.foldl max first

/-- The whole datagram under the header of one of its fragments. -/
def reassembledDatagram
    (payload : Bytes)
    (packets : List ParsedPacket)
    (base : ParsedPacket) : ParsedPacket :=
  { base with
    packetId := largest (packets.map fun packet => packet.packetId)
    timestampNs := largest (packets.map fun packet => packet.timestampNs)
    networkPayload := payload
    truncated := false
    fragmentId := none
    fragmentOffset := 0
    moreFragments := false
    transportParsed := false
    sport := 0
    dport := 0
    tcpSeq := 0
    tcpAck := 0
    tcpFlags := 0
    transportPayload := []
    sourcePacketIds := supplierIds packets }

/-- A fragment of a UDP datagram over IPv4, for worked examples. -/
def sampleFragment
    (packetId offset : Nat)
    (more : Bool)
    (payload : Bytes) : ParsedPacket where
  sessionId := "session"
  packetId := packetId
  timestampNs := packetId
  interface := "eth0"
  capturedLength := 34 + payload.length
  wireLength := 34 + payload.length
  ipVersion := 4
  src := "10.0.0.1"
  dst := "10.0.0.2"
  protocol := ipprotoUdp
  vlanIds := []
  networkPayload := payload
  fragmentId := some 7
  fragmentOffset := offset
  moreFragments := more

/-- The key of the sample fragments. -/
def sampleFragmentKey : FragmentKey where
  sessionId := "session"
  interface := "eth0"
  vlanIds := []
  ipVersion := 4
  src := "10.0.0.1"
  dst := "10.0.0.2"
  protocol := ipprotoUdp
  fragmentId := 7

/-- The first eight bytes of the sample datagram: its UDP header. -/
def sampleHeader : Bytes := [0, 53, 0, 53, 0, 12, 0, 0]

/-- The rest of the sample datagram. -/
def sampleBody : Bytes := [1, 2, 3, 4]

/-! ## Arrivals one by one -/

theorem covered_append
    {first second : List ParsedPacket}
    {position : Nat} :
    Covered (first ++ second) position ↔
      Covered first position ∨ Covered second position := by
  simp [Covered, or_and_right, exists_or]

/-- More fragments never make a finished datagram unfinished. -/
theorem Finished.append
    {payload : Bytes}
    {packets : List ParsedPacket}
    (finished : Finished payload packets)
    (more : List ParsedPacket) :
    Finished payload (packets ++ more) := by
  obtain ⟨⟨last, member, final⟩, covered⟩ := finished
  refine ⟨⟨last, List.mem_append_left _ member, final⟩, ?_⟩
  intro position inside
  exact covered_append.mpr (.inl (covered position inside))

theorem suppliers_append
    (earlier first second : List ParsedPacket) :
    suppliers earlier (first ++ second) =
      suppliers earlier first ++ suppliers (earlier ++ first) second := by
  induction first generalizing earlier with
  | nil =>
      simp [suppliers]
  | cons packet rest inductionHypothesis =>
      simp only [List.cons_append, suppliers, inductionHypothesis,
        List.append_assoc, List.nil_append]
      split <;> rfl

/-- One more arrival adds its identifiers if it supplies a byte first. -/
theorem supplierIds_concat
    (packets : List ParsedPacket)
    (packet : ParsedPacket) :
    supplierIds (packets ++ [packet]) =
      if SuppliesNewByte packets packet then
        addPacketIds (supplierIds packets) packet.contributingIds
      else
        supplierIds packets := by
  unfold supplierIds
  rw [suppliers_append, List.nil_append]
  simp only [suppliers, ← addPacketIds_eq_eraseDups]
  split
  · rw [List.flatMap_append, addPacketIds_append]
    simp
  · simp

theorem largest_concat
    {ι : Type}
    [LinearOrder ι]
    [Zero ι]
    {values : List ι}
    (nonempty : values ≠ [])
    (value : ι) :
    largest (values ++ [value]) = max (largest values) value := by
  cases values with
  | nil => exact (nonempty rfl).elim
  | cons first rest =>
      simp [largest, List.foldl_append]

@[simp] theorem largest_singleton
    {ι : Type}
    [LinearOrder ι]
    [Zero ι]
    (value : ι) :
    largest [value] = value := rfl

/-! ## Fragments of one payload -/

namespace FragmentOf

variable
  {key : FragmentKey}
  {payload : Bytes}
  {packet : ParsedPacket}

theorem unfragmented
    (fragment : FragmentOf key payload packet) :
    packet.unfragmented = false := by
  have identified : packet.fragmentId.isNone = false := by
    obtain ⟨fragmentId, found, -⟩ :=
      Option.map_eq_some_iff.mp fragment.keyed
    simp [found]
  unfold ParsedPacket.unfragmented
  cases more : packet.moreFragments with
  | true => simp [identified]
  | false => simp [identified, (fragment.last more).2]

/-- A fragment ends inside the payload. -/
theorem end_le
    (fragment : FragmentOf key payload packet) :
    packet.fragmentEnd ≤ payload.length := by
  cases more : packet.moreFragments with
  | true =>
      have nonempty :=
        List.length_pos_iff.mpr (fragment.aligned more).1
      have lengths := congrArg List.length fragment.bytes
      simp only [List.extract_eq_take_drop, List.length_take,
        List.length_drop, ParsedPacket.fragmentEnd] at lengths ⊢
      omega
  | false =>
      rw [(fragment.last more).1]

/-- The fragment's bytes are those of the payload. -/
theorem valueAt
    (fragment : FragmentOf key payload packet)
    {position : Int}
    {value : UInt8}
    (held :
      valueAt packet.fragmentOffset packet.networkPayload position =
        some value) :
    Library.valueAt 0 payload position = some value := by
  unfold Library.valueAt at held ⊢
  split at held
  case isTrue before =>
    have nonnegative : (0 : Int) ≤ position := by omega
    have index :
        packet.fragmentOffset +
            (position - packet.fragmentOffset).toNat =
          (position - 0).toNat := by
      omega
    rw [← fragment.bytes, List.extract_eq_take_drop,
      List.getElem?_take, List.getElem?_drop, index] at held
    simp only [nonnegative, ↓reduceIte]
    split at held
    · exact held
    · cases held
  case isFalse => cases held

theorem not_malformed
    (fragment : FragmentOf key payload packet)
    {limits : FragmentLimits}
    (within : packet.fragmentEnd ≤ limits.maxDatagramBytes) :
    FragmentReassembler.isMalformed limits packet = false := by
  unfold FragmentReassembler.isMalformed
  cases more : packet.moreFragments with
  | true =>
      obtain ⟨nonempty, aligned⟩ := fragment.aligned more
      simp [nonempty, aligned, within]
  | false => simp [within]

end FragmentOf

/-- A finished nonempty datagram has a fragment at offset 0. -/
theorem Finished.first
    {payload : Bytes}
    {packets : List ParsedPacket}
    (nonempty : payload ≠ [])
    (finished : Finished payload packets) :
    ∃ base,
      packets.find? (fun packet => packet.fragmentOffset = 0) =
        some base := by
  obtain ⟨packet, member, fromStart, -⟩ :=
    finished.2 0 (List.length_pos_iff.mpr nonempty)
  apply Option.isSome_iff_exists.mp
  rw [List.find?_isSome]
  exact ⟨packet, member, by simpa using fromStart⟩

end PacketAudit
