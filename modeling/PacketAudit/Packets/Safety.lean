import PacketAudit.Packets.Headers

namespace PacketAudit

/-!
# Decoding is safe on every frame

A read outside the captured bytes is an `IndexError` or a `struct.error` of
the model's readers.  Every read of `parse_packet_strict` lies behind a check
that excludes it, so the only exception left is `PacketDecodeError`; and what
a returned packet carries are slices of the frame.
-/

/-! ## Faults -/

/-- The only exception a computation may raise is `PacketDecodeError`. -/
def RaisesDecodeOnly {α : Type} (computed : Except PacketFault α) : Prop :=
  ∀ fault, computed = .error fault → ∃ message, fault = .decode message

namespace RaisesDecodeOnly

variable {α β : Type}

theorem ok (value : α) :
    RaisesDecodeOnly (.ok value) := by
  rintro fault raised
  cases raised

theorem decode (message : String) :
    RaisesDecodeOnly (.error (.decode message) : Except PacketFault α) := by
  rintro fault raised
  cases raised
  exact ⟨message, rfl⟩

theorem of_ok
    {computed : Except PacketFault α}
    {value : α}
    (returns : computed = .ok value) :
    RaisesDecodeOnly computed :=
  returns ▸ .ok value

/-- The rest of a computation may rely on what its first part returned. -/
theorem bind
    {first : Except PacketFault α}
    {continuation : α → Except PacketFault β}
    (firstSafe : RaisesDecodeOnly first)
    (continues :
      ∀ value, first = .ok value → RaisesDecodeOnly (continuation value)) :
    RaisesDecodeOnly (first >>= continuation) := by
  cases returned : first with
  | error fault =>
      rintro raisedFault raised
      obtain rfl : fault = raisedFault := Except.error.inj raised
      exact firstSafe fault returned
  | ok value =>
      exact continues value returned

theorem map
    {first : Except PacketFault α}
    (transform : α → β)
    (firstSafe : RaisesDecodeOnly first) :
    RaisesDecodeOnly (transform <$> first) := by
  cases returned : first with
  | error fault =>
      rintro raisedFault raised
      obtain rfl : fault = raisedFault := Except.error.inj raised
      exact firstSafe fault returned
  | ok value =>
      exact .ok _

/-- A check raises `PacketDecodeError`; behind it the condition is false. -/
theorem raiseIf
    {condition : Prop}
    [Decidable condition]
    {message : String}
    {continuation : Unit → Except PacketFault β}
    (continues : ¬ condition → RaisesDecodeOnly (continuation ())) :
    RaisesDecodeOnly (PacketAudit.raiseIf condition message >>= continuation) := by
  unfold PacketAudit.raiseIf
  split
  case isTrue => exact .decode message
  case isFalse passed => exact continues passed

/-- A byte inside the data can be read. -/
theorem byteAt
    {data : Bytes}
    {index : Nat}
    {continuation : Nat → Except PacketFault β}
    (inside : index < data.length)
    (continues : ∀ value, RaisesDecodeOnly (continuation value)) :
    RaisesDecodeOnly (PacketAudit.byteAt data index >>= continuation) := by
  rw [byteAt_of_lt inside]
  exact continues _

/-- A two-byte field checks its own bounds. -/
theorem u16
    {data : Bytes}
    {offset : Nat}
    {continuation : Nat → Except PacketFault β}
    (continues : ∀ value, RaisesDecodeOnly (continuation value)) :
    RaisesDecodeOnly (PacketAudit.u16 data offset >>= continuation) := by
  unfold PacketAudit.u16
  split
  · exact .decode _
  · exact continues _

/-- An extension header is scanned without a fault. -/
theorem scanHeader
    {data : Bytes}
    {stop offset : Nat}
    {lengthOf : Nat → Nat}
    {continuation : HeaderScan → Except PacketFault β}
    (within : stop ≤ data.length)
    (short : RaisesDecodeOnly (continuation .short))
    (invalid : RaisesDecodeOnly (continuation .invalid))
    (next :
      ∀ following length,
        RaisesDecodeOnly (continuation (.next following length))) :
    RaisesDecodeOnly
      (PacketAudit.scanHeader data stop offset lengthOf >>= continuation) := by
  obtain ⟨scan, scanned⟩ := scanHeader_total within offset lengthOf
  rw [scanned, ok_bind]
  cases scan with
  | short => exact short
  | invalid => exact invalid
  | next following length => exact next following length

end RaisesDecodeOnly

theorem stripVlanTags_faults
    (raw : Bytes)
    (room etherType offset : Nat)
    (vlans : List Nat) :
    RaisesDecodeOnly (stripVlanTags raw room etherType offset vlans) := by
  induction room generalizing etherType offset vlans with
  | zero =>
      unfold stripVlanTags
      split
      · exact .decode _
      · exact .ok _
  | succ room inductionHypothesis =>
      unfold stripVlanTags
      split
      · refine .raiseIf fun _ => .u16 fun tci => .u16 fun inner => ?_
        exact inductionHypothesis inner _ _
      · exact .ok _

theorem linkPayload_faults
    (raw : Bytes)
    (datalink : Nat) :
    RaisesDecodeOnly (linkPayload raw datalink) := by
  have tagged
      (headerLength protocolAt : Nat)
      (message : String) :
      RaisesDecodeOnly (do
        raiseIf (raw.length < headerLength) message
        let etherType ← u16 raw protocolAt
        stripVlanTags raw maxVlanTags etherType headerLength []) :=
    .raiseIf fun _ => .u16 fun etherType => stripVlanTags_faults _ _ _ _ _
  unfold linkPayload
  split
  · exact tagged 14 12 _
  split
  · exact tagged 16 14 _
  split
  · exact tagged 20 0 _
  split
  · refine .raiseIf fun nonempty => ?_
    refine .byteAt (List.length_pos_iff.mpr nonempty) fun first => ?_
    split
    · exact .ok _
    split
    · exact .ok _
    · exact .decode _
  split
  · exact .ok _
  split
  · exact .ok _
  · exact .decode _

theorem parseIpv4_faults
    (packet : CapturedPacket)
    (network : Bytes)
    (vlanIds : List Nat) :
    RaisesDecodeOnly (parseIpv4 packet network vlanIds) := by
  unfold parseIpv4
  refine .raiseIf fun long => .byteAt (by omega) fun versionByte => ?_
  refine .raiseIf fun _ => .raiseIf fun _ => .u16 fun totalLength => ?_
  refine .raiseIf fun _ => .u16 fun flagsAndOffset => ?_
  exact .byteAt (by omega) fun protocol => .u16 fun identification => .ok _

/-- The walk stays before an end that lies inside the network bytes. -/
theorem walkIpv6_faults
    {network : Bytes}
    {availableEnd : Nat}
    (within : availableEnd ≤ network.length)
    (rounds nextHeader offset : Nat) :
    RaisesDecodeOnly
      (walkIpv6 network availableEnd rounds nextHeader offset) := by
  induction rounds generalizing nextHeader offset with
  | zero => exact .decode _
  | succ rounds inductionHypothesis =>
      unfold walkIpv6
      split
      · refine .raiseIf fun inside => .byteAt (by omega) fun _ => ?_
        refine .u16 fun fragmentBits => ?_
        rw [u32_of_le (by omega), ok_bind]
        exact .ok _
      split
      · exact .scanHeader within (.decode _) (.decode _)
          fun _ _ => inductionHypothesis _ _
      split
      · exact .scanHeader within (.decode _) (.decode _)
          fun _ _ => inductionHypothesis _ _
      · exact .ok _

theorem parseIpv6_faults
    (packet : CapturedPacket)
    (network : Bytes)
    (vlanIds : List Nat) :
    RaisesDecodeOnly (parseIpv6 packet network vlanIds) := by
  unfold parseIpv6
  refine .raiseIf fun long => .byteAt (by omega) fun versionByte => ?_
  refine .raiseIf fun _ => .u16 fun payloadLength => ?_
  refine .byteAt (by omega) fun firstHeader => ?_
  refine .bind (walkIpv6_faults (Nat.min_le_left _ _) _ _ _) ?_
  exact fun walk _ => .ok _

/-- Decoding raises nothing but `PacketDecodeError`. -/
theorem parsePacketStrict_faults (packet : CapturedPacket) :
    RaisesDecodeOnly (parsePacketStrict packet) := by
  have transported (parsed : ParsedPacket) :
      RaisesDecodeOnly (some <$> parseTransport parsed) := by
    obtain ⟨reached, returns⟩ := parseTransport_total parsed
    exact .map some (.of_ok returns)
  unfold parsePacketStrict
  refine .bind (linkPayload_faults _ _) fun link _ => ?_
  split
  · exact .bind (parseIpv4_faults _ _ _) fun parsed _ => transported parsed
  split
  · exact .bind (parseIpv6_faults _ _ _) fun parsed _ => transported parsed
  · exact .ok _

/-! ## Slices -/

theorem extract_isInfix
    (data : Bytes)
    (first last : Nat) :
    data.extract first last <:+: data := by
  rw [List.extract_eq_take_drop]
  exact (List.take_prefix _ _).isInfix.trans (List.drop_suffix _ _).isInfix

theorem stripVlanTags_network
    {raw : Bytes}
    {room etherType offset : Nat}
    {vlans : List Nat}
    {link : LinkPayload}
    (strips :
      stripVlanTags raw room etherType offset vlans = .ok link) :
    link.network <:+ raw := by
  induction room generalizing etherType offset vlans with
  | zero =>
      unfold stripVlanTags at strips
      split at strips
      · cases strips
      · obtain rfl := Except.ok.inj strips
        exact List.drop_suffix _ _
  | succ room inductionHypothesis =>
      unfold stripVlanTags at strips
      split at strips
      · simp only [bind_eq_ok] at strips
        obtain ⟨-, -, tci, -, inner, -, continues⟩ := strips
        exact inductionHypothesis continues
      · obtain rfl := Except.ok.inj strips
        exact List.drop_suffix _ _

/-- The network bytes are the end of the frame. -/
theorem linkPayload_network
    {raw : Bytes}
    {datalink : Nat}
    {link : LinkPayload}
    (links : linkPayload raw datalink = .ok link) :
    link.network <:+ raw := by
  have tagged
      {headerLength protocolAt : Nat}
      {message : String}
      (reads :
        (do
          raiseIf (raw.length < headerLength) message
          let etherType ← u16 raw protocolAt
          stripVlanTags raw maxVlanTags etherType headerLength []) =
            .ok link) :
      link.network <:+ raw := by
    simp only [bind_eq_ok] at reads
    obtain ⟨-, -, etherType, -, strips⟩ := reads
    exact stripVlanTags_network strips
  have whole
      {etherType : Nat}
      (returns :
        (.ok ⟨etherType, raw, []⟩ : Except PacketFault LinkPayload) =
          .ok link) :
      link.network <:+ raw := by
    obtain rfl := Except.ok.inj returns
    exact List.suffix_refl raw
  unfold linkPayload at links
  split at links
  · exact tagged links
  split at links
  · exact tagged links
  split at links
  · exact tagged links
  split at links
  · simp only [bind_eq_ok] at links
    obtain ⟨-, -, first, -, returns⟩ := links
    split at returns
    · exact whole returns
    split at returns
    · exact whole returns
    · cases returns
  split at links
  · exact whole links
  split at links
  · exact whole links
  · cases links

/-- An address text was made of all bytes of an address field. -/
def AddressIn (data : Bytes) (ipVersion : Nat) (text : String) : Prop :=
  ∃ field, field <:+: data ∧
    ((ipVersion = 4 ∧ field.length = 4 ∧ text = ipv4Text field) ∨
      (ipVersion = 6 ∧ field.length = 16 ∧ text = ipv6Text field))

/-- What a packet carries are slices of the captured bytes. -/
structure CarriesSlices (data : Bytes) (parsed : ParsedPacket) : Prop where
  networkPayload : parsed.networkPayload <:+: data
  transportPayload : parsed.transportPayload <:+: data
  src : AddressIn data parsed.ipVersion parsed.src
  dst : AddressIn data parsed.ipVersion parsed.dst

/-- An address field of the stated length. -/
theorem extract_address
    {network raw : Bytes}
    (within : network <:+ raw)
    (first size : Nat)
    (inside : first + size ≤ network.length) :
    network.extract first (first + size) <:+: raw ∧
      (network.extract first (first + size)).length = size := by
  refine ⟨(extract_isInfix _ _ _).trans within.isInfix, ?_⟩
  rw [List.extract_eq_take_drop, List.length_take, List.length_drop]
  omega

theorem parseIpv4_slices
    {packet : CapturedPacket}
    {network raw : Bytes}
    {vlanIds : List Nat}
    {parsed : ParsedPacket}
    (within : network <:+ raw)
    (parses : parseIpv4 packet network vlanIds = .ok parsed) :
    CarriesSlices raw parsed := by
  unfold parseIpv4 at parses
  simp only [bind_eq_ok, Except.ok.injEq, raiseIf_eq_ok] at parses
  obtain ⟨-, long, -, -, -, -, -, -, -, -, -, -, -, -, -, -, -, -, rfl⟩ := parses
  obtain ⟨srcWithin, srcLength⟩ :=
    extract_address within 12 4 (by omega)
  obtain ⟨dstWithin, dstLength⟩ :=
    extract_address within 16 4 (by omega)
  exact {
    networkPayload := (extract_isInfix _ _ _).trans within.isInfix
    transportPayload := List.nil_infix
    src := ⟨_, srcWithin, .inl ⟨rfl, srcLength, rfl⟩⟩
    dst := ⟨_, dstWithin, .inl ⟨rfl, dstLength, rfl⟩⟩ }

theorem parseIpv6_slices
    {packet : CapturedPacket}
    {network raw : Bytes}
    {vlanIds : List Nat}
    {parsed : ParsedPacket}
    (within : network <:+ raw)
    (parses : parseIpv6 packet network vlanIds = .ok parsed) :
    CarriesSlices raw parsed := by
  unfold parseIpv6 at parses
  simp only [bind_eq_ok, Except.ok.injEq, raiseIf_eq_ok] at parses
  obtain ⟨-, long, -, -, -, -, -, -, -, -, -, -, rfl⟩ := parses
  obtain ⟨srcWithin, srcLength⟩ :=
    extract_address within 8 16 (by omega)
  obtain ⟨dstWithin, dstLength⟩ :=
    extract_address within 24 16 (by omega)
  exact {
    networkPayload := (extract_isInfix _ _ _).trans within.isInfix
    transportPayload := List.nil_infix
    src := ⟨_, srcWithin, .inr ⟨rfl, srcLength, rfl⟩⟩
    dst := ⟨_, dstWithin, .inr ⟨rfl, dstLength, rfl⟩⟩ }

section Transport

variable {raw : Bytes} {packet parsed : ParsedPacket}

theorem CarriesSlices.transportMissing
    (carries : CarriesSlices raw packet) :
    CarriesSlices raw packet.transportMissing where
  networkPayload := carries.networkPayload
  transportPayload := carries.transportPayload
  src := carries.src
  dst := carries.dst

theorem parseTcp_slices
    (carries : CarriesSlices raw packet)
    (parses : parseTcp packet = .ok parsed) :
    CarriesSlices raw parsed := by
  by_cases long : 20 ≤ packet.networkPayload.length
  · have isResult := parseTcp_of_le long
    dsimp only at isResult
    rw [isResult] at parses
    split at parses
    case isTrue =>
      obtain rfl := Except.ok.inj parses
      exact carries.transportMissing
    case isFalse =>
      obtain rfl := Except.ok.inj parses
      exact {
        networkPayload := List.nil_infix
        transportPayload :=
          (List.drop_suffix _ _).isInfix.trans carries.networkPayload
        src := carries.src
        dst := carries.dst }
  · unfold parseTcp at parses
    dsimp only at parses
    rw [if_pos (by omega)] at parses
    obtain rfl := Except.ok.inj parses
    exact carries.transportMissing

theorem parseUdp_slices
    (carries : CarriesSlices raw packet)
    (parses : parseUdp packet = .ok parsed) :
    CarriesSlices raw parsed := by
  unfold parseUdp at parses
  dsimp only at parses
  split at parses
  case isTrue short =>
    obtain rfl := Except.ok.inj parses
    exact carries.transportMissing
  case isFalse long =>
    rw [u16_of_le (by omega), ok_bind] at parses
    split at parses
    case isTrue rejected =>
      obtain rfl := Except.ok.inj parses
      exact carries.transportMissing
    case isFalse accepted =>
      rw [u16_of_le (by omega), ok_bind, u16_of_le (by omega), ok_bind]
        at parses
      obtain rfl := Except.ok.inj parses
      exact {
        networkPayload := List.nil_infix
        transportPayload :=
          (extract_isInfix _ _ _).trans carries.networkPayload
        src := carries.src
        dst := carries.dst }

theorem parseTransport_slices
    (carries : CarriesSlices raw packet)
    (parses : parseTransport packet = .ok parsed) :
    CarriesSlices raw parsed := by
  unfold parseTransport at parses
  split at parses
  · exact Except.ok.inj parses ▸ carries
  split at parses
  · exact parseTcp_slices carries parses
  split at parses
  · exact parseUdp_slices carries parses
  · exact Except.ok.inj parses ▸ carries

end Transport

/-- What a returned packet carries are slices of its frame. -/
theorem parsePacketStrict_slices
    {packet : CapturedPacket}
    {parsed : ParsedPacket}
    (parses : parsePacketStrict packet = .ok (some parsed)) :
    CarriesSlices packet.raw parsed := by
  have transported
      {base : ParsedPacket}
      (carries : CarriesSlices packet.raw base)
      (transport : some <$> parseTransport base = .ok (some parsed)) :
      CarriesSlices packet.raw parsed := by
    cases parsesTo : parseTransport base with
    | error fault =>
        rw [parsesTo] at transport
        cases transport
    | ok reached =>
        rw [parsesTo] at transport
        obtain rfl := Option.some.inj (Except.ok.inj transport)
        exact parseTransport_slices carries parsesTo
  unfold parsePacketStrict at parses
  obtain ⟨link, links, parses⟩ := bind_eq_ok.mp parses
  have within := linkPayload_network links
  split at parses
  · obtain ⟨base, network, transport⟩ := bind_eq_ok.mp parses
    exact transported (parseIpv4_slices within network) transport
  split at parses
  · obtain ⟨base, network, transport⟩ := bind_eq_ok.mp parses
    exact transported (parseIpv6_slices within network) transport
  · cases parses

/--
Decoding any bytes, of any captured length and data-link type, returns `None`
or a packet or raises `PacketDecodeError`: no read leaves the captured bytes,
which would be an `IndexError` or a `struct.error`.  The payloads of a
returned packet are slices of the captured bytes, and so are the address
fields its address texts were made of.
-/
theorem parsePacketStrict_safe (packet : CapturedPacket) :
    (parsePacketStrict packet = .ok none ∨
      (∃ parsed, parsePacketStrict packet = .ok (some parsed) ∧
        CarriesSlices packet.raw parsed) ∨
      ∃ message, parsePacketStrict packet = .error (.decode message)) := by
  cases returned : parsePacketStrict packet with
  | error fault =>
      obtain ⟨message, rfl⟩ := parsePacketStrict_faults packet fault returned
      exact .inr (.inr ⟨message, rfl⟩)
  | ok result =>
      cases result with
      | none => exact .inl rfl
      | some parsed =>
          exact .inr (.inl ⟨parsed, rfl, parsePacketStrict_slices returned⟩)

end PacketAudit
