import PacketAudit.Cleartext.MqttProperties

namespace PacketAudit

/-!
# CONNECT packets as a grammar

`parse_mqtt_connect` returns a packet exactly if the data begins with the bytes
of a well-formed one of supported size.
-/

open Library

/-! ## Packets -/

/-- The service level of a Will, and whether it is retained. -/
structure WillFlags where
  qos : Fin 3
  retain : Bool
  deriving DecidableEq

/-- A Will. -/
structure MqttWill where
  properties : Option (PropertySection true)
  topic : MqttString
  hasTopic : topic.text ≠ []
  message : MqttBinary

/-- How a Will is written. -/
def MqttWill.bytes (will : MqttWill) : Bytes :=
  will.properties.elim [] PropertySection.bytes ++
    (lengthPrefixed will.topic.bytes ++ lengthPrefixed will.message.bytes)

/-- The flags octet of a CONNECT packet. -/
def flagOctet
    (cleanStart : Bool)
    (will : Option WillFlags)
    (password username : Bool) : Nat :=
  2 * cleanStart.toNat +
    will.elim 0 (fun flags => 4 + 8 * flags.qos.val + 32 * flags.retain.toNat) +
    64 * password.toNat + 128 * username.toNat

/-- A CONNECT packet, of MQTT 5 or of MQTT 3.1.1. -/
structure ConnectPacket where
  five : Bool
  cleanStart : Bool
  keepAlive : UInt8 × UInt8
  properties : Option (PropertySection false)
  client : MqttString
  will : Option (WillFlags × MqttWill)
  username : Option MqttString
  password : Option MqttBinary
  hasProperties : properties.isSome = five
  willProperties :
    ∀ will' ∈ will, will'.2.properties.isSome = five
  hasUsername : five = false → password.isSome → username.isSome

namespace ConnectPacket

/-- The protocol level. -/
def version (packet : ConnectPacket) : Nat :=
  if packet.five then 5 else 4

/-- The fixed part of the variable header. -/
def header (packet : ConnectPacket) : Bytes :=
  protocolName ++
    [UInt8.ofNat packet.version,
      UInt8.ofNat
        (flagOctet packet.cleanStart (packet.will.map Prod.fst)
          packet.password.isSome packet.username.isSome),
      packet.keepAlive.1, packet.keepAlive.2]

/-- The credentials, with which a packet ends. -/
def credentials (packet : ConnectPacket) : Bytes :=
  packet.username.elim [] (fun name => lengthPrefixed name.bytes) ++
    packet.password.elim [] (fun password => lengthPrefixed password.bytes)

/-- What follows the fixed header. -/
def body (packet : ConnectPacket) : Bytes :=
  packet.header ++
    (packet.properties.elim [] PropertySection.bytes ++
      (lengthPrefixed packet.client.bytes ++
        (packet.will.elim [] (fun will => will.2.bytes) ++
          packet.credentials)))

/-- A packet as it is sent. -/
def bytes (packet : ConnectPacket) : Bytes :=
  0x10 :: (varintBytes 4 packet.body.length ++ packet.body)

end ConnectPacket

/-! ## Flags -/

/-- The masks of the flags take out bits of the octet. -/
theorem flag_masks :
    ∀ flags : Fin 256,
      flags.val &&& 1 = flags.val % 2 ∧
        flags.val &&& 0x04 = 4 * (flags.val / 4 % 2) ∧
        (flags.val >>> 3) &&& 3 = flags.val / 8 % 4 ∧
        flags.val &&& 0x38 = 8 * (flags.val / 8 % 8) ∧
        flags.val &&& 0x80 = 128 * (flags.val / 128 % 2) ∧
        flags.val &&& 0x40 = 64 * (flags.val / 64 % 2) := by
  decide +kernel

theorem toNat_bit (number : Nat) :
    (decide (number % 2 = 1)).toNat = number % 2 := by
  by_cases odd : number % 2 = 1
  · rw [decide_eq_true odd, odd]
    rfl
  · rw [decide_eq_false odd]
    exact (by omega : 0 = number % 2)

theorem bit_eq_one
    {bit : Bool}
    {number : Nat}
    (isBit : number % 2 = bit.toNat) :
    decide (number % 2 = 1) = bit := by
  cases bit with
  | false => exact decide_eq_false (by rw [isBit]; decide)
  | true => exact decide_eq_true isBit

/-- The bits of an octet of flags. -/
theorem flagOctet_bits
    {flags : Nat}
    {cleanStart password username : Bool}
    {will : Option WillFlags}
    (isFlags : flags = flagOctet cleanStart will password username) :
    flags % 2 = 0 ∧
      flags / 4 % 2 = will.isSome.toNat ∧
      flags / 64 % 2 = password.toNat ∧
      flags / 128 % 2 = username.toNat ∧
      (will.isSome = false → flags / 8 % 8 = 0) ∧
      flags / 8 % 4 ≠ 3 := by
  have cleanBit := Bool.toNat_le cleanStart
  have passwordBit := Bool.toNat_le password
  have usernameBit := Bool.toNat_le username
  unfold flagOctet at isFlags
  cases will with
  | none =>
      simp only [Option.elim_none, Option.isSome_none, Bool.toNat_false]
        at isFlags ⊢
      omega
  | some willFlags =>
      have retainBit := Bool.toNat_le willFlags.retain
      have qosBound := willFlags.qos.isLt
      simp only [Option.elim_some, Option.isSome_some, Bool.toNat_true]
        at isFlags ⊢
      refine ⟨by omega, by omega, by omega, by omega, ?_, by omega⟩
      intro isNone
      cases isNone

/-- An octet of flags that passes the checks is one of a packet. -/
theorem exists_flagOctet
    {flags : Nat}
    (small : flags < 256)
    (isReserved : flags % 2 = 0)
    (noWill : flags / 4 % 2 ≠ 1 → flags / 8 % 8 = 0)
    (noQos : flags / 8 % 4 ≠ 3) :
    ∃ cleanStart will,
      flags =
          flagOctet cleanStart will (decide (flags / 64 % 2 = 1))
            (decide (flags / 128 % 2 = 1)) ∧
        will.isSome = decide (flags / 4 % 2 = 1) := by
  by_cases hasWill : flags / 4 % 2 = 1
  · refine ⟨decide (flags / 2 % 2 = 1),
      some ⟨⟨flags / 8 % 4, by omega⟩, decide (flags / 32 % 2 = 1)⟩, ?_,
      (decide_eq_true hasWill).symm⟩
    unfold flagOctet
    simp only [toNat_bit, Option.elim_some]
    omega
  · have empty := noWill hasWill
    refine ⟨decide (flags / 2 % 2 = 1), none, ?_,
      (decide_eq_false hasWill).symm⟩
    unfold flagOctet
    simp only [toNat_bit, Option.elim_none]
    omega

theorem flagOctet_lt
    (cleanStart : Bool)
    (will : Option WillFlags)
    (password username : Bool) :
    flagOctet cleanStart will password username < 256 := by
  have cleanBit := Bool.toNat_le cleanStart
  have passwordBit := Bool.toNat_le password
  have usernameBit := Bool.toNat_le username
  unfold flagOctet
  cases will with
  | none =>
      rw [Option.elim_none]
      omega
  | some willFlags =>
      have retainBit := Bool.toNat_le willFlags.retain
      have qosBound := willFlags.qos.isLt
      rw [Option.elim_some]
      omega

/-- The flags that pass the checks are those of packets. -/
theorem readFlags_eq_ok
    {five : Bool}
    {flags : Nat}
    {read : ConnectFlags}
    (small : flags < 256) :
    readFlags (if five then 5 else 4) flags = .ok read ↔
      ∃ cleanStart will,
        flags = flagOctet cleanStart will read.password read.username ∧
          will.isSome = read.will ∧
          (five = false → read.password = true → read.username = true) := by
  obtain ⟨isOne, isWill, isQos, isWillFlags, isUsername, isPassword⟩ :=
    flag_masks ⟨flags, small⟩
  dsimp only at isOne isWill isQos isWillFlags isUsername isPassword
  have isFour : (if five then 5 else 4) = 4 ↔ five = false := by
    cases five <;> decide
  have isSet
      (number weight : Nat)
      (positive : 0 < weight) :
      weight * (number % 2) ≠ 0 ↔ number % 2 = 1 := by
    rw [Nat.mul_ne_zero_iff]
    omega
  unfold readFlags
  rw [isOne, isWill, isQos, isWillFlags, isUsername, isPassword,
    malformedIf_bind_eq_ok]
  dsimp only
  rw [malformedIf_bind_eq_ok, malformedIf_bind_eq_ok, isFour]
  simp only [isSet _ 4 (by decide), isSet _ 64 (by decide),
    isSet _ 128 (by decide), decide_eq_true_eq, decide_eq_false_iff_not]
  constructor
  · rintro ⟨isReserved, isValid, hasUsername, returns⟩
    obtain rfl := Except.ok.inj returns
    obtain ⟨cleanStart, will, isFlags, hasWill⟩ :=
      exists_flagOctet small (by omega) (by omega) (by omega)
    refine ⟨cleanStart, will, isFlags, hasWill, ?_⟩
    intro older password
    by_contra noUsername
    exact hasUsername
      ⟨older, of_decide_eq_true password, fun isSet =>
        noUsername (decide_eq_true isSet)⟩
  · rintro ⟨cleanStart, will, isFlags, hasWill, hasUsername⟩
    obtain ⟨isReserved, willBit, passwordBit, usernameBit, noWill, noQos⟩ :=
      flagOctet_bits isFlags
    obtain ⟨readWill, readUsername, readPassword⟩ := read
    dsimp only at hasWill hasUsername
    subst hasWill
    rw [bit_eq_one willBit, bit_eq_one passwordBit, bit_eq_one usernameBit,
      isReserved]
    refine ⟨by decide, ?_, ?_, rfl⟩
    · rintro (⟨noFlag, filled⟩ | ⟨-, three⟩)
      · have isNone : will.isSome = false :=
          (bit_eq_one willBit).symm.trans (decide_eq_false noFlag)
        have empty := noWill isNone
        omega
      · exact noQos three
    · rintro ⟨older, password, noUsername⟩
      have isPassword : readPassword = true :=
        (bit_eq_one passwordBit).symm.trans (decide_eq_true password)
      have isUsername : readUsername = false :=
        (bit_eq_one usernameBit).symm.trans (decide_eq_false noUsername)
      rw [hasUsername older isPassword] at isUsername
      cases isUsername

/-! ## Parts of the body -/

section Parts

variable {data : Bytes}
variable {cursor frameEnd : Nat}

/-- The position behind the properties, where there are any. -/
theorem PropertySection.elim_stop
    {will : Bool}
    {found : Option (PropertySection will)}
    {after : Nat}
    (spells :
      Spells data cursor after (found.elim [] PropertySection.bytes)) :
    (found.elim { stop := cursor }
      (fun given => given.result cursor) : Properties).stop = after := by
  have ends := spells.last_eq
  cases found with
  | none => exact ends.symm
  | some given => exact ends.symm

/-- The properties are there exactly in a packet of MQTT 5. -/
theorem optionalProperties_eq_ok
    {five will : Bool}
    {result : Properties}
    (begun : cursor ≤ frameEnd)
    (inside : frameEnd ≤ data.length) :
    optionalProperties data (if five then 5 else 4) cursor frameEnd will =
        .ok result ↔
      ∃ found : Option (PropertySection will),
        found.isSome = five ∧
          found.elim { stop := cursor }
            (fun given => given.result cursor) = result ∧
          result.stop ≤ frameEnd ∧
          Spells data cursor result.stop
            (found.elim [] PropertySection.bytes) := by
  unfold optionalProperties
  cases five with
  | false =>
      rw [if_neg (by decide)]
      constructor
      · intro returns
        obtain rfl := Except.ok.inj returns
        exact ⟨none, rfl, rfl, begun,
          spells_nil.mpr ⟨rfl, begun.trans inside⟩⟩
      · rintro ⟨found, isNone, isResult, -⟩
        rw [Option.isSome_eq_false_iff, Option.isNone_iff_eq_none] at isNone
        subst isNone
        exact congrArg _ isResult
  | true =>
      rw [if_pos (by decide), properties_eq_ok inside]
      constructor
      · rintro ⟨found, isResult, fits, spells⟩
        exact ⟨some found, rfl, isResult, fits, spells⟩
      · rintro ⟨found, isSome, isResult, fits, spells⟩
        obtain ⟨given, rfl⟩ := Option.isSome_iff_exists.mp isSome
        exact ⟨given, isResult, fits, spells⟩

/-- A Will is read where it is spelled. -/
theorem readWill_eq_ok
    {five : Bool}
    {after : Nat}
    (begun : cursor ≤ frameEnd)
    (inside : frameEnd ≤ data.length) :
    readWill data (if five then 5 else 4) cursor frameEnd = .ok after ↔
      ∃ will : MqttWill,
        will.properties.isSome = five ∧
          after ≤ frameEnd ∧ Spells data cursor after will.bytes := by
  unfold readWill MqttWill.bytes
  constructor
  · intro returns
    obtain ⟨result, isResult, returns⟩ := bind_eq_ok.mp returns
    obtain ⟨found, isFive, rfl, -, isSection⟩ :=
      (optionalProperties_eq_ok begun inside).mp isResult
    obtain ⟨read, isRead, returns⟩ := bind_eq_ok.mp returns
    obtain ⟨topic, afterTopic, rfl, -, isTopic⟩ :=
      (field_string_eq_ok inside).mp isRead
    obtain ⟨hasTopic, returns⟩ := malformedIf_bind_eq_ok.mp returns
    obtain ⟨read, isRead, returns⟩ := bind_eq_ok.mp returns
    obtain ⟨message, afterMessage, rfl, fits, isMessage⟩ :=
      (field_binary_eq_ok inside).mp isRead
    obtain rfl := Except.ok.inj returns
    exact ⟨⟨found, topic, hasTopic, message⟩, isFive, fits,
      spells_append.mpr ⟨_, isSection,
        spells_append.mpr ⟨_, isTopic, isMessage⟩⟩⟩
  · rintro ⟨⟨found, topic, hasTopic, message⟩, isFive, fits, spells⟩
    obtain ⟨afterSection, isSection, spells⟩ := spells_append.mp spells
    obtain ⟨afterTopic, isTopic, isMessage⟩ := spells_append.mp spells
    have topicFits := isMessage.1.trans fits
    have sectionFits := isTopic.1.trans topicFits
    have isStop := PropertySection.elim_stop isSection
    subst isStop
    rw [bind_eq_ok]
    refine ⟨_, (optionalProperties_eq_ok begun inside).mpr
      ⟨found, isFive, rfl, sectionFits, isSection⟩, ?_⟩
    rw [bind_eq_ok]
    refine ⟨_, (field_string_eq_ok inside).mpr
      ⟨topic, _, rfl, topicFits, isTopic⟩, ?_⟩
    rw [malformedIf_bind_eq_ok, bind_eq_ok]
    exact ⟨hasTopic, _, (field_binary_eq_ok inside).mpr
      ⟨message, after, rfl, fits, isMessage⟩, rfl⟩

/-- The Will is there exactly if its flag is set. -/
theorem optionalWill_eq_ok
    {five : Bool}
    {flags : Option WillFlags}
    {after : Nat}
    (begun : cursor ≤ frameEnd)
    (inside : frameEnd ≤ data.length) :
    optionalWill data flags.isSome (if five then 5 else 4) cursor frameEnd =
        .ok after ↔
      ∃ will : Option (WillFlags × MqttWill),
        will.map Prod.fst = flags ∧
          (∀ found ∈ will, found.2.properties.isSome = five) ∧
          after ≤ frameEnd ∧
          Spells data cursor after
            (will.elim [] fun found => found.2.bytes) := by
  unfold optionalWill
  cases flags with
  | none =>
      rw [if_neg (by decide)]
      constructor
      · intro returns
        obtain rfl := Except.ok.inj returns
        exact ⟨none, rfl, fun _ member => (Option.not_mem_none _ member).elim, begun,
          spells_nil.mpr ⟨rfl, begun.trans inside⟩⟩
      · rintro ⟨will, isNone, -, -, spells⟩
        obtain rfl := Option.map_eq_none_iff.mp isNone
        rw [(spells_nil.mp spells).1]
  | some flags =>
      rw [Option.isSome_some, if_pos rfl, readWill_eq_ok begun inside]
      constructor
      · rintro ⟨will, isFive, fits, spells⟩
        refine ⟨some (flags, will), rfl, ?_, fits, spells⟩
        rintro found ⟨⟩
        exact isFive
      · rintro ⟨will, isSome, areFive, fits, spells⟩
        obtain ⟨found, rfl, -⟩ := Option.map_eq_some_iff.mp isSome
        exact ⟨found.2, areFive found rfl, fits, spells⟩

/-- A field behind a flag is read where the flag and the field agree. -/
theorem readOptional_eq_ok
    {ι : Type}
    {present utf8 : Bool}
    {read : Option MqttField × Nat}
    (fieldOf : ι → Nat → MqttField)
    (pieceOf : ι → Bytes)
    (isField :
      ∀ {read : MqttField},
        field data cursor frameEnd utf8 = .ok read ↔
          ∃ (item : ι) (after : Nat),
            read = fieldOf item after ∧
              after ≤ frameEnd ∧
              Spells data cursor after (lengthPrefixed (pieceOf item)))
    (isAfter : ∀ item after, (fieldOf item after).after = after)
    (begun : cursor ≤ frameEnd)
    (inside : frameEnd ≤ data.length) :
    readOptional data present cursor frameEnd utf8 = .ok read ↔
      ∃ (item : Option ι) (after : Nat),
        item.isSome = present ∧
          (item.map fun item => fieldOf item after, after) = read ∧
          after ≤ frameEnd ∧
          Spells data cursor after
            (item.elim [] fun item => lengthPrefixed (pieceOf item)) := by
  unfold readOptional
  cases present with
  | false =>
      rw [if_neg (by decide)]
      constructor
      · intro returns
        obtain rfl := Except.ok.inj returns
        exact ⟨none, cursor, rfl, rfl, begun,
          spells_nil.mpr ⟨rfl, begun.trans inside⟩⟩
      · rintro ⟨item, after, isNone, rfl, -, spells⟩
        rw [Option.isSome_eq_false_iff, Option.isNone_iff_eq_none] at isNone
        subst isNone
        rw [(spells_nil.mp spells).1]
        rfl
  | true =>
      rw [if_pos rfl]
      simp only [bind_eq_ok, isField]
      constructor
      · rintro ⟨found, ⟨item, after, rfl, fits, spells⟩, returns⟩
        obtain rfl := Except.ok.inj returns
        rw [isAfter]
        exact ⟨some item, after, rfl, rfl, fits, spells⟩
      · rintro ⟨item, after, isSome, rfl, fits, spells⟩
        obtain ⟨item, rfl⟩ := Option.isSome_iff_exists.mp isSome
        refine ⟨_, ⟨item, after, rfl, fits, spells⟩, ?_⟩
        rw [isAfter]
        rfl

end Parts

/-! ## The parser -/

namespace ConnectPacket

/-- What the parser says about a packet whose body lies between two positions. -/
def connectBetween
    (packet : ConnectPacket)
    (cursor frameEnd : Nat) : MqttConnect :=
  let hasCredentials := packet.username.isSome || packet.password.isSome
  let found : Properties :=
    packet.properties.elim { stop := cursor + 10 } fun given =>
      given.result (cursor + 10)
  {
    version := packet.version
    frameEnd := frameEnd
    clientId := packet.client.text
    username := packet.username.map MqttString.text
    password := packet.password.map MqttBinary.bytes
    credentialStart :=
      if hasCredentials then some (frameEnd - packet.credentials.length)
      else none
    credentialEnd := if hasCredentials then some frameEnd else none
    authenticationMethod := found.authenticationMethod
    authenticationData := found.authenticationData
    authenticationMethodSpan := found.authenticationMethodSpan
    authenticationDataSpan := found.authenticationDataSpan
  }

/-- What the parser says about a packet at the beginning of a stream. -/
def connect (packet : ConnectPacket) : MqttConnect :=
  packet.connectBetween
    (1 + (varintBytes 4 packet.body.length).length) packet.bytes.length

end ConnectPacket

section Frames

variable {data : Bytes}
variable {cursor frameEnd : Nat}

/-- The header is read where it is spelled. -/
theorem spells_header
    {packet : ConnectPacket}
    {last : Nat} :
    Spells data cursor last packet.header ↔
      Spells data cursor (cursor + 6) protocolName ∧
        data[cursor + 6]? = some (UInt8.ofNat packet.version) ∧
        data[cursor + 7]? =
          some (UInt8.ofNat
            (flagOctet packet.cleanStart (packet.will.map Prod.fst)
              packet.password.isSome packet.username.isSome)) ∧
        data[cursor + 8]? = some packet.keepAlive.1 ∧
        data[cursor + 9]? = some packet.keepAlive.2 ∧
        last = cursor + 10 := by
  unfold ConnectPacket.header
  simp only [spells_append, spells_cons, spells_nil]
  constructor
  · rintro ⟨middle, isName, version, flags, first, second, rfl, -⟩
    have isMiddle : middle = cursor + 6 := isName.last_eq
    subst isMiddle
    exact ⟨isName, version, flags, first, second, rfl⟩
  · rintro ⟨isName, version, flags, first, second, rfl⟩
    obtain ⟨inside, -⟩ := List.getElem?_eq_some_iff.mp second
    exact ⟨_, isName, version, flags, first, second, rfl, inside⟩

/-- What a frame consists of, part by part. -/
theorem spells_body
    {packet : ConnectPacket} :
    Spells data cursor frameEnd packet.body ↔
      Spells data cursor (cursor + 10) packet.header ∧
        ∃ afterProperties afterClient afterWill afterUsername,
          Spells data (cursor + 10) afterProperties
              (packet.properties.elim [] PropertySection.bytes) ∧
            Spells data afterProperties afterClient
              (lengthPrefixed packet.client.bytes) ∧
            Spells data afterClient afterWill
              (packet.will.elim [] fun will => will.2.bytes) ∧
            Spells data afterWill afterUsername
              (packet.username.elim [] fun name =>
                lengthPrefixed name.bytes) ∧
            Spells data afterUsername frameEnd
              (packet.password.elim [] fun password =>
                lengthPrefixed password.bytes) := by
  unfold ConnectPacket.body ConnectPacket.credentials
  simp only [spells_append]
  constructor
  · rintro ⟨middle, isHeader, afterProperties, properties, afterClient, client,
      afterWill, will, afterUsername, username, password⟩
    obtain rfl := (spells_header.mp isHeader).2.2.2.2.2
    exact ⟨isHeader, afterProperties, afterClient, afterWill, afterUsername,
      properties, client, will, username, password⟩
  · rintro ⟨isHeader, afterProperties, afterClient, afterWill, afterUsername,
      properties, client, will, username, password⟩
    exact ⟨_, isHeader, afterProperties, properties, afterClient, client,
      afterWill, will, afterUsername, username, password⟩

/-- The username of a packet is read behind its flag. -/
theorem readUsername_eq_ok
    {present : Bool}
    {read : Option MqttField × Nat}
    (begun : cursor ≤ frameEnd)
    (inside : frameEnd ≤ data.length) :
    readOptional data present cursor frameEnd true = .ok read ↔
      ∃ (name : Option MqttString) (after : Nat),
        name.isSome = present ∧
          (name.map fun name =>
              ⟨name.bytes, some name.text, cursor + 2, after⟩, after) = read ∧
          after ≤ frameEnd ∧
          Spells data cursor after
            (name.elim [] fun name => lengthPrefixed name.bytes) :=
  readOptional_eq_ok
    (fun name after => ⟨name.bytes, some name.text, cursor + 2, after⟩)
    MqttString.bytes (field_string_eq_ok inside) (fun _ _ => rfl) begun inside

/-- The password of a packet is read behind its flag. -/
theorem readPassword_eq_ok
    {present : Bool}
    {read : Option MqttField × Nat}
    (begun : cursor ≤ frameEnd)
    (inside : frameEnd ≤ data.length) :
    readOptional data present cursor frameEnd false = .ok read ↔
      ∃ (password : Option MqttBinary) (after : Nat),
        password.isSome = present ∧
          (password.map fun password =>
              ⟨password.bytes, none, cursor + 2, after⟩, after) = read ∧
          after ≤ frameEnd ∧
          Spells data cursor after
            (password.elim [] fun password =>
              lengthPrefixed password.bytes) :=
  readOptional_eq_ok
    (fun password after => ⟨password.bytes, none, cursor + 2, after⟩)
    MqttBinary.bytes (field_binary_eq_ok inside) (fun _ _ => rfl) begun inside

/-- The credentials of a packet are where their fields are read. -/
theorem credentials_placed
    {packet : ConnectPacket}
    {afterWill afterUsername : Nat}
    (username :
      Spells data afterWill afterUsername
        (packet.username.elim [] fun name => lengthPrefixed name.bytes))
    (password :
      Spells data afterUsername frameEnd
        (packet.password.elim [] fun password =>
          lengthPrefixed password.bytes)) :
    (packet.connectBetween cursor frameEnd).credentialStart =
        (if packet.username.isSome then some afterWill
          else if packet.password.isSome then some afterUsername
          else none) ∧
      (packet.connectBetween cursor frameEnd).credentialEnd =
        (if packet.password.isSome then some frameEnd
          else if packet.username.isSome then some afterUsername
          else none) := by
  have nameEnds := username.last_eq
  have passwordEnds := password.last_eq
  unfold ConnectPacket.connectBetween ConnectPacket.credentials
  dsimp only
  rw [List.length_append]
  cases hasName : packet.username with
  | none =>
      rw [hasName, Option.elim_none, List.length_nil] at nameEnds
      cases hasPassword : packet.password with
      | none => exact ⟨rfl, rfl⟩
      | some secret =>
          rw [hasPassword] at passwordEnds
          refine ⟨congrArg some ?_, rfl⟩
          rw [Option.elim_none, List.length_nil]
          omega
  | some name =>
      rw [hasName] at nameEnds
      cases hasPassword : packet.password with
      | none =>
          rw [hasPassword, Option.elim_none, List.length_nil] at passwordEnds
          refine ⟨congrArg some ?_, congrArg some ?_⟩
          · rw [Option.elim_none, List.length_nil]
            omega
          · omega
      | some secret =>
          rw [hasPassword] at passwordEnds
          refine ⟨congrArg some ?_, rfl⟩
          omega

/-- What the parser returns on a frame is what its packet says. -/
theorem exists_packet
    {connect : MqttConnect}
    (inside : frameEnd ≤ data.length)
    (returns : parseFrame data cursor frameEnd = .ok connect) :
    ∃ packet : ConnectPacket,
      Spells data cursor frameEnd packet.body ∧
        packet.connectBetween cursor frameEnd = connect := by
  unfold parseFrame at returns
  obtain ⟨isName, returns⟩ := malformedIf_bind_eq_ok.mp returns
  obtain ⟨version, isVersion, returns⟩ := bind_eq_ok.mp returns
  obtain ⟨isKnown, returns⟩ := malformedIf_bind_eq_ok.mp returns
  obtain ⟨flagsRead, isFlagOctet, returns⟩ := bind_eq_ok.mp returns
  obtain ⟨flags, isFlags, returns⟩ := bind_eq_ok.mp returns
  dsimp only at returns
  rw [not_or, not_lt, not_not] at isName
  obtain ⟨five, rfl⟩ : ∃ five : Bool, version = if five then 5 else 4 := by
    by_cases isFive : version = 5
    · exact ⟨true, isFive⟩
    · exact ⟨false, by simp only [Bool.false_eq_true, if_false]; omega⟩
  have flagsSmall := (octetAt_eq_ok.mp isFlagOctet).1
  obtain ⟨cleanStart, willFlags, isOctet, hasWill, hasUsername⟩ :=
    (readFlags_eq_ok flagsSmall).mp isFlags
  obtain ⟨result, isResult, returns⟩ := bind_eq_ok.mp returns
  obtain ⟨found, hasProperties, rfl, propertiesFit, properties⟩ :=
    (optionalProperties_eq_ok isName.1 inside).mp isResult
  obtain ⟨read, isRead, returns⟩ := bind_eq_ok.mp returns
  obtain ⟨client, afterClient, rfl, clientFits, isClient⟩ :=
    (field_string_eq_ok inside).mp isRead
  dsimp only at returns
  obtain ⟨afterWill, isWill, returns⟩ := bind_eq_ok.mp returns
  rw [← hasWill] at isWill
  obtain ⟨will, isFlagged, areFive, willFits, spellsWill⟩ :=
    (optionalWill_eq_ok clientFits inside).mp isWill
  obtain ⟨read, isRead, returns⟩ := bind_eq_ok.mp returns
  obtain ⟨username, afterUsername, isUsername, rfl, usernameFits, spellsName⟩ :=
    (readUsername_eq_ok willFits inside).mp isRead
  obtain ⟨read, isRead, returns⟩ := bind_eq_ok.mp returns
  obtain ⟨password, afterPassword, isPassword, rfl, passwordFits,
    spellsPassword⟩ := (readPassword_eq_ok usernameFits inside).mp isRead
  obtain ⟨isEnd, returns⟩ := malformedIf_bind_eq_ok.mp returns
  obtain rfl := Except.ok.inj returns
  rw [not_not] at isEnd
  dsimp only at isEnd
  subst isEnd isFlagged
  rw [← isUsername, ← isPassword] at isOctet hasUsername
  obtain ⟨first, isFirst⟩ : ∃ byte, data[cursor + 8]? = some byte :=
    ⟨_, List.getElem?_eq_getElem (by omega)⟩
  obtain ⟨second, isSecond⟩ : ∃ byte, data[cursor + 9]? = some byte :=
    ⟨_, List.getElem?_eq_getElem (by omega)⟩
  obtain ⟨packet, isPacket⟩ :
      ∃ packet : ConnectPacket, packet = {
        five := five
        cleanStart := cleanStart
        keepAlive := (first, second)
        properties := found
        client := client
        will := will
        username := username
        password := password
        hasProperties := hasProperties
        willProperties := areFive
        hasUsername := hasUsername
      } := ⟨_, rfl⟩
  have isHeader : Spells data cursor (cursor + 10) packet.header := by
    have nameSpelled := spells_extract (Nat.le_add_right cursor 6)
      (by omega : cursor + 6 ≤ data.length)
    rw [isName.2] at nameSpelled
    subst isPacket
    exact spells_header.mpr
      ⟨nameSpelled, (octetAt_eq_ok.mp isVersion).2,
        isOctet ▸ (octetAt_eq_ok.mp isFlagOctet).2, isFirst, isSecond, rfl⟩
  refine ⟨packet, spells_body.mpr ⟨isHeader, ?_⟩, ?_⟩
  · subst isPacket
    exact ⟨_, afterClient, afterWill, afterUsername, properties, isClient,
      spellsWill, spellsName, spellsPassword⟩
  · obtain ⟨isStart, isStop⟩ :=
      @credentials_placed data cursor afterPassword packet afterWill
        afterUsername (isPacket ▸ spellsName) (isPacket ▸ spellsPassword)
    subst isPacket
    dsimp only at isStart isStop
    simp only [Option.isSome_map]
    rw [← isStart, ← isStop]
    cases username <;> cases password <;> rfl

theorem ConnectPacket.version_known (packet : ConnectPacket) :
    packet.version = 4 ∨ packet.version = 5 := by
  unfold version
  cases packet.five with
  | false => exact .inl rfl
  | true => exact .inr rfl

/-- A packet is read from the frame in which it is spelled. -/
theorem parseFrame_packet
    {packet : ConnectPacket}
    (spells : Spells data cursor frameEnd packet.body) :
    parseFrame data cursor frameEnd =
      .ok (packet.connectBetween cursor frameEnd) := by
  have inside := spells.last_le
  obtain ⟨isHeader, afterProperties, afterClient, afterWill, afterUsername,
    properties, client, will, username, password⟩ := spells_body.mp spells
  obtain ⟨isName, isVersion, isFlags, -, -, -⟩ := spells_header.mp isHeader
  have willBefore := username.1.trans password.1
  have clientBefore := will.1.trans willBefore
  have propertiesBefore := client.1.trans clientBefore
  have headerBefore := properties.1.trans propertiesBefore
  have known := packet.version_known
  have versionRead : octetAt data (cursor + 6) = .ok packet.version :=
    octetAt_eq_ok.mpr ⟨by omega, isVersion⟩
  obtain ⟨flags, isOctet⟩ :
      ∃ flags,
        flags =
          flagOctet packet.cleanStart (packet.will.map Prod.fst)
            packet.password.isSome packet.username.isSome :=
    ⟨_, rfl⟩
  rw [← isOctet] at isFlags
  have flagsSmall : flags < 256 := isOctet ▸ flagOctet_lt _ _ _ _
  have flagsRead :
      readFlags packet.version flags =
        .ok ⟨packet.will.isSome, packet.username.isSome,
          packet.password.isSome⟩ :=
    (readFlags_eq_ok flagsSmall).mpr
      ⟨packet.cleanStart, packet.will.map Prod.fst, isOctet,
        Option.isSome_map, packet.hasUsername⟩
  have isStop := PropertySection.elim_stop properties
  obtain ⟨isStart, isEnd⟩ :=
    @credentials_placed data cursor frameEnd packet afterWill afterUsername
      username password
  subst isStop
  unfold parseFrame
  rw [malformedIf_bind_eq_ok, not_or, not_not]
  refine ⟨⟨by omega, isName.2.2⟩, ?_⟩
  rw [versionRead, ok_bind, malformedIf_bind_eq_ok]
  refine ⟨by omega, ?_⟩
  rw [octetAt_eq_ok.mpr ⟨flagsSmall, isFlags⟩, ok_bind, flagsRead, ok_bind]
  dsimp only
  rw [bind_eq_ok]
  refine ⟨_, (optionalProperties_eq_ok headerBefore inside).mpr
    ⟨packet.properties, packet.hasProperties, rfl, propertiesBefore,
      properties⟩, ?_⟩
  rw [bind_eq_ok]
  refine ⟨_, (field_string_eq_ok inside).mpr
    ⟨packet.client, afterClient, rfl, clientBefore, client⟩, ?_⟩
  dsimp only
  rw [← @Option.isSome_map _ _ Prod.fst packet.will, bind_eq_ok]
  refine ⟨afterWill, (optionalWill_eq_ok clientBefore inside).mpr
    ⟨packet.will, rfl, packet.willProperties, willBefore, will⟩, ?_⟩
  rw [bind_eq_ok]
  refine ⟨_, (readUsername_eq_ok willBefore inside).mpr
    ⟨packet.username, afterUsername, rfl, rfl, password.1, username⟩, ?_⟩
  rw [bind_eq_ok]
  refine ⟨_, (readPassword_eq_ok password.1 inside).mpr
    ⟨packet.password, frameEnd, rfl, rfl, le_rfl, password⟩, ?_⟩
  rw [malformedIf_bind_eq_ok]
  refine ⟨not_not.mpr rfl, ?_⟩
  refine congrArg Except.ok ?_
  simp only [Option.isSome_map]
  rw [← isStart, ← isEnd]
  unfold ConnectPacket.connectBetween
  cases packet.username <;> cases packet.password <;> rfl

theorem spells_bytes
    {packet : ConnectPacket}
    {last : Nat} :
    Spells data 0 last packet.bytes ↔
      octetAt data 0 = .ok 0x10 ∧
        ∃ cursor,
          Spells data 1 cursor (varintBytes 4 packet.body.length) ∧
            Spells data cursor last packet.body := by
  unfold ConnectPacket.bytes
  rw [spells_cons, spells_append, octetAt_eq_ok]
  exact ⟨fun spells => ⟨⟨by decide, spells.1⟩, spells.2⟩,
    fun spells => ⟨spells.1.2, spells.2⟩⟩

/--
The parser returns a packet exactly if the data begins with the bytes of one,
and these are not too many.
-/
theorem parseMqttConnect_eq_some
    {connect : MqttConnect} :
    parseMqttConnect data = .ok (some connect) ↔
      ∃ packet : ConnectPacket,
        packet.bytes <+: data ∧
          packet.bytes.length ≤ maxConnectBytes ∧
          packet.connect = connect := by
  unfold parseMqttConnect
  constructor
  · intro returns
    split at returns
    · cases returns
    obtain ⟨header, isHeader, returns⟩ := bind_eq_ok.mp returns
    obtain ⟨isConnect, returns⟩ := malformedIf_bind_eq_ok.mp returns
    obtain ⟨number, isNumber, returns⟩ := bind_eq_ok.mp returns
    rw [not_not.mp isConnect] at isHeader
    split at returns
    · cases returns
    case h_2 remaining cursor =>
    dsimp only at returns
    split at returns
    · cases returns
    case isFalse bounded =>
    split at returns
    · cases returns
    case isFalse whole =>
    obtain ⟨-, -, isSize⟩ := varint_eq_some.mp isNumber
    rw [not_lt] at bounded whole
    rw [map_eq_pure_bind] at returns
    obtain ⟨found, isFound, returns⟩ := bind_eq_ok.mp returns
    obtain rfl := Option.some.inj (Except.ok.inj returns)
    obtain ⟨packet, spells, rfl⟩ := exists_packet whole isFound
    obtain rfl : remaining = packet.body.length := by
      have ends := spells.last_eq
      omega
    have isBytes := spells_bytes.mpr ⟨isHeader, cursor, isSize, spells⟩
    obtain ⟨isPrefix, isLength⟩ := spells_zero.mp isBytes
    refine ⟨packet, isPrefix, isLength ▸ bounded, ?_⟩
    unfold ConnectPacket.connect
    rw [← isLength, isSize.last_eq]
  · rintro ⟨packet, isPrefix, bounded, rfl⟩
    obtain ⟨isHeader, cursor, isSize, spells⟩ :=
      spells_bytes.mp (spells_zero.mpr ⟨isPrefix, rfl⟩)
    have isCursor := isSize.last_eq
    have isEnd := spells.last_eq
    have inside := spells.last_le
    have small : packet.body.length < 128 ^ 4 := by
      unfold maxConnectBytes at bounded
      omega
    rw [if_neg, isHeader, ok_bind, malformedIf_bind_eq_ok,
      varint_eq_some.mpr ⟨small, spells.1.trans inside, isSize⟩, ok_bind]
    · dsimp only
      rw [← isEnd, if_neg (Nat.not_lt.mpr bounded),
        if_neg (Nat.not_lt.mpr inside), parseFrame_packet spells]
      refine ⟨not_not.mpr rfl, ?_⟩
      unfold ConnectPacket.connect
      rw [← isCursor]
      rfl
    · rintro rfl
      cases isHeader

end Frames

end PacketAudit
