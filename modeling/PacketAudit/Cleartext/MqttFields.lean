import PacketAudit.Cleartext.Mqtt

namespace PacketAudit

/-!
# What the MQTT readers accept

Each reader succeeds exactly where the data spells something: the octets of a
number, or a counted string.
-/

open Library

section Numbers

variable {data : Bytes}

theorem octetAt_eq_ok {position octet : Nat} :
    octetAt data position = .ok octet ↔
      octet < 256 ∧ data[position]? = some (UInt8.ofNat octet) := by
  unfold octetAt
  constructor
  · intro returns
    split at returns
    case h_1 byte isByte =>
      obtain rfl := Except.ok.inj returns
      refine ⟨byte.toNat_lt, ?_⟩
      rw [isByte, UInt8.ofNat_toNat]
    case h_2 =>
      cases returns
  · rintro ⟨small, isByte⟩
    rw [isByte]
    exact congrArg _ (UInt8.toNat_ofNat_of_lt small)

theorem octetAt_of_lt
    {position : Nat}
    (inside : position < data.length) :
    ∃ octet, octetAt data position = .ok octet := by
  unfold octetAt
  rw [List.getElem?_eq_getElem inside]
  exact ⟨_, rfl⟩

/-- What follows a check is reached when the check does not fail. -/
theorem malformedIf_bind_eq_ok
    {α : Type}
    {condition : Prop}
    [Decidable condition]
    {message : String}
    {continuation : Unit → Except MqttFault α}
    {result : α} :
    malformedIf condition message >>= continuation = .ok result ↔
      ¬ condition ∧ continuation () = .ok result := by
  unfold malformedIf
  split
  case isTrue fails =>
    constructor
    · intro returns
      cases returns
    · rintro ⟨passes, -⟩
      exact absurd fails passes
  case isFalse passes =>
    rw [ok_bind]
    exact (and_iff_right passes).symm

theorem bigEndian_lt (piece : Bytes) :
    bigEndian piece < 256 ^ piece.length := by
  induction piece using List.reverseRecOn with
  | nil => exact Nat.one_pos
  | append_singleton front last inductionHypothesis =>
      have small := last.toNat_lt
      rw [bigEndian_concat, List.length_append, List.length_singleton,
        pow_succ]
      omega

theorem bigEndianBytes_bigEndian (piece : Bytes) :
    bigEndianBytes piece.length (bigEndian piece) = piece := by
  induction piece using List.reverseRecOn with
  | nil => rfl
  | append_singleton front last inductionHypothesis =>
      have small := last.toNat_lt
      have isLast :
          UInt8.ofNat (bigEndian front * 256 + last.toNat) = last := by
        rw [← UInt8.toNat_inj, UInt8.toNat_ofNat']
        omega
      have isFront :
          (bigEndian front * 256 + last.toNat) / 256 = bigEndian front := by
        omega
      rw [bigEndian_concat, List.length_append, List.length_singleton,
        bigEndianBytes, isFront, inductionHypothesis, isLast]

/-- A number of some bytes is read where it is spelled. -/
theorem spells_bigEndianBytes
    {first count value : Nat}
    (inside : first + count ≤ data.length) :
    Spells data first (first + count) (bigEndianBytes count value) ∧
        value < 256 ^ count ↔
      bigEndian (data.extract first (first + count)) = value := by
  constructor
  · rintro ⟨spells, small⟩
    rw [spells.2.2, bigEndian_bigEndianBytes, Nat.mod_eq_of_lt small]
  · rintro rfl
    have spells := spells_extract (Nat.le_add_right first count) inside
    have length : (data.extract first (first + count)).length = count := by
      have stops := spells.last_eq
      omega
    have isPiece := bigEndianBytes_bigEndian
      (data.extract first (first + count))
    have small := bigEndian_lt (data.extract first (first + count))
    rw [length] at isPiece small
    rw [isPiece]
    exact ⟨spells, small⟩

end Numbers

/-! ## Variable byte integers -/

/-- A number in as few octets as it takes, the lowest first. -/
def varintBytes : (rounds value : Nat) → Bytes
  | 0, _ => []
  | rounds + 1, value =>
      if value < 128 then
        [UInt8.ofNat value]
      else
        UInt8.ofNat (value % 128 + 128) :: varintBytes rounds (value / 128)

section Varints

variable {data : Bytes}
variable {stop : Nat}

/-- What one octet does to the loop. -/
theorem varintLoop_succ_eq_some
    {rounds position low multiplier value after : Nat} :
    varintLoop data stop (rounds + 1) position low multiplier =
        .ok (some (value, after)) ↔
      position < stop ∧
        ∃ octet,
          octetAt data position = .ok octet ∧
            if octet < 0x80 then
              ¬ (1 < 4 - rounds ∧
                  low + octet * multiplier < 128 ^ (4 - rounds - 1)) ∧
                low + octet * multiplier = value ∧ position + 1 = after
            else
              varintLoop data stop rounds (position + 1)
                  (low + octet % 128 * multiplier) (multiplier * 128) =
                .ok (some (value, after)) := by
  have isLow (octet : Nat) : octet &&& 0x7F = octet % 128 :=
    Nat.and_two_pow_sub_one_eq_mod octet 7
  rw [varintLoop]
  split
  case isTrue ended =>
    constructor
    · intro returns
      cases returns
    · rintro ⟨before, -⟩
      exact absurd before (Nat.not_lt.mpr ended)
  case isFalse before =>
    rw [bind_eq_ok, and_iff_right (Nat.not_le.mp before)]
    refine exists_congr fun octet => and_congr_right fun _ => ?_
    dsimp only
    rw [isLow]
    split
    case isTrue last =>
      rw [malformedIf_bind_eq_ok, Nat.mod_eq_of_lt last]
      refine and_congr_right fun _ => ?_
      constructor
      · intro returns
        cases returns
        exact ⟨rfl, rfl⟩
      · rintro ⟨rfl, rfl⟩
        rfl
    case isFalse =>
      rfl

/-- A number is spelled octet by octet. -/
theorem spells_varintBytes_succ
    {rounds position after high : Nat}
    (small : high < 128 ^ (rounds + 1)) :
    Spells data position after (varintBytes (rounds + 1) high) ↔
      ∃ octet,
        octetAt data position = .ok octet ∧
          if octet < 0x80 then
            octet = high ∧ position + 1 = after
          else
            128 ≤ high ∧ octet % 128 = high % 128 ∧
              Spells data (position + 1) after
                (varintBytes rounds (high / 128)) := by
  simp only [octetAt_eq_ok]
  rw [varintBytes]
  split
  case isTrue last =>
    rw [spells_singleton]
    constructor
    · rintro ⟨isOctet, rfl⟩
      refine ⟨high, ⟨by omega, isOctet⟩, ?_⟩
      rw [if_pos last]
      exact ⟨rfl, rfl⟩
    · rintro ⟨octet, ⟨-, isOctet⟩, ends⟩
      split at ends
      · obtain ⟨rfl, rfl⟩ := ends
        exact ⟨isOctet, rfl⟩
      · omega
  case isFalse more =>
    rw [spells_cons]
    constructor
    · rintro ⟨isOctet, spells⟩
      refine ⟨high % 128 + 128, ⟨by omega, isOctet⟩, ?_⟩
      rw [if_neg (by omega)]
      exact ⟨by omega, by omega, spells⟩
    · rintro ⟨octet, ⟨byte, isOctet⟩, continues⟩
      split at continues
      · omega
      · obtain ⟨-, isRest, spells⟩ := continues
        have isSum : octet = high % 128 + 128 := by omega
        exact ⟨isSum ▸ isOctet, spells⟩

/-- In the middle of a number the loop reads what is left of it. -/
theorem varintLoop_eq_some
    {rounds position low value after : Nat}
    (fewer : rounds ≤ 4)
    (small : low < 128 ^ (4 - rounds)) :
    varintLoop data stop rounds position low (128 ^ (4 - rounds)) =
        .ok (some (value, after)) ↔
      ∃ high,
        high < 128 ^ rounds ∧
          (rounds < 4 → 0 < high) ∧
          low + high * 128 ^ (4 - rounds) = value ∧
          after ≤ stop ∧
          Spells data position after (varintBytes rounds high) := by
  induction rounds generalizing position low with
  | zero =>
      constructor
      · intro returns
        cases returns
      · rintro ⟨high, less, positive, -⟩
        rw [pow_zero] at less
        have more := positive (by decide)
        omega
  | succ rounds inductionHypothesis =>
      have width : 4 - rounds = 4 - (rounds + 1) + 1 := by omega
      have isNext :
          128 ^ (4 - (rounds + 1)) * 128 = 128 ^ (4 - rounds) := by
        rw [width, pow_succ]
      have next (octet : Nat) :
          low + octet % 128 * 128 ^ (4 - (rounds + 1)) <
            128 ^ (4 - rounds) := by
        have bounded := Nat.mod_lt octet (by decide : 0 < 128)
        calc low + octet % 128 * 128 ^ (4 - (rounds + 1))
            < 128 ^ (4 - (rounds + 1)) +
                octet % 128 * 128 ^ (4 - (rounds + 1)) := by omega
          _ = (octet % 128 + 1) * 128 ^ (4 - (rounds + 1)) := by ring
          _ ≤ 128 * 128 ^ (4 - (rounds + 1)) :=
              Nat.mul_le_mul_right _ (by omega)
          _ = 128 ^ (4 - rounds) := by rw [← isNext, Nat.mul_comm]
      rw [varintLoop_succ_eq_some, isNext]
      simp only [inductionHypothesis (by omega) (next _)]
      constructor
      · rintro ⟨before, octet, isOctet, continues⟩
        split at continues
        case isTrue last =>
          obtain ⟨minimal, rfl, rfl⟩ := continues
          have less : octet < 128 ^ (rounds + 1) :=
            lt_of_lt_of_le last (Nat.le_self_pow (Nat.succ_ne_zero _) _)
          refine ⟨octet, less, ?_, rfl, before,
            (spells_varintBytes_succ less).mpr ⟨octet, isOctet, ?_⟩⟩
          · intro wide
            rcases Nat.eq_zero_or_pos octet with rfl | positive
            · refine absurd ⟨by omega, ?_⟩ minimal
              rw [Nat.zero_mul, Nat.add_zero, width, Nat.add_sub_cancel]
              exact small
            · exact positive
          · rw [if_pos last]
            exact ⟨rfl, rfl⟩
        case isFalse more =>
          obtain ⟨high, less, positive, rfl, inside, spells⟩ := continues
          have positive := positive (by omega)
          have whole : octet % 128 + 128 * high < 128 ^ (rounds + 1) := by
            rw [pow_succ]
            omega
          refine ⟨octet % 128 + 128 * high, whole, fun _ => by omega, ?_,
            inside, (spells_varintBytes_succ whole).mpr
              ⟨octet, isOctet, ?_⟩⟩
          · rw [← isNext]
            ring
          · rw [if_neg more]
            refine ⟨by omega, by omega, ?_⟩
            have isHigh : (octet % 128 + 128 * high) / 128 = high := by omega
            rw [isHigh]
            exact spells
      · rintro ⟨high, less, positive, rfl, inside, spells⟩
        obtain ⟨octet, isOctet, continues⟩ :=
          (spells_varintBytes_succ less).mp spells
        have before : position < stop := by
          have stops := spells.last_eq
          have positive : 0 < (varintBytes (rounds + 1) high).length := by
            rw [varintBytes]
            split <;> exact Nat.succ_pos _
          omega
        refine ⟨before, octet, isOctet, ?_⟩
        split at continues
        case isTrue last =>
          obtain ⟨rfl, rfl⟩ := continues
          rw [if_pos last]
          refine ⟨?_, rfl, rfl⟩
          rintro ⟨wide, short⟩
          have positive := positive (by omega)
          have grows :=
            Nat.le_mul_of_pos_left (128 ^ (4 - (rounds + 1))) positive
          rw [width, Nat.add_sub_cancel] at short
          omega
        case isFalse more =>
          obtain ⟨large, isLow, rest⟩ := continues
          rw [if_neg more, isLow]
          refine ⟨high / 128, ?_, fun _ => by omega, ?_, inside, rest⟩
          · rw [pow_succ] at less
            omega
          · have split : high = high % 128 + 128 * (high / 128) := by omega
            conv_rhs => rw [split]
            rw [← isNext]
            ring

/-- A number is read where its shortest spelling stands. -/
theorem varint_eq_some {position value after : Nat} :
    varint data position stop = .ok (some (value, after)) ↔
      value < 128 ^ 4 ∧
        after ≤ stop ∧ Spells data position after (varintBytes 4 value) := by
  have loop :=
    @varintLoop_eq_some data stop 4 position 0 value after le_rfl Nat.one_pos
  rw [Nat.sub_self, pow_zero] at loop
  unfold varint
  rw [loop]
  constructor
  · rintro ⟨high, less, -, rfl, inside, spells⟩
    rw [Nat.mul_one, Nat.zero_add]
    exact ⟨less, inside, spells⟩
  · rintro ⟨less, inside, spells⟩
    exact ⟨value, less, fun ended => absurd ended (lt_irrefl 4), by omega,
      inside, spells⟩

theorem varintBytes_ne_nil (rounds value : Nat) :
    varintBytes (rounds + 1) value ≠ [] := by
  rw [varintBytes]
  split <;> exact List.cons_ne_nil _ _

/-- With fewer bytes the loop waits for the rest of the number. -/
theorem varintLoop_take
    {rounds position low multiplier value after shorter : Nat}
    (reads :
      varintLoop data stop rounds position low multiplier =
        .ok (some (value, after)))
    (begun : position ≤ shorter)
    (short : shorter < after) :
    varintLoop (data.take shorter) shorter rounds position low multiplier =
      .ok none := by
  induction rounds generalizing position low multiplier with
  | zero => cases reads
  | succ rounds inductionHypothesis =>
      obtain ⟨-, octet, isOctet, continues⟩ :=
        varintLoop_succ_eq_some.mp reads
      rw [varintLoop]
      rcases Nat.eq_or_lt_of_le begun with rfl | before
      · rw [if_pos le_rfl]
        rfl
      · have taken : octetAt (data.take shorter) position = .ok octet := by
          rw [octetAt_eq_ok, List.getElem?_take_of_lt before]
          exact octetAt_eq_ok.mp isOctet
        have isLow : octet &&& 0x7F = octet % 128 :=
          Nat.and_two_pow_sub_one_eq_mod octet 7
        split at continues
        case isTrue last =>
          omega
        case isFalse more =>
          rw [if_neg (Nat.not_le.mpr before), taken, ok_bind]
          dsimp only
          rw [if_neg more, isLow]
          exact inductionHypothesis continues before

end Varints

/-! ## Strings and binary data -/

/-- Binary data whose length fits into two bytes. -/
structure MqttBinary where
  bytes : Bytes
  short : bytes.length < 256 ^ 2
  deriving DecidableEq

/-- A string of a packet: valid UTF-8 without a null. -/
structure MqttString where
  text : Text
  bytes : Bytes
  short : bytes.length < 256 ^ 2
  decodes : decodeUtf8 bytes = some text
  noNull : 0 ∉ text
  deriving DecidableEq

/-- Bytes behind their two-byte length. -/
def lengthPrefixed (piece : Bytes) : Bytes :=
  bigEndianBytes 2 piece.length ++ piece

theorem length_lengthPrefixed (piece : Bytes) :
    (lengthPrefixed piece).length = piece.length + 2 := by
  unfold lengthPrefixed
  rw [List.length_append, length_bigEndianBytes, Nat.add_comm]

section Fields

variable {data : Bytes}
variable {position stop : Nat}

/-- Bytes stand behind their length where the length is read. -/
theorem spells_lengthPrefixed
    {piece : Bytes}
    {after : Nat}
    (inside : position + 2 ≤ data.length) :
    Spells data position after (lengthPrefixed piece) ∧
        piece.length < 256 ^ 2 ↔
      bigEndian (data.extract position (position + 2)) = piece.length ∧
        Spells data (position + 2) after piece := by
  unfold lengthPrefixed
  rw [← spells_bigEndianBytes inside, spells_append]
  constructor
  · rintro ⟨⟨middle, length, spells⟩, short⟩
    have ends := length.last_eq
    rw [length_bigEndianBytes] at ends
    subst ends
    exact ⟨⟨length, short⟩, spells⟩
  · rintro ⟨⟨length, short⟩, spells⟩
    exact ⟨⟨_, length, spells⟩, short⟩

/-- Binary data is read where it stands behind its length. -/
theorem field_binary_eq_ok
    {read : MqttField}
    (inside : stop ≤ data.length) :
    field data position stop false = .ok read ↔
      ∃ (binary : MqttBinary) (after : Nat),
        read = ⟨binary.bytes, none, position + 2, after⟩ ∧
          after ≤ stop ∧
          Spells data position after (lengthPrefixed binary.bytes) := by
  unfold field
  rw [malformedIf_bind_eq_ok]
  dsimp only
  rw [malformedIf_bind_eq_ok, if_pos rfl]
  constructor
  · rintro ⟨hasLength, fits, returns⟩
    obtain rfl := Except.ok.inj returns
    rw [not_lt] at hasLength fits
    have spells :=
      spells_extract
        (Nat.le_add_right (position + 2)
          (bigEndian (data.extract position (position + 2))))
        (fits.trans inside)
    have length := spells.last_eq
    obtain ⟨counted, short⟩ :=
      (spells_lengthPrefixed (hasLength.trans inside)).mpr
        ⟨by omega, spells⟩
    exact ⟨⟨_, short⟩, _, rfl, fits, counted⟩
  · rintro ⟨binary, after, rfl, fits, spells⟩
    have ends := spells.last_eq
    rw [length_lengthPrefixed] at ends
    obtain ⟨isLength, isPiece⟩ :=
      (spells_lengthPrefixed (by omega)).mp ⟨spells, binary.short⟩
    have isAfter : position + 2 + binary.bytes.length = after := by omega
    rw [isLength, isAfter, isPiece.2.2]
    exact ⟨by omega, by omega, rfl⟩

/-- A string is binary data that is valid UTF-8 without a null. -/
theorem field_utf8_eq_ok
    {read : MqttField} :
    field data position stop true = .ok read ↔
      ∃ decoded,
        field data position stop false = .ok { read with decoded := none } ∧
          decodeUtf8 read.raw = some decoded ∧
          0 ∉ decoded ∧ read.decoded = some decoded := by
  have isField (decoded : Option Text) :
      (⟨read.raw, decoded, read.start, read.after⟩ : MqttField) =
        { read with decoded := decoded } := rfl
  unfold field
  simp only [malformedIf_bind_eq_ok, if_true, Bool.true_eq_false, if_false]
  constructor
  · rintro ⟨hasLength, fits, returns⟩
    split at returns
    · cases returns
    case h_2 decoded decodes =>
      obtain ⟨noNull, returns⟩ := malformedIf_bind_eq_ok.mp returns
      obtain rfl := Except.ok.inj returns
      exact ⟨decoded, ⟨hasLength, fits, rfl⟩, decodes, noNull, rfl⟩
  · rintro ⟨decoded, ⟨hasLength, fits, returns⟩, decodes, noNull, isDecoded⟩
    have same := Except.ok.inj returns
    simp only [MqttField.mk.injEq] at same
    obtain ⟨isRaw, -, isStart, isAfter⟩ := same
    refine ⟨hasLength, fits, ?_⟩
    rw [isRaw, decodes]
    dsimp only
    rw [malformedIf_bind_eq_ok, ← isDecoded, isAfter]
    refine ⟨noNull, ?_⟩
    rw [isStart]
    rfl

/-- A string is read where it stands behind its length. -/
theorem field_string_eq_ok
    {read : MqttField}
    (inside : stop ≤ data.length) :
    field data position stop true = .ok read ↔
      ∃ (string : MqttString) (after : Nat),
        read = ⟨string.bytes, some string.text, position + 2, after⟩ ∧
          after ≤ stop ∧
          Spells data position after (lengthPrefixed string.bytes) := by
  rw [field_utf8_eq_ok]
  simp only [field_binary_eq_ok inside]
  obtain ⟨raw, found, start, ends⟩ := read
  simp only [MqttField.mk.injEq, true_and]
  constructor
  · rintro ⟨decoded, ⟨binary, after, ⟨rfl, rfl, rfl⟩, fits, spells⟩, decodes,
      noNull, rfl⟩
    exact ⟨⟨decoded, binary.bytes, binary.short, decodes, noNull⟩, ends,
      ⟨rfl, rfl, rfl, rfl⟩, fits, spells⟩
  · rintro ⟨string, after, ⟨rfl, rfl, rfl, rfl⟩, fits, spells⟩
    exact ⟨string.text, ⟨⟨string.bytes, string.short⟩, ends,
      ⟨rfl, rfl, rfl⟩, fits, spells⟩, string.decodes, string.noNull, rfl⟩

end Fields

end PacketAudit
