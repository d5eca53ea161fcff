import PacketAudit.Cleartext.MqttConnect

namespace PacketAudit

/-!
# The MQTT parser on growing data

A verdict of the parser other than that it needs more data does not depend on
what follows: every reader looks only at the section it is given.  The parser
raises its own exceptions only.
-/

open Library

/-- What follows a fault is not run. -/
theorem error_bind
    {ε α β : Type}
    (fault : ε)
    (next : α → Except ε β) :
    (Except.error fault >>= next) = Except.error fault := rfl

section Local

variable {data : Bytes}
variable {stop : Nat}
variable (more : Bytes)

theorem extract_append_inside
    {first last : Nat}
    (inside : last ≤ data.length) :
    (data ++ more).extract first last = data.extract first last := by
  rw [List.extract_eq_take_drop, List.extract_eq_take_drop]
  rcases Nat.le_total first data.length with before | behind
  · rw [List.drop_append_of_le_length before,
      List.take_append_of_le_length (by rw [List.length_drop]; omega)]
  · rw [Nat.sub_eq_zero_of_le (inside.trans behind), List.take_zero,
      List.take_zero]

theorem octetAt_append
    {position : Nat}
    (inside : position < data.length) :
    octetAt (data ++ more) position = octetAt data position := by
  unfold octetAt
  rw [List.getElem?_append_left inside]

/-- What follows a check needs to agree only where the check passes. -/
theorem malformedIf_bind_congr
    {α : Type}
    {condition : Prop}
    [Decidable condition]
    {message : String}
    {first second : Unit → Except MqttFault α}
    (agree : ¬ condition → first () = second ()) :
    malformedIf condition message >>= first =
      malformedIf condition message >>= second := by
  unfold malformedIf
  split
  case isTrue => rfl
  case isFalse passes => exact agree passes

theorem varintLoop_append
    {rounds position value multiplier : Nat}
    (inside : stop ≤ data.length) :
    varintLoop (data ++ more) stop rounds position value multiplier =
      varintLoop data stop rounds position value multiplier := by
  induction rounds generalizing position value multiplier with
  | zero => rfl
  | succ rounds inductionHypothesis =>
      rw [varintLoop, varintLoop]
      split
      case isTrue => rfl
      case isFalse before =>
        simp only [octetAt_append more (by omega : position < data.length),
          inductionHypothesis]

/-- A verdict about a number does not depend on the end of the section. -/
theorem varintLoop_longer
    {rounds position value multiplier longer : Nat}
    (longerStop : stop ≤ longer)
    (decided :
      varintLoop data stop rounds position value multiplier ≠ .ok none) :
    varintLoop data longer rounds position value multiplier =
      varintLoop data stop rounds position value multiplier := by
  induction rounds generalizing position value multiplier with
  | zero => rfl
  | succ rounds inductionHypothesis =>
      rw [varintLoop] at decided ⊢
      rw [varintLoop]
      split at decided
      · exact absurd rfl decided
      case isFalse before =>
        rw [if_neg before, if_neg (by omega)]
        cases isOctet : octetAt data position with
        | error fault => rfl
        | ok octet =>
            rw [isOctet, ok_bind] at decided
            rw [ok_bind, ok_bind]
            dsimp only at decided ⊢
            split
            case isTrue => rfl
            case isFalse more =>
              rw [if_neg more] at decided
              exact inductionHypothesis decided

theorem field_append
    {position : Nat}
    {utf8 : Bool}
    (inside : stop ≤ data.length) :
    field (data ++ more) position stop utf8 = field data position stop utf8 := by
  unfold field
  refine malformedIf_bind_congr fun hasLength => ?_
  rw [extract_append_inside more (by omega)]
  refine malformedIf_bind_congr fun fits => ?_
  rw [extract_append_inside more (by omega)]

theorem readNumber_append
    {will : Bool}
    {identifier width cursor : Nat}
    {kind : PropertyKind}
    (inside : stop ≤ data.length) :
    readNumber (data ++ more) stop will identifier kind width cursor =
      readNumber data stop will identifier kind width cursor := by
  unfold readNumber
  refine malformedIf_bind_congr fun fits => ?_
  rw [extract_append_inside more (by omega)]

theorem readValue_append
    {will : Bool}
    {identifier : Nat}
    {scan : PropertyScan}
    {kind : PropertyKind}
    (inside : stop ≤ data.length) :
    readValue (data ++ more) stop will scan identifier kind =
      readValue data stop will scan identifier kind := by
  unfold readValue
  simp only [readNumber_append more inside, field_append more inside]

theorem readProperty_append
    {will : Bool}
    {scan : PropertyScan}
    (inside : stop ≤ data.length)
    (before : scan.cursor < stop) :
    readProperty (data ++ more) stop will scan =
      readProperty data stop will scan := by
  unfold readProperty
  simp only [octetAt_append more (before.trans_le inside),
    readValue_append more inside]

theorem propertyLoop_append
    {will : Bool}
    {rounds : Nat}
    {scan : PropertyScan}
    (inside : stop ≤ data.length) :
    propertyLoop (data ++ more) stop will rounds scan =
      propertyLoop data stop will rounds scan := by
  induction rounds generalizing scan with
  | zero => rfl
  | succ rounds inductionHypothesis =>
      unfold propertyLoop
      split
      case isTrue before =>
        simp only [readProperty_append more inside before,
          inductionHypothesis]
      case isFalse => rfl

theorem properties_append
    {will : Bool}
    {position : Nat}
    (inside : stop ≤ data.length) :
    properties (data ++ more) position stop will =
      properties data position stop will := by
  unfold properties varint
  rw [varintLoop_append more inside]
  refine bind_congr fun number => ?_
  split
  · rfl
  case h_2 size cursor =>
    refine malformedIf_bind_congr fun fits => ?_
    rw [propertyLoop_append more (by omega)]

theorem optionalProperties_append
    {will : Bool}
    {version cursor : Nat}
    (inside : stop ≤ data.length) :
    optionalProperties (data ++ more) version cursor stop will =
      optionalProperties data version cursor stop will := by
  unfold optionalProperties
  rw [properties_append more inside]

theorem optionalWill_append
    {present : Bool}
    {version cursor : Nat}
    (inside : stop ≤ data.length) :
    optionalWill (data ++ more) present version cursor stop =
      optionalWill data present version cursor stop := by
  unfold optionalWill readWill
  simp only [optionalProperties_append more inside, field_append more inside]

theorem readOptional_append
    {present utf8 : Bool}
    {cursor : Nat}
    (inside : stop ≤ data.length) :
    readOptional (data ++ more) present cursor stop utf8 =
      readOptional data present cursor stop utf8 := by
  unfold readOptional
  rw [field_append more inside]

/-- A frame is read without what follows it. -/
theorem parseFrame_append
    {cursor : Nat}
    (inside : stop ≤ data.length) :
    parseFrame (data ++ more) cursor stop = parseFrame data cursor stop := by
  unfold parseFrame
  by_cases short : stop < cursor + 10
  · have fails
        (piece : Bytes) :
        stop < cursor + 10 ∨ piece ≠ protocolName := .inl short
    unfold malformedIf
    rw [if_pos (fails _), if_pos (fails _), error_bind, error_bind]
  · rw [extract_append_inside more (by omega),
      octetAt_append more (by omega), octetAt_append more (by omega)]
    simp only [optionalProperties_append more inside,
      field_append more inside, optionalWill_append more inside,
      readOptional_append more inside]

/-- A verdict of the parser does not depend on what follows. -/
theorem parseMqttConnect_append
    (decided : parseMqttConnect data ≠ .ok none) :
    parseMqttConnect (data ++ more) = parseMqttConnect data := by
  unfold parseMqttConnect at decided ⊢
  split at decided
  · exact absurd rfl decided
  case isFalse notEmpty =>
  have hasHeader := List.length_pos_iff.mpr notEmpty
  have longer : data.length ≤ (data ++ more).length := by
    rw [List.length_append]
    omega
  rw [if_neg notEmpty, if_neg (List.append_ne_nil_of_left_ne_nil notEmpty _),
    octetAt_append more hasHeader]
  cases isHeader : octetAt data 0 with
  | error fault => rw [error_bind, error_bind]
  | ok header =>
  rw [isHeader, ok_bind] at decided
  rw [ok_bind, ok_bind]
  refine malformedIf_bind_congr fun isConnect => ?_
  unfold malformedIf at decided
  rw [if_neg isConnect, ok_bind] at decided
  have undecided :
      varint data 1 data.length ≠ .ok none := by
    intro waits
    rw [waits] at decided
    exact decided rfl
  have same :
      varint (data ++ more) 1 (data ++ more).length =
        varint data 1 data.length := by
    have isLocal :
        varint (data ++ more) 1 data.length = varint data 1 data.length :=
      varintLoop_append more le_rfl
    exact (varintLoop_longer longer fun waits =>
      undecided (isLocal.symm.trans waits)).trans isLocal
  rw [same]
  cases isNumber : varint data 1 data.length with
  | error fault => rw [error_bind, error_bind]
  | ok number =>
  rw [isNumber, ok_bind] at decided
  rw [ok_bind, ok_bind]
  cases number with
  | none => exact absurd rfl decided
  | some found =>
  dsimp only at decided ⊢
  split
  case isTrue => rfl
  case isFalse bounded =>
  rw [if_neg bounded] at decided
  split at decided
  · exact absurd rfl decided
  case isFalse whole =>
  rw [if_neg whole, if_neg (by omega), parseFrame_append more (by omega)]

end Local

/-! ## When the parser decides -/

theorem varintLoop_ne_none
    {data : Bytes}
    {stop rounds position value multiplier : Nat}
    (enough : position + rounds ≤ stop) :
    varintLoop data stop rounds position value multiplier ≠ .ok none := by
  induction rounds generalizing position value multiplier with
  | zero =>
      intro waits
      cases waits
  | succ rounds inductionHypothesis =>
      intro waits
      rw [varintLoop, if_neg (by omega)] at waits
      obtain ⟨octet, -, waits⟩ := bind_eq_ok.mp waits
      dsimp only at waits
      split at waits
      · obtain ⟨-, waits⟩ := malformedIf_bind_eq_ok.mp waits
        cases waits
      · exact inductionHypothesis (by omega) waits

/-- The largest supported packet is enough for a verdict. -/
theorem parseMqttConnect_decides
    {data : Bytes}
    (long : maxConnectBytes ≤ data.length) :
    parseMqttConnect data ≠ .ok none := by
  have several : 5 ≤ data.length := by
    unfold maxConnectBytes at long
    omega
  intro waits
  unfold parseMqttConnect at waits
  rw [if_neg (List.ne_nil_of_length_pos (by omega))] at waits
  obtain ⟨header, -, waits⟩ := bind_eq_ok.mp waits
  obtain ⟨-, waits⟩ := malformedIf_bind_eq_ok.mp waits
  obtain ⟨number, isNumber, waits⟩ := bind_eq_ok.mp waits
  cases number with
  | none => exact varintLoop_ne_none several isNumber
  | some found =>
      dsimp only at waits
      split at waits
      · cases waits
      rw [if_neg (by omega), map_eq_pure_bind] at waits
      obtain ⟨connect, -, waits⟩ := bind_eq_ok.mp waits
      cases waits

/-! ## Faults -/

/-- The only exception a reader may raise is `MalformedMQTT`. -/
def RaisesMalformedOnly {α : Type} (computed : Except MqttFault α) : Prop :=
  ∀ fault, computed = .error fault → ∃ message, fault = .malformed message

namespace RaisesMalformedOnly

variable {α β : Type}

theorem ok (value : α) :
    RaisesMalformedOnly (.ok value) := by
  rintro fault raised
  cases raised

theorem malformed (message : String) :
    RaisesMalformedOnly
      (.error (.malformed message) : Except MqttFault α) := by
  rintro fault raised
  cases raised
  exact ⟨message, rfl⟩

/-- The rest of a computation may rely on what its first part returned. -/
theorem bind
    {first : Except MqttFault α}
    {continuation : α → Except MqttFault β}
    (firstSafe : RaisesMalformedOnly first)
    (continues :
      ∀ value, first = .ok value → RaisesMalformedOnly (continuation value)) :
    RaisesMalformedOnly (first >>= continuation) := by
  cases returned : first with
  | error fault =>
      rintro raisedFault raised
      obtain rfl : fault = raisedFault := Except.error.inj raised
      exact firstSafe fault returned
  | ok value =>
      exact continues value returned

/-- A check raises nothing else, and what follows may rely on it. -/
theorem checked
    {condition : Prop}
    [Decidable condition]
    {message : String}
    {continuation : Unit → Except MqttFault α}
    (continues : ¬ condition → RaisesMalformedOnly (continuation ())) :
    RaisesMalformedOnly (malformedIf condition message >>= continuation) := by
  unfold malformedIf
  split
  case isTrue => exact malformed message
  case isFalse passes => exact continues passes

variable {data : Bytes}
variable {stop : Nat}

theorem octetAt
    {position : Nat}
    (inside : position < data.length) :
    RaisesMalformedOnly (octetAt data position) := by
  obtain ⟨octet, isOctet⟩ := octetAt_of_lt inside
  exact isOctet ▸ ok octet

theorem varintLoop
    {rounds position value multiplier : Nat}
    (inside : stop ≤ data.length) :
    RaisesMalformedOnly
      (varintLoop data stop rounds position value multiplier) := by
  induction rounds generalizing position value multiplier with
  | zero => exact malformed _
  | succ rounds inductionHypothesis =>
      rw [PacketAudit.varintLoop]
      split
      case isTrue => exact ok _
      case isFalse before =>
        refine (octetAt (by omega)).bind fun octet _ => ?_
        dsimp only
        split
        case isTrue => exact checked fun _ => ok _
        case isFalse => exact inductionHypothesis

theorem field
    {position : Nat}
    {utf8 : Bool} :
    RaisesMalformedOnly (field data position stop utf8) := by
  refine checked fun _ => checked fun _ => ?_
  split
  case isTrue => exact ok _
  case isFalse =>
    dsimp only
    split
    · exact malformed _
    · exact checked fun _ => ok _

theorem readNumber
    {will : Bool}
    {identifier width cursor : Nat}
    {kind : PropertyKind} :
    RaisesMalformedOnly
      (readNumber data stop will identifier kind width cursor) :=
  checked fun _ => checked fun _ => checked fun _ => ok _

theorem readValue
    {will : Bool}
    {identifier : Nat}
    {scan : PropertyScan}
    {kind : PropertyKind} :
    RaisesMalformedOnly (readValue data stop will scan identifier kind) := by
  unfold PacketAudit.readValue
  dsimp only
  split
  case h_1 => exact readNumber.bind fun _ _ => ok _
  case h_2 =>
    split
    case isTrue =>
      exact field.bind fun _ _ => field.bind fun _ _ => ok _
    case isFalse =>
      refine field.bind fun _ _ => checked fun _ => ?_
      split
      · exact ok _
      · split <;> exact ok _

theorem readProperty
    {will : Bool}
    {scan : PropertyScan}
    (before : scan.cursor < data.length) :
    RaisesMalformedOnly (readProperty data stop will scan) := by
  refine (octetAt before).bind fun _ _ => ?_
  split
  · exact malformed _
  · exact checked fun _ => readValue

theorem propertyLoop
    {will : Bool}
    {rounds : Nat}
    {scan : PropertyScan}
    (inside : stop ≤ data.length) :
    RaisesMalformedOnly (propertyLoop data stop will rounds scan) := by
  induction rounds generalizing scan with
  | zero => exact ok _
  | succ rounds inductionHypothesis =>
      unfold PacketAudit.propertyLoop
      split
      case isTrue before =>
        exact (readProperty (before.trans_le inside)).bind
          fun _ _ => inductionHypothesis
      case isFalse => exact ok _

theorem properties
    {will : Bool}
    {position : Nat}
    (inside : stop ≤ data.length) :
    RaisesMalformedOnly (properties data position stop will) := by
  refine (varintLoop inside).bind fun _ _ => ?_
  split
  · exact malformed _
  · exact checked fun fits =>
      (propertyLoop (by omega)).bind fun _ _ => checked fun _ => ok _

theorem optionalProperties
    {will : Bool}
    {version cursor : Nat}
    (inside : stop ≤ data.length) :
    RaisesMalformedOnly
      (optionalProperties data version cursor stop will) := by
  unfold PacketAudit.optionalProperties
  split
  · exact properties inside
  · exact ok _

theorem optionalWill
    {present : Bool}
    {version cursor : Nat}
    (inside : stop ≤ data.length) :
    RaisesMalformedOnly
      (optionalWill data present version cursor stop) := by
  unfold PacketAudit.optionalWill
  split
  · exact (optionalProperties inside).bind fun _ _ =>
      field.bind fun _ _ => checked fun _ => field.bind fun _ _ => ok _
  · exact ok _

theorem readOptional
    {present utf8 : Bool}
    {cursor : Nat} :
    RaisesMalformedOnly (readOptional data present cursor stop utf8) := by
  unfold PacketAudit.readOptional
  split
  · exact field.bind fun _ _ => ok _
  · exact ok _

theorem readFlags {version flags : Nat} :
    RaisesMalformedOnly (readFlags version flags) :=
  checked fun _ => checked fun _ => checked fun _ => ok _

/-- The client identifier is decoded, so its assertion holds. -/
theorem parseFrame
    {cursor : Nat}
    (inside : stop ≤ data.length) :
    RaisesMalformedOnly (parseFrame data cursor stop) := by
  refine checked fun whole => ?_
  rw [not_or, not_lt] at whole
  refine (octetAt (by omega)).bind fun _ _ => checked fun _ =>
    (octetAt (by omega)).bind fun _ _ => readFlags.bind fun _ _ =>
      (optionalProperties inside).bind fun _ _ => field.bind fun read isRead => ?_
  obtain ⟨client, after, rfl, -⟩ := (field_string_eq_ok inside).mp isRead
  exact (optionalWill inside).bind fun _ _ => readOptional.bind fun _ _ =>
    readOptional.bind fun _ _ => checked fun _ => ok _

end RaisesMalformedOnly

/-- The parser raises its own exceptions only. -/
theorem parseMqttConnect_faults
    {data : Bytes}
    {fault : MqttFault}
    (raised : parseMqttConnect data = .error fault) :
    ∃ message, fault = .malformed message ∨ fault = .limit message := by
  have own
      {α : Type}
      {computed : Except MqttFault α}
      (safe : RaisesMalformedOnly computed)
      (raised : computed = .error fault) :
      ∃ message, fault = .malformed message ∨ fault = .limit message := by
    obtain ⟨message, isMalformed⟩ := safe fault raised
    exact ⟨message, .inl isMalformed⟩
  unfold parseMqttConnect at raised
  split at raised
  · cases raised
  case isFalse notEmpty =>
  obtain ⟨header, isHeader⟩ := octetAt_of_lt (List.length_pos_iff.mpr notEmpty)
  rw [isHeader, ok_bind] at raised
  by_cases isConnect : header ≠ 0x10
  · exact own (RaisesMalformedOnly.checked fun passes => absurd isConnect passes)
      raised
  unfold malformedIf at raised
  rw [if_neg isConnect, ok_bind] at raised
  cases isNumber : varint data 1 data.length with
  | error raisedFault =>
      rw [isNumber] at raised
      obtain rfl : raisedFault = fault := Except.error.inj raised
      exact own (RaisesMalformedOnly.varintLoop le_rfl) isNumber
  | ok number =>
  rw [isNumber, ok_bind] at raised
  split at raised
  · cases raised
  dsimp only at raised
  split at raised
  · cases raised
    exact ⟨_, .inr rfl⟩
  split at raised
  · cases raised
  case h_2.isFalse.isFalse remaining cursor bounded whole =>
    cases isFrame : parseFrame data cursor (cursor + remaining) with
    | error raisedFault =>
        rw [isFrame] at raised
        obtain rfl : raisedFault = fault := Except.error.inj raised
        exact own (RaisesMalformedOnly.parseFrame (by omega)) isFrame
    | ok connect =>
        rw [isFrame] at raised
        cases raised

/--
The parser returns exactly the packets that data begins with, its verdicts are
final, and it raises its own exceptions only.
-/
theorem parseMqttConnect_verdicts (data : Bytes) :
    (∀ connect,
      parseMqttConnect data = .ok (some connect) ↔
        ∃ packet : ConnectPacket,
          packet.bytes <+: data ∧
            packet.bytes.length ≤ maxConnectBytes ∧
            packet.connect = connect) ∧
      (∀ more,
        parseMqttConnect data ≠ .ok none →
        parseMqttConnect (data ++ more) = parseMqttConnect data) ∧
      ∀ fault,
        parseMqttConnect data = .error fault →
        ∃ message, fault = .malformed message ∨ fault = .limit message :=
  ⟨fun _ => parseMqttConnect_eq_some,
    fun more decided => parseMqttConnect_append more decided,
    fun _ raised => parseMqttConnect_faults raised⟩

end PacketAudit
