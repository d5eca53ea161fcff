import PacketAudit.Cleartext.MqttFields

namespace PacketAudit

/-!
# Property sections of MQTT 5

A section is a list of allowed properties, none of them repeated but the user
property, behind the number of their bytes.  `_properties` reads exactly the
sections, and says where the authentication properties stand.
-/

open Library

/-! ## Properties -/

/-- The value of a property. -/
inductive PropertyValue where
  | number (kind : PropertyKind) (value : Nat)
  | pair (name value : MqttString)
  | string (text : MqttString)
  | binary (data : MqttBinary)
  deriving DecidableEq

namespace PropertyValue

/-- The kind of a value. -/
def kind :
    PropertyValue → PropertyKind
  | .number kind _ => kind
  | .pair _ _ => .pair
  | .string _ => .string
  | .binary _ => .binary

/-- How a value is written. -/
def bytes :
    PropertyValue → Bytes
  | .number kind value => bigEndianBytes (kind.width?.getD 0) value
  | .pair name value => lengthPrefixed name.bytes ++ lengthPrefixed value.bytes
  | .string text => lengthPrefixed text.bytes
  | .binary data => lengthPrefixed data.bytes

/-- The text of a string. -/
def text? :
    PropertyValue → Option Text
  | .string text => some text.text
  | _ => none

/-- The bytes of binary data. -/
def data? :
    PropertyValue → Option Bytes
  | .binary data => some data.bytes
  | _ => none

/-- A number fits into the width of its kind. -/
def Fits : PropertyValue → Prop
  | .number kind value =>
      (∃ width, kind.width? = some width ∧ value < 256 ^ width) ∧
        (kind = .bool → value ≤ 1)
  | _ => True

end PropertyValue

/-- A property. -/
structure MqttProperty where
  identifier : Nat
  value : PropertyValue
  deriving DecidableEq

namespace MqttProperty

/-- How a property is written. -/
def bytes (property : MqttProperty) : Bytes :=
  UInt8.ofNat property.identifier :: property.value.bytes

/-- A property that may stand in a section. -/
structure Allowed (will : Bool) (property : MqttProperty) : Prop where
  known : allowedKind? will property.identifier = some property.value.kind
  fits : property.value.Fits
  notZero :
    will = false →
    property.identifier = 0x21 ∨ property.identifier = 0x27 →
    ∀ kind, property.value ≠ .number kind 0
  hasTopic :
    will = true →
    property.identifier = 0x08 →
    property.value.text? ≠ some []

theorem length_bytes (property : MqttProperty) :
    property.bytes.length = property.value.bytes.length + 1 := by
  unfold bytes
  rw [List.length_cons]

end MqttProperty

/-- What the loop remembers of a property. -/
def PropertyScan.pass
    (will : Bool)
    (scan : PropertyScan)
    (property : MqttProperty) : PropertyScan :=
  let after := scan.cursor + property.bytes.length
  let isMethod := will = false ∧ property.identifier = 0x15
  let isData := will = false ∧ property.identifier = 0x16
  {
    cursor := after
    seen := property.identifier :: scan.seen
    authMethod := if isMethod then property.value.text? else scan.authMethod
    authData := if isData then property.value.data? else scan.authData
    methodSpan := if isMethod then some (scan.cursor, after) else scan.methodSpan
    dataSpan := if isData then some (scan.cursor, after) else scan.dataSpan
  }

section Reading

variable {data : Bytes}
variable {stop : Nat}
variable {will : Bool}

theorem identifier_lt
    {identifier : Nat}
    {kind : PropertyKind}
    (known : allowedKind? will identifier = some kind) :
    identifier < 256 := by
  cases will with
  | false =>
      have known : connectPropertyKind? identifier = some kind := known
      unfold connectPropertyKind? at known
      split at known <;> first | omega | cases known
  | true =>
      have known : willPropertyKind? identifier = some kind := known
      unfold willPropertyKind? at known
      split at known <;> first | omega | cases known

/-- A number is read where it is spelled. -/
theorem readNumber_eq_ok
    {identifier width cursor after : Nat}
    {kind : PropertyKind}
    (inside : stop ≤ data.length) :
    readNumber data stop will identifier kind width cursor = .ok after ↔
      after ≤ stop ∧ after = cursor + width ∧
        ∃ value,
          value < 256 ^ width ∧
            (kind = .bool → value ≤ 1) ∧
            (will = false →
              identifier = 0x21 ∨ identifier = 0x27 →
              value ≠ 0) ∧
            Spells data cursor after (bigEndianBytes width value) := by
  unfold readNumber
  rw [malformedIf_bind_eq_ok]
  dsimp only
  rw [malformedIf_bind_eq_ok, malformedIf_bind_eq_ok, not_lt]
  constructor
  · rintro ⟨fits, isBool, notZero, returns⟩
    obtain rfl := Except.ok.inj returns
    obtain ⟨spells, small⟩ :=
      (spells_bigEndianBytes (fits.trans inside)).mpr rfl
    refine ⟨fits, rfl, _, small, ?_, ?_, spells⟩
    · intro bool
      by_contra large
      exact isBool ⟨bool, by omega, by omega⟩
    · intro isConnect positive zero
      exact notZero ⟨isConnect, positive, zero⟩
  · rintro ⟨fits, rfl, value, small, isBool, notZero, spells⟩
    rw [(spells_bigEndianBytes (fits.trans inside)).mp ⟨spells, small⟩]
    refine ⟨fits, ?_, ?_, rfl⟩
    · rintro ⟨bool, other, another⟩
      have small := isBool bool
      omega
    · rintro ⟨isConnect, positive, zero⟩
      exact notZero isConnect positive zero

/-- The kinds of the identifiers that have a check of their own. -/
theorem allowedKind?_special
    {identifier : Nat}
    {kind : PropertyKind}
    (known : allowedKind? will identifier = some kind) :
    (will = true ∧ identifier = 0x08 → kind = .string) ∧
      (will = false ∧ identifier = 0x15 → kind = .string) ∧
      (will = false ∧ identifier = 0x16 → kind = .binary) := by
  refine ⟨?_, ?_, ?_⟩ <;>
  · rintro ⟨rfl, rfl⟩
    exact (Option.some.inj known).symm

variable {scan next : PropertyScan}
variable {identifier : Nat}
variable {kind : PropertyKind}

/-- What reading a value of a property comes to. -/
def ReadsValue
    (data : Bytes)
    (stop : Nat)
    (will : Bool)
    (scan : PropertyScan)
    (identifier : Nat)
    (next : PropertyScan)
    (value : PropertyValue) : Prop :=
  (⟨identifier, value⟩ : MqttProperty).Allowed will ∧
    next.cursor ≤ stop ∧
    Spells data (scan.cursor + 1) next.cursor value.bytes ∧
    scan.pass will ⟨identifier, value⟩ = next

/-- The remembered position is behind the value. -/
theorem pass_cursor
    {value : PropertyValue}
    {after : Nat}
    (spells : Spells data (scan.cursor + 1) after value.bytes) :
    (scan.pass will ⟨identifier, value⟩).cursor = after := by
  have ends := spells.last_eq
  unfold PropertyScan.pass
  dsimp only
  rw [MqttProperty.length_bytes]
  dsimp only
  omega

/-- A property that is no authentication property moves the position only. -/
theorem pass_other
    {value : PropertyValue}
    {after : Nat}
    (notMethod : ¬ (will = false ∧ identifier = 0x15))
    (notData : ¬ (will = false ∧ identifier = 0x16))
    (spells : Spells data (scan.cursor + 1) after value.bytes) :
    scan.pass will ⟨identifier, value⟩ =
      { scan with cursor := after, seen := identifier :: scan.seen } := by
  have isAfter := @pass_cursor data will scan identifier value after spells
  unfold PropertyScan.pass at isAfter ⊢
  dsimp only at isAfter ⊢
  rw [isAfter, if_neg notMethod, if_neg notMethod, if_neg notData,
    if_neg notData]

/-- A property with a number. -/
theorem readValue_number
    {width : Nat}
    (inside : stop ≤ data.length)
    (isWidth : kind.width? = some width)
    (known : allowedKind? will identifier = some kind) :
    readValue data stop will scan identifier kind = .ok next ↔
      ∃ value,
        ReadsValue data stop will scan identifier next
          (.number kind value) := by
  have isBytes (value : Nat) :
      (PropertyValue.number kind value).bytes = bigEndianBytes width value := by
    rw [PropertyValue.bytes, isWidth]
    rfl
  have special := allowedKind?_special known
  have isPass
      {value after : Nat}
      (spells :
        Spells data (scan.cursor + 1) after (bigEndianBytes width value)) :
      scan.pass will ⟨identifier, .number kind value⟩ =
        { scan with cursor := after, seen := identifier :: scan.seen } := by
    rw [← isBytes] at spells
    refine pass_other ?_ ?_ spells
    · intro isMethod
      rw [special.2.1 isMethod] at isWidth
      cases isWidth
    · intro isData
      rw [special.2.2 isData] at isWidth
      cases isWidth
  unfold readValue ReadsValue
  simp only [isWidth, isBytes, bind_eq_ok, readNumber_eq_ok inside]
  constructor
  · rintro ⟨after, ⟨fits, isAfter, value, small, isBool, notZero, spells⟩,
      returns⟩
    obtain rfl := Except.ok.inj returns
    refine ⟨value, ⟨known, ⟨⟨width, isWidth, small⟩, isBool⟩, ?_, ?_⟩, fits,
      spells, isPass spells⟩
    · rintro isConnect positive other isNumber
      exact notZero isConnect positive (PropertyValue.number.inj isNumber).2
    · rintro - - isText
      cases isText
  · rintro ⟨value, allowed, fits, spells, isNext⟩
    have ends := spells.last_eq
    rw [length_bigEndianBytes] at ends
    obtain ⟨⟨bytes, hasBytes, small⟩, isBool⟩ := allowed.fits
    obtain rfl : bytes = width :=
      Option.some.inj (hasBytes.symm.trans isWidth)
    refine ⟨next.cursor, ⟨fits, ends, value, small, isBool, ?_, spells⟩, ?_⟩
    · rintro isConnect positive rfl
      exact allowed.notZero isConnect positive kind rfl
    · rw [← isNext, isPass spells]
      rfl

/-- A property with a pair of strings. -/
theorem readValue_pair
    (inside : stop ≤ data.length)
    (known : allowedKind? will identifier = some .pair) :
    readValue data stop will scan identifier .pair = .ok next ↔
      ∃ name value,
        ReadsValue data stop will scan identifier next (.pair name value) := by
  have special := allowedKind?_special known
  have isPass
      {name value : MqttString}
      {after : Nat}
      (spells :
        Spells data (scan.cursor + 1) after
          (PropertyValue.pair name value).bytes) :
      scan.pass will ⟨identifier, .pair name value⟩ =
        { scan with cursor := after, seen := identifier :: scan.seen } := by
    refine pass_other ?_ ?_ spells
    · intro isMethod
      cases special.2.1 isMethod
    · intro isData
      cases special.2.2 isData
  unfold readValue ReadsValue
  simp only [PropertyKind.width?, if_true, bind_eq_ok,
    field_string_eq_ok inside, PropertyValue.bytes] at isPass ⊢
  constructor
  · rintro ⟨read, ⟨name, middle, rfl, -, isName⟩, second,
      ⟨value, after, rfl, fits, isValue⟩, returns⟩
    obtain rfl := Except.ok.inj returns
    have spells := spells_append.mpr ⟨middle, isName, isValue⟩
    refine ⟨name, value, ⟨known, trivial, ?_, ?_⟩, fits, spells,
      isPass spells⟩
    · rintro - - other isNumber
      cases isNumber
    · rintro - - isText
      cases isText
  · rintro ⟨name, value, -, fits, spells, isNext⟩
    obtain ⟨middle, isName, isValue⟩ := spells_append.mp spells
    have before := isValue.1
    refine ⟨_, ⟨name, middle, rfl, before.trans fits, isName⟩, _,
      ⟨value, next.cursor, rfl, fits, isValue⟩, ?_⟩
    rw [← isNext, isPass spells]
    rfl

/-- A property with a string. -/
theorem readValue_string
    (inside : stop ≤ data.length)
    (known : allowedKind? will identifier = some .string) :
    readValue data stop will scan identifier .string = .ok next ↔
      ∃ text,
        ReadsValue data stop will scan identifier next (.string text) := by
  have notData : ¬ (will = false ∧ identifier = 0x16) := by
    intro isData
    cases (allowedKind?_special known).2.2 isData
  have isPass
      {text : MqttString}
      {after : Nat}
      (spells :
        Spells data (scan.cursor + 1) after (lengthPrefixed text.bytes)) :
      scan.pass will ⟨identifier, .string text⟩ =
        if will = false ∧ identifier = 0x15 then
          { scan with
            cursor := after
            seen := identifier :: scan.seen
            authMethod := some text.text
            methodSpan := some (scan.cursor, after) }
        else
          { scan with cursor := after, seen := identifier :: scan.seen } := by
    have isAfter :=
      @pass_cursor data will scan identifier (.string text) after spells
    unfold PropertyScan.pass at isAfter ⊢
    dsimp only at isAfter ⊢
    rw [isAfter, if_neg notData, if_neg notData]
    split
    · rfl
    · rfl
  unfold readValue ReadsValue
  simp only [PropertyKind.width?, reduceCtorEq, if_false, decide_true,
    PropertyValue.bytes]
  rw [bind_eq_ok]
  simp only [field_string_eq_ok inside]
  constructor
  · rintro ⟨read, ⟨text, after, rfl, fits, spells⟩, returns⟩
    obtain ⟨hasTopic, returns⟩ := malformedIf_bind_eq_ok.mp returns
    rw [if_neg notData] at returns
    refine ⟨text, ⟨known, trivial, ?_, ?_⟩, ?_⟩
    · rintro - - other isNumber
      cases isNumber
    · rintro isWill isTopic isText
      exact hasTopic ⟨isWill, isTopic, Option.some.inj isText⟩
    · rw [isPass spells]
      split at returns
      all_goals
        obtain rfl := Except.ok.inj returns
        exact ⟨fits, spells, by split <;> first | rfl | contradiction⟩
  · rintro ⟨text, allowed, fits, spells, isNext⟩
    refine ⟨_, ⟨text, next.cursor, rfl, fits, spells⟩, ?_⟩
    rw [malformedIf_bind_eq_ok, if_neg notData, ← isNext, isPass spells]
    refine ⟨?_, ?_⟩
    · rintro ⟨isWill, isTopic, isEmpty⟩
      exact allowed.hasTopic isWill isTopic (congrArg some isEmpty)
    · split
      · rfl
      · rfl

/-- A property with binary data. -/
theorem readValue_binary
    (inside : stop ≤ data.length)
    (known : allowedKind? will identifier = some .binary) :
    readValue data stop will scan identifier .binary = .ok next ↔
      ∃ binary,
        ReadsValue data stop will scan identifier next (.binary binary) := by
  have special := allowedKind?_special known
  have notMethod : ¬ (will = false ∧ identifier = 0x15) := by
    intro isMethod
    cases special.2.1 isMethod
  have notTopic : ¬ (will = true ∧ identifier = 0x08) := by
    intro isTopic
    cases special.1 isTopic
  have isPass
      {binary : MqttBinary}
      {after : Nat}
      (spells :
        Spells data (scan.cursor + 1) after (lengthPrefixed binary.bytes)) :
      scan.pass will ⟨identifier, .binary binary⟩ =
        if will = false ∧ identifier = 0x16 then
          { scan with
            cursor := after
            seen := identifier :: scan.seen
            authData := some binary.bytes
            dataSpan := some (scan.cursor, after) }
        else
          { scan with cursor := after, seen := identifier :: scan.seen } := by
    have isAfter :=
      @pass_cursor data will scan identifier (.binary binary) after spells
    unfold PropertyScan.pass at isAfter ⊢
    dsimp only at isAfter ⊢
    rw [isAfter, if_neg notMethod, if_neg notMethod]
    split
    · rfl
    · rfl
  unfold readValue ReadsValue
  simp only [PropertyKind.width?, reduceCtorEq, if_false, decide_false,
    PropertyValue.bytes]
  rw [bind_eq_ok]
  simp only [field_binary_eq_ok inside]
  constructor
  · rintro ⟨read, ⟨binary, after, rfl, fits, spells⟩, returns⟩
    obtain ⟨-, returns⟩ := malformedIf_bind_eq_ok.mp returns
    rw [if_neg notMethod] at returns
    refine ⟨binary, ⟨known, trivial, ?_, ?_⟩, ?_⟩
    · rintro - - other isNumber
      cases isNumber
    · rintro - - isText
      cases isText
    · rw [isPass spells]
      split at returns
      all_goals
        obtain rfl := Except.ok.inj returns
        exact ⟨fits, spells, by split <;> first | rfl | contradiction⟩
  · rintro ⟨binary, -, fits, spells, isNext⟩
    refine ⟨_, ⟨binary, next.cursor, rfl, fits, spells⟩, ?_⟩
    rw [malformedIf_bind_eq_ok, if_neg notMethod, ← isNext, isPass spells]
    refine ⟨?_, ?_⟩
    · rintro ⟨isWill, isTopic, -⟩
      exact notTopic ⟨isWill, isTopic⟩
    · split
      · rfl
      · rfl

/-- A value is read where one of its kind is spelled. -/
theorem readValue_eq_ok
    (inside : stop ≤ data.length)
    (known : allowedKind? will identifier = some kind) :
    readValue data stop will scan identifier kind = .ok next ↔
      ∃ value, ReadsValue data stop will scan identifier next value := by
  have ofKind
      {value : PropertyValue}
      (reads : ReadsValue data stop will scan identifier next value) :
      value.kind = kind :=
    Option.some.inj (reads.1.known.symm.trans known)
  cases isWidth : kind.width? with
  | some width =>
      rw [readValue_number inside isWidth known]
      constructor
      · rintro ⟨number, reads⟩
        exact ⟨_, reads⟩
      · rintro ⟨value, reads⟩
        have isKind := ofKind reads
        cases value with
        | number other number =>
            obtain rfl : other = kind := isKind
            exact ⟨number, reads⟩
        | _ =>
            rw [← isKind] at isWidth
            cases isWidth
  | none =>
      have notNumber
          {other : PropertyKind}
          {number : Nat}
          (reads :
            ReadsValue data stop will scan identifier next
              (.number other number)) :
          False := by
        obtain ⟨⟨width, hasWidth, -⟩, -⟩ := reads.1.fits
        rw [show other = kind from ofKind reads, isWidth] at hasWidth
        cases hasWidth
      constructor
      · intro returns
        cases kind with
        | pair =>
            obtain ⟨name, value, reads⟩ :=
              (readValue_pair inside known).mp returns
            exact ⟨_, reads⟩
        | string =>
            obtain ⟨text, reads⟩ :=
              (readValue_string inside known).mp returns
            exact ⟨_, reads⟩
        | binary =>
            obtain ⟨binary, reads⟩ :=
              (readValue_binary inside known).mp returns
            exact ⟨_, reads⟩
        | _ =>
            cases isWidth
      · rintro ⟨value, reads⟩
        obtain rfl := ofKind reads
        cases value with
        | number other number =>
            exact (notNumber reads).elim
        | pair name value =>
            exact (readValue_pair inside known).mpr ⟨name, value, reads⟩
        | string text =>
            exact (readValue_string inside known).mpr ⟨text, reads⟩
        | binary binary =>
            exact (readValue_binary inside known).mpr ⟨binary, reads⟩

/-- A round reads an allowed property that is not repeated. -/
theorem readProperty_eq_ok
    (inside : stop ≤ data.length) :
    readProperty data stop will scan = .ok next ↔
      ∃ property : MqttProperty,
        property.Allowed will ∧
          (property.identifier ∈ scan.seen → property.identifier = 0x26) ∧
          next.cursor ≤ stop ∧
          Spells data scan.cursor next.cursor property.bytes ∧
          scan.pass will property = next := by
  unfold readProperty MqttProperty.bytes
  simp only [bind_eq_ok, spells_cons, octetAt_eq_ok]
  constructor
  · rintro ⟨identifier, ⟨-, isOctet⟩, returns⟩
    split at returns
    · cases returns
    case h_2 kind known =>
      obtain ⟨fresh, returns⟩ := malformedIf_bind_eq_ok.mp returns
      obtain ⟨value, allowed, fits, spells, isNext⟩ :=
        (readValue_eq_ok inside known).mp returns
      refine ⟨⟨identifier, value⟩, allowed, ?_, fits, ⟨isOctet, spells⟩,
        isNext⟩
      intro repeated
      by_contra other
      exact fresh ⟨repeated, other⟩
  · rintro ⟨⟨identifier, value⟩, allowed, fresh, fits, ⟨isOctet, spells⟩,
      isNext⟩
    refine ⟨identifier, ⟨identifier_lt allowed.known, isOctet⟩, ?_⟩
    rw [allowed.known]
    dsimp only
    rw [malformedIf_bind_eq_ok, readValue_eq_ok inside allowed.known]
    refine ⟨?_, value, allowed, fits, spells, isNext⟩
    rintro ⟨repeated, other⟩
    exact other (fresh repeated)

end Reading

/-! ## Sections -/

/-- None of the properties repeats an identifier, but the user property's. -/
def Unrepeated (seen : List Nat) (list : List MqttProperty) : Prop :=
  list.Pairwise (fun earlier later =>
      later.identifier = earlier.identifier → later.identifier = 0x26) ∧
    ∀ property ∈ list,
      property.identifier ∈ seen → property.identifier = 0x26

theorem unrepeated_cons
    {seen : List Nat}
    {property : MqttProperty}
    {rest : List MqttProperty} :
    Unrepeated seen (property :: rest) ↔
      (property.identifier ∈ seen → property.identifier = 0x26) ∧
        Unrepeated (property.identifier :: seen) rest := by
  unfold Unrepeated
  rw [List.pairwise_cons, List.forall_mem_cons]
  constructor
  · rintro ⟨⟨differ, distinct⟩, isNew, areNew⟩
    refine ⟨isNew, distinct, fun other member repeated => ?_⟩
    rcases List.mem_cons.mp repeated with same | seenBefore
    · exact differ other member same
    · exact areNew other member seenBefore
  · rintro ⟨isNew, distinct, areNew⟩
    exact ⟨⟨fun other member same =>
        areNew other member (same ▸ List.mem_cons_self), distinct⟩, isNew,
      fun other member seenBefore =>
        areNew other member (List.mem_cons_of_mem _ seenBefore)⟩

/-- How the properties of a section are written. -/
def propertyBytes (list : List MqttProperty) : Bytes :=
  list.flatMap MqttProperty.bytes

/-- The first property of an identifier, and where it stands. -/
def located (identifier : Nat) :
    (start : Nat) →
    List MqttProperty →
    Option (MqttProperty × Nat × Nat)
  | _, [] => none
  | start, property :: rest =>
      let after := start + property.bytes.length
      if property.identifier = identifier then
        some (property, start, after)
      else
        located identifier after rest

section Looping

variable {data : Bytes}
variable {stop : Nat}
variable {will : Bool}
variable {scan last : PropertyScan}

/-- A loop that ends has read the properties that are spelled up to its end. -/
def LoopReads
    (data : Bytes)
    (stop : Nat)
    (will : Bool)
    (scan last : PropertyScan) : Prop :=
  ∃ list : List MqttProperty,
    (∀ property ∈ list, property.Allowed will) ∧
      Unrepeated scan.seen list ∧
      Spells data scan.cursor stop (propertyBytes list) ∧
      list.foldl (PropertyScan.pass will) scan = last

theorem spells_propertyBytes_cons
    {property : MqttProperty}
    {rest : List MqttProperty}
    {first : Nat} :
    Spells data first stop (propertyBytes (property :: rest)) ↔
      ∃ after,
        Spells data first after property.bytes ∧
          Spells data after stop (propertyBytes rest) := by
  unfold propertyBytes
  rw [List.flatMap_cons, spells_append]

/-- At the end of a section there is nothing to read. -/
theorem loopReads_end
    (inside : stop ≤ data.length)
    (atEnd : scan.cursor = stop) :
    LoopReads data stop will scan last ↔ scan = last := by
  constructor
  · rintro ⟨list, -, -, spells, rfl⟩
    cases list with
    | nil => rfl
    | cons property rest =>
        obtain ⟨after, spells, isRest⟩ := spells_propertyBytes_cons.mp spells
        have ends := spells.last_eq
        have before := isRest.1
        rw [MqttProperty.length_bytes] at ends
        omega
  · rintro rfl
    exact ⟨[], by simp, by simp [Unrepeated],
      spells_nil.mpr ⟨atEnd.symm, atEnd ▸ inside⟩, rfl⟩

/-- Before the end of a section there is a property to read. -/
theorem loopReads_step
    (before : scan.cursor < stop) :
    LoopReads data stop will scan last ↔
      ∃ property : MqttProperty,
        property.Allowed will ∧
          (property.identifier ∈ scan.seen → property.identifier = 0x26) ∧
          (scan.pass will property).cursor ≤ stop ∧
          Spells data scan.cursor (scan.pass will property).cursor
            property.bytes ∧
          LoopReads data stop will (scan.pass will property) last := by
  constructor
  · rintro ⟨list, areAllowed, areNew, spells, isLast⟩
    cases list with
    | nil =>
        have ends := (spells_nil.mp spells).1
        omega
    | cons property rest =>
        obtain ⟨after, spells, isRest⟩ := spells_propertyBytes_cons.mp spells
        have isAfter : (scan.pass will property).cursor = after :=
          spells.last_eq.symm
        obtain ⟨isNew, areNew⟩ := unrepeated_cons.mp areNew
        obtain ⟨allowed, areAllowed⟩ := List.forall_mem_cons.mp areAllowed
        subst isAfter
        exact ⟨property, allowed, isNew, isRest.1, spells, rest, areAllowed,
          areNew, isRest, isLast⟩
  · rintro ⟨property, allowed, isNew, -, spells, rest, areAllowed, areNew,
      isRest, isLast⟩
    exact ⟨property :: rest, List.forall_mem_cons.mpr ⟨allowed, areAllowed⟩,
      unrepeated_cons.mpr ⟨isNew, areNew⟩,
      spells_propertyBytes_cons.mpr ⟨_, spells, isRest⟩, isLast⟩

/-- The loop reads the properties that are spelled up to its end. -/
theorem propertyLoop_eq_ok
    {rounds : Nat}
    (inside : stop ≤ data.length)
    (begun : scan.cursor ≤ stop)
    (enough : stop ≤ scan.cursor + rounds) :
    propertyLoop data stop will rounds scan = .ok last ↔
      LoopReads data stop will scan last := by
  induction rounds generalizing scan with
  | zero =>
      rw [loopReads_end inside (by omega)]
      exact ⟨Except.ok.inj, congrArg _⟩
  | succ rounds inductionHypothesis =>
      unfold propertyLoop
      split
      case isFalse atEnd =>
        rw [loopReads_end inside (by omega)]
        exact ⟨Except.ok.inj, congrArg _⟩
      case isTrue before =>
        rw [bind_eq_ok, loopReads_step before]
        simp only [readProperty_eq_ok inside]
        constructor
        · rintro ⟨next, ⟨property, allowed, isNew, fits, spells, rfl⟩, returns⟩
          have ends := spells.last_eq
          rw [MqttProperty.length_bytes] at ends
          exact ⟨property, allowed, isNew, fits, spells,
            (inductionHypothesis fits (by omega)).mp returns⟩
        · rintro ⟨property, allowed, isNew, fits, spells, reads⟩
          have ends := spells.last_eq
          rw [MqttProperty.length_bytes] at ends
          exact ⟨_, ⟨property, allowed, isNew, fits, spells, rfl⟩,
            (inductionHypothesis fits (by omega)).mpr reads⟩

/-- What the loop remembers of one identifier is what its property says. -/
theorem foldl_pass_located
    {β : Type}
    (identifier : Nat)
    (get : PropertyScan → Option β)
    (read : MqttProperty → Nat → Nat → Option β)
    (single : identifier ≠ 0x26)
    (remembers :
      ∀ {scan : PropertyScan} {property : MqttProperty},
        get (scan.pass false property) =
          if property.identifier = identifier then
            read property scan.cursor (scan.cursor + property.bytes.length)
          else
            get scan)
    {list : List MqttProperty}
    (areNew : Unrepeated scan.seen list) :
    get (list.foldl (PropertyScan.pass false) scan) =
      (located identifier scan.cursor list).elim (get scan)
        fun found => read found.1 found.2.1 found.2.2 := by
  have absent
      {list : List MqttProperty}
      (others : ∀ property ∈ list, property.identifier ≠ identifier)
      (start : Nat) :
      located identifier start list = none := by
    induction list generalizing start with
    | nil => rfl
    | cons property rest inductionHypothesis =>
        obtain ⟨other, others⟩ := List.forall_mem_cons.mp others
        unfold located
        dsimp only
        rw [if_neg other]
        exact inductionHypothesis others _
  induction list generalizing scan with
  | nil => rfl
  | cons property rest inductionHypothesis =>
      obtain ⟨-, areNew⟩ := unrepeated_cons.mp areNew
      rw [List.foldl_cons, inductionHypothesis areNew, remembers]
      conv_rhs => unfold located
      dsimp only
      split
      case isTrue found =>
        have others :
            ∀ other ∈ rest, other.identifier ≠ identifier := by
          intro other member same
          refine single ?_
          rw [← same]
          exact areNew.2 other member (by
            rw [same, ← found]
            exact List.mem_cons_self)
        rw [absent others]
        rfl
      case isFalse =>
        rfl

theorem foldl_pass_seen
    {list : List MqttProperty}
    {identifier : Nat} :
    identifier ∈ (list.foldl (PropertyScan.pass will) scan).seen ↔
      identifier ∈ scan.seen ∨
        identifier ∈ list.map MqttProperty.identifier := by
  induction list generalizing scan with
  | nil => simp
  | cons property rest inductionHypothesis =>
      have isSeen :
          (scan.pass will property).seen =
            property.identifier :: scan.seen := rfl
      rw [List.foldl_cons, inductionHypothesis, isSeen, List.map_cons,
        List.mem_cons, List.mem_cons, or_assoc, or_left_comm]

end Looping

/-- A property section. -/
structure PropertySection (will : Bool) where
  list : List MqttProperty
  allowed : ∀ property ∈ list, property.Allowed will
  unrepeated : Unrepeated [] list
  hasMethod :
    will = false →
    0x16 ∈ list.map MqttProperty.identifier →
    0x15 ∈ list.map MqttProperty.identifier
  short : (propertyBytes list).length < 128 ^ 4

namespace PropertySection

/-- The number of bytes, and the properties. -/
def bytes
    {will : Bool}
    (properties : PropertySection will) : Bytes :=
  varintBytes 4 (propertyBytes properties.list).length ++
    propertyBytes properties.list

/-- The property of an identifier in a CONNECT section at this position. -/
def find?
    {will : Bool}
    (properties : PropertySection will)
    (position identifier : Nat) : Option (MqttProperty × Nat × Nat) :=
  if will then
    none
  else
    located identifier
      (position +
        (varintBytes 4 (propertyBytes properties.list).length).length)
      properties.list

/-- What `_properties` says about the section. -/
def result
    {will : Bool}
    (properties : PropertySection will)
    (position : Nat) : Properties where
  stop := position + properties.bytes.length
  authenticationMethod :=
    (properties.find? position 0x15).bind fun found => found.1.value.text?
  authenticationData :=
    (properties.find? position 0x16).bind fun found => found.1.value.data?
  authenticationMethodSpan :=
    (properties.find? position 0x15).map fun found => found.2
  authenticationDataSpan :=
    (properties.find? position 0x16).map fun found => found.2

end PropertySection

section Sections

variable {data : Bytes}
variable {will : Bool}

/-- A section of a Will says nothing about authentication. -/
theorem foldl_pass_will
    {list : List MqttProperty}
    {scan : PropertyScan} :
    (list.foldl (PropertyScan.pass true) scan).authMethod = scan.authMethod ∧
      (list.foldl (PropertyScan.pass true) scan).authData = scan.authData ∧
      (list.foldl (PropertyScan.pass true) scan).methodSpan =
        scan.methodSpan ∧
      (list.foldl (PropertyScan.pass true) scan).dataSpan = scan.dataSpan := by
  induction list generalizing scan with
  | nil => exact ⟨rfl, rfl, rfl, rfl⟩
  | cons property rest inductionHypothesis =>
      rw [List.foldl_cons]
      exact inductionHypothesis

/-- What the loop remembers at the end is what the section says. -/
theorem PropertySection.result_eq
    {properties : PropertySection will}
    {position : Nat}
    {last : PropertyScan}
    (isLast :
      properties.list.foldl (PropertyScan.pass will)
          { cursor :=
              position +
                (varintBytes 4
                  (propertyBytes properties.list).length).length } =
        last) :
    properties.result position =
      {
        stop := position + properties.bytes.length
        authenticationMethod := last.authMethod
        authenticationData := last.authData
        authenticationMethodSpan := last.methodSpan
        authenticationDataSpan := last.dataSpan
      } := by
  subst isLast
  unfold result find?
  cases will with
  | true =>
      obtain ⟨method, data, methodSpan, dataSpan⟩ :=
        @foldl_pass_will properties.list
          { cursor :=
              position +
                (varintBytes 4
                  (propertyBytes properties.list).length).length }
      rw [method, data, methodSpan, dataSpan]
      rfl
  | false =>
      have isNew := properties.unrepeated
      rw [foldl_pass_located 0x15 PropertyScan.authMethod
          (fun property _ _ => property.value.text?) (by decide)
          (by simp [PropertyScan.pass]) isNew,
        foldl_pass_located 0x16 PropertyScan.authData
          (fun property _ _ => property.value.data?) (by decide)
          (by simp [PropertyScan.pass]) isNew,
        foldl_pass_located 0x15 PropertyScan.methodSpan
          (fun _ first after => some (first, after)) (by decide)
          (by simp [PropertyScan.pass]) isNew,
        foldl_pass_located 0x16 PropertyScan.dataSpan
          (fun _ first after => some (first, after)) (by decide)
          (by simp [PropertyScan.pass]) isNew]
      simp only [Bool.false_eq_true, if_false]
      generalize located 0x15 _ _ = method
      generalize located 0x16 _ _ = data
      cases method <;> cases data <;> rfl

/-- Without a property seen before, the loop has seen what the section has. -/
theorem seen_iff
    {list : List MqttProperty}
    {cursor identifier : Nat}
    {last : PropertyScan}
    (isLast :
      list.foldl (PropertyScan.pass will) { cursor := cursor } = last) :
    identifier ∈ last.seen ↔
      identifier ∈ list.map MqttProperty.identifier := by
  rw [← isLast, foldl_pass_seen]
  simp

/-- `_properties` reads exactly the sections. -/
theorem properties_eq_ok
    {position frameEnd : Nat}
    {result : Properties}
    (inside : frameEnd ≤ data.length) :
    properties data position frameEnd will = .ok result ↔
      ∃ found : PropertySection will,
        found.result position = result ∧
          result.stop ≤ frameEnd ∧
          Spells data position result.stop found.bytes := by
  unfold properties
  rw [bind_eq_ok]
  constructor
  · rintro ⟨number, isNumber, returns⟩
    split at returns
    · cases returns
    case h_2 size cursor =>
      obtain ⟨fits, returns⟩ := malformedIf_bind_eq_ok.mp returns
      obtain ⟨last, reads, returns⟩ := bind_eq_ok.mp returns
      obtain ⟨hasMethod, returns⟩ := malformedIf_bind_eq_ok.mp returns
      obtain rfl := Except.ok.inj returns
      rw [not_lt] at fits
      obtain ⟨small, -, isSize⟩ := varint_eq_some.mp isNumber
      obtain ⟨list, allowed, areNew, spells, isLast⟩ :=
        (propertyLoop_eq_ok (fits.trans inside) (Nat.le_add_right _ _)
          le_rfl).mp reads
      obtain rfl : size = (propertyBytes list).length := by
        have ends := spells.last_eq
        dsimp only at ends
        omega
      have isCursor := isSize.last_eq
      subst isCursor
      have withMethod :
          will = false →
          0x16 ∈ list.map MqttProperty.identifier →
          0x15 ∈ list.map MqttProperty.identifier := by
        intro isConnect hasData
        rw [seen_iff isLast, seen_iff isLast] at hasMethod
        by_contra noMethod
        exact hasMethod ⟨isConnect, hasData, noMethod⟩
      have isSection := spells_append.mpr ⟨_, isSize, spells⟩
      have ends := isSection.last_eq
      refine ⟨⟨list, allowed, areNew, withMethod, small⟩, ?_, fits,
        isSection⟩
      rw [PropertySection.result_eq isLast, Properties.mk.injEq]
      exact ⟨ends.symm, rfl, rfl, rfl, rfl⟩
  · rintro ⟨found, rfl, fits, spells⟩
    have isStop :
        (found.result position).stop = position + found.bytes.length := rfl
    rw [isStop] at fits spells
    obtain ⟨cursor, isSize, isBody⟩ := spells_append.mp spells
    have isCursor := isSize.last_eq
    have isEnd := isBody.last_eq
    have before := isBody.1
    subst isCursor
    have whole := (isEnd ▸ fits).trans inside
    refine ⟨some (_, _), varint_eq_some.mpr
      ⟨found.short, before.trans fits, isSize⟩, ?_⟩
    dsimp only
    rw [malformedIf_bind_eq_ok, bind_eq_ok]
    refine ⟨by omega, _, (propertyLoop_eq_ok whole
      (Nat.le_add_right _ _) le_rfl).mpr
        ⟨found.list, found.allowed, found.unrepeated, ?_, rfl⟩, ?_⟩
    · rw [← isEnd]
      exact isBody
    · rw [malformedIf_bind_eq_ok, seen_iff rfl, seen_iff rfl,
        PropertySection.result_eq rfl, isEnd]
      refine ⟨?_, rfl⟩
      rintro ⟨isConnect, hasData, noMethod⟩
      exact noMethod (found.hasMethod isConnect hasData)

end Sections

end PacketAudit
