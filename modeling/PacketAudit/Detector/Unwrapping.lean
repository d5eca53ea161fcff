import PacketAudit.Detector.Wrappers

namespace PacketAudit.Detector

/-!
# Unwrapping NTLM tokens

`_tlv` reads an element whose end lies before the limit, and no other, so that
a wrapper is read whole or not at all.
-/

/-! ## Elements -/

/-- A part of what follows a position. -/
theorem extract_of_drop
    {data rest : Bytes}
    {start : Nat}
    (shape : data.drop start = rest)
    (first last : Nat) :
    data.extract (start + first) (start + last) = rest.extract first last := by
  rw [← shape, List.extract_eq_take_drop, List.extract_eq_take_drop,
    List.drop_drop, Nat.add_sub_add_left]

namespace DerElement

variable (element : DerElement)

theorem length_bytes :
    element.bytes.length = element.header.length + element.content.length :=
  List.length_append

theorem two_le_length_header : 2 ≤ element.header.length := by
  rw [header]
  cases element.form with
  | short => exact Nat.le_refl 2
  | long more =>
      simp only [LengthForm.bytes, List.length_cons]
      omega

/-- `_tlv` reads an element just if it ends before the limit. -/
theorem tlv_bytes
    {data behind : Bytes}
    {start : Nat}
    (shape : data.drop start = element.bytes ++ behind)
    (limit : Nat) :
    tlv data start limit =
      if start + element.bytes.length ≤ limit then
        some ⟨element.tag, start + element.header.length,
          start + element.bytes.length⟩
      else
        none := by
  have twoBytes := element.two_le_length_header
  have size := element.length_bytes
  by_cases noHeader : limit < start + 2
  · rw [tlv, if_pos noHeader, if_neg (by omega)]
  obtain ⟨tag, form, content, fits⟩ := element
  have first := extract_of_drop shape 0 2
  rw [Nat.add_zero] at first
  rw [tlv, if_neg noHeader, first, size]
  cases form with
  | short =>
      have isSize : (UInt8.ofNat content.length).toNat = content.length := by
        rw [UInt8.toNat_ofNat']
        exact Nat.mod_eq_of_lt (Nat.lt_trans fits (by decide))
      have pair :
          (bytes ⟨tag, .short, content, fits⟩ ++ behind).extract 0 2 =
            [tag, UInt8.ofNat content.length] :=
        rfl
      have headerLength :
          (header ⟨tag, .short, content, fits⟩).length = 2 :=
        rfl
      have isShort : ¬128 ≤ content.length := Nat.not_le_of_lt fits
      simp only [pair, isSize, if_neg isShort, headerLength, TlvNode.within?,
        Nat.add_assoc]
  | long more =>
      have isSize : (UInt8.ofNat (129 + more)).toNat = 129 + more := by
        rw [UInt8.toNat_ofNat']
        exact Nat.mod_eq_of_lt (by omega)
      have isCount : (129 + more.val) % 128 = more + 1 := by
        omega
      have pair :
          (bytes ⟨tag, .long more, content, fits⟩ ++ behind).extract 0 2 =
            [tag, UInt8.ofNat (129 + more)] :=
        rfl
      have headerLength :
          (header ⟨tag, .long more, content, fits⟩).length = more + 3 := by
        simp only [header, LengthForm.bytes, List.length_cons,
          length_bigEndianBytes]
      have number :
          data.extract (start + 2) (start + 2 + (more + 1)) =
            bigEndianBytes (more + 1) content.length := by
        rw [Nat.add_assoc, extract_of_drop shape]
        simp only [bytes, header, LengthForm.bytes, List.cons_append,
          List.append_assoc, List.extract_eq_take_drop, List.drop_succ_cons,
          List.drop_zero, Nat.add_sub_cancel_left]
        exact List.take_left' (length_bigEndianBytes _ _)
      have isNumber :
          bigEndian (bigEndianBytes (more + 1) content.length) =
            content.length := by
        rw [bigEndian_bigEndianBytes]
        exact Nat.mod_eq_of_lt fits
      have isLong : 128 ≤ 129 + more.val := by omega
      simp only [pair, isSize, if_pos isLong, isCount, number, isNumber,
        headerLength, TlvNode.within?]
      have inRange := more.isLt
      by_cases noLength : limit < start + 2 + (more + 1)
      · rw [if_pos (.inr (.inr noLength)), if_neg (by omega)]
      · have total :
            start + 2 + (more + 1) + content.length =
              start + (more + 3 + content.length) := by
          omega
        rw [if_neg (by omega), total,
          show start + 2 + (more.val + 1) = start + (more + 3) by omega]

end DerElement

/-! ## Parts of the data -/

/-- The part stands in the data at a position. -/
def StandsAt (part data : Bytes) (start : Nat) : Prop :=
  part <+: data.drop start

namespace StandsAt

variable {data first second : Bytes} {start : Nat}

theorem append_left (stands : StandsAt (first ++ second) data start) :
    StandsAt first data start :=
  (List.prefix_append first second).trans stands

theorem append_right (stands : StandsAt (first ++ second) data start) :
    StandsAt second data (start + first.length) := by
  obtain ⟨behind, shape⟩ := stands
  refine ⟨behind, ?_⟩
  rw [← List.drop_drop, ← shape, List.append_assoc, List.drop_left]

theorem extract (stands : StandsAt first data start) :
    data.extract start (start + first.length) = first := by
  obtain ⟨behind, shape⟩ := stands
  have whole := extract_of_drop shape.symm 0 first.length
  rw [Nat.add_zero] at whole
  rw [whole, List.extract_eq_take_drop, List.drop_zero, Nat.sub_zero,
    List.take_left]

variable {element : DerElement}

theorem tlv (stands : StandsAt element.bytes data start) (limit : Nat) :
    tlv data start limit =
      if start + element.bytes.length ≤ limit then
        some ⟨element.tag, start + element.header.length,
          start + element.bytes.length⟩
      else
        none := by
  obtain ⟨behind, shape⟩ := stands
  exact element.tlv_bytes shape.symm limit

theorem tlv_of_le
    (stands : StandsAt element.bytes data start)
    (limit : Nat)
    (inside : start + element.bytes.length ≤ limit) :
    Detector.tlv data start limit =
      some ⟨element.tag, start + element.header.length,
        start + element.bytes.length⟩ := by
  rw [stands.tlv limit, if_pos inside]

/-- The content of an element stands behind its header. -/
theorem content (stands : StandsAt element.bytes data start) :
    StandsAt element.content data (start + element.header.length) :=
  stands.append_right

end StandsAt

/-- What lies behind the limit does not matter. -/
theorem tlv_take (data : Bytes) (start limit : Nat) :
    tlv (data.take limit) start limit = tlv data start limit := by
  have same
      {first last : Nat}
      (inside : last ≤ limit) :
      (data.take limit).extract first last = data.extract first last := by
    rw [List.extract_eq_take_drop, List.extract_eq_take_drop, List.drop_take,
      List.take_take, Nat.min_eq_left (by omega)]
  rw [tlv, tlv]
  by_cases noHeader : limit < start + 2
  · rw [if_pos noHeader, if_pos noHeader]
  rw [if_neg noHeader, if_neg noHeader, same (by omega)]
  split
  case h_2 => rfl
  case h_1 tag size isHeader =>
    dsimp only
    split
    case isFalse => rfl
    case isTrue =>
      by_cases noLength :
          size.toNat % 128 < 1 ∨ 3 < size.toNat % 128 ∨
            limit < start + 2 + size.toNat % 128
      · rw [if_pos noLength, if_pos noLength]
      · rw [if_neg noLength, if_neg noLength, same (by omega)]

/-- The value of an element lies behind its header and before its end. -/
theorem tlv_bounds
    {data : Bytes}
    {start limit : Nat}
    {node : TlvNode}
    (isNode : tlv data start limit = some node) :
    start + 2 ≤ node.value ∧ node.value ≤ node.stop ∧ node.stop ≤ limit := by
  have within
      {tag : UInt8}
      {value size : Nat}
      (behind : start + 2 ≤ value)
      (isNode : TlvNode.within? tag value size limit = some node) :
      start + 2 ≤ node.value ∧ node.value ≤ node.stop ∧
        node.stop ≤ limit := by
    rw [TlvNode.within?] at isNode
    split at isNode
    case isFalse => cases isNode
    case isTrue inside =>
      cases isNode
      exact ⟨behind, Nat.le_add_right value size, inside⟩
  rw [tlv] at isNode
  split at isNode
  case isTrue => cases isNode
  split at isNode
  case h_2 => cases isNode
  dsimp only at isNode
  split at isNode
  case isFalse => exact within (Nat.le_refl _) isNode
  case isTrue =>
    split at isNode
    case isTrue => cases isNode
    case isFalse => exact within (Nat.le_add_right _ _) isNode

/-! ## Wrappers -/

namespace SpnegoWrapper

theorem standsAt_zero (data : Bytes) : StandsAt data data 0 :=
  List.prefix_refl data

/-- The tagged token of a wrapper is found, and it ends with the wrapper. -/
theorem contextToken?_bytes (wrapper : SpnegoWrapper) :
    ∃ start,
      StandsAt wrapper.negToken.context.bytes wrapper.bytes start ∧
      start + wrapper.negToken.context.bytes.length = wrapper.bytes.length ∧
      contextToken? wrapper.bytes =
        some ⟨wrapper.negToken.context.tag,
          start + wrapper.negToken.context.header.length,
          wrapper.bytes.length⟩ := by
  cases wrapper with
  | bare negToken =>
      have stands := standsAt_zero negToken.context.bytes
      have outer := stands.tlv_of_le _ (Nat.zero_add _).le
      have notInitial : negToken.context.tag ≠ 0x60 := by
        intro isInitial
        rcases negToken.isContext with isInit | isResp
        · exact absurd (isInitial.symm.trans isInit) (by decide)
        · exact absurd (isInitial.symm.trans isResp) (by decide)
      rw [Nat.zero_add, Nat.zero_add] at outer
      refine ⟨0, stands, Nat.zero_add _, ?_⟩
      change contextToken? negToken.context.bytes = some _
      rw [contextToken?, outer, Nat.zero_add]
      simp only [Option.bind_eq_bind, Option.bind_some, guard, if_true,
        if_neg notInitial]
      rfl
  | initial outer oid negToken isOuter isOid holdsToken =>
      have stands := standsAt_zero outer.bytes
      have isNode := stands.tlv_of_le _ (Nat.zero_add _).le
      have inner := stands.content
      rw [holdsToken] at inner
      have oidStands := inner.append_left
      have contextStands := inner.append_right
      have total := outer.length_bytes
      rw [holdsToken, List.length_append] at total
      rw [Nat.zero_add] at oidStands contextStands
      have oidNode := oidStands.tlv_of_le outer.bytes.length (by omega)
      have contextNode := contextStands.tlv_of_le outer.bytes.length (by omega)
      have oidContent := oidStands.content.extract
      rw [Nat.add_assoc, ← oid.length_bytes] at oidContent
      rw [Nat.zero_add, Nat.zero_add] at isNode
      have atEnd :
          outer.header.length + oid.bytes.length +
              negToken.context.bytes.length =
            outer.bytes.length := by
        omega
      refine ⟨outer.header.length + oid.bytes.length, contextStands, atEnd, ?_⟩
      change contextToken? outer.bytes = some _
      rw [contextToken?, isNode]
      simp only [Option.bind_eq_bind, Option.bind_some, guard, if_true,
        isOuter, negotiationToken?, oidNode, isOid.1, oidContent, isOid.2,
        contextNode, atEnd, and_self]
      rfl

end SpnegoWrapper

/-! ## Fields -/

/-- The bytes of fields one behind the other. -/
def fieldBytes (fields : List DerElement) : Bytes :=
  fields.flatMap DerElement.bytes

theorem fieldBytes_cons (field : DerElement) (fields : List DerElement) :
    fieldBytes (field :: fields) = field.bytes ++ fieldBytes fields :=
  List.flatMap_cons

theorem fieldBytes_append (front behind : List DerElement) :
    fieldBytes (front ++ behind) = fieldBytes front ++ fieldBytes behind :=
  List.flatMap_append

section Loop

variable {data : Bytes} {stop cursor : Nat} {found : Option Bytes}

theorem readTokenFields_end (rounds : Nat) :
    readTokenFields data stop rounds stop found = some (stop, found) := by
  cases rounds with
  | zero => rfl
  | succ rounds => rw [readTokenFields, if_neg (Nat.lt_irrefl stop)]

/-- One round of the loop, at a field. -/
theorem readTokenFields_field
    {field : DerElement}
    (stands : StandsAt field.bytes data cursor)
    (inside : cursor + field.bytes.length ≤ stop)
    (rounds : Nat) :
    readTokenFields data stop (rounds + 1) cursor found =
      if field.tag = 0xA2 then
        match tlv data (cursor + field.header.length)
            (cursor + field.bytes.length) with
        | none => none
        | some inner =>
            if inner.tag ≠ 4 ∨
                inner.stop ≠ cursor + field.bytes.length ∨ found.isSome then
              none
            else
              readTokenFields data stop rounds (cursor + field.bytes.length)
                (some (data.extract inner.value inner.stop))
      else
        readTokenFields data stop rounds (cursor + field.bytes.length)
          found := by
  have header := field.two_le_length_header
  have size := field.length_bytes
  apply Eq.trans
  · rw [readTokenFields, if_pos (by omega), stands.tlv_of_le stop inside]
  · rfl

/-- The loop passes over fields with other tags. -/
theorem readTokenFields_others
    {fields : List DerElement}
    (others : ∀ field ∈ fields, field.tag ≠ 0xA2)
    (stands : StandsAt (fieldBytes fields) data cursor)
    (inside : cursor + (fieldBytes fields).length ≤ stop)
    (rounds : Nat) :
    readTokenFields data stop (fields.length + rounds) cursor found =
      readTokenFields data stop rounds
        (cursor + (fieldBytes fields).length) found := by
  induction fields generalizing cursor with
  | nil => rw [List.length_nil, Nat.zero_add]; rfl
  | cons field fields inductionHypothesis =>
      rw [List.forall_mem_cons] at others
      rw [fieldBytes_cons] at stands inside ⊢
      rw [List.length_append] at inside ⊢
      rw [List.length_cons, Nat.add_right_comm,
        readTokenFields_field stands.append_left (by omega),
        if_neg others.1,
        inductionHypothesis others.2 stands.append_right (by omega),
        Nat.add_assoc]

/-- The loop takes the token of a token field. -/
theorem readTokenFields_token
    {field : DerElement}
    {token : Bytes}
    (isTokenField : field.IsTokenField token)
    (stands : StandsAt field.bytes data cursor)
    (inside : cursor + field.bytes.length ≤ stop)
    (rounds : Nat) :
    readTokenFields data stop (rounds + 1) cursor none =
      readTokenFields data stop rounds (cursor + field.bytes.length)
        (some token) := by
  obtain ⟨inner, isTagged, holdsInner, isOctets, holdsToken⟩ := isTokenField
  have innerStands := stands.content
  rw [holdsInner] at innerStands
  have size := field.length_bytes
  rw [holdsInner] at size
  have atEnd :
      cursor + field.header.length + inner.bytes.length =
        cursor + field.bytes.length := by
    omega
  have isToken := innerStands.content.extract
  rw [Nat.add_assoc _ inner.header.length, ← inner.length_bytes, atEnd,
    holdsToken] at isToken
  rw [readTokenFields_field stands inside, if_pos isTagged,
    innerStands.tlv_of_le _ atEnd.le]
  simp only [isOctets, atEnd, isToken]
  exact if_neg (by simp)

/-- A loop that comes to the end has met at most one field with the tag. -/
theorem count_tokenFields
    {fields : List DerElement}
    (stands : StandsAt (fieldBytes fields) data cursor)
    (atEnd : cursor + (fieldBytes fields).length = stop)
    {rounds : Nat}
    {result : Option Bytes}
    (comesToEnd :
      readTokenFields data stop rounds cursor found = some (stop, result)) :
    fields.countP (·.tag = 0xA2) + found.isSome.toNat ≤ 1 := by
  induction fields generalizing cursor found rounds with
  | nil => cases found <;> simp
  | cons field fields inductionHypothesis =>
      have header := field.two_le_length_header
      have size := field.length_bytes
      rw [fieldBytes_cons] at stands atEnd
      rw [List.length_append] at atEnd
      have laterStands := stands.append_right
      cases rounds with
      | zero =>
          rw [readTokenFields, Option.some.injEq, Prod.mk.injEq] at comesToEnd
          omega
      | succ rounds =>
          rw [readTokenFields_field stands.append_left (by omega)]
            at comesToEnd
          by_cases isTagged : field.tag = 0xA2
          · rw [if_pos isTagged] at comesToEnd
            split at comesToEnd
            case h_1 => cases comesToEnd
            case h_2 =>
              split at comesToEnd
              case isTrue => cases comesToEnd
              case isFalse notSecond =>
                have noneFound : found.isSome = false := by
                  simp only [not_or, Bool.not_eq_true] at notSecond
                  exact notSecond.2.2
                have later :=
                  inductionHypothesis laterStands (by omega) comesToEnd
                rw [List.countP_cons_of_pos (by simpa using isTagged),
                  noneFound]
                exact later
          · rw [if_neg isTagged] at comesToEnd
            rw [List.countP_cons_of_neg (by simpa using isTagged)]
            exact inductionHypothesis laterStands (by omega) comesToEnd

/-- What the loop finds is a slice of the data. -/
theorem readTokenFields_within
    (isSlice : ∀ part, found = some part → part <:+: data)
    {rounds last : Nat}
    {result : Bytes}
    (isResult :
      readTokenFields data stop rounds cursor found =
        some (last, some result)) :
    result <:+: data := by
  induction rounds generalizing cursor found with
  | zero =>
      rw [readTokenFields, Option.some.injEq, Prod.mk.injEq] at isResult
      exact isSlice result isResult.2
  | succ rounds inductionHypothesis =>
      rw [readTokenFields] at isResult
      split at isResult
      case isFalse =>
        rw [Option.some.injEq, Prod.mk.injEq] at isResult
        exact isSlice result isResult.2
      case isTrue =>
        split at isResult
        case h_1 => cases isResult
        case h_2 child _ =>
          split at isResult
          case isFalse => exact inductionHypothesis isSlice isResult
          case isTrue =>
            split at isResult
            case h_1 => cases isResult
            case h_2 inner _ =>
              split at isResult
              case isTrue => cases isResult
              case isFalse =>
                refine inductionHypothesis ?_ isResult
                rintro part isPart
                rw [← Option.some.inj isPart, List.extract_eq_take_drop]
                exact (List.take_prefix _ _).isInfix.trans
                  (List.drop_suffix _ _).isInfix

end Loop

/-! ## Tokens -/

namespace SpnegoWrapper

/-- At most eight fields, of which one holds the token. -/
def Holds (wrapper : SpnegoWrapper) (token : Bytes) : Prop :=
  wrapper.negToken.fields.length ≤ 8 ∧
    ∃ before field behind,
      wrapper.negToken.fields = before ++ field :: behind ∧
        field.IsTokenField token ∧
        ∀ other ∈ before ++ behind, other.tag ≠ 0xA2

/-- A second field is tagged as a token field. -/
def HoldsTwice (wrapper : SpnegoWrapper) : Prop :=
  2 ≤ wrapper.negToken.fields.countP (·.tag = 0xA2)

variable (wrapper : SpnegoWrapper)

theorem notSignature (rest : Bytes) :
    ¬ntlmSignature <+: wrapper.bytes ++ rest := by
  have isTag :
      wrapper.outermost.tag = 0x60 ∨ wrapper.outermost.tag = 0xA0 ∨
        wrapper.outermost.tag = 0xA1 := by
    cases wrapper with
    | bare negToken => exact .inr negToken.isContext
    | initial outer oid negToken isOuter isOid holdsToken => exact .inl isOuter
  rintro ⟨behind, shape⟩
  have first := congrArg List.head? shape
  have isFirst : wrapper.outermost.tag = 0x4E := by
    simpa [ntlmSignature, bytes, DerElement.bytes, DerElement.header]
      using first.symm
  rw [isFirst] at isTag
  revert isTag
  decide

/-- What is done with a wrapper comes down to its fields. -/
theorem unwrapNtlm_bytes
    (isSmall : wrapper.bytes.length ≤ 65536) :
    ∃ start,
      StandsAt (fieldBytes wrapper.negToken.fields) wrapper.bytes start ∧
      start + (fieldBytes wrapper.negToken.fields).length =
        wrapper.bytes.length ∧
      unwrapNtlm wrapper.bytes =
        (readTokenFields wrapper.bytes wrapper.bytes.length 8 start none).bind
          fun found =>
            found.2.bind fun token =>
              if found.1 = wrapper.bytes.length ∧ ntlmSignature <+: token then
                some token
              else
                none := by
  obtain ⟨start, stands, atEnd, isContext⟩ := wrapper.contextToken?_bytes
  have sequenceStands := stands.content
  rw [wrapper.negToken.holdsSequence] at sequenceStands
  have size := wrapper.negToken.context.length_bytes
  rw [wrapper.negToken.holdsSequence] at size
  have sequenceEnd :
      start + wrapper.negToken.context.header.length +
          wrapper.negToken.sequence.bytes.length =
        wrapper.bytes.length := by
    omega
  have fieldsStand := sequenceStands.content
  rw [wrapper.negToken.holdsFields] at fieldsStand
  have sequenceSize := wrapper.negToken.sequence.length_bytes
  rw [wrapper.negToken.holdsFields] at sequenceSize
  refine ⟨_, fieldsStand, ?_, ?_⟩
  · rw [← sequenceEnd, sequenceSize, fieldBytes]
    omega
  · have notSignature := wrapper.notSignature []
    rw [List.append_nil] at notSignature
    rw [unwrapNtlm, if_neg (Nat.not_lt.mpr isSmall), if_neg notSignature,
      isContext]
    have isSequence :=
      sequenceStands.tlv_of_le wrapper.bytes.length sequenceEnd.le
    simp only [Option.bind_eq_bind, Option.bind_some, guard, Option.pure_def,
      wrapper.negToken.isContext, if_true, isSequence,
      wrapper.negToken.isSequence, sequenceEnd, and_self]
    refine congrArg (Option.bind _) (funext fun found => ?_)
    refine congrArg (Option.bind _) (funext fun token => ?_)
    split <;> rfl

/-- The one token of a wrapper is unwrapped. -/
theorem unwrapNtlm_of_holds
    {token : Bytes}
    (isSmall : wrapper.bytes.length ≤ 65536)
    (isNtlm : ntlmSignature <+: token)
    (holds : wrapper.Holds token) :
    unwrapNtlm wrapper.bytes = some token := by
  obtain ⟨start, stands, atEnd, isUnwrapped⟩ :=
    wrapper.unwrapNtlm_bytes isSmall
  obtain ⟨few, before, field, behind, shape, isTokenField, others⟩ := holds
  obtain ⟨othersBefore, othersBehind⟩ := List.forall_mem_append.mp others
  rw [shape, fieldBytes_append, fieldBytes_cons] at stands atEnd
  rw [List.length_append, List.length_append] at atEnd
  rw [shape, List.length_append, List.length_cons] at few
  have fieldStands := stands.append_right.append_left
  have behindStands := stands.append_right.append_right
  obtain ⟨spare, rounds⟩ :
      ∃ spare, 8 = before.length + (behind.length + spare + 1) :=
    ⟨8 - (before.length + (behind.length + 1)), by omega⟩
  have fieldEnd :
      start + (fieldBytes before).length + field.bytes.length +
          (fieldBytes behind).length =
        wrapper.bytes.length := by
    omega
  rw [isUnwrapped, rounds,
    readTokenFields_others othersBefore stands.append_left (by omega),
    readTokenFields_token isTokenField fieldStands (by omega),
    readTokenFields_others othersBehind behindStands (by omega), fieldEnd,
    readTokenFields_end]
  simp [isNtlm]

/-- A wrapper with a second token field is not unwrapped. -/
theorem unwrapNtlm_of_holdsTwice
    (holdsTwice : wrapper.HoldsTwice) :
    unwrapNtlm wrapper.bytes = none := by
  by_cases isSmall : wrapper.bytes.length ≤ 65536
  case neg => rw [unwrapNtlm, if_pos (Nat.lt_of_not_le isSmall)]
  obtain ⟨start, stands, atEnd, isUnwrapped⟩ :=
    wrapper.unwrapNtlm_bytes isSmall
  rw [isUnwrapped]
  cases isRead :
      readTokenFields wrapper.bytes wrapper.bytes.length 8 start none with
  | none => rfl
  | some read =>
      obtain ⟨last, found⟩ := read
      have notAtEnd : last ≠ wrapper.bytes.length := by
        rintro rfl
        have count := count_tokenFields stands atEnd isRead
        rw [Option.isSome_none, Bool.toNat_false, Nat.add_zero] at count
        exact absurd (Nat.le_trans holdsTwice count) (by decide)
      cases found <;> simp [notAtEnd]

/-- A wrapper that breaks off is not unwrapped. -/
theorem unwrapNtlm_take
    {size : Nat}
    (breaksOff : size < wrapper.bytes.length) :
    unwrapNtlm (wrapper.bytes.take size) = none := by
  have length : (wrapper.bytes.take size).length = size := by
    rw [List.length_take, Nat.min_eq_left breaksOff.le]
  have notSignature : ¬ntlmSignature <+: wrapper.bytes.take size := by
    intro isSignature
    have whole := wrapper.notSignature []
    rw [List.append_nil] at whole
    exact whole (isSignature.trans (List.take_prefix _ _))
  have noElement : tlv wrapper.bytes 0 size = none := by
    have stands := standsAt_zero wrapper.outermost.bytes
    rw [bytes, stands.tlv size, if_neg]
    rw [bytes] at breaksOff
    omega
  rw [unwrapNtlm, length, if_neg notSignature, contextToken?, length,
    tlv_take, noElement]
  split <;> rfl

/-- A wrapper with more bytes behind it is not unwrapped. -/
theorem unwrapNtlm_append
    {extra : Bytes}
    (notEmpty : extra ≠ []) :
    unwrapNtlm (wrapper.bytes ++ extra) = none := by
  have more := List.length_pos_iff.mpr notEmpty
  have stands : StandsAt wrapper.outermost.bytes (wrapper.bytes ++ extra) 0 :=
    List.prefix_append _ _
  have isNode :=
    stands.tlv_of_le (wrapper.bytes ++ extra).length
      (by rw [List.length_append, bytes]; omega)
  have notAtEnd :
      0 + wrapper.outermost.bytes.length ≠
        (wrapper.bytes ++ extra).length := by
    rw [List.length_append, bytes]
    omega
  rw [unwrapNtlm, if_neg (wrapper.notSignature extra), contextToken?, isNode]
  simp only [Option.bind_eq_bind, Option.bind_some, guard, if_neg notAtEnd]
  split <;> rfl

end SpnegoWrapper

/-- What is unwrapped is a slice that starts with the signature. -/
theorem unwrapNtlm_within
    {data token : Bytes}
    (isUnwrapped : unwrapNtlm data = some token) :
    token <:+: data ∧ ntlmSignature <+: token := by
  rw [unwrapNtlm] at isUnwrapped
  split at isUnwrapped
  case isTrue => cases isUnwrapped
  split at isUnwrapped
  case isTrue isNtlm =>
    cases isUnwrapped
    exact ⟨List.infix_refl data, isNtlm⟩
  case isFalse =>
    simp only [Option.bind_eq_bind, Option.bind_eq_some_iff, guard]
      at isUnwrapped
    obtain ⟨context, -, -, -, fields, -, -, -, ⟨last, found⟩, isRead, part,
      isFound, _, isGuard, isToken⟩ := isUnwrapped
    obtain rfl : found = some part := isFound
    obtain rfl := Option.some.inj isToken
    refine ⟨readTokenFields_within (by simp) isRead, ?_⟩
    split at isGuard
    case isTrue isNtlm => exact isNtlm.2
    case isFalse => cases isGuard

/--
Unwrapping inverts wrapping: a wrapper with one token gives that token, unless
it breaks off, has more bytes behind it or holds a second token; and whatever
is unwrapped is a slice of the input that starts with the signature.
-/
theorem unwrap_ntlm_inverts_wrapping :
    (∀ (wrapper : SpnegoWrapper) (token : Bytes),
      wrapper.bytes.length ≤ 65536 →
      ntlmSignature <+: token →
      wrapper.Holds token →
        unwrapNtlm wrapper.bytes = some token ∧
        (∀ size < wrapper.bytes.length,
          unwrapNtlm (wrapper.bytes.take size) = none) ∧
        ∀ extra, extra ≠ [] → unwrapNtlm (wrapper.bytes ++ extra) = none) ∧
    (∀ wrapper : SpnegoWrapper,
      wrapper.HoldsTwice → unwrapNtlm wrapper.bytes = none) ∧
    ∀ data token : Bytes,
      unwrapNtlm data = some token →
        token <:+: data ∧ ntlmSignature <+: token := by
  refine ⟨?_, ?_, ?_⟩
  · intro wrapper token isSmall isNtlm holds
    exact ⟨wrapper.unwrapNtlm_of_holds isSmall isNtlm holds,
      fun size breaksOff => wrapper.unwrapNtlm_take breaksOff,
      fun extra notEmpty => wrapper.unwrapNtlm_append notEmpty⟩
  · intro wrapper holdsTwice
    exact wrapper.unwrapNtlm_of_holdsTwice holdsTwice
  · intro data token isUnwrapped
    exact unwrapNtlm_within isUnwrapped

/-- An element whose length is written in one byte. -/
def shortElement
    (tag : UInt8)
    (content : Bytes)
    (fits : content.length < 128) : DerElement where
  tag := tag
  form := .short
  content := content
  fits := fits

/-- The field of the signature alone. -/
def signatureField : DerElement :=
  shortElement 0xA2 (shortElement 4 ntlmSignature (by decide)).bytes
    (by decide)

/-- A `NegTokenResp` with a state, a mechanism and the signature alone. -/
def signatureToken : NegToken where
  fields :=
    [⟨0xA0, .long 1, [0x0A, 1, 0], by decide⟩, signatureField]
  sequence := shortElement 0x30
    ([0xA0, 0x82, 0, 3, 0x0A, 1, 0] ++ signatureField.bytes) (by decide)
  context := shortElement 0xA1
    ([0x30, 19, 0xA0, 0x82, 0, 3, 0x0A, 1, 0] ++ signatureField.bytes)
    (by decide)
  isContext := .inr rfl
  holdsSequence := by decide
  isSequence := rfl
  holdsFields := by decide

theorem signatureToken_unwrapped :
    unwrapNtlm (SpnegoWrapper.bare signatureToken).bytes =
        some ntlmSignature ∧
      unwrapNtlm ((SpnegoWrapper.bare signatureToken).bytes.take 5) = none := by
  have holds : (SpnegoWrapper.bare signatureToken).Holds ntlmSignature := by
    refine ⟨by decide, [⟨0xA0, .long 1, [0x0A, 1, 0], by decide⟩],
      signatureField, [], rfl, ?_, by simp⟩
    exact ⟨shortElement 4 ntlmSignature (by decide), rfl, rfl, rfl, rfl⟩
  obtain ⟨unwraps, breaksOff, -⟩ :=
    unwrap_ntlm_inverts_wrapping.1 (.bare signatureToken) ntlmSignature
      (by decide) (List.prefix_refl _) holds
  exact ⟨unwraps, breaksOff 5 (by decide)⟩

end PacketAudit.Detector
