import PacketAudit.Findings.Addresses
import PacketAudit.Json.Loads
import PacketAudit.Supervisor.Routing

namespace PacketAudit

/-!
# The endpoints of a finding

`finding_endpoints` of `models.py` reads the endpoints of a flow back from the
flow's text, which starts with the name of the interface or of the capture.
-/

/-! ## Texts -/

/-- What Python knows of the characters beyond ASCII. -/
structure UnicodeTables where
  isSpace : Char → Bool
  decimal : Char → Option (Fin 10)

namespace UnicodeTables

/-- The ASCII character that `int` reads for a character. -/
def ascii (unicode : UnicodeTables) (character : Char) : Char :=
  if character.toNat < 128 then character
  else if unicode.isSpace character then ' '
  else
    match unicode.decimal character with
    | some digit => Nat.digitChar digit
    | none => '?'

end UnicodeTables

/-- `isspace` of C. -/
def isAsciiSpace (character : Char) : Bool :=
  character = ' ' || (9 ≤ character.toNat && character.toNat ≤ 13)

/-- The text without the whitespace around it. -/
def stripSpace (text : List Char) : List Char :=
  ((text.dropWhile isAsciiSpace).reverse.dropWhile isAsciiSpace).reverse

/-- Whether the number is negative, and what follows its sign. -/
def splitSign : List Char → Bool × List Char
  | '-' :: rest => (true, rest)
  | '+' :: rest => (false, rest)
  | text => (false, text)

/-- `int` of a text; `none` where it raises. -/
def UnicodeTables.toInt?
    (unicode : UnicodeTables)
    (text : List Char) : Option Int :=
  let (negative, number) := splitSign (stripSpace (text.map unicode.ascii))
  -- Underscores may stand one at a time between digits.
  let groups := number.splitOn '_'
  let digits := groups.flatten
  if groups.all (fun group => !group.isEmpty && group.all Char.isDigit) &&
      decide (digits.length ≤ maxIntDigits) then
    let value : Int := Nat.ofDigitChars 10 digits 0
    some (if negative then -value else value)
  else
    none

/-- `rsplit(":", 1)`, where it gives two pieces. -/
def rsplitColon? (text : List Char) : Option (List Char × List Char) :=
  if ':' ∈ text then
    let behind := (text.reverse.takeWhile (· ≠ ':')).reverse
    some (text.take (text.length - behind.length - 1), behind)
  else
    none

/-- `removeprefix("[")`. -/
def removeOpening (text : List Char) : List Char :=
  if text.head? = some '[' then text.tail else text

/-- `removesuffix("]")`. -/
def removeClosing (text : List Char) : List Char :=
  if text.getLast? = some ']' then text.dropLast else text

/-! ## Endpoints -/

/-- The body of the loop; `none` where it raises or returns. -/
def readEndpoint
    (unicode : UnicodeTables)
    (value : List Char) : Option Endpoint :=
  match rsplitColon? value with
  | none => none
  | some (bracketed, portText) =>
      let address := removeClosing (removeOpening bracketed)
      if isIpAddress address then
        match unicode.toInt? portText with
        | none => none
        | some port =>
            if 0 ≤ port ∧ port ≤ 65535 then
              some ⟨String.ofList address, port.toNat⟩
            else
              none
      else
        none

/-- `finding_endpoints`. -/
def findingEndpoints
    (unicode : UnicodeTables)
    (flowId : String)
    (direction : Option Int) : Option Endpoint × Option Endpoint :=
  if direction ≠ some 0 ∧ direction ≠ some 1 then
    (none, none)
  else
    let pieces := flowId.toList.splitOn '|'
    if pieces.length < 5 then
      (none, none)
    else
      match (pieces.extract 3 5).mapM (readEndpoint unicode) with
      | some [first, second] =>
          if direction = some 0 then (some first, some second)
          else (some second, some first)
      | _ => (none, none)

/-- `Finding.direction`. -/
def Direction.index : Direction → Int
  | aToB => 0
  | bToA => 1

/-- The part of a flow's text that names the connection epoch. -/
def epochSuffix : Option Nat → String
  | none => ""
  | some epoch => "|epoch=" ++ toString epoch

/-- An address as the packet parsers write it. -/
structure HostAddress where
  text : String
  written :
    (∃ data : Bytes, data.length = 4 ∧ text = ipv4Text data) ∨
      (∃ data : Bytes, data.length = 16 ∧ text = ipv6Text data)

/-! ## Reading one endpoint -/

theorem rsplitColon?_append
    (front : List Char)
    {behind : List Char}
    (noColon : ':' ∉ behind) :
    rsplitColon? (front ++ ':' :: behind) = some (front, behind) := by
  have keeps : ∀ character ∈ behind.reverse,
      decide (character ≠ ':') = true := by
    intro character member
    rw [decide_eq_true_eq]
    rintro rfl
    exact noColon (List.mem_reverse.mp member)
  have ends :
      (front ++ ':' :: behind).reverse.takeWhile (· ≠ ':') =
        behind.reverse := by
    rw [List.reverse_append, List.reverse_cons, List.append_assoc,
      List.takeWhile_append_of_pos keeps]
    simp
  rw [rsplitColon?, if_pos (by simp)]
  simp only [ends, List.reverse_reverse, List.length_append,
    List.length_cons]
  rw [show front.length + (behind.length + 1) - behind.length - 1 =
    front.length by omega, List.take_left]

theorem rsplitColon?_eq_some
    {text front behind : List Char} :
    rsplitColon? text = some (front, behind) ↔
      text = front ++ ':' :: behind ∧ ':' ∉ behind := by
  constructor
  · intro isSplit
    have hasColon : ':' ∈ text.reverse := by
      rw [List.mem_reverse]
      by_contra noColon
      rw [rsplitColon?, if_neg noColon] at isSplit
      cases isSplit
    obtain ⟨last, before, shape, noColon⟩ :=
      List.eq_append_cons_of_mem hasColon
    have forward : text = before.reverse ++ ':' :: last.reverse := by
      rw [← List.reverse_reverse text, shape]
      simp
    have noColonBehind : ':' ∉ last.reverse :=
      fun member => noColon (List.mem_reverse.mp member)
    rw [forward, rsplitColon?_append _ noColonBehind, Option.some.injEq,
      Prod.mk.injEq] at isSplit
    obtain ⟨rfl, rfl⟩ := isSplit
    exact ⟨forward, noColonBehind⟩
  · rintro ⟨rfl, noColon⟩
    exact rsplitColon?_append front noColon

/-- Brackets that may stand around an address, each without the other. -/
def IsBracketed (bracketed address : List Char) : Prop :=
  ∃ opening closing,
    (opening = [] ∨ opening = ['[']) ∧ (closing = [] ∨ closing = [']']) ∧
      bracketed = opening ++ (address ++ closing)

theorem removeClosing_eq_iff
    {text address : List Char}
    (noBracket : ']' ∉ address) :
    removeClosing text = address ↔
      ∃ closing, (closing = [] ∨ closing = [']']) ∧
        text = address ++ closing := by
  constructor
  · intro isAddress
    rw [removeClosing] at isAddress
    split at isAddress
    case isTrue ends =>
      refine ⟨[']'], .inr rfl, ?_⟩
      rw [← isAddress]
      exact (List.dropLast_append_getLast? ']' ends).symm
    case isFalse =>
      exact ⟨[], .inl rfl, by rw [isAddress, List.append_nil]⟩
  · rintro ⟨closing, rfl | rfl, rfl⟩
    · rw [List.append_nil, removeClosing, if_neg]
      intro ends
      exact noBracket (List.mem_of_getLast? ends)
    · rw [removeClosing, if_pos (by simp), List.dropLast_concat]

theorem removeOpening_eq_iff
    {text rest : List Char}
    (noBracket : rest.head? ≠ some '[') :
    removeOpening text = rest ↔
      ∃ opening, (opening = [] ∨ opening = ['[']) ∧
        text = opening ++ rest := by
  constructor
  · intro isRest
    rw [removeOpening] at isRest
    split at isRest
    case isTrue starts =>
      refine ⟨['['], .inr rfl, ?_⟩
      rw [← isRest]
      exact List.eq_cons_of_mem_head? starts
    case isFalse =>
      exact ⟨[], .inl rfl, by rw [isRest, List.nil_append]⟩
  · rintro ⟨opening, rfl | rfl, rfl⟩
    · exact if_neg noBracket
    · rfl

namespace HostAddress

variable (address : HostAddress)

theorem isIpAddress :
    PacketAudit.isIpAddress address.text.toList = true := by
  rw [PacketAudit.isIpAddress, Bool.or_eq_true]
  rcases address.written with ⟨data, isLong, isText⟩ | ⟨data, isLong, isText⟩
  · exact .inl (isText ▸ isIpv4Address_ipv4Text isLong)
  · exact .inr (isText ▸ isIpv6Address_ipv6Text isLong)

theorem not_mem
    {character : Char}
    (notDot : character ≠ '.')
    (notColon : character ≠ ':')
    (notHex : isHexChar character = false) :
    character ∉ address.text.toList := by
  rcases address.written with ⟨data, isLong, isText⟩ | ⟨data, isLong, isText⟩
  · rw [isText]
    intro member
    rcases ipv4Text_chars member with isDot | isDigit
    · exact notDot isDot
    · simp [isHexChar, isDigit] at notHex
  · rw [isText]
    exact ipv6Text_chars isLong notColon notHex

theorem ne_nil : address.text.toList ≠ [] := by
  intro isEmpty
  have isAddress := address.isIpAddress
  rw [isEmpty] at isAddress
  cases isAddress

/-- What is left between the brackets is the address. -/
theorem removeBrackets_iff
    {bracketed : List Char} :
    removeClosing (removeOpening bracketed) = address.text.toList ↔
      IsBracketed bracketed address.text.toList := by
  have noOpening : '[' ∉ address.text.toList :=
    address.not_mem (by decide) (by decide) (by decide)
  have noClosing : ']' ∉ address.text.toList :=
    address.not_mem (by decide) (by decide) (by decide)
  have notFirst
      (closing : List Char) :
      (address.text.toList ++ closing).head? ≠ some '[' := by
    obtain ⟨first, rest, shape⟩ :=
      List.exists_cons_of_ne_nil address.ne_nil
    rw [shape] at noOpening ⊢
    intro isFirst
    exact noOpening (by simp_all)
  rw [removeClosing_eq_iff noClosing]
  constructor
  · rintro ⟨closing, isClosing, shape⟩
    obtain ⟨opening, isOpening, whole⟩ :=
      (removeOpening_eq_iff (notFirst closing)).mp shape
    exact ⟨opening, closing, isOpening, isClosing, whole⟩
  · rintro ⟨opening, closing, isOpening, isClosing, whole⟩
    exact ⟨closing, isClosing,
      (removeOpening_eq_iff (notFirst closing)).mpr ⟨opening, isOpening, whole⟩⟩

end HostAddress

/-- The text of an endpoint, its address perhaps within brackets. -/
def ReadsAs
    (unicode : UnicodeTables)
    (piece : List Char)
    (endpoint : Endpoint) : Prop :=
  ∃ bracketed portText,
    piece = bracketed ++ ':' :: portText ∧ ':' ∉ portText ∧
      IsBracketed bracketed endpoint.address.toList ∧
      unicode.toInt? portText = some (endpoint.port : Int)

theorem readEndpoint_eq_some_iff
    {unicode : UnicodeTables}
    {piece : List Char}
    (address : HostAddress)
    (port : Fin 65536) :
    readEndpoint unicode piece = some ⟨address.text, port⟩ ↔
      ReadsAs unicode piece ⟨address.text, port⟩ := by
  constructor
  · intro reads
    rw [readEndpoint] at reads
    split at reads
    case h_1 => cases reads
    case h_2 bracketed portText isSplit =>
      obtain ⟨shape, noColon⟩ := rsplitColon?_eq_some.mp isSplit
      dsimp only at reads
      split at reads
      case isFalse => cases reads
      case isTrue =>
        split at reads
        case h_1 => cases reads
        case h_2 number isNumber =>
          split at reads
          case isFalse => cases reads
          case isTrue inRange =>
            rw [Option.some.injEq, Endpoint.mk.injEq, ← String.toList_inj,
              String.toList_ofList] at reads
            obtain ⟨isAddress, isPort⟩ := reads
            refine ⟨bracketed, portText, shape, noColon,
              address.removeBrackets_iff.mp isAddress, ?_⟩
            rw [isNumber, ← isPort, Int.toNat_of_nonneg inRange.1]
  · rintro ⟨bracketed, portText, shape, noColon, isBracketed, isPort⟩
    have isAddress := address.removeBrackets_iff.mpr isBracketed
    have inRange : (0 : Int) ≤ (port : Nat) ∧ ((port : Nat) : Int) ≤ 65535 := by
      have small := port.isLt
      omega
    rw [readEndpoint, shape, rsplitColon?_append _ noColon]
    simp only [isAddress, address.isIpAddress, if_true, isPort, inRange,
      and_self, String.ofList_toList, Int.toNat_natCast]

theorem readEndpoint_of_noColon
    (unicode : UnicodeTables)
    {piece : List Char}
    (noColon : ':' ∉ piece) :
    readEndpoint unicode piece = none := by
  rw [readEndpoint, rsplitColon?, if_neg noColon]

theorem toNat_of_isDigit
    {character : Char}
    (isDigit : character.isDigit = true) :
    48 ≤ character.toNat ∧ character.toNat ≤ 57 := by
  simpa [Char.isDigit, UInt32.le_iff_toNat_le] using isDigit

theorem ascii_of_isDigit
    (unicode : UnicodeTables)
    {character : Char}
    (isDigit : character.isDigit = true) :
    unicode.ascii character = character := by
  have bounds := toNat_of_isDigit isDigit
  rw [UnicodeTables.ascii, if_pos (by omega)]

theorem dropWhile_isAsciiSpace
    {text : List Char}
    (areDigits : ∀ character ∈ text, character.isDigit = true) :
    text.dropWhile isAsciiSpace = text := by
  cases text with
  | nil => rfl
  | cons first rest =>
      have bounds := toNat_of_isDigit (areDigits first List.mem_cons_self)
      refine List.dropWhile_cons_of_neg ?_
      simp only [isAsciiSpace, Bool.or_eq_true, Bool.and_eq_true,
        decide_eq_true_eq, not_or]
      refine ⟨?_, by omega⟩
      rintro rfl
      exact absurd bounds (by decide)

theorem splitSign_digits
    {text : List Char}
    (areDigits : ∀ character ∈ text, character.isDigit = true) :
    splitSign text = (false, text) := by
  unfold splitSign
  split
  case h_1 rest => cases areDigits '-' List.mem_cons_self
  case h_2 rest => cases areDigits '+' List.mem_cons_self
  case h_3 => rfl

/-- `int` of decimal digits. -/
theorem toInt?_digits
    (unicode : UnicodeTables)
    {text : List Char}
    (notEmpty : text ≠ [])
    (areDigits : ∀ character ∈ text, character.isDigit = true)
    (isShort : text.length ≤ maxIntDigits) :
    unicode.toInt? text = some (Nat.ofDigitChars 10 text 0 : Int) := by
  have isAscii : text.map unicode.ascii = text := by
    calc
      text.map unicode.ascii = text.map id :=
        List.map_congr_left fun character member =>
          ascii_of_isDigit unicode (areDigits character member)
      _ = text := List.map_id text
  have noSpace : stripSpace text = text := by
    rw [stripSpace, dropWhile_isAsciiSpace areDigits,
      dropWhile_isAsciiSpace fun character member =>
        areDigits character (List.mem_reverse.mp member),
      List.reverse_reverse]
  have oneGroup : text.splitOn '_' = [text] := by
    refine List.splitOn_eq_singleton fun member => ?_
    have isDigit := areDigits '_' member
    cases isDigit
  simp only [UnicodeTables.toInt?, isAscii, noSpace,
    splitSign_digits areDigits, oneGroup]
  simpa [notEmpty, isShort] using areDigits

/-- The decimal text of a port. -/
theorem toInt?_toString
    (unicode : UnicodeTables)
    (port : Fin 65536) :
    unicode.toInt? (toString port.val).toList = some (port.val : Int) := by
  have isShort : (Nat.toDigits 10 port.val).length ≤ 5 := by
    rw [Nat.length_toDigits_le_iff (by decide) (by decide)]
    exact Nat.lt_trans port.isLt (by decide)
  rw [toList_toString,
    toInt?_digits unicode Nat.toDigits_ne_nil
      (fun _ => Nat.isDigit_of_mem_toDigits (by decide) (by decide))
      (Nat.le_trans isShort (by decide)),
    Nat.ofDigitChars_ten_toDigits]

/-! ## The text of a flow -/

/-- The text of an endpoint in a flow's text. -/
def Endpoint.chars (endpoint : Endpoint) : List Char :=
  endpoint.address.toList ++ ':' :: (toString endpoint.port).toList

/-- The text of the VLAN identifiers. -/
def vlanChars (vlanIds : List Nat) : List Char :=
  if vlanIds.isEmpty then ['-']
  else [','].intercalate (vlanIds.map fun vlan => (toString vlan).toList)

theorem toList_stableText (flow : FlowKey) :
    flow.stableText.toList =
      flow.interface.toList ++ '|' :: (vlanChars flow.vlanIds ++
        '|' :: ((toString flow.protocol).toList ++ '|' ::
          (flow.endpointA.chars ++ '|' :: flow.endpointB.chars))) := by
  have vlans :
      (if flow.vlanIds.isEmpty then "-"
        else ",".intercalate (flow.vlanIds.map toString)).toList =
        vlanChars flow.vlanIds := by
    rw [vlanChars]
    split
    · rfl
    · rw [String.toList_intercalate, List.map_map]
      rfl
  simp only [FlowKey.stableText, String.toList_append, vlans, Endpoint.chars,
    List.append_assoc]
  rfl

/-- The pieces of the epoch. -/
def epochPieces : Option Nat → List (List Char)
  | none => []
  | some epoch => ["epoch=".toList ++ (toString epoch).toList]

theorem not_mem_toString
    (value : Nat)
    {character : Char}
    (notDigit : character.isDigit = false) :
    character ∉ (toString value).toList := by
  rw [toList_toString]
  intro member
  rw [Nat.isDigit_of_mem_toDigits (by decide) (by decide) member] at notDigit
  cases notDigit

theorem vlanChars_not_mem
    (vlanIds : List Nat)
    {character : Char}
    (notDash : character ≠ '-')
    (notComma : character ≠ ',')
    (notDigit : character.isDigit = false) :
    character ∉ vlanChars vlanIds := by
  rw [vlanChars]
  split
  · simpa using notDash
  · intro member
    rcases mem_intercalate member with isComma | ⟨text, isText, inText⟩
    · exact notComma isComma
    · obtain ⟨vlan, -, rfl⟩ := List.mem_map.mp isText
      exact not_mem_toString vlan notDigit inText

section Pieces

variable (first second : HostAddress)
variable (firstPort secondPort : Nat)

theorem endpointChars_noBar
    (address : HostAddress)
    (port : Nat) :
    '|' ∉ Endpoint.chars ⟨address.text, port⟩ := by
  have noBar : '|' ∉ address.text.toList :=
    address.not_mem (by decide) (by decide) (by decide)
  simp only [Endpoint.chars, List.mem_append, List.mem_cons, not_or]
  exact ⟨noBar, by decide, not_mem_toString port (by decide)⟩

/-- The pieces of a flow's text: those of the name, and five more or four. -/
theorem splitOn_flowText
    (protocol : Nat)
    (interface : String)
    (vlanIds : List Nat)
    (epoch : Option Nat) :
    ((⟨protocol, ⟨first.text, firstPort⟩, ⟨second.text, secondPort⟩, interface,
        vlanIds⟩ : FlowKey).stableText ++ epochSuffix epoch).toList.splitOn
          '|' =
      interface.toList.splitOn '|' ++
        (vlanChars vlanIds :: (toString protocol).toList ::
          Endpoint.chars ⟨first.text, firstPort⟩ ::
          Endpoint.chars ⟨second.text, secondPort⟩ :: epochPieces epoch) := by
  have ending :
      (Endpoint.chars ⟨second.text, secondPort⟩ ++
          (epochSuffix epoch).toList).splitOn '|' =
        Endpoint.chars ⟨second.text, secondPort⟩ :: epochPieces epoch := by
    have noBar := endpointChars_noBar second secondPort
    cases epoch with
    | none =>
        rw [epochSuffix, String.toList_empty, List.append_nil,
          List.splitOn_eq_singleton noBar, epochPieces]
    | some epoch =>
        have noBarBehind :
            '|' ∉ "epoch=".toList ++ (toString epoch).toList := by
          rw [List.mem_append, not_or]
          exact ⟨by decide, not_mem_toString epoch (by decide)⟩
        have suffixShape :
            (epochSuffix (some epoch)).toList =
              '|' :: ("epoch=".toList ++ (toString epoch).toList) := by
          rw [epochSuffix, String.toList_append]
          rfl
        rw [suffixShape, List.splitOn_append_cons_self_of_not_mem noBar,
          List.splitOn_eq_singleton noBarBehind, epochPieces]
  rw [String.toList_append, toList_stableText]
  simp only [List.append_assoc, List.cons_append]
  rw [List.splitOn_append_cons_self,
    List.splitOn_append_cons_self_of_not_mem
      (vlanChars_not_mem vlanIds (by decide) (by decide) (by decide)),
    List.splitOn_append_cons_self_of_not_mem (not_mem_toString protocol (by decide)),
    List.splitOn_append_cons_self_of_not_mem
      (endpointChars_noBar first firstPort),
    ending]

end Pieces

/-! ## Reading the endpoints back -/

/--
The name keeps the endpoints: it has no `|`, or its own fourth and fifth
pieces are those of the flow's endpoints.
-/
def NameKeepsEndpoints
    (unicode : UnicodeTables)
    (flow : FlowKey) : Prop :=
  '|' ∉ flow.interface.toList ∨
    ∃ first second,
      (flow.interface.toList.splitOn '|')[3]? = some first ∧
        (flow.interface.toList.splitOn '|')[4]? = some second ∧
        ReadsAs unicode first flow.endpointA ∧
        ReadsAs unicode second flow.endpointB

/-- What is read for a direction. -/
theorem findingEndpoints_eq
    (unicode : UnicodeTables)
    {flowId : String}
    {pieces : List (List Char)}
    (isPieces : flowId.toList.splitOn '|' = pieces)
    (enough : 5 ≤ pieces.length)
    (direction : Direction) :
    findingEndpoints unicode flowId (some direction.index) =
      match readEndpoint unicode (pieces.getD 3 []),
          readEndpoint unicode (pieces.getD 4 []) with
      | some first, some second =>
          if direction = .aToB then (some first, some second)
          else (some second, some first)
      | _, _ => (none, none) := by
  have slice :
      pieces.extract 3 5 = [pieces.getD 3 [], pieces.getD 4 []] := by
    match pieces, enough with
    | _ :: _ :: _ :: fourth :: fifth :: later, _ => rfl
  have isDirection :
      ¬(some direction.index ≠ some 0 ∧ some direction.index ≠ some 1) := by
    cases direction <;> decide
  rw [findingEndpoints, if_neg isDirection, isPieces]
  simp only [if_neg (Nat.not_lt.mpr enough), slice, List.mapM_cons,
    List.mapM_nil]
  cases readEndpoint unicode (pieces.getD 3 []) <;>
    cases readEndpoint unicode (pieces.getD 4 []) <;>
    cases direction <;> rfl

/-- Both directions are read right where both pieces are. -/
theorem findingEndpoints_iff
    {unicode : UnicodeTables}
    {flowId : String}
    {pieces : List (List Char)}
    (isPieces : flowId.toList.splitOn '|' = pieces)
    (enough : 5 ≤ pieces.length)
    (first second : Endpoint) :
    (findingEndpoints unicode flowId (some Direction.aToB.index) =
        (some first, some second) ∧
      findingEndpoints unicode flowId (some Direction.bToA.index) =
        (some second, some first)) ↔
      readEndpoint unicode (pieces.getD 3 []) = some first ∧
        readEndpoint unicode (pieces.getD 4 []) = some second := by
  rw [findingEndpoints_eq unicode isPieces enough,
    findingEndpoints_eq unicode isPieces enough]
  cases readEndpoint unicode (pieces.getD 3 []) <;>
    cases readEndpoint unicode (pieces.getD 4 []) <;>
    simp [and_comm]

section Names

variable (unicode : UnicodeTables)
variable (first second : HostAddress)
variable (firstPort secondPort : Fin 65536)

/-- The endpoint's own text reads as the endpoint. -/
theorem readsAs_chars
    (address : HostAddress)
    (port : Fin 65536) :
    ReadsAs unicode (Endpoint.chars ⟨address.text, port⟩)
      ⟨address.text, port⟩ := by
  exact ⟨address.text.toList, (toString port.val).toList, rfl,
    not_mem_toString port (by decide),
    ⟨[], [], .inl rfl, .inl rfl, by simp⟩, toInt?_toString unicode port⟩

/-- The pieces that are read are the endpoints just if the name keeps them. -/
theorem readPieces_iff
    (names extra : List (List Char))
    (notEmpty : names ≠ [])
    (vlans protocol : List Char)
    (noVlanColon : ':' ∉ vlans)
    (noProtocolColon : ':' ∉ protocol) :
    (readEndpoint unicode
        ((names ++ (vlans :: protocol ::
          Endpoint.chars ⟨first.text, firstPort⟩ ::
          Endpoint.chars ⟨second.text, secondPort⟩ :: extra)).getD 3 []) =
          some ⟨first.text, firstPort⟩ ∧
      readEndpoint unicode
        ((names ++ (vlans :: protocol ::
          Endpoint.chars ⟨first.text, firstPort⟩ ::
          Endpoint.chars ⟨second.text, secondPort⟩ :: extra)).getD 4 []) =
          some ⟨second.text, secondPort⟩) ↔
      names.length = 1 ∨
        ∃ fourth fifth,
          names[3]? = some fourth ∧ names[4]? = some fifth ∧
            ReadsAs unicode fourth ⟨first.text, firstPort⟩ ∧
            ReadsAs unicode fifth ⟨second.text, secondPort⟩ := by
  have noVlan := readEndpoint_of_noColon unicode noVlanColon
  have noProtocol := readEndpoint_of_noColon unicode noProtocolColon
  match names, notEmpty with
  | [_], _ =>
      refine iff_of_true ⟨?_, ?_⟩ (.inl rfl)
      · exact (readEndpoint_eq_some_iff first firstPort).mpr
          (readsAs_chars unicode first firstPort)
      · exact (readEndpoint_eq_some_iff second secondPort).mpr
          (readsAs_chars unicode second secondPort)
  | [_, _], _ =>
      refine iff_of_false ?_ (by simp)
      rintro ⟨isFirst, -⟩
      exact absurd (noProtocol.symm.trans isFirst) (by simp)
  | [_, _, _], _ =>
      refine iff_of_false ?_ (by simp)
      rintro ⟨isFirst, -⟩
      exact absurd (noVlan.symm.trans isFirst) (by simp)
  | [_, _, _, _], _ =>
      refine iff_of_false ?_ (by simp)
      rintro ⟨-, isSecond⟩
      exact absurd (noVlan.symm.trans isSecond) (by simp)
  | _ :: _ :: _ :: fourth :: fifth :: later, _ =>
      constructor
      · rintro ⟨isFirst, isSecond⟩
        exact .inr ⟨fourth, fifth, rfl, rfl,
          (readEndpoint_eq_some_iff first firstPort).mp isFirst,
          (readEndpoint_eq_some_iff second secondPort).mp isSecond⟩
      · rintro (single | ⟨_, _, isFourth, isFifth, readsFirst, readsSecond⟩)
        · simp at single
        · cases isFourth
          cases isFifth
          exact ⟨(readEndpoint_eq_some_iff first firstPort).mpr readsFirst,
            (readEndpoint_eq_some_iff second secondPort).mpr readsSecond⟩

end Names

theorem length_splitOn_eq_one_iff
    {separator : Char}
    {text : List Char} :
    (text.splitOn separator).length = 1 ↔ separator ∉ text := by
  constructor
  · intro single member
    obtain ⟨before, behind, rfl⟩ := List.append_of_mem member
    rw [List.splitOn_append_cons_self, List.length_append] at single
    have first := List.length_pos_iff.mpr (List.splitOn_ne_nil separator before)
    have second :=
      List.length_pos_iff.mpr (List.splitOn_ne_nil separator behind)
    omega
  · intro absent
    rw [List.splitOn_eq_singleton absent, List.length_singleton]

/-- The flow's endpoints are read back just if the name keeps them. -/
theorem findingEndpoints_flow_iff
    (unicode : UnicodeTables)
    (protocol : Nat)
    (first second : HostAddress)
    (firstPort secondPort : Fin 65536)
    (interface : String)
    (vlanIds : List Nat)
    (epoch : Option Nat) :
    let flow : FlowKey :=
      ⟨protocol, ⟨first.text, firstPort⟩, ⟨second.text, secondPort⟩,
        interface, vlanIds⟩
    let flowId := flow.stableText ++ epochSuffix epoch
    (findingEndpoints unicode flowId (some Direction.aToB.index) =
        (some flow.endpointA, some flow.endpointB) ∧
      findingEndpoints unicode flowId (some Direction.bToA.index) =
        (some flow.endpointB, some flow.endpointA)) ↔
      NameKeepsEndpoints unicode flow := by
  intro flow flowId
  have notEmpty := List.splitOn_ne_nil '|' interface.toList
  have positive := List.length_pos_iff.mpr notEmpty
  rw [findingEndpoints_iff
      (splitOn_flowText first second firstPort secondPort protocol interface
        vlanIds epoch)
      (by simp only [List.length_append, List.length_cons]; omega),
    readPieces_iff unicode first second firstPort secondPort _ _ notEmpty _ _
      (vlanChars_not_mem vlanIds (by decide) (by decide) (by decide))
      (not_mem_toString protocol (by decide)),
    length_splitOn_eq_one_iff]
  rfl

/--
The endpoints of a finding are its flow's, in the order of either direction,
just if the name of the interface or of the capture keeps them.
-/
theorem finding_endpoints_inverts_iff
    (unicode : UnicodeTables)
    (protocol : Nat)
    (src dst : HostAddress)
    (sport dport : Fin 65536)
    (interface : String)
    (vlanIds : List Nat)
    (epoch : Option Nat) :
    let key :=
      FlowKey.canonical protocol src.text sport dst.text dport interface vlanIds
    let flowId := key.1.stableText ++ epochSuffix epoch
    (findingEndpoints unicode flowId (some key.2.index) =
        (some ⟨src.text, sport⟩, some ⟨dst.text, dport⟩) ∧
      findingEndpoints unicode flowId (some key.2.opposite.index) =
        (some ⟨dst.text, dport⟩, some ⟨src.text, sport⟩)) ↔
      NameKeepsEndpoints unicode key.1 := by
  rw [FlowKey.canonical]
  simp only
  split
  · exact findingEndpoints_flow_iff unicode protocol src dst sport dport
      interface vlanIds epoch
  · rw [and_comm]
    exact findingEndpoints_flow_iff unicode protocol dst src dport sport
      interface vlanIds epoch

/-- Tables without characters beyond ASCII. -/
def noUnicode : UnicodeTables where
  isSpace _ := false
  decimal _ := none

/-- A capture file with `|` in its name loses the endpoints or invents others. -/
theorem barInName_loses_endpoints :
    let sent name :=
      (FlowKey.canonical 6 (ipv4Text [10, 0, 0, 1]) 5000
        (ipv4Text [10, 0, 0, 2]) 80 ("pcap:" ++ name) []).1.stableText
    findingEndpoints noUnicode (sent "trace.pcap") (some 0) =
        (some ⟨"10.0.0.1", 5000⟩, some ⟨"10.0.0.2", 80⟩) ∧
      findingEndpoints noUnicode (sent "a|b.pcap") (some 0) = (none, none) ∧
      findingEndpoints noUnicode
          (sent "x|-|6|192.0.2.1:1|192.0.2.2:2") (some 0) =
        (some ⟨"192.0.2.1", 1⟩, some ⟨"192.0.2.2", 2⟩) := by
  decide +kernel

end PacketAudit
