import PacketAudit.Packets.Fields

namespace PacketAudit

/-!
# Address texts

`ipaddress.ip_address` on texts, and that it accepts every address that the
packet parsers write.
-/

/-! ## Parsing -/

/-- `IPv4Address._parse_octet` raises nothing. -/
def isOctet (text : List Char) : Bool :=
  !text.isEmpty && text.all Char.isDigit && decide (text.length ≤ 3) &&
    (text = ['0'] || text.head? ≠ some '0') &&
    decide (Nat.ofDigitChars 10 text 0 ≤ 255)

/-- `IPv4Address` of a text raises nothing. -/
def isIpv4Address (text : List Char) : Bool :=
  let octets := text.splitOn '.'
  !text.contains '/' && !text.isEmpty && octets.length = 4 &&
    octets.all isOctet

/-- `IPv6Address._HEX_DIGITS`. -/
def isHexChar (character : Char) : Bool :=
  character.isDigit || ('a' ≤ character && character ≤ 'f') ||
    ('A' ≤ character && character ≤ 'F')

/-- `IPv6Address._parse_hextet` raises nothing. -/
def isHextet (text : List Char) : Bool :=
  text.all isHexChar && decide (text.length ≤ 4) && !text.isEmpty

/-- The hextets that stand for an IPv4 suffix. -/
def suffixHextets (octets : List Nat) : List (List Char) :=
  match octets with
  | [first, second, third, fourth] =>
      [(hextetText (first * 256 + second)).toList,
        (hextetText (third * 256 + fourth)).toList]
  | _ => []

/-- The parts of an IPv6 address with an IPv4 suffix written as hextets. -/
def expandSuffix (parts : List (List Char)) : Option (List (List Char)) :=
  let last := parts.getLastD []
  if last.contains '.' then
    if isIpv4Address last then
      some (parts.dropLast ++
        suffixHextets ((last.splitOn '.').map (Nat.ofDigitChars 10 · 0)))
    else
      none
  else
    some parts

/-- The indices of `::`, which the endpoints do not count for. -/
def skipIndices (parts : List (List Char)) : List Nat :=
  (List.range' 1 (parts.length - 2)).filter fun index =>
    parts[index]? = some []

/-- How many parts count before or behind `::`, whose outermost is `outer`. -/
def countedParts (count : Nat) (outer : List Char) : Option Nat :=
  if outer.isEmpty then
    -- A single colon at an end is part of `::` or is an error.
    if count - 1 = 0 then some 0 else none
  else
    some count

/-- What `IPv6Address._ip_int_from_string` does with the parts. -/
def acceptsParts (parts : List (List Char)) : Bool :=
  if 9 < parts.length then
    false
  else
    match skipIndices parts with
    | [] => parts.length = 8 && parts.all isHextet
    | [skip] =>
        match countedParts skip (parts.headD []),
            countedParts (parts.length - skip - 1) (parts.getLastD []) with
        | some high, some low =>
            decide (high + low < 8) && (parts.take high).all isHextet &&
              (parts.drop (parts.length - low)).all isHextet
        | _, _ => false
    | _ => false

/-- `IPv6Address._split_scope_id`: the address without its scope. -/
def withoutScope (text : List Char) : Option (List Char) :=
  let address := text.takeWhile (· ≠ '%')
  match text.drop address.length with
  | [] => some address
  | _ :: scope =>
      if scope.isEmpty || scope.contains '%' then none else some address

/-- `IPv6Address` of a text raises nothing. -/
def isIpv6Address (text : List Char) : Bool :=
  if text.contains '/' then
    false
  else
    match withoutScope text with
    | none => false
    | some address =>
        let parts := address.splitOn ':'
        if parts.length < 3 then
          false
        else
          match expandSuffix parts with
          | none => false
          | some parts => acceptsParts parts

/-- `ipaddress.ip_address` of a text raises nothing. -/
def isIpAddress (text : List Char) : Bool :=
  isIpv4Address text || isIpv6Address text

/-! ## Numbers -/

theorem toList_toString (value : Nat) :
    (toString value).toList = Nat.toDigits 10 value := by
  rw [Nat.toString_eq_repr, Nat.repr_eq_ofList_toDigits, String.toList_ofList]

theorem isOctet_toString (byte : UInt8) :
    isOctet (toString byte.toNat).toList = true := by
  have all : ∀ value : Fin 256, isOctet (Nat.toDigits 10 value) = true := by
    decide +kernel
  rw [toList_toString]
  exact all ⟨byte.toNat, byte.toNat_lt⟩

theorem isHexChar_of_mem_toDigits
    {value : Nat}
    {character : Char}
    (member : character ∈ Nat.toDigits 16 value) :
    isHexChar character = true := by
  have digits : ∀ digit : Fin 16, isHexChar (Nat.digitChar digit) = true := by
    decide
  induction value using Nat.strongRecOn with
  | ind value inductionHypothesis =>
      rw [Nat.toDigits_eq_if (by decide)] at member
      split at member
      case isTrue small =>
        rw [List.mem_singleton.mp member]
        exact digits ⟨value, small⟩
      case isFalse large =>
        rcases List.mem_append.mp member with before | last
        · exact inductionHypothesis (value / 16) (by omega) before
        · rw [List.mem_singleton.mp last]
          exact digits ⟨value % 16, Nat.mod_lt _ (by decide)⟩

/-- A hextet as it is written. -/
theorem isHextet_hextetText
    {value : Nat}
    (small : value < 65536) :
    isHextet (hextetText value).toList = true := by
  have short : (Nat.toDigits 16 value).length ≤ 4 :=
    (Nat.length_toDigits_le_iff (by decide) (by decide)).mpr small
  have isHex : (Nat.toDigits 16 value).all isHexChar = true :=
    List.all_eq_true.mpr fun _ => isHexChar_of_mem_toDigits
  rw [hextetText, String.toList_ofList, isHextet, isHex,
    decide_eq_true short]
  simp

theorem not_mem_of_isHextet
    {text : List Char}
    (isHextet : isHextet text = true)
    {character : Char}
    (notHex : isHexChar character = false) :
    character ∉ text := by
  intro member
  simp only [PacketAudit.isHextet, Bool.and_eq_true, List.all_eq_true]
    at isHextet
  rw [isHextet.1.1 character member] at notHex
  cases notHex

theorem ne_nil_of_isHextet
    {text : List Char}
    (isHextet : isHextet text = true) :
    text ≠ [] := by
  rintro rfl
  cases isHextet

theorem hextets_lt
    {data : Bytes}
    {value : Nat}
    (member : value ∈ hextets data) :
    value < 65536 := by
  induction data using hextets.induct with
  | case1 high low rest inductionHypothesis =>
      rw [hextets] at member
      rcases List.mem_cons.mp member with rfl | later
      · have highLess := high.toNat_lt
        have lowLess := low.toNat_lt
        simp only [bigEndian, List.foldl_cons, List.foldl_nil]
        omega
      · exact inductionHypothesis later
  | case2 data noPair =>
      rw [hextets] at member
      · cases member
      · exact noPair

theorem length_hextets (data : Bytes) :
    (hextets data).length = data.length / 2 := by
  induction data using hextets.induct with
  | case1 high low rest inductionHypothesis =>
      rw [hextets, List.length_cons, inductionHypothesis, List.length_cons,
        List.length_cons]
      omega
  | case2 data noPair =>
      rw [hextets]
      · match data with
        | [] => rfl
        | [_] => simp
        | high :: low :: rest => exact absurd rfl (noPair high low rest)
      · exact noPair

/-! ## Texts between separators -/

theorem mem_intercalate
    {separator character : Char}
    {texts : List (List Char)}
    (member : character ∈ [separator].intercalate texts) :
    character = separator ∨ ∃ text ∈ texts, character ∈ text := by
  induction texts with
  | nil => cases member
  | cons first texts inductionHypothesis =>
      match texts with
      | [] =>
          rw [List.intercalate_singleton] at member
          exact .inr ⟨first, List.mem_cons_self, member⟩
      | second :: later =>
          rw [List.intercalate_cons_cons] at member
          rcases List.mem_append.mp member with inFront | inBack
          · rcases List.mem_append.mp inFront with inFirst | isSeparator
            · exact .inr ⟨first, List.mem_cons_self, inFirst⟩
            · exact .inl (List.mem_singleton.mp isSeparator)
          · exact (inductionHypothesis inBack).imp_right
              fun ⟨text, isText, inText⟩ =>
                ⟨text, List.mem_cons_of_mem _ isText, inText⟩

/-! ## IPv4 -/

/-- The octets of an address as they are written. -/
def octetTexts (data : Bytes) : List (List Char) :=
  data.map fun byte => (toString byte.toNat).toList

theorem toList_ipv4Text (data : Bytes) :
    (ipv4Text data).toList = ['.'].intercalate (octetTexts data) := by
  rw [ipv4Text, String.toList_intercalate, List.map_map]
  rfl

theorem isDigit_of_mem_octetTexts
    {data : Bytes}
    {text : List Char}
    {character : Char}
    (isOctet : text ∈ octetTexts data)
    (member : character ∈ text) :
    character.isDigit = true := by
  obtain ⟨byte, -, rfl⟩ := List.mem_map.mp isOctet
  rw [toList_toString] at member
  exact Nat.isDigit_of_mem_toDigits (by decide) (by decide) member

/-- An IPv4 address is written in digits and dots. -/
theorem ipv4Text_chars
    {data : Bytes}
    {character : Char}
    (member : character ∈ (ipv4Text data).toList) :
    character = '.' ∨ character.isDigit = true := by
  rw [toList_ipv4Text] at member
  exact (mem_intercalate member).imp_right fun ⟨_, isOctet, inOctet⟩ =>
    isDigit_of_mem_octetTexts isOctet inOctet

/-- What the packet parser writes for four bytes is an address. -/
theorem isIpv4Address_ipv4Text
    {data : Bytes}
    (isLong : data.length = 4) :
    isIpv4Address (ipv4Text data).toList = true := by
  have octets : (octetTexts data).all isOctet = true := by
    refine List.all_eq_true.mpr fun text member => ?_
    obtain ⟨byte, -, rfl⟩ := List.mem_map.mp member
    exact isOctet_toString byte
  have four : (octetTexts data).length = 4 := by
    rw [octetTexts, List.length_map, isLong]
  have split : (ipv4Text data).toList.splitOn '.' = octetTexts data := by
    rw [toList_ipv4Text]
    refine List.splitOn_intercalate '.' (fun text isOctet member => ?_) ?_
    · have isDigit := isDigit_of_mem_octetTexts isOctet member
      cases isDigit
    · exact List.ne_nil_of_length_pos (by omega)
  have noSlash : '/' ∉ (ipv4Text data).toList := by
    intro member
    rcases ipv4Text_chars member with isDot | isDigit
    · cases isDot
    · cases isDigit
  have notEmpty : (ipv4Text data).toList ≠ [] := by
    intro isEmpty
    rw [isEmpty] at split
    rw [← split] at four
    cases four
  simp [isIpv4Address, split, four, octets, noSlash, notEmpty]

/-! ## IPv6 -/

/-- What stands at one end of the parts: a single colon needs a part more. -/
def outerParts {α : Type} (empty : α) (parts : List α) : List α :=
  if parts.isEmpty then [empty] else parts

theorem outerParts_of_ne_nil
    {α : Type}
    (empty : α)
    {parts : List α}
    (notEmpty : parts ≠ []) :
    outerParts empty parts = parts := by
  rw [outerParts, if_neg]
  rwa [List.isEmpty_iff]

/-- A run that ends where the groups so far do. -/
def ZeroRun.Within (run : ZeroRun) (index : Nat) : Prop :=
  run.start + run.length ≤ index

theorem longestZeroRun_within
    (groups : List String)
    {index : Nat}
    {current best : ZeroRun}
    (currentWithin : current.Within index)
    (bestWithin : best.Within index) :
    (longestZeroRun groups index current best).Within
      (index + groups.length) := by
  induction groups generalizing index current best with
  | nil => exact bestWithin
  | cons group rest inductionHypothesis =>
      have later :
          index + (group :: rest).length = index + 1 + rest.length := by
        rw [List.length_cons]
        omega
      have bestLater : best.Within (index + 1) := Nat.le_succ_of_le bestWithin
      rw [longestZeroRun, later]
      by_cases isZero : group = "0"
      · have longer :
            (if current.length = 0 then (⟨index, 1⟩ : ZeroRun)
              else ⟨current.start, current.length + 1⟩).Within
                (index + 1) := by
          split
          · exact Nat.le_refl _
          · exact Nat.succ_le_succ currentWithin
        simp only [if_pos isZero]
        generalize
          (if current.length = 0 then (⟨index, 1⟩ : ZeroRun)
            else ⟨current.start, current.length + 1⟩) = run at longer ⊢
        refine inductionHypothesis longer ?_
        split
        · exact longer
        · exact bestLater
      · rw [if_neg isZero]
        exact inductionHypothesis (Nat.zero_le _) bestLater

/-- The groups as they are, or with `::` for two of them or more. -/
theorem compressHextets_cases (groups : List String) :
    compressHextets groups = groups ∨
      ∃ front back,
        front.length + back.length + 2 ≤ groups.length ∧
        (∀ group ∈ front ++ back, group ∈ groups) ∧
        compressHextets groups =
          outerParts "" front ++ "" :: outerParts "" back := by
  have atStart : ZeroRun.Within {} 0 := Nat.le_refl 0
  have within := longestZeroRun_within groups atStart atStart
  rw [compressHextets]
  generalize longestZeroRun groups 0 {} {} = best at within
  rw [ZeroRun.Within, Nat.zero_add] at within
  by_cases isLong : 1 < best.length
  · refine .inr ⟨groups.take best.start,
      groups.drop (best.start + best.length), ?_, ?_, ?_⟩
    · rw [List.length_take, List.length_drop]
      omega
    · intro group member
      rcases List.mem_append.mp member with inFront | inBack
      · exact List.mem_of_mem_take inFront
      · exact List.mem_of_mem_drop inBack
    · have back :
          groups.drop (best.start + best.length) ++
              (if best.start + best.length = groups.length then [""]
                else []) =
            outerParts "" (groups.drop (best.start + best.length)) := by
        by_cases atEnd : best.start + best.length = groups.length
        · rw [if_pos atEnd, List.drop_eq_nil_of_le atEnd.ge]
          rfl
        · rw [if_neg atEnd, List.append_nil, outerParts_of_ne_nil]
          rw [ne_eq, List.drop_eq_nil_iff]
          omega
      simp only [isLong, if_true, back]
      by_cases atStart : best.start = 0
      · rw [if_pos atStart, atStart, List.take_zero]
        rfl
      · have notEmpty : groups.take best.start ≠ [] := by
          rw [ne_eq, List.take_eq_nil_iff]
          rintro (isZero | isNil)
          · exact atStart isZero
          · rw [isNil, List.length_nil] at within
            omega
        rw [if_neg atStart, outerParts_of_ne_nil "" notEmpty]
  · exact .inl (if_neg isLong)

/-! ### Reading the parts -/

/-- Eight hextets without `::`. -/
theorem acceptsParts_whole
    {parts : List (List Char)}
    (eight : parts.length = 8)
    (areHextets : ∀ part ∈ parts, isHextet part = true) :
    acceptsParts parts = true := by
  have noSkip : skipIndices parts = [] := by
    refine List.filter_eq_nil_iff.mpr fun index _ => ?_
    rw [decide_eq_true_eq]
    intro isEmpty
    exact ne_nil_of_isHextet
      (areHextets [] (List.mem_of_getElem? isEmpty)) rfl
  rw [acceptsParts, if_neg (by omega), noSkip]
  simpa [eight] using areHextets

theorem length_outerParts
    {α : Type}
    (empty : α)
    (parts : List α) :
    (outerParts empty parts).length = max 1 parts.length := by
  by_cases isEmpty : parts = []
  · rw [isEmpty]
    rfl
  · rw [outerParts_of_ne_nil empty isEmpty]
    have positive := List.length_pos_iff.mpr isEmpty
    omega

theorem outerParts_ne_nil
    {α : Type}
    (empty : α)
    (parts : List α) :
    outerParts empty parts ≠ [] := by
  refine List.ne_nil_of_length_pos ?_
  rw [length_outerParts]
  omega

section Compressed

variable {parts : List (List Char)}
variable (areHextets : ∀ part ∈ parts, isHextet part = true)

include areHextets

/-- Only what has no hextets has an empty part at its end. -/
theorem eq_nil_of_empty_mem_outerParts
    (isEmpty : [] ∈ outerParts [] parts) :
    parts = [] := by
  by_contra notEmpty
  rw [outerParts_of_ne_nil [] notEmpty] at isEmpty
  exact ne_nil_of_isHextet (areHextets [] isEmpty) rfl

/-- The hextets at one end of `::` are those that count. -/
theorem countedParts_outerParts
    {outer : List Char}
    (isOuter : outer ∈ outerParts [] parts) :
    countedParts (outerParts [] parts).length outer = some parts.length := by
  by_cases isEmpty : parts = []
  · subst isEmpty
    rw [List.mem_singleton.mp isOuter]
    rfl
  · have notNil : outer.isEmpty = false := by
      rw [List.isEmpty_eq_false_iff]
      rintro rfl
      exact isEmpty (eq_nil_of_empty_mem_outerParts areHextets isOuter)
    rw [outerParts_of_ne_nil [] isEmpty, countedParts, notNil]
    rfl

end Compressed

/-- The only `::` is where it was put. -/
theorem skipIndices_compressed
    {front back : List (List Char)}
    (frontHextets : ∀ part ∈ front, isHextet part = true)
    (backHextets : ∀ part ∈ back, isHextet part = true) :
    skipIndices (outerParts [] front ++ [] :: outerParts [] back) =
      [(outerParts [] front).length] := by
  have head : 1 ≤ (outerParts [] front).length :=
    List.length_pos_iff.mpr (outerParts_ne_nil [] front)
  have tail : 1 ≤ (outerParts [] back).length :=
    List.length_pos_iff.mpr (outerParts_ne_nil [] back)
  have frontOnly := eq_nil_of_empty_mem_outerParts frontHextets
  have backOnly := eq_nil_of_empty_mem_outerParts backHextets
  have shape :
      List.range' 1
          ((outerParts [] front ++ [] :: outerParts [] back).length - 2) =
        List.range' 1 ((outerParts [] front).length - 1) ++
          (outerParts [] front).length ::
            List.range' ((outerParts [] front).length + 1)
              ((outerParts [] back).length - 1) := by
    rw [← List.range'_succ, List.length_append, List.length_cons]
    have count :
        (outerParts [] front).length + ((outerParts [] back).length + 1) - 2 =
          (outerParts [] front).length - 1 +
            ((outerParts [] back).length - 1 + 1) := by
      omega
    rw [count, ← List.range'_append_1, Nat.add_sub_cancel' head]
  have before :
      (List.range' 1 ((outerParts [] front).length - 1)).filter (fun index =>
          (outerParts [] front ++ [] :: outerParts [] back)[index]? =
            some []) =
        [] := by
    refine List.filter_eq_nil_iff.mpr fun index member => ?_
    rw [List.mem_range'_1] at member
    rw [List.getElem?_append_left (by omega), decide_eq_true_eq]
    intro isEmpty
    have noFront := frontOnly (List.mem_of_getElem? isEmpty)
    have single : (outerParts [] front).length = 1 := by
      rw [noFront]
      rfl
    omega
  have behind :
      (List.range' ((outerParts [] front).length + 1)
          ((outerParts [] back).length - 1)).filter (fun index =>
        (outerParts [] front ++ [] :: outerParts [] back)[index]? =
          some []) =
        [] := by
    refine List.filter_eq_nil_iff.mpr fun index member => ?_
    rw [List.mem_range'_1] at member
    obtain ⟨offset, rfl⟩ := Nat.exists_eq_add_of_le member.1
    rw [List.getElem?_append_right (by omega), decide_eq_true_eq,
      show (outerParts [] front).length + 1 + offset -
        (outerParts [] front).length = offset + 1 by omega,
      List.getElem?_cons_succ]
    intro isEmpty
    have noBack := backOnly (List.mem_of_getElem? isEmpty)
    have single : (outerParts [] back).length = 1 := by
      rw [noBack]
      rfl
    omega
  have here :
      (outerParts [] front ++ [] :: outerParts [] back)[
        (outerParts [] front).length]? = some [] := by
    rw [List.getElem?_append_right (Nat.le_refl _), Nat.sub_self]
    rfl
  rw [skipIndices, shape, List.filter_append, before, List.filter_cons_of_pos,
    behind, List.nil_append]
  rw [here]
  rfl

/-- Hextets around one `::`. -/
theorem acceptsParts_compressed
    {front back : List (List Char)}
    (few : front.length + back.length < 8)
    (areHextets : ∀ part ∈ front ++ back, isHextet part = true) :
    acceptsParts (outerParts [] front ++ [] :: outerParts [] back) = true := by
  obtain ⟨frontHextets, backHextets⟩ := List.forall_mem_append.mp areHextets
  have skips := skipIndices_compressed frontHextets backHextets
  have isShort :
      ¬9 < (outerParts [] front ++ [] :: outerParts [] back).length := by
    rw [List.length_append, List.length_cons, length_outerParts,
      length_outerParts]
    omega
  have high :
      countedParts (outerParts [] front).length
          ((outerParts [] front ++ [] :: outerParts [] back).headD []) =
        some front.length := by
    refine countedParts_outerParts frontHextets ?_
    obtain ⟨first, more, shape⟩ :=
      List.exists_cons_of_ne_nil (outerParts_ne_nil [] front)
    rw [shape]
    exact List.mem_cons_self
  have low :
      countedParts
          ((outerParts [] front ++ [] :: outerParts [] back).length -
            (outerParts [] front).length - 1)
          ((outerParts [] front ++ [] :: outerParts [] back).getLastD []) =
        some back.length := by
    have count :
        (outerParts [] front ++ [] :: outerParts [] back).length -
            (outerParts [] front).length - 1 =
          (outerParts [] back).length := by
      rw [List.length_append, List.length_cons]
      omega
    rw [count]
    refine countedParts_outerParts backHextets ?_
    obtain ⟨before, last, shape⟩ :=
      (List.eq_nil_or_concat' (outerParts [] back)).resolve_left
        (outerParts_ne_nil [] back)
    rw [shape, ← List.cons_append, ← List.append_assoc, List.getLastD_concat]
    exact List.mem_append_right before List.mem_cons_self
  have highParts :
      (outerParts [] front ++ [] :: outerParts [] back).take front.length =
        front := by
    by_cases isEmpty : front = []
    · rw [isEmpty]
      rfl
    · rw [outerParts_of_ne_nil [] isEmpty]
      exact List.take_left
  have lowParts :
      (outerParts [] front ++ [] :: outerParts [] back).drop
          ((outerParts [] front ++ [] :: outerParts [] back).length -
            back.length) =
        back := by
    by_cases isEmpty : back = []
    · rw [isEmpty, List.length_nil, Nat.sub_zero]
      exact List.drop_length
    · rw [outerParts_of_ne_nil [] isEmpty, List.append_cons,
        List.length_append, Nat.add_sub_cancel, List.drop_left]
  rw [acceptsParts, if_neg isShort, skips]
  simp only [high, low, highParts, lowParts, few, decide_true,
    Bool.true_and, Bool.and_eq_true, List.all_eq_true]
  exact ⟨frontHextets, backHextets⟩

/-! ### The text -/

/-- An empty part, or a hextet. -/
def IsPart (part : List Char) : Prop :=
  part = [] ∨ isHextet part = true

theorem IsPart.not_mem
    {part : List Char}
    (isPart : IsPart part)
    {character : Char}
    (notHex : isHexChar character = false) :
    character ∉ part := by
  rcases isPart with rfl | isHextet
  · exact List.not_mem_nil
  · exact not_mem_of_isHextet isHextet notHex

theorem not_mem_intercalate_parts
    {parts : List (List Char)}
    (areParts : ∀ part ∈ parts, IsPart part)
    {character : Char}
    (notColon : character ≠ ':')
    (notHex : isHexChar character = false) :
    character ∉ [':'].intercalate parts := by
  intro member
  rcases mem_intercalate member with isColon | ⟨part, isPart, inPart⟩
  · exact notColon isColon
  · exact (areParts part isPart).not_mem notHex inPart

theorem withoutScope_of_not_mem
    {text : List Char}
    (noScope : '%' ∉ text) :
    withoutScope text = some text := by
  have whole : text.takeWhile (· ≠ '%') = text := by
    refine List.takeWhile_eq_self_iff.mpr fun character member => ?_
    rw [decide_eq_true_eq]
    rintro rfl
    exact noScope member
  rw [withoutScope]
  simp only [whole, List.drop_length]

/-- Colons between parts that are read as an address. -/
theorem isIpv6Address_intercalate
    {parts : List (List Char)}
    (areParts : ∀ part ∈ parts, IsPart part)
    (three : 3 ≤ parts.length)
    (accepts : acceptsParts parts = true) :
    isIpv6Address ([':'].intercalate parts) = true := by
  have noSlash : '/' ∉ [':'].intercalate parts :=
    not_mem_intercalate_parts areParts (by decide) (by decide)
  have noScope : '%' ∉ [':'].intercalate parts :=
    not_mem_intercalate_parts areParts (by decide) (by decide)
  have split : ([':'].intercalate parts).splitOn ':' = parts :=
    List.splitOn_intercalate ':'
      (fun part isPart => (areParts part isPart).not_mem (by decide))
      (List.ne_nil_of_length_pos (by omega))
  have noSuffix : expandSuffix parts = some parts := by
    obtain ⟨before, last, shape⟩ :=
      (List.eq_nil_or_concat' parts).resolve_left
        (List.ne_nil_of_length_pos (by omega))
    have noDot : '.' ∉ last :=
      (areParts last (by simp [shape])).not_mem (by decide)
    rw [expandSuffix, shape, List.getLastD_concat]
    simp [noDot]
  simp [isIpv6Address, noSlash, withoutScope_of_not_mem noScope, split,
    noSuffix, accepts, three]

/-- The hextets of an address as they are written. -/
def hextetTexts (data : Bytes) : List String :=
  (hextets data).map hextetText

theorem isHextet_of_mem_hextetTexts
    {data : Bytes}
    {group : String}
    (member : group ∈ hextetTexts data) :
    isHextet group.toList = true := by
  obtain ⟨value, inData, rfl⟩ := List.mem_map.mp member
  exact isHextet_hextetText (hextets_lt inData)

theorem map_outerParts (parts : List String) :
    (outerParts "" parts).map String.toList =
      outerParts [] (parts.map String.toList) := by
  cases parts <;> rfl

theorem isPart_of_mem_outerParts
    {parts : List (List Char)}
    (areHextets : ∀ part ∈ parts, isHextet part = true)
    {part : List Char}
    (member : part ∈ outerParts [] parts) :
    IsPart part := by
  by_cases isEmpty : parts = []
  · subst isEmpty
    exact .inl (List.mem_singleton.mp member)
  · rw [outerParts_of_ne_nil [] isEmpty] at member
    exact .inr (areHextets part member)

/-- The parts that are written for sixteen bytes are read as an address. -/
theorem compressHextets_parts
    {data : Bytes}
    (isLong : data.length = 16) :
    let parts := (compressHextets (hextetTexts data)).map String.toList
    (∀ part ∈ parts, IsPart part) ∧ 3 ≤ parts.length ∧
      acceptsParts parts = true := by
  have eight : (hextetTexts data).length = 8 := by
    rw [hextetTexts, List.length_map, length_hextets, isLong]
  have areHextets :
      ∀ groups : List String, (∀ group ∈ groups, group ∈ hextetTexts data) →
        ∀ part ∈ groups.map String.toList, isHextet part = true := by
    intro groups areGroups part member
    obtain ⟨group, inGroups, rfl⟩ := List.mem_map.mp member
    exact isHextet_of_mem_hextetTexts (areGroups group inGroups)
  rcases compressHextets_cases (hextetTexts data) with
    whole | ⟨front, back, few, areGroups, shape⟩
  · have wholeHextets := areHextets (hextetTexts data) fun _ => id
    simp only [whole]
    refine ⟨fun part member => .inr (wholeHextets part member), ?_, ?_⟩
    · rw [List.length_map, eight]
      decide
    · exact acceptsParts_whole (by rw [List.length_map, eight]) wholeHextets
  · have allHextets := areHextets (front ++ back) areGroups
    rw [List.map_append] at allHextets
    obtain ⟨frontHextets, backHextets⟩ := List.forall_mem_append.mp allHextets
    simp only [shape, List.map_append, List.map_cons, map_outerParts,
      String.toList_empty]
    refine ⟨?_, ?_, ?_⟩
    · refine List.forall_mem_append.mpr
        ⟨fun part => isPart_of_mem_outerParts frontHextets,
          List.forall_mem_cons.mpr ⟨.inl rfl, fun part =>
            isPart_of_mem_outerParts backHextets⟩⟩
    · rw [List.length_append, List.length_cons, length_outerParts,
        length_outerParts]
      omega
    · refine acceptsParts_compressed ?_ allHextets
      rw [List.length_map, List.length_map]
      omega

theorem toList_ipv6Text (data : Bytes) :
    (ipv6Text data).toList =
      [':'].intercalate
        ((compressHextets (hextetTexts data)).map String.toList) := by
  rw [ipv6Text, String.toList_intercalate]
  rfl

/-- What the packet parser writes for sixteen bytes is an address. -/
theorem isIpv6Address_ipv6Text
    {data : Bytes}
    (isLong : data.length = 16) :
    isIpv6Address (ipv6Text data).toList = true := by
  obtain ⟨areParts, three, accepts⟩ := compressHextets_parts isLong
  rw [toList_ipv6Text]
  exact isIpv6Address_intercalate areParts three accepts

/-- An IPv6 address is written in hexadecimal digits and colons. -/
theorem ipv6Text_chars
    {data : Bytes}
    (isLong : data.length = 16)
    {character : Char}
    (notColon : character ≠ ':')
    (notHex : isHexChar character = false) :
    character ∉ (ipv6Text data).toList := by
  rw [toList_ipv6Text]
  exact not_mem_intercalate_parts (compressHextets_parts isLong).1 notColon
    notHex

end PacketAudit
