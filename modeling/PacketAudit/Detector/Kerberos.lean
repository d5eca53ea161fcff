import PacketAudit.Detector.Correlation

namespace PacketAudit.Detector.Kerberos

/-!
# Kerberos AS-REQ messages

The BER reader of `detectors.py`, `_parse_krb5_as_req` and the search of
`_scan_kerberos`.  A message is read alike wherever it stands in the data.
-/

open Library

/-! ## BER elements -/

/-- `_MAX_BINARY_MESSAGE`. -/
def maxBinaryMessage : Nat := 1048576

/-- `_MAX_ASN1_NODES`. -/
def maxAsn1Nodes : Nat := 2048

/-- `_TLV`. -/
structure Tlv where
  tag : UInt8
  start : Nat
  valueStart : Nat
  stop : Nat
  deriving Repr, DecidableEq

/-- `data[node.value]`. -/
def Tlv.value (node : Tlv) (data : Bytes) : Bytes :=
  data.extract node.valueStart node.stop

/-- `_ber_length`: the length, and where the value starts. -/
def berLength (data : Bytes) (pos limit : Nat) : Option (Nat × Nat) :=
  if limit ≤ pos then
    none
  else
    data[pos]?.bind fun first =>
      if first.toNat < 0x80 then
        some (first.toNat, pos + 1)
      else
        let count := first.toNat % 0x80
        if count = 0 ∨ 4 < count ∨ limit < pos + 1 + count then
          none
        else
          let length := bigEndian (data.extract (pos + 1) (pos + 1 + count))
          if maxBinaryMessage < length then none
          else some (length, pos + 1 + count)

/-- `_tlv`; high tag numbers are not read. -/
def tlv (data : Bytes) (pos limit : Nat) : Option Tlv :=
  if limit ≤ pos then
    none
  else
    data[pos]?.bind fun tag =>
      if tag.toNat % 0x20 = 0x1F then
        none
      else
        (berLength data (pos + 1) limit).bind fun parsed =>
          let stop := parsed.2 + parsed.1
          if limit < stop then none else some ⟨tag, pos, parsed.2, stop⟩

/-- The loop of `_children`, for at most so many more nodes. -/
def childrenFrom (data : Bytes) (stop : Nat) :
    (more : Nat) → (pos : Nat) → Option (List Tlv)
  | 0, pos => if pos < stop then none else some []
  | more + 1, pos =>
      if pos < stop then
        (tlv data pos stop).bind fun child =>
          if child.stop ≤ pos then none
          else (childrenFrom data stop more child.stop).map (child :: ·)
      else
        some []

/-- `_children`. -/
def children (data : Bytes) (node : Tlv) : Option (List Tlv) :=
  childrenFrom data node.stop maxAsn1Nodes node.valueStart

/-- `_inner_single`. -/
def innerSingle (data : Bytes) (node : Tlv) : Option Tlv :=
  match children data node with
  | some [only] => some only
  | _ => none

/-- The node, or its only element if the node has none of these tags. -/
def target (tags : List UInt8) (data : Bytes) (node : Tlv) : Tlv :=
  if node.tag ∈ tags then node else (innerSingle data node).getD node

/-- `_asn1_integer`. -/
def asn1Integer (data : Bytes) (node : Tlv) : Option Nat :=
  let target := target [0x02] data node
  if target.tag ≠ 0x02 ∨ target.stop ≤ target.valueStart ∨
      8 < target.stop - target.valueStart then
    none
  else
    some (bigEndian (target.value data))

/-- The tags that `_asn1_string` reads. -/
def stringTags : List UInt8 := [0x04, 0x0C, 0x16, 0x1B, 0x1E]

/-- `_asn1_string`. -/
def asn1String (data : Bytes) (node : Tlv) : Option String :=
  let target := target stringTags data node
  if target.tag ∈ stringTags then
    some (safeText (target.value data) (target.tag == 0x1E))
  else
    none

/-! ## AS-REQ messages -/

/-- The fields of the only element of a node, a nonempty `SEQUENCE`. -/
def innerSequence (data : Bytes) (node : Tlv) : Option (List Tlv) :=
  (innerSingle data node).bind fun sequence =>
    if sequence.tag = 0x30 then
      (children data sequence).filter fun fields => !fields.isEmpty
    else
      none

/-- `next((node for node in nodes if node.tag == tag), None)`. -/
def withTag (tag : UInt8) (nodes : List Tlv) : Option Tlv :=
  nodes.find? fun node => decide (node.tag = tag)

/-- The cipher of a PA-ENC-TIMESTAMP of encryption type 23. -/
def etype23Cipher (encrypted : Bytes) : Option Bytes := do
  let sequence ← tlv encrypted 0 encrypted.length
  guard (sequence.tag = 0x30 ∧ sequence.stop = encrypted.length)
  let fields ← children encrypted sequence
  let etypeCtx ← withTag 0xA0 fields
  let cipherCtx ← withTag 0xA2 fields
  guard (asn1Integer encrypted etypeCtx = some 23)
  let cipher ← innerSingle encrypted cipherCtx
  guard (cipher.tag = 0x04)
  some (cipher.value encrypted)

/-- One round of the loop over the pre-authentication data. -/
def entryCipher (data : Bytes) (entry : Tlv) : Option Bytes := do
  guard (entry.tag = 0x30)
  let fields ← children data entry
  let typeCtx ← withTag 0xA1 fields
  let valueCtx ← withTag 0xA2 fields
  guard (asn1Integer data typeCtx = some 2)
  let octet ← innerSingle data valueCtx
  guard (octet.tag = 0x04)
  etype23Cipher (octet.value data)

/-- The first name of a principal. -/
def firstName (data : Bytes) (cnameCtx : Tlv) : Option String := do
  let fields ← innerSequence data cnameCtx
  let namesCtx ← withTag 0xA1 fields
  let names ← innerSequence data namesCtx
  let first ← names.head?
  asn1String data first

/-- `_parse_krb5_as_req`: the user, the realm and the cipher. -/
def parseKrb5AsReq
    (data : Bytes)
    (app : Tlv) : Option (String × String × Bytes) := do
  let top ← innerSequence data app
  let padataCtx ← withTag 0xA3 top
  let bodyCtx ← withTag 0xA4 top
  let body ← innerSequence data bodyCtx
  let realmCtx ← withTag 0xA2 body
  let cnameCtx ← withTag 0xA1 body
  let realm ← asn1String data realmCtx
  let user ← firstName data cnameCtx
  guard (user ≠ "" ∧ realm ≠ "")
  let entries ← innerSequence data padataCtx
  let cipher ← entries.findSome? (entryCipher data)
  some (user, realm, cipher)

/-! ## The search of the scanner -/

/-- What `_scan_kerberos` found, and where. -/
structure AsReq where
  start : Nat
  stop : Nat
  user : String
  realm : String
  cipher : Bytes
  deriving Repr, DecidableEq

/-- The message at a position, if it is one that is reported. -/
def asReqAt (data : Bytes) (start : Nat) : Option AsReq := do
  let app ← tlv data start data.length
  guard (app.tag = 0x6A)
  let (user, realm, cipher) ← parseKrb5AsReq data app
  guard (cipher.length = 52)
  some ⟨start, app.stop, user, realm, cipher⟩

/-- The first four bytes are the length of the others. -/
def lengthPrefixed (data : Bytes) : Bool :=
  decide (4 < data.length ∧ bigEndian (data.take 4) = data.length - 4)

/-- `starts`. -/
def starts (data : Bytes) : List Nat :=
  if lengthPrefixed data then [4, 0] else [0]

/-- The message that `_scan_kerberos` reports. -/
def findAsReq (data : Bytes) : Option AsReq :=
  (starts data).findSome? (asReqAt data)

/-- The text for mode 7500: the encrypted timestamp, then the checksum. -/
def AsReq.hashcat (found : AsReq) : String :=
  "$krb5pa$23$" ++ found.user ++ "$" ++ found.realm ++ "$dummy$" ++
    hexText (found.cipher.drop 16) ++ hexText (found.cipher.take 16)

/-- The arguments of `_emit`. -/
def AsReq.emission (found : AsReq) : Emission where
  detector := "kerberos_as_req_etype23"
  start := found.start
  stop := found.stop
  category := "credential"
  protocol := "kerberos"
  materialType := "kerberos_as_req_etype23"
  material := .dict [
    (.text "username", .text found.user),
    (.text "realm", .text found.realm),
    (.text "cipher_hex", .text (hexText found.cipher)),
    (.text "hashcat", .text found.hashcat),
    (.text "hashcat_mode", .number 7500)
  ]
  fields := [("etype", .number 23), ("hashcat_mode", .number 7500)]
  limitations :=
    ["Pre-authentication material does not demonstrate authentication" ++
      " success."]

/-! ## Messages inside longer data -/

/-- The data holds a part at an offset. -/
def Embeds (offset : Nat) (part whole : Bytes) : Prop :=
  ∃ front back, whole = front ++ (part ++ back) ∧ front.length = offset

/-- The same element, so much further on. -/
def Tlv.shift (offset : Nat) (node : Tlv) : Tlv where
  tag := node.tag
  start := offset + node.start
  valueStart := offset + node.valueStart
  stop := offset + node.stop

@[simp] theorem Tlv.tag_shift (offset : Nat) (node : Tlv) :
    (node.shift offset).tag = node.tag := rfl

theorem bounds_of_berLength
    {data : Bytes}
    {pos limit : Nat}
    {parsed : Nat × Nat}
    (isLength : berLength data pos limit = some parsed) :
    pos < parsed.2 ∧ parsed.2 ≤ pos + 5 ∧ parsed.1 ≤ maxBinaryMessage := by
  unfold berLength at isLength
  split at isLength
  · cases isLength
  obtain ⟨first, -, isLength⟩ := Option.bind_eq_some_iff.mp isLength
  split at isLength
  case isTrue short =>
    obtain rfl := Option.some.inj isLength
    simp only [maxBinaryMessage]
    omega
  simp only at isLength
  split at isLength
  · cases isLength
  split at isLength
  · cases isLength
  obtain rfl := Option.some.inj isLength
  simp only
  omega

/-- Where an element ends. -/
theorem bounds_of_tlv
    {data : Bytes}
    {pos limit : Nat}
    {node : Tlv}
    (isNode : tlv data pos limit = some node) :
    pos < node.stop ∧ node.stop ≤ pos + 6 + maxBinaryMessage ∧
      node.stop ≤ limit := by
  unfold tlv at isNode
  split at isNode
  · cases isNode
  obtain ⟨tag, -, isNode⟩ := Option.bind_eq_some_iff.mp isNode
  split at isNode
  · cases isNode
  obtain ⟨parsed, isLength, isNode⟩ := Option.bind_eq_some_iff.mp isNode
  have bounds := bounds_of_berLength isLength
  simp only at isNode
  split at isNode
  · cases isNode
  obtain rfl := Option.some.inj isNode
  simp only
  omega

theorem stop_le_of_mem_childrenFrom
    {data : Bytes}
    {stop more pos : Nat}
    {nodes : List Tlv}
    (areChildren : childrenFrom data stop more pos = some nodes)
    {node : Tlv}
    (member : node ∈ nodes) :
    node.stop ≤ stop := by
  induction more generalizing pos nodes with
  | zero =>
      unfold childrenFrom at areChildren
      split at areChildren
      · cases areChildren
      · obtain rfl := Option.some.inj areChildren
        cases member
  | succ more inductionHypothesis =>
      unfold childrenFrom at areChildren
      split at areChildren
      case isFalse =>
        obtain rfl := Option.some.inj areChildren
        cases member
      case isTrue =>
        obtain ⟨child, isChild, areChildren⟩ :=
          Option.bind_eq_some_iff.mp areChildren
        split at areChildren
        · cases areChildren
        obtain ⟨rest, areRest, rfl⟩ := Option.map_eq_some_iff.mp areChildren
        rcases List.mem_cons.mp member with rfl | inRest
        · exact (bounds_of_tlv isChild).2.2
        · exact inductionHypothesis areRest inRest

theorem stop_le_of_innerSingle
    {data : Bytes}
    {node inner : Tlv}
    (isInner : innerSingle data node = some inner) :
    inner.stop ≤ node.stop := by
  unfold innerSingle at isInner
  split at isInner
  case h_1 only areChildren =>
    obtain rfl := Option.some.inj isInner
    exact stop_le_of_mem_childrenFrom areChildren (List.mem_singleton_self _)
  case h_2 => cases isInner

theorem stop_le_of_target
    (tags : List UInt8)
    (data : Bytes)
    (node : Tlv) :
    (target tags data node).stop ≤ node.stop := by
  unfold target
  split
  · exact le_rfl
  · cases isInner : innerSingle data node with
    | none => exact le_rfl
    | some inner => exact stop_le_of_innerSingle isInner

theorem stop_le_of_mem_innerSequence
    {data : Bytes}
    {node : Tlv}
    {fields : List Tlv}
    (areFields : innerSequence data node = some fields)
    {field : Tlv}
    (member : field ∈ fields) :
    field.stop ≤ node.stop := by
  unfold innerSequence at areFields
  obtain ⟨sequence, isSequence, areFields⟩ :=
    Option.bind_eq_some_iff.mp areFields
  split at areFields
  case isFalse => cases areFields
  case isTrue =>
    obtain ⟨areChildren, -⟩ := Option.filter_eq_some_iff.mp areFields
    exact (stop_le_of_mem_childrenFrom areChildren member).trans
      (stop_le_of_innerSingle isSequence)

section Shifting

variable {offset : Nat}
variable {part whole : Bytes}

theorem Embeds.getElem?
    (embeds : Embeds offset part whole)
    {index : Nat}
    (inside : index < part.length) :
    whole[offset + index]? = part[index]? := by
  obtain ⟨front, back, rfl, rfl⟩ := embeds
  rw [List.getElem?_append_right (Nat.le_add_right _ _),
    Nat.add_sub_cancel_left, List.getElem?_append_left inside]

theorem Embeds.extract
    (embeds : Embeds offset part whole)
    {first last : Nat}
    (inside : last ≤ part.length) :
    whole.extract (offset + first) (offset + last) =
      part.extract first last := by
  obtain ⟨front, back, rfl, rfl⟩ := embeds
  rw [List.extract_eq_take_drop, List.extract_eq_take_drop,
    List.drop_append, List.drop_eq_nil_of_le (Nat.le_add_right _ _),
    List.nil_append, Nat.add_sub_cancel_left, Nat.add_sub_add_left,
    List.drop_append, List.take_append_of_le_length]
  rw [List.length_drop]
  omega

theorem value_shift
    (embeds : Embeds offset part whole)
    {node : Tlv}
    (inside : node.stop ≤ part.length) :
    (node.shift offset).value whole = node.value part :=
  embeds.extract inside

theorem berLength_shift
    (embeds : Embeds offset part whole)
    {pos limit : Nat}
    (inside : limit ≤ part.length) :
    berLength whole (offset + pos) (offset + limit) =
      (berLength part pos limit).map fun parsed =>
        (parsed.1, offset + parsed.2) := by
  unfold berLength
  by_cases beyond : limit ≤ pos
  · rw [if_pos (by omega), if_pos beyond]
    rfl
  rw [if_neg (by omega), if_neg beyond, embeds.getElem? (by omega)]
  cases part[pos]? with
  | none => rfl
  | some first =>
      simp only [Option.bind_some]
      split
      · rfl
      by_cases bad :
          first.toNat % 0x80 = 0 ∨ 4 < first.toNat % 0x80 ∨
            limit < pos + 1 + first.toNat % 0x80
      · rw [if_pos (by omega), if_pos bad]
        rfl
      rw [if_neg (by omega), if_neg bad]
      have sameCount :
          whole.extract (offset + pos + 1)
              (offset + pos + 1 + first.toNat % 0x80) =
            part.extract (pos + 1) (pos + 1 + first.toNat % 0x80) := by
        rw [Nat.add_assoc offset, Nat.add_assoc offset]
        exact embeds.extract (by omega)
      rw [sameCount]
      split
      · rfl
      · simp only [Option.map_some, Option.some.injEq, Prod.mk.injEq,
          true_and]
        omega

theorem tlv_shift
    (embeds : Embeds offset part whole)
    {pos limit : Nat}
    (inside : limit ≤ part.length) :
    tlv whole (offset + pos) (offset + limit) =
      (tlv part pos limit).map (Tlv.shift offset) := by
  unfold tlv
  by_cases beyond : limit ≤ pos
  · rw [if_pos (by omega), if_pos beyond]
    rfl
  rw [if_neg (by omega), if_neg beyond, embeds.getElem? (by omega)]
  cases part[pos]? with
  | none => rfl
  | some tag =>
      simp only [Option.bind_some]
      split
      · rfl
      rw [Nat.add_assoc, berLength_shift embeds inside]
      cases berLength part (pos + 1) limit with
      | none => rfl
      | some parsed =>
          simp only [Option.map_some, Option.bind_some]
          by_cases long : limit < parsed.2 + parsed.1
          · rw [if_pos (by omega), if_pos long]
            rfl
          · rw [if_neg (by omega), if_neg long]
            simp [Tlv.shift, Nat.add_assoc]

theorem childrenFrom_shift
    (embeds : Embeds offset part whole)
    {stop : Nat}
    (inside : stop ≤ part.length)
    (more pos : Nat) :
    childrenFrom whole (offset + stop) more (offset + pos) =
      (childrenFrom part stop more pos).map
        (List.map (Tlv.shift offset)) := by
  induction more generalizing pos with
  | zero =>
      unfold childrenFrom
      by_cases before : pos < stop
      · rw [if_pos (by omega), if_pos before]
        rfl
      · rw [if_neg (by omega), if_neg before]
        rfl
  | succ more inductionHypothesis =>
      unfold childrenFrom
      by_cases before : pos < stop
      · rw [if_pos (by omega), if_pos before, tlv_shift embeds inside]
        cases tlv part pos stop with
        | none => rfl
        | some child =>
            simp only [Option.map_some, Option.bind_some]
            by_cases stuck : child.stop ≤ pos
            · rw [if_pos (by simpa [Tlv.shift] using stuck), if_pos stuck]
              rfl
            · rw [if_neg (by simpa [Tlv.shift] using stuck), if_neg stuck]
              have later := inductionHypothesis child.stop
              change
                (childrenFrom whole (offset + stop) more
                  (offset + child.stop)).map _ = _
              rw [later, Option.map_map, Option.map_map]
              rfl
      · rw [if_neg (by omega), if_neg before]
        rfl

theorem children_shift
    (embeds : Embeds offset part whole)
    {node : Tlv}
    (inside : node.stop ≤ part.length) :
    children whole (node.shift offset) =
      (children part node).map (List.map (Tlv.shift offset)) :=
  childrenFrom_shift embeds inside maxAsn1Nodes node.valueStart

theorem innerSingle_shift
    (embeds : Embeds offset part whole)
    {node : Tlv}
    (inside : node.stop ≤ part.length) :
    innerSingle whole (node.shift offset) =
      (innerSingle part node).map (Tlv.shift offset) := by
  unfold innerSingle
  rw [children_shift embeds inside]
  cases children part node with
  | none => rfl
  | some nodes =>
      match nodes with
      | [] => rfl
      | [only] => rfl
      | first :: second :: rest => rfl

theorem target_shift
    (embeds : Embeds offset part whole)
    {node : Tlv}
    (inside : node.stop ≤ part.length)
    (tags : List UInt8) :
    target tags whole (node.shift offset) =
      (target tags part node).shift offset := by
  unfold target
  rw [Tlv.tag_shift, innerSingle_shift embeds inside]
  split
  · rfl
  · cases innerSingle part node <;> rfl

theorem asn1Integer_shift
    (embeds : Embeds offset part whole)
    {node : Tlv}
    (inside : node.stop ≤ part.length) :
    asn1Integer whole (node.shift offset) = asn1Integer part node := by
  have targetInside := (stop_le_of_target [0x02] part node).trans inside
  unfold asn1Integer
  rw [target_shift embeds inside]
  dsimp only
  rw [value_shift embeds targetInside]
  simp only [Tlv.shift, Nat.add_sub_add_left, Nat.add_le_add_iff_left]

theorem asn1String_shift
    (embeds : Embeds offset part whole)
    {node : Tlv}
    (inside : node.stop ≤ part.length) :
    asn1String whole (node.shift offset) = asn1String part node := by
  have targetInside := (stop_le_of_target stringTags part node).trans inside
  unfold asn1String
  rw [target_shift embeds inside]
  dsimp only
  rw [value_shift embeds targetInside]
  rfl

theorem innerSequence_shift
    (embeds : Embeds offset part whole)
    {node : Tlv}
    (inside : node.stop ≤ part.length) :
    innerSequence whole (node.shift offset) =
      (innerSequence part node).map (List.map (Tlv.shift offset)) := by
  unfold innerSequence
  rw [innerSingle_shift embeds inside]
  cases isInner : innerSingle part node with
  | none => simp only [Option.map_none, Option.bind_none]
  | some sequence =>
      have sequenceInside :=
        (stop_le_of_innerSingle isInner).trans inside
      simp only [Option.map_some, Option.bind_some]
      by_cases isSequence : sequence.tag = 0x30
      · rw [if_pos isSequence, Tlv.tag_shift, if_pos isSequence,
          children_shift embeds sequenceInside]
        cases children part sequence with
        | none => simp only [Option.map_none, Option.filter_none]
        | some fields => cases fields <;> rfl
      · rw [if_neg isSequence, Tlv.tag_shift, if_neg isSequence,
          Option.map_none]

theorem withTag_shift
    (tag : UInt8)
    (nodes : List Tlv) :
    withTag tag (nodes.map (Tlv.shift offset)) =
      (withTag tag nodes).map (Tlv.shift offset) := by
  unfold withTag
  rw [List.find?_map]
  rfl

end Shifting

section Requests

variable {offset : Nat}
variable {part whole : Bytes}

/-- Chains that go on alike with what is shifted give the same. -/
theorem bind_map_congr
    {α β γ : Type}
    {value : Option α}
    {change : α → β}
    {first : β → Option γ}
    {second : α → Option γ}
    (same : ∀ item, value = some item → first (change item) = second item) :
    (value.map change).bind first = value.bind second := by
  cases value with
  | none => rfl
  | some item => exact same item rfl

theorem entryCipher_shift
    (embeds : Embeds offset part whole)
    {entry : Tlv}
    (inside : entry.stop ≤ part.length) :
    entryCipher whole (entry.shift offset) = entryCipher part entry := by
  unfold entryCipher
  simp only [Option.bind_eq_bind]
  refine Option.bind_congr fun _ _ => ?_
  rw [children_shift embeds inside]
  refine bind_map_congr fun fields areFields => ?_
  have fieldInside
      {tag : UInt8}
      {field : Tlv}
      (isField : withTag tag fields = some field) :
      field.stop ≤ part.length :=
    (stop_le_of_mem_childrenFrom areFields
      (List.mem_of_find?_eq_some isField)).trans inside
  rw [withTag_shift]
  refine bind_map_congr fun typeCtx isType => ?_
  rw [withTag_shift]
  refine bind_map_congr fun valueCtx isValue => ?_
  rw [asn1Integer_shift embeds (fieldInside isType)]
  refine Option.bind_congr fun _ _ => ?_
  rw [innerSingle_shift embeds (fieldInside isValue)]
  refine bind_map_congr fun octet isOctet => ?_
  refine Option.bind_congr fun _ _ => ?_
  rw [value_shift embeds
    ((stop_le_of_innerSingle isOctet).trans (fieldInside isValue))]

theorem firstName_shift
    (embeds : Embeds offset part whole)
    {cnameCtx : Tlv}
    (inside : cnameCtx.stop ≤ part.length) :
    firstName whole (cnameCtx.shift offset) = firstName part cnameCtx := by
  unfold firstName
  simp only [Option.bind_eq_bind]
  rw [innerSequence_shift embeds inside]
  refine bind_map_congr fun fields areFields => ?_
  rw [withTag_shift]
  refine bind_map_congr fun namesCtx isNames => ?_
  have namesInside :=
    (stop_le_of_mem_innerSequence areFields
      (List.mem_of_find?_eq_some isNames)).trans inside
  rw [innerSequence_shift embeds namesInside]
  refine bind_map_congr fun names areNames => ?_
  rw [List.head?_map]
  refine bind_map_congr fun first isFirst => ?_
  have firstInside :=
    (stop_le_of_mem_innerSequence areNames
      (List.mem_of_head? isFirst)).trans namesInside
  have same := asn1String_shift embeds firstInside
  rw [same]

/-- A search goes on alike among items that are changed. -/
theorem findSome?_map_congr
    {α β γ : Type}
    {items : List α}
    {change : α → β}
    {first : β → Option γ}
    {second : α → Option γ}
    (same : ∀ item ∈ items, first (change item) = second item) :
    (items.map change).findSome? first = items.findSome? second := by
  induction items with
  | nil => rfl
  | cons item rest inductionHypothesis =>
      rw [List.map_cons, List.findSome?_cons, List.findSome?_cons,
        same item List.mem_cons_self,
        inductionHypothesis fun other member =>
          same other (List.mem_cons_of_mem _ member)]

/-- A message is parsed alike inside longer data. -/
theorem parseKrb5AsReq_shift
    (embeds : Embeds offset part whole)
    {app : Tlv}
    (inside : app.stop ≤ part.length) :
    parseKrb5AsReq whole (app.shift offset) = parseKrb5AsReq part app := by
  have fieldInside
      {node : Tlv}
      {fields : List Tlv}
      {tag : UInt8}
      {field : Tlv}
      (nodeInside : node.stop ≤ part.length)
      (areFields : innerSequence part node = some fields)
      (isField : withTag tag fields = some field) :
      field.stop ≤ part.length :=
    (stop_le_of_mem_innerSequence areFields
      (List.mem_of_find?_eq_some isField)).trans nodeInside
  unfold parseKrb5AsReq
  simp only [Option.bind_eq_bind]
  rw [innerSequence_shift embeds inside]
  refine bind_map_congr fun top areTop => ?_
  rw [withTag_shift]
  refine bind_map_congr fun padataCtx isPadata => ?_
  rw [withTag_shift]
  refine bind_map_congr fun bodyCtx isBody => ?_
  have padataInside := fieldInside inside areTop isPadata
  have bodyInside := fieldInside inside areTop isBody
  rw [innerSequence_shift embeds bodyInside]
  refine bind_map_congr fun body areBody => ?_
  rw [withTag_shift]
  refine bind_map_congr fun realmCtx isRealm => ?_
  rw [withTag_shift]
  refine bind_map_congr fun cnameCtx isCname => ?_
  rw [asn1String_shift embeds (fieldInside bodyInside areBody isRealm)]
  refine Option.bind_congr fun realm _ => ?_
  rw [firstName_shift embeds (fieldInside bodyInside areBody isCname)]
  refine Option.bind_congr fun user _ => ?_
  refine Option.bind_congr fun _ _ => ?_
  rw [innerSequence_shift embeds padataInside]
  refine bind_map_congr fun entries areEntries => ?_
  have found :=
    findSome?_map_congr fun entry member =>
      entryCipher_shift embeds
        ((stop_le_of_mem_innerSequence areEntries member).trans padataInside)
  rw [found]

theorem berLength_widen
    {data : Bytes}
    {pos limit wider : Nat}
    {parsed : Nat × Nat}
    (isLength : berLength data pos limit = some parsed)
    (isWider : limit ≤ wider) :
    berLength data pos wider = some parsed := by
  unfold berLength at isLength ⊢
  by_cases beyond : limit ≤ pos
  · rw [if_pos beyond] at isLength
    cases isLength
  rw [if_neg beyond] at isLength
  rw [if_neg (by omega)]
  obtain ⟨first, isFirst, isLength⟩ := Option.bind_eq_some_iff.mp isLength
  rw [isFirst, Option.bind_some]
  split at isLength
  case isTrue short =>
    rw [if_pos short]
    exact isLength
  case isFalse long =>
    rw [if_neg long]
    simp only at isLength ⊢
    split at isLength
    · cases isLength
    case isFalse good =>
      rw [if_neg (by omega)]
      exact isLength

theorem tlv_widen
    {data : Bytes}
    {pos limit wider : Nat}
    {node : Tlv}
    (isNode : tlv data pos limit = some node)
    (isWider : limit ≤ wider) :
    tlv data pos wider = some node := by
  unfold tlv at isNode ⊢
  by_cases beyond : limit ≤ pos
  · rw [if_pos beyond] at isNode
    cases isNode
  rw [if_neg beyond] at isNode
  rw [if_neg (by omega)]
  obtain ⟨tag, isTag, isNode⟩ := Option.bind_eq_some_iff.mp isNode
  rw [isTag, Option.bind_some]
  split at isNode
  · cases isNode
  case isFalse lowTag =>
    rw [if_neg lowTag]
    obtain ⟨parsed, isLength, isNode⟩ := Option.bind_eq_some_iff.mp isNode
    rw [berLength_widen isLength isWider, Option.bind_some]
    simp only at isNode ⊢
    split at isNode
    · cases isNode
    case isFalse inside =>
      rw [if_neg (by omega)]
      exact isNode

/-- What `asReqAt` has read when it finds a message. -/
theorem asReqAt_eq_some
    {data : Bytes}
    {start : Nat}
    {found : AsReq} :
    asReqAt data start = some found ↔
      ∃ app,
        tlv data start data.length = some app ∧ app.tag = 0x6A ∧
          parseKrb5AsReq data app =
            some (found.user, found.realm, found.cipher) ∧
          found.cipher.length = 52 ∧ found.start = start ∧
          found.stop = app.stop := by
  unfold asReqAt
  simp only [Option.bind_eq_bind, Option.bind_eq_some_iff,
    Option.guard_eq_some']
  constructor
  · rintro ⟨app, isApp, -, tagged, ⟨user, realm, cipher⟩, isParsed, -,
      whole, isFound⟩
    obtain rfl := Option.some.inj isFound
    exact ⟨app, isApp, tagged, isParsed, whole, rfl, rfl⟩
  · rintro ⟨app, isApp, tagged, isParsed, whole, rfl, stops⟩
    exact ⟨app, isApp, (), tagged, _, isParsed, (), whole, by rw [← stops]⟩

/-- A message is found alike inside longer data. -/
theorem asReqAt_shift
    (embeds : Embeds offset part whole)
    {found : AsReq}
    (isFound : asReqAt part 0 = some found) :
    asReqAt whole offset =
      some { found with start := offset, stop := offset + found.stop } := by
  obtain ⟨app, isApp, tagged, isParsed, length, -, stops⟩ :=
    asReqAt_eq_some.mp isFound
  have inside := (bounds_of_tlv isApp).2.2
  have shifted := @tlv_shift offset part whole embeds 0 _ (le_refl part.length)
  rw [isApp, Option.map_some, Nat.add_zero] at shifted
  have wholeLength : offset + part.length ≤ whole.length := by
    obtain ⟨front, back, rfl, rfl⟩ := embeds
    simp only [List.length_append]
    omega
  refine asReqAt_eq_some.mpr
    ⟨app.shift offset, tlv_widen shifted wholeLength, tagged, ?_, length,
      rfl, ?_⟩
  · rw [parseKrb5AsReq_shift embeds inside]
    exact isParsed
  · rw [stops]
    rfl

end Requests

end PacketAudit.Detector.Kerberos
