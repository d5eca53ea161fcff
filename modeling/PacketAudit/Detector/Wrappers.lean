import PacketAudit.Detector.Ntlm

namespace PacketAudit.Detector

/-!
# NTLM tokens in SPNEGO wrappers

`_tlv` and `unwrap_ntlm` of `ntlm_wrappers.py`, and the wrappers as DER
elements, each with the form in which it writes its length.
-/

/-! ## Reading -/

/-- The tag of an element, and where its value starts and stops. -/
structure TlvNode where
  tag : UInt8
  value : Nat
  stop : Nat
  deriving Repr, DecidableEq

/-- The element of this tag, if its value lies before the limit. -/
def TlvNode.within? (tag : UInt8) (value size limit : Nat) : Option TlvNode :=
  if value + size ≤ limit then some ⟨tag, value, value + size⟩ else none

/-- `_tlv`. -/
def tlv (data : Bytes) (start limit : Nat) : Option TlvNode :=
  if limit < start + 2 then
    none
  else
    match data.extract start (start + 2) with
    | [tag, size] =>
        let value := start + 2
        if 128 ≤ size.toNat then
          let count := size.toNat % 128
          if count < 1 ∨ 3 < count ∨ limit < value + count then
            none
          else
            TlvNode.within? tag (value + count)
              (bigEndian (data.extract value (value + count))) limit
        else
          TlvNode.within? tag value size.toNat limit
    | _ => none

/-- `b"\x2b\x06\x01\x05\x05\x02"`. -/
def spnegoOid : Bytes :=
  [0x2b, 0x06, 0x01, 0x05, 0x05, 0x02]

/-- The element behind the object identifier of an `InitialContextToken`. -/
def negotiationToken? (token : Bytes) (outer : TlvNode) : Option TlvNode := do
  let oid ← tlv token outer.value outer.stop
  guard (oid.tag = 6 ∧ token.extract oid.value oid.stop = spnegoOid)
  let node ← tlv token oid.stop outer.stop
  guard (node.stop = outer.stop)
  some node

/-- The loop over the fields, for at most `rounds` of them. -/
def readTokenFields
    (token : Bytes)
    (stop : Nat) :
    (rounds cursor : Nat) → (found : Option Bytes) →
      Option (Nat × Option Bytes)
  | 0, cursor, found => some (cursor, found)
  | rounds + 1, cursor, found =>
      if cursor < stop then
        match tlv token cursor stop with
        | none => none
        | some child =>
            if child.tag = 0xA2 then
              match tlv token child.value child.stop with
              | none => none
              | some inner =>
                  if inner.tag ≠ 4 ∨ inner.stop ≠ child.stop ∨
                      found.isSome then
                    none
                  else
                    readTokenFields token stop rounds child.stop
                      (some (token.extract inner.value inner.stop))
            else
              readTokenFields token stop rounds child.stop found
      else
        some (cursor, found)

/-- The element that is tagged as a `NegTokenInit` or `NegTokenResp`. -/
def contextToken? (token : Bytes) : Option TlvNode := do
  let outer ← tlv token 0 token.length
  guard (outer.stop = token.length)
  if outer.tag = 0x60 then negotiationToken? token outer else some outer

/-- `unwrap_ntlm`. -/
def unwrapNtlm (token : Bytes) : Option Bytes :=
  if 65536 < token.length then
    none
  else if ntlmSignature <+: token then
    some token
  else do
    let context ← contextToken? token
    guard (context.tag = 0xA0 ∨ context.tag = 0xA1)
    let fields ← tlv token context.value context.stop
    guard (fields.tag = 0x30 ∧ fields.stop = context.stop)
    let (cursor, found) ←
      readTokenFields token context.stop 8 fields.value none
    let found ← found
    guard (cursor = context.stop ∧ ntlmSignature <+: found)
    some found

/-! ## Wrappers -/

/-- How an element writes its length: in one byte, or in up to three more. -/
inductive LengthForm where
  | short
  | long (more : Fin 3)
  deriving Repr, DecidableEq

namespace LengthForm

/-- The form writes lengths below this. -/
def bound : LengthForm → Nat
  | short => 128
  | long more => 256 ^ (more.val + 1)

/-- The bytes of a length. -/
def bytes (form : LengthForm) (length : Nat) : Bytes :=
  match form with
  | short => [UInt8.ofNat length]
  | long more =>
      UInt8.ofNat (129 + more) :: bigEndianBytes (more + 1) length

end LengthForm

/-- An element whose length can be written in its form. -/
structure DerElement where
  tag : UInt8
  form : LengthForm
  content : Bytes
  fits : content.length < form.bound

namespace DerElement

/-- The tag and the length of an element. -/
def header (element : DerElement) : Bytes :=
  element.tag :: element.form.bytes element.content.length

def bytes (element : DerElement) : Bytes :=
  element.header ++ element.content

/-- The element is a `[2] OCTET STRING` that holds the token. -/
def IsTokenField (field : DerElement) (token : Bytes) : Prop :=
  ∃ inner : DerElement,
    field.tag = 0xA2 ∧ field.content = inner.bytes ∧
      inner.tag = 4 ∧ inner.content = token

end DerElement

/-- A `NegTokenInit` or `NegTokenResp`: a tagged sequence of fields. -/
structure NegToken where
  context : DerElement
  sequence : DerElement
  fields : List DerElement
  isContext : context.tag = 0xA0 ∨ context.tag = 0xA1
  holdsSequence : context.content = sequence.bytes
  isSequence : sequence.tag = 0x30
  holdsFields : sequence.content = fields.flatMap DerElement.bytes

/-- A `NegToken` as it is, or behind the object identifier of SPNEGO. -/
inductive SpnegoWrapper where
  | bare (negToken : NegToken)
  | initial
      (outer oid : DerElement)
      (negToken : NegToken)
      (isOuter : outer.tag = 0x60)
      (isOid : oid.tag = 6 ∧ oid.content = spnegoOid)
      (holdsToken : outer.content = oid.bytes ++ negToken.context.bytes)

namespace SpnegoWrapper

def negToken : SpnegoWrapper → NegToken
  | bare negToken => negToken
  | initial _ _ negToken _ _ _ => negToken

/-- The outermost element. -/
def outermost : SpnegoWrapper → DerElement
  | bare negToken => negToken.context
  | initial outer _ _ _ _ _ => outer

def bytes (wrapper : SpnegoWrapper) : Bytes :=
  wrapper.outermost.bytes

end SpnegoWrapper

end PacketAudit.Detector
