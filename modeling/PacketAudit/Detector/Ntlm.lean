import PacketAudit.Packets.Fields
import PacketAudit.Library.Search

namespace PacketAudit.Detector

/-!
# NTLM messages and their SMB2 framing

`_decode_ntlm` and `_safe_text` of `detectors.py`, and the two functions of
`ntlm_wrappers.py` that look for the SMB2 record around a message.
-/

open Library

/-- `int.from_bytes(data, "little")`. -/
def littleEndian (data : Bytes) : Nat :=
  bigEndian data.reverse

/-! ## Text -/

/-- The code units of `raw.decode("utf-16le")`. -/
def utf16Units : Bytes → List Nat
  | low :: high :: rest =>
      (low.toNat + 256 * high.toNat) :: utf16Units rest
  | _ => []

/-- `raw.decode("utf-16le")`; an unpaired surrogate is an error. -/
def decodeUtf16 : List Nat → Option (List Char)
  | [] => some []
  | [unit] =>
      if 0xD800 ≤ unit ∧ unit < 0xE000 then none else some [Char.ofNat unit]
  | unit :: next :: rest =>
      if unit < 0xD800 ∨ 0xE000 ≤ unit then
        (decodeUtf16 (next :: rest)).map (Char.ofNat unit :: ·)
      else if unit < 0xDC00 ∧ 0xDC00 ≤ next ∧ next < 0xE000 then
        (decodeUtf16 rest).map
          (Char.ofNat
            (0x10000 + (unit - 0xD800) * 0x400 + (next - 0xDC00)) :: ·)
      else
        none

/-- `text.rstrip("\x00")`. -/
def stripNul (text : List Char) : List Char :=
  (text.reverse.dropWhile fun character => character.toNat = 0).reverse

/-- `_safe_text`; latin-1 accepts every byte, so the last fallback is moot. -/
def safeText (raw : Bytes) (unicodeHint : Bool) : String :=
  let wide :=
    if unicodeHint && raw.length % 2 == 0 then decodeUtf16 (utf16Units raw)
    else none
  let narrow := (String.fromUTF8? ⟨raw.toArray⟩).map String.toList
  let latin1 := raw.map fun byte => Char.ofNat byte.toNat
  String.ofList (stripNul ((wide.orElse fun _ => narrow).getD latin1))

/-- One hexadecimal digit. -/
def hexDigit (value : Nat) : Char :=
  if value < 10 then Char.ofNat (48 + value) else Char.ofNat (87 + value)

/-- `data.hex()`. -/
def hexText (data : Bytes) : String :=
  String.ofList
    (data.flatMap fun byte =>
      [hexDigit (byte.toNat / 16), hexDigit (byte.toNat % 16)])

/-! ## Messages -/

/-- `b"NTLMSSP\x00"`. -/
def ntlmSignature : Bytes :=
  [0x4E, 0x54, 0x4C, 0x4D, 0x53, 0x53, 0x50, 0x00]

/-- The length and the offset of a security buffer descriptor. -/
def securityDescriptor (blob : Bytes) (position : Nat) : Nat × Nat :=
  (littleEndian (blob.extract position (position + 2)),
    littleEndian (blob.extract (position + 4) (position + 8)))

/-- `_security_buffer`. -/
def securityBuffer (blob : Bytes) (position : Nat) : Option Bytes :=
  if blob.length < position + 8 then
    none
  else
    let (length, offset) := securityDescriptor blob position
    if 65535 < length ∨ blob.length < offset ∨
        blob.length < offset + length then
      none
    else
      some (blob.extract offset (offset + length))

/-- Where the security buffers that lie in the blob end, in `ends`. -/
def bufferEnds (blob : Bytes) (positions : List Nat) : List Nat :=
  positions.filterMap fun position =>
    if blob.length < position + 8 then
      none
    else
      let (length, offset) := securityDescriptor blob position
      if offset + length ≤ blob.length then some (offset + length) else none

/-- The values of a Type 3 message. -/
structure Type3Values where
  lmResponse : Bytes
  ntResponse : Bytes
  domain : String
  username : String
  workstation : String
  deriving Repr, DecidableEq

/-- A decoded message: its type and the values read from it. -/
inductive NtlmValues where
  | type2 (challenge : Bytes)
  | type3 (values : Type3Values)
  deriving Repr, DecidableEq

/-- The Type 3 branch of `_decode_ntlm`. -/
def decodeType3 (blob : Bytes) : Option (NtlmValues × Nat) :=
  match securityBuffer blob 12, securityBuffer blob 20,
      securityBuffer blob 28, securityBuffer blob 36,
      securityBuffer blob 44 with
  | some lmResponse, some ntResponse, some domain, some user,
      some workstation =>
      let flags :=
        if 64 ≤ blob.length then littleEndian (blob.extract 60 64) else 1
      let unicodeHint := flags % 2 == 1
      some
        (.type3 {
            lmResponse
            ntResponse
            domain := safeText domain unicodeHint
            username := safeText user unicodeHint
            workstation := safeText workstation unicodeHint
          },
          (bufferEnds blob [12, 20, 28, 36, 44, 52]).foldl max 52)
  | _, _, _, _, _ => none

/-- `_decode_ntlm`: the values and where the message ends. -/
def decodeNtlm (blob : Bytes) : Option (NtlmValues × Nat) :=
  if blob.length < 12 ∨ blob.take 8 ≠ ntlmSignature then
    none
  else if littleEndian (blob.extract 8 12) = 2 then
    if blob.length < 32 then
      none
    else
      some (.type2 (blob.extract 24 32),
        (bufferEnds blob [12, 40]).foldl max 32)
  else if littleEndian (blob.extract 8 12) ≠ 3 ∨ blob.length < 52 then
    none
  else
    decodeType3 blob

/-- The positions `_NTLM_SIGNATURE_RE` finds: Type 2 and Type 3 messages. -/
def signatureStarts (data : Bytes) : List Nat :=
  (List.range data.length).filter fun start =>
    OccursAt (ntlmSignature ++ [2, 0, 0, 0]) data start ∨
      OccursAt (ntlmSignature ++ [3, 0, 0, 0]) data start

/-! ## SMB2 framing -/

/-- `b"\xfeSMB"`. -/
def smb2Signature : Bytes :=
  [0xFE, 0x53, 0x4D, 0x42]

/-- `smb2_header_seen`. -/
def smb2HeaderSeen (data : Bytes) : Bool :=
  (List.range data.length).any fun cursor =>
    OccursAt smb2Signature data cursor ∧
      cursor + 64 ≤ data.length ∧
      data.extract (cursor + 4) (cursor + 6) = [0x40, 0x00] ∧
      littleEndian (data.extract (cursor + 12) (cursor + 14)) ≤ 18

/-- One round of `smb2_session_for_token`: the record behind this header. -/
def smb2SessionAt
    (data : Bytes)
    (tokenStart tokenLength header : Nat) : Option Nat :=
  let field := fun (first last : Nat) =>
    data.extract (header + first) (header + last)
  if data.length < header + 72 then
    none
  else if field 4 6 ≠ [0x40, 0x00] ∨ field 12 14 ≠ [0x01, 0x00] then
    none
  else
    let response := littleEndian (field 16 20) % 2 == 1
    let fixedSize := if response then 9 else 25
    let offsetPosition := if response then 68 else 76
    let minimum := if response then 72 else 88
    if data.length < header + minimum ∨
        littleEndian (field 64 66) ≠ fixedSize then
      none
    else
      let offset := littleEndian (field offsetPosition (offsetPosition + 2))
      let length :=
        littleEndian (field (offsetPosition + 2) (offsetPosition + 4))
      if tokenLength < 12 ∨ offset < minimum ∨
          tokenStart < header + offset ∨
          header + offset + length < tokenStart + tokenLength then
        none
      else if header < 4 ∨ data[header - 4]? ≠ some 0 then
        none
      else if
          bigEndian (data.extract (header - 3) header) < offset + length ∨
            field 20 24 ≠ [0, 0, 0, 0] then
        none
      else
        some (littleEndian (field 40 48))

/-- `smb2_session_for_token`: at most 64 headers, the nearest one first. -/
def smb2SessionForToken
    (data : Bytes)
    (tokenStart tokenLength : Nat) : Option Nat :=
  let headers :=
    (List.range tokenStart).filter fun header =>
      tokenStart - 65535 ≤ header ∧ header + 4 ≤ tokenStart ∧
        OccursAt smb2Signature data header
  (headers.reverse.take 64).findSome?
    (smb2SessionAt data tokenStart tokenLength)

/-! ## Findings for hash crackers -/

/-- The `hashcat` text, its mode and the material type of `_correlate_ntlm`. -/
def hashcatLine
    (username domain : String)
    (challenge lmResponse ntResponse : Bytes) :
    Option (String × Nat × String) :=
  if 48 ≤ ntResponse.length ∧
      ntResponse.extract 16 20 = [0x01, 0x01, 0x00, 0x00] then
    some
      (username ++ "::" ++ domain ++ ":" ++ hexText challenge ++ ":" ++
        hexText (ntResponse.take 16) ++ ":" ++ hexText (ntResponse.drop 16),
        5600, "netntlmv2")
  else if ntResponse.length = 24 ∧ lmResponse.length = 24 then
    some
      (username ++ "::" ++ domain ++ ":" ++ hexText lmResponse ++ ":" ++
        hexText ntResponse ++ ":" ++ hexText challenge,
        5500, "netntlmv1")
  else
    none

end PacketAudit.Detector
