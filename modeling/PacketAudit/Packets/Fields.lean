import PacketAudit.Models

namespace PacketAudit

/-!
# Header fields of captured packets

Reads of big-endian header fields, the ways such a read can fail, and the
textual form of IP addresses.  A fault is one of the exceptions the decoder of
`packets.py` can raise: its own `PacketDecodeError`, and the `IndexError` and
`struct.error` of the reads it does not guard by itself.
-/

/-- The exceptions decoding a packet can raise. -/
inductive PacketFault where
  /-- `PacketDecodeError` with its message. -/
  | decode (message : String)
  /-- `IndexError` of a byte subscript. -/
  | index
  /-- `struct.error` of an unpack past the end of its buffer. -/
  | struct
  deriving Repr, DecidableEq

/-! ## Constants -/

/-- `DLT_EN10MB`. -/
def dltEn10mb : Nat := 1

/-- `DLT_RAW`. -/
def dltRaw : Nat := 12

/-- `DLT_LINUX_SLL`. -/
def dltLinuxSll : Nat := 113

/-- `DLT_IPV4`. -/
def dltIpv4 : Nat := 228

/-- `DLT_IPV6`. -/
def dltIpv6 : Nat := 229

/-- `DLT_LINUX_SLL2`. -/
def dltLinuxSll2 : Nat := 276

/-- `ETHERTYPE_IPV4`. -/
def ethertypeIpv4 : Nat := 0x0800

/-- `ETHERTYPE_IPV6`. -/
def ethertypeIpv6 : Nat := 0x86DD

/-- `VLAN_ETHERTYPES`. -/
def vlanEthertypes : List Nat := [0x8100, 0x88A8, 0x9100, 0x9200]

/-- `IPPROTO_TCP`. -/
def ipprotoTcp : Nat := 6

/-- `IPPROTO_UDP`. -/
def ipprotoUdp : Nat := 17

/-- `IPPROTO_FRAGMENT`. -/
def ipprotoFragment : Nat := 44

/-- The protocol number of the Authentication Header. -/
def ipprotoAuthentication : Nat := 51

/-- `_IPV6_EXTENSION_HEADERS`. -/
def ipv6ExtensionHeaders : List Nat := [0, 43, 60, 135, 139, 140]

/-- `_MAX_VLAN_TAGS`. -/
def maxVlanTags : Nat := 8

/-- `_MAX_IPV6_EXTENSION_HEADERS`. -/
def maxIpv6ExtensionHeaders : Nat := 16

/-! ## Reads -/

/-- `int.from_bytes(data, "big")`. -/
def bigEndian (data : Bytes) : Nat :=
  data.foldl (fun value byte => value * 256 + byte.toNat) 0

/-- A number in this many bytes, the highest first. -/
def bigEndianBytes : (count value : Nat) → Bytes
  | 0, _ => []
  | count + 1, value =>
      bigEndianBytes count (value / 256) ++ [UInt8.ofNat value]

/-- `data[index]`. -/
def byteAt (data : Bytes) (index : Nat) : Except PacketFault Nat :=
  match data[index]? with
  | some byte => .ok byte.toNat
  | none => .error .index

/-- `_u16`: a two-byte field, guarded by its own check. -/
def u16 (data : Bytes) (offset : Nat) : Except PacketFault Nat :=
  if data.length < offset + 2 then
    .error (.decode "two-byte field extends past captured data")
  else
    .ok (bigEndian (data.extract offset (offset + 2)))

/-- `struct.unpack_from("!I", data, offset)[0]`. -/
def u32 (data : Bytes) (offset : Nat) : Except PacketFault Nat :=
  if data.length < offset + 4 then
    .error .struct
  else
    .ok (bigEndian (data.extract offset (offset + 4)))

/-- `if condition: raise PacketDecodeError(message)`. -/
def raiseIf
    (condition : Prop)
    [Decidable condition]
    (message : String) : Except PacketFault Unit :=
  if condition then .error (.decode message) else .ok ()

/-! ## Address text -/

/-- `str(ipaddress.IPv4Address(data))`. -/
def ipv4Text (data : Bytes) : String :=
  ".".intercalate (data.map fun byte => toString byte.toNat)

/-- A hextet as written by the format `%x`. -/
def hextetText (value : Nat) : String :=
  String.ofList (Nat.toDigits 16 value)

/-- The two-byte groups of an address. -/
def hextets : Bytes → List Nat
  | high :: low :: rest => bigEndian [high, low] :: hextets rest
  | _ => []

/-- A run of zero hextets: its first index and its length. -/
structure ZeroRun where
  start : Nat := 0
  length : Nat := 0
  deriving Repr, DecidableEq

/--
The first longest run of `"0"` groups: `current` is the run that ends at
`index`, `best` the longest one so far.
-/
def longestZeroRun
    (groups : List String)
    (index : Nat)
    (current best : ZeroRun) : ZeroRun :=
  match groups with
  | [] => best
  | group :: rest =>
      if group = "0" then
        let run : ZeroRun :=
          if current.length = 0 then ⟨index, 1⟩
          else ⟨current.start, current.length + 1⟩
        longestZeroRun rest (index + 1) run
          (if best.length < run.length then run else best)
      else
        longestZeroRun rest (index + 1) {} best

/-- `_compress_hextets`: the longest run of two or more zeros becomes `::`. -/
def compressHextets (groups : List String) : List String :=
  let best := longestZeroRun groups 0 {} {}
  if 1 < best.length then
    let stop := best.start + best.length
    let tail := groups.drop stop ++ (if stop = groups.length then [""] else [])
    let compressed := groups.take best.start ++ "" :: tail
    if best.start = 0 then "" :: compressed else compressed
  else
    groups

/-- `str(ipaddress.IPv6Address(data))`, as Python 3.11 and 3.12 write it. -/
def ipv6Text (data : Bytes) : String :=
  ":".intercalate (compressHextets ((hextets data).map hextetText))

example : ipv6Text [0x20, 1, 0xd, 0xb8, 0, 0, 0, 0, 0, 0, 0, 0, 0, 0, 0, 1] =
    "2001:db8::1" := by
  decide +kernel

/-! ## Numbers in bytes -/

theorem bigEndian_concat (data : Bytes) (last : UInt8) :
    bigEndian (data ++ [last]) = bigEndian data * 256 + last.toNat := by
  rw [bigEndian, List.foldl_append]
  rfl

theorem bigEndian_bigEndianBytes (count value : Nat) :
    bigEndian (bigEndianBytes count value) = value % 256 ^ count := by
  induction count generalizing value with
  | zero =>
      rw [pow_zero, Nat.mod_one]
      rfl
  | succ count inductionHypothesis =>
      have split :
          value % 256 ^ (count + 1) =
            value % 256 + 256 * (value / 256 % 256 ^ count) := by
        rw [pow_succ', Nat.mod_mul]
      rw [bigEndianBytes, bigEndian_concat, inductionHypothesis,
        UInt8.toNat_ofNat', split]
      omega

theorem length_bigEndianBytes (count value : Nat) :
    (bigEndianBytes count value).length = count := by
  induction count generalizing value with
  | zero => rfl
  | succ count inductionHypothesis =>
      rw [bigEndianBytes, List.length_append, inductionHypothesis,
        List.length_singleton]

/-- The highest byte of a number stands first. -/
theorem bigEndianBytes_succ (count value : Nat) :
    bigEndianBytes (count + 1) value =
      UInt8.ofNat (value / 256 ^ count) :: bigEndianBytes count value := by
  induction count generalizing value with
  | zero =>
      simp [bigEndianBytes]
  | succ count inductionHypothesis =>
      rw [bigEndianBytes, inductionHypothesis, Nat.div_div_eq_div_mul,
        ← pow_succ', List.cons_append, bigEndianBytes]

/-! ## When reads succeed -/

/-- A bound computation succeeds exactly when both parts do. -/
theorem bind_eq_ok
    {α β ε : Type}
    {first : Except ε α}
    {continuation : α → Except ε β}
    {result : β} :
    first >>= continuation = .ok result ↔
      ∃ value, first = .ok value ∧ continuation value = .ok result := by
  cases first <;> simp [bind, Except.bind]

@[simp] theorem ok_bind
    {α β ε : Type}
    (value : α)
    (continuation : α → Except ε β) :
    ((.ok value : Except ε α) >>= continuation) = continuation value := rfl

@[simp] theorem raiseIf_eq_ok
    {condition : Prop}
    [Decidable condition]
    {message : String}
    {unit : Unit} :
    raiseIf condition message = .ok unit ↔ ¬ condition := by
  unfold raiseIf
  split <;> simp_all

theorem byteAt_eq_ok
    {data : Bytes}
    {index value : Nat} :
    byteAt data index = .ok value ↔
      ∃ byte, data[index]? = some byte ∧ byte.toNat = value := by
  unfold byteAt
  cases data[index]? <;> simp

theorem u16_eq_ok
    {data : Bytes}
    {offset value : Nat} :
    u16 data offset = .ok value ↔
      offset + 2 ≤ data.length ∧
        bigEndian (data.extract offset (offset + 2)) = value := by
  unfold u16
  split
  · simp
    omega
  · simp
    omega

theorem u32_eq_ok
    {data : Bytes}
    {offset value : Nat} :
    u32 data offset = .ok value ↔
      offset + 4 ≤ data.length ∧
        bigEndian (data.extract offset (offset + 4)) = value := by
  unfold u32
  split
  · simp
    omega
  · simp
    omega

theorem byteAt_of_lt
    {data : Bytes}
    {index : Nat}
    (inside : index < data.length) :
    byteAt data index = .ok data[index].toNat := by
  simp [byteAt, inside]

end PacketAudit
