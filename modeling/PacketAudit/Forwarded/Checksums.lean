import PacketAudit.Forwarded.Frames
import PacketAudit.Library.Incremental
import PacketAudit.Library.OnesComplement

namespace PacketAudit

/-!
# Checksums of forwarded headers

`_checksum_matches` compares the header checksums of a frame and its forwarded
copy by updating the first for a hop count lowered by one.  Here it is compared
with a checksum computed anew over the lowered header.
-/

open Library

/-! ## Sums of two-byte words -/

/-- What the byte at an index counts for in the sum of the words. -/
def byteWeight (index : Nat) : Nat :=
  if index % 2 = 0 then 256 else 1

/-- Replacing a byte changes the sum of the words by its weight. -/
theorem sum_hextets_set
    (data : Bytes)
    (even : data.length % 2 = 0)
    (index : Nat)
    (inside : index < data.length)
    (byte : UInt8) :
    (hextets (data.set index byte)).sum +
        byteWeight index * data[index].toNat =
      (hextets data).sum + byteWeight index * byte.toNat := by
  induction data using hextets.induct generalizing index with
  | case1 high low rest inductionHypothesis =>
      rcases index with _ | _ | index
      · simp [hextets, byteWeight, bigEndian]
        omega
      · simp [hextets, byteWeight, bigEndian]
        omega
      · simp only [List.length_cons] at even inside
        have later :=
          inductionHypothesis (by omega) index (by omega)
        have weight : byteWeight (index + 2) = byteWeight index := by
          simp [byteWeight]
        simp only [List.set_cons_succ, hextets, List.sum_cons,
          List.getElem_cons_succ, weight]
        omega
  | case2 data noPair =>
      rcases data with _ | ⟨high, _ | ⟨low, rest⟩⟩
      · simp at inside
      · simp at even
      · exact absurd rfl (noPair high low rest)

/-! ## Headers -/

/-- A byte string that is exactly one IPv4 header. -/
structure Ipv4Header where
  bytes : Bytes
  version : (bytes.headD 0).toNat >>> 4 = 4
  headerLength : ((bytes.headD 0).toNat &&& 0x0F) * 4 = bytes.length
  long : 20 ≤ bytes.length

/-- Replacing a byte behind the first one keeps the first one. -/
theorem headD_set
    {data : Bytes}
    {index : Nat}
    (behind : 0 < index)
    (byte : UInt8) :
    (data.set index byte).headD 0 = data.headD 0 := by
  obtain ⟨index, rfl⟩ : ∃ before, index = before + 1 :=
    ⟨index - 1, by omega⟩
  cases data <;> rfl

namespace Ipv4Header

variable (header : Ipv4Header)

/-- The header checksum field. -/
def checksum : Nat :=
  bigEndian (header.bytes.extract 10 12)

/-- The time to live. -/
def hopLimit : Nat :=
  bigEndian (header.bytes.extract 8 9)

/-- The one's-complement sum over the whole header is minus zero. -/
def ChecksumValid : Prop :=
  foldCarries 65536 (hextets header.bytes).sum = 0xFFFF

/-- Replace bytes behind the first one. -/
def setByte
    (index : Nat)
    (byte : UInt8)
    (behind : 0 < index) : Ipv4Header where
  bytes := header.bytes.set index byte
  version := by
    rw [headD_set behind]
    exact header.version
  headerLength := by
    rw [headD_set behind, List.length_set]
    exact header.headerLength
  long := by
    rw [List.length_set]
    exact header.long

/-- Write the header checksum field. -/
def setChecksum (checksum : Nat) : Ipv4Header :=
  (header.setByte 10 (UInt8.ofNat (checksum / 256)) (by decide)).setByte 11
    (UInt8.ofNat (checksum % 256)) (by decide)

/-- Write the time to live. -/
def setHopLimit (hopLimit : Nat) : Ipv4Header :=
  header.setByte 8 (UInt8.ofNat hopLimit) (by decide)

/-- The checksum computed from scratch, over the header with a zero field. -/
def recomputedChecksum : Nat :=
  onesComplementChecksum 65536 (hextets (header.setChecksum 0).bytes)

/-- What a router sends on: time to live less one, checksum recomputed. -/
def forwarded : Ipv4Header :=
  let aged := header.setHopLimit (header.hopLimit - 1)
  aged.setChecksum aged.recomputedChecksum

@[simp] theorem bytes_setByte
    (index : Nat)
    (byte : UInt8)
    (behind : 0 < index) :
    (header.setByte index byte behind).bytes =
      header.bytes.set index byte := rfl

@[simp] theorem length_setChecksum (checksum : Nat) :
    (header.setChecksum checksum).bytes.length = header.bytes.length := by
  simp [setChecksum]

@[simp] theorem length_setHopLimit (hopLimit : Nat) :
    (header.setHopLimit hopLimit).bytes.length = header.bytes.length := by
  simp [setHopLimit]

theorem even_length : header.bytes.length % 2 = 0 := by
  have length := header.headerLength
  omega

theorem checksum_eq :
    header.checksum =
      256 * (header.bytes.getD 10 0).toNat +
        (header.bytes.getD 11 0).toNat := by
  have long := header.long
  rw [checksum, List.extract_eq_take_drop,
    List.drop_eq_getElem_cons (show 10 < header.bytes.length by omega),
    List.drop_eq_getElem_cons (show 11 < header.bytes.length by omega),
    List.getD_eq_getElem _ _ (by omega),
    List.getD_eq_getElem _ _ (by omega)]
  simp only [bigEndian, List.take_succ_cons, Nat.reduceSub,
    List.take_zero, List.foldl_cons, List.foldl_nil]
  omega

theorem hopLimit_eq :
    header.hopLimit = (header.bytes.getD 8 0).toNat := by
  have long := header.long
  rw [hopLimit, List.extract_eq_take_drop,
    List.drop_eq_getElem_cons (show 8 < header.bytes.length by omega),
    List.getD_eq_getElem _ _ (by omega)]
  simp only [bigEndian, List.take_succ_cons, Nat.reduceSub,
    List.take_zero, List.foldl_cons, List.foldl_nil]
  omega

theorem checksum_lt : header.checksum < 65536 := by
  have high := (header.bytes.getD 10 0).toNat_lt
  have low := (header.bytes.getD 11 0).toNat_lt
  rw [checksum_eq]
  omega

/-- A written checksum is read back. -/
theorem checksum_setChecksum
    {checksum : Nat}
    (small : checksum < 65536) :
    (header.setChecksum checksum).checksum = checksum := by
  have long := header.long
  rw [checksum_eq]
  simp only [setChecksum, bytes_setByte, List.getD_eq_getElem?_getD,
    List.getElem?_set, List.length_set]
  rw [if_neg (by decide), if_pos trivial, if_pos trivial,
    if_pos (by omega), if_pos (by omega)]
  simp only [Option.getD_some, UInt8.toNat_ofNat']
  omega

/-- The sum with the checksum field cleared, and the field. -/
theorem sum_setChecksum_zero :
    (hextets (header.setChecksum 0).bytes).sum + header.checksum =
      (hextets header.bytes).sum := by
  have long := header.long
  have even := header.even_length
  have first :=
    sum_hextets_set header.bytes even 10 (by omega) (UInt8.ofNat 0)
  have second :=
    sum_hextets_set (header.bytes.set 10 (UInt8.ofNat 0))
      (by simpa using even) 11 (by simp; omega) (UInt8.ofNat 0)
  rw [checksum_eq]
  simp only [setChecksum, bytes_setByte]
  simp [byteWeight] at first second ⊢
  rw [List.getElem?_eq_getElem (by omega),
    List.getElem?_eq_getElem (by omega)]
  simp only [Option.getD_some]
  omega

/-- Lowering the time to live by one takes 256 off the sum. -/
theorem sum_setHopLimit
    (alive : 1 ≤ header.hopLimit) :
    (hextets (header.setHopLimit (header.hopLimit - 1)).bytes).sum + 256 =
      (hextets header.bytes).sum := by
  have long := header.long
  have small := (header.bytes.getD 8 0).toNat_lt
  have changed :=
    sum_hextets_set header.bytes header.even_length 8 (by omega)
      (UInt8.ofNat (header.hopLimit - 1))
  rw [hopLimit_eq] at alive changed ⊢
  simp only [setHopLimit, bytes_setByte]
  simp only [List.getD_eq_getElem?_getD,
    List.getElem?_eq_getElem (show 8 < header.bytes.length by omega),
    Option.getD_some, byteWeight, UInt8.toNat_ofNat'] at small alive changed ⊢
  simp only [if_true] at changed
  rw [Nat.mod_eq_of_lt (by omega)] at changed
  omega

/-- The sum counts at least the version. -/
theorem le_sum : 256 * 64 ≤ (hextets header.bytes).sum := by
  have long := header.long
  have version := header.version
  have changed :=
    sum_hextets_set header.bytes header.even_length 0 (by omega) 0
  have inside : 0 < header.bytes.length := by omega
  have first :
      (header.bytes.headD 0).toNat = header.bytes[0].toNat := by
    rw [List.headD_eq_head?_getD, List.head?_eq_getElem?,
      List.getElem?_eq_getElem (by omega), Option.getD_some]
  rw [first, Nat.shiftRight_eq_div_pow] at version
  simp only [byteWeight, Nat.zero_mod, if_true] at changed
  simp only [UInt8.toNat_zero, Nat.mul_zero, Nat.add_zero] at changed
  omega

theorem checksum_setHopLimit (hopLimit : Nat) :
    (header.setHopLimit hopLimit).checksum = header.checksum := by
  rw [checksum_eq, checksum_eq]
  simp [setHopLimit]

theorem hopLimit_setHopLimit
    {hopLimit : Nat}
    (small : hopLimit < 256) :
    (header.setHopLimit hopLimit).hopLimit = hopLimit := by
  have long := header.long
  rw [hopLimit_eq]
  simp only [setHopLimit, bytes_setByte, List.getD_eq_getElem?_getD,
    List.getElem?_set]
  rw [if_pos trivial, if_pos (by omega)]
  simp only [Option.getD_some, UInt8.toNat_ofNat']
  omega

theorem hopLimit_setChecksum (checksum : Nat) :
    (header.setChecksum checksum).hopLimit = header.hopLimit := by
  rw [hopLimit_eq, hopLimit_eq]
  simp [setChecksum]

theorem hopLimit_lt : header.hopLimit < 256 := by
  rw [hopLimit_eq]
  exact (header.bytes.getD 8 0).toNat_lt

/-- A recomputed checksum fits its field. -/
theorem recomputedChecksum_lt : header.recomputedChecksum < 65536 := by
  unfold recomputedChecksum onesComplementChecksum
  omega

/-- The checksum of the forwarded header, from the sum of the original. -/
theorem checksum_forwarded
    (alive : 1 ≤ header.hopLimit) :
    header.forwarded.checksum =
      0xFFFF -
        foldCarries 65536
          ((hextets (header.setChecksum 0).bytes).sum - 256) := by
  have lowered := header.sum_setHopLimit alive
  have cleared := header.sum_setChecksum_zero
  have both :=
    (header.setHopLimit (header.hopLimit - 1)).sum_setChecksum_zero
  rw [checksum_setHopLimit] at both
  unfold forwarded
  rw [checksum_setChecksum _ (recomputedChecksum_lt _)]
  unfold recomputedChecksum onesComplementChecksum
  rw [show
    (hextets
        ((header.setHopLimit (header.hopLimit - 1)).setChecksum 0).bytes).sum =
      (hextets (header.setChecksum 0).bytes).sum - 256 by omega]

/-- Where the incremental update gives the recomputed checksum. -/
theorem updated_iff
    (valid : header.ChecksumValid)
    (alive : 1 ≤ header.hopLimit) :
    endAroundCarry 65536 (header.checksum + 256) =
        header.forwarded.checksum ↔
      header.checksum ≠ 0xFEFF := by
  have cleared := header.sum_setChecksum_zero
  have large := (header.setChecksum 0).le_sum
  rw [checksum_forwarded header alive]
  refine (recomputed_iff (by decide) header.checksum_lt ?_ ?_ ?_).trans ?_
  · rw [cleared]
    exact valid
  · omega
  · decide
  · omega

/-- A recomputed checksum makes a header valid. -/
theorem checksumValid_setChecksum :
    (header.setChecksum header.recomputedChecksum).ChecksumValid := by
  have large := (header.setChecksum 0).le_sum
  have bounds :=
    foldCarries_bounds (show 2 ≤ 65536 by decide)
      (show 0 < (hextets (header.setChecksum 0).bytes).sum by omega)
  have folded :=
    foldCarries_modEq (show 2 ≤ 65536 by decide)
      (show 0 < (hextets (header.setChecksum 0).bytes).sum by omega)
  have again :
      (header.setChecksum header.recomputedChecksum).setChecksum 0 =
        header.setChecksum 0 := by
    simp only [setChecksum, setByte, mk.injEq]
    rw [List.set_comm _ _ (by decide : 11 ≠ 10), List.set_set,
      List.set_set]
  have total :=
    (header.setChecksum header.recomputedChecksum).sum_setChecksum_zero
  rw [again, checksum_setChecksum _ (recomputedChecksum_lt _)] at total
  unfold ChecksumValid
  rw [← total, foldCarries_of_pos (by decide) (by omega)]
  unfold recomputedChecksum onesComplementChecksum
  unfold Nat.ModEq at folded
  omega

/-! ## Frames that carry a header -/

/-- What a datagram with a known header is described by. -/
theorem normalizeIpv4_append (payload : Bytes) :
    let network := header.bytes ++ payload
    let length := bigEndian (header.bytes.extract 2 4)
    normalizeIpv4 network =
      if length < header.bytes.length ∨ network.length < length ∨
          header.hopLimit < 1 then
        none
      else
        some {
          hopLimit := header.hopLimit
          ipChecksum := some header.checksum
          datagram := (((network.take length).set 8 0).set 10 0).set 11 0
        } := by
  have long := header.long
  have isPrefix : header.bytes <+: header.bytes ++ payload :=
    List.prefix_append _ _
  intro network length
  cases shape : network with
  | nil =>
      have empty := congrArg List.length shape
      simp only [network, List.length_append, List.length_nil] at empty
      omega
  | cons first rest =>
      have isFirst : header.bytes.headD 0 = first := by
        cases own : header.bytes with
        | nil => simp [own] at long
        | cons head tail =>
            simp only [network, own, List.cons_append,
              List.cons.injEq] at shape
            exact shape.1
      have version := header.version
      have headerLength := header.headerLength
      rw [isFirst] at version headerLength
      have longer : 20 ≤ (first :: rest).length := by
        rw [← shape, List.length_append]
        omega
      unfold normalizeIpv4
      simp only [headerLength, version]
      rw [if_neg (by omega), ← shape, extract_of_isPrefix isPrefix (by omega),
        extract_of_isPrefix isPrefix (by omega),
        extract_of_isPrefix isPrefix (by omega)]
      by_cases fits : length < header.bytes.length ∨ network.length < length
      · rw [if_pos (.inr fits), if_pos (by omega)]
      · rw [if_neg (by omega)]
        by_cases alive : bigEndian (header.bytes.extract 8 9) < 1
        · rw [if_pos alive, if_pos (.inr (.inr alive))]
        · rw [if_neg alive, if_neg (not_or.mpr ⟨by omega, ?_⟩)]
          · rfl
          · exact not_or.mpr ⟨by omega, alive⟩

/-- A header and its forwarded copy differ only in what the key erases. -/
theorem erased_forwarded (payload : Bytes) (length : Nat) :
    ((((header.forwarded.bytes ++ payload).take length).set 8 0).set 10
        0).set 11 0 =
      ((((header.bytes ++ payload).take length).set 8 0).set 10 0).set 11
        0 := by
  have long := header.long
  simp only [forwarded, setChecksum, setHopLimit, bytes_setByte]
  rw [← List.set_append_left _ _ (by simp; omega),
    ← List.set_append_left _ _ (by simp; omega),
    ← List.set_append_left _ _ (by omega),
    List.take_set, List.take_set, List.take_set,
    List.set_comm _ _ (by decide : 11 ≠ 8),
    List.set_comm _ _ (by decide : 10 ≠ 8), List.set_set,
    List.set_comm _ _ (by decide : 11 ≠ 10), List.set_set, List.set_set]

theorem length_forwarded :
    header.forwarded.bytes.length = header.bytes.length := by
  simp [forwarded]

theorem hopLimit_forwarded (alive : 1 ≤ header.hopLimit) :
    header.forwarded.hopLimit + 1 = header.hopLimit := by
  have small := header.hopLimit_lt
  unfold forwarded
  rw [hopLimit_setChecksum, hopLimit_setHopLimit _ (by omega)]
  omega

/-- The total length is not changed by forwarding. -/
theorem extract_forwarded :
    header.forwarded.bytes.extract 2 4 = header.bytes.extract 2 4 := by
  simp only [forwarded, setChecksum, setHopLimit, bytes_setByte,
    List.extract_eq_take_drop, List.drop_set]
  rw [if_neg (by decide), if_neg (by decide), if_neg (by decide),
    List.take_set, List.take_set, List.take_set]
  have short :
      (List.take (4 - 2) (List.drop 2 header.bytes)).length ≤ 2 := by
    rw [List.length_take]
    omega
  rw [List.set_eq_of_length_le (by simp),
    List.set_eq_of_length_le (by simp),
    List.set_eq_of_length_le (by omega)]

end Ipv4Header

/-- The decremented rule adds `0x0100` with an end-around carry. -/
theorem checksumMatches_decremented (ingress egress : Nat) :
    checksumMatches (some ingress) (some egress) true = true ↔
      endAroundCarry 65536 (ingress + 256) = egress := by
  have low := Nat.and_two_pow_sub_one_eq_mod (ingress + 256) 16
  unfold checksumMatches endAroundCarry
  simp only [Bool.not_true, Bool.false_eq_true, if_false, decide_eq_true_eq,
    Nat.shiftRight_eq_div_pow]
  rw [show (0xFFFF : Nat) = 2 ^ 16 - 1 by decide, low]

/--
The checksum rule for decremented copies accepts a header that was forwarded
with a recomputed checksum, except where the checksum was `0xFEFF`; and such a
copy is described by the same key, one hop lower.
-/
theorem forwarded_copy_matches_iff
    (header : Ipv4Header)
    (valid : header.ChecksumValid)
    (alive : 2 ≤ header.hopLimit) :
    (checksumMatches (some header.checksum) (some header.forwarded.checksum)
        true = true ↔
      header.checksum ≠ 0xFEFF) ∧
    header.forwarded.ChecksumValid ∧
    ∀ payload described,
      normalizeIpv4 (header.bytes ++ payload) = some described →
      ∃ copy,
        normalizeIpv4 (header.forwarded.bytes ++ payload) = some copy ∧
        copy.datagram = described.datagram ∧
        copy.hopLimit + 1 = described.hopLimit ∧
        (checksumMatches described.ipChecksum copy.ipChecksum true = true ↔
          header.checksum ≠ 0xFEFF) := by
  have matchesIff :
      checksumMatches (some header.checksum)
          (some header.forwarded.checksum) true = true ↔
        header.checksum ≠ 0xFEFF :=
    (checksumMatches_decremented _ _).trans
      (header.updated_iff valid (by omega))
  refine ⟨matchesIff, Ipv4Header.checksumValid_setChecksum _, ?_⟩
  intro payload described describes
  have lowered := header.hopLimit_forwarded (by omega)
  have sameLength := header.length_forwarded
  have original := header.normalizeIpv4_append payload
  have copy := header.forwarded.normalizeIpv4_append payload
  dsimp only at original copy
  rw [original] at describes
  split at describes
  case isTrue => cases describes
  case isFalse accepted =>
    obtain rfl := Option.some.inj describes
    rw [List.length_append] at accepted
    rw [header.extract_forwarded, sameLength, List.length_append, sameLength,
      if_neg (by omega), header.erased_forwarded] at copy
    exact ⟨_, copy, rfl, lowered, matchesIff⟩

/-- A valid header, for worked examples. -/
def ordinaryHeader : Ipv4Header where
  bytes := [69, 0, 0, 40, 64, 0, 0, 0, 64, 6, 0x26, 0xCE, 10, 0, 0, 1, 10, 0,
    0, 2]
  version := by decide
  headerLength := by decide
  long := by decide

/-- A valid header whose checksum is `0xFEFF`. -/
def unluckyHeader : Ipv4Header where
  bytes := [69, 0, 0, 40, 103, 206, 0, 0, 64, 6, 254, 255, 10, 0, 0, 1, 10, 0,
    0, 2]
  version := by decide
  headerLength := by decide
  long := by decide

theorem ordinaryHeader_forwarded :
    ordinaryHeader.ChecksumValid ∧ 2 ≤ ordinaryHeader.hopLimit ∧
      checksumMatches (some ordinaryHeader.checksum)
        (some ordinaryHeader.forwarded.checksum) true = true := by
  have valid : ordinaryHeader.ChecksumValid := by
    unfold Ipv4Header.ChecksumValid
    rw [foldCarries_of_pos (by decide) (by decide)]
    decide
  refine ⟨valid, by decide, ?_⟩
  exact (forwarded_copy_matches_iff ordinaryHeader valid (by decide)).1.mpr
    (by decide)

/-- A genuine forwarded copy that the rule does not recognise. -/
theorem unluckyHeader_not_recognised :
    unluckyHeader.ChecksumValid ∧ 2 ≤ unluckyHeader.hopLimit ∧
      unluckyHeader.forwarded.ChecksumValid ∧
      checksumMatches (some unluckyHeader.checksum)
        (some unluckyHeader.forwarded.checksum) true = false := by
  have valid : unluckyHeader.ChecksumValid := by
    unfold Ipv4Header.ChecksumValid
    rw [foldCarries_of_pos (by decide) (by decide)]
    decide
  have recomputed : unluckyHeader.forwarded.checksum = 0 := by
    rw [Ipv4Header.checksum_forwarded _ (by decide),
      foldCarries_of_pos (by decide) (by decide)]
    decide
  refine ⟨valid, by decide, Ipv4Header.checksumValid_setChecksum _, ?_⟩
  rw [recomputed]
  decide

end PacketAudit
