import Mathlib

namespace PacketAudit.Library

/-!
# One's-complement sums

Sums in one's-complement arithmetic to an arbitrary base: the carries out of
the low digit are added back into it until none is left.  The value is a
residue to the base less one, with the base less one standing for zero.
`recomputed_iff` compares updating a checksum with computing it anew.
-/

/-- Add the carries of a total back into its low digit. -/
def endAroundCarry (base total : Nat) : Nat :=
  total % base + total / base

theorem endAroundCarry_lt
    {base total : Nat}
    (digits : 2 ≤ base)
    (carries : base ≤ total) :
    endAroundCarry base total < total := by
  have split := Nat.mod_add_div total base
  have positive : 0 < total / base := Nat.div_pos carries (by omega)
  have grows : 2 * (total / base) ≤ base * (total / base) :=
    Nat.mul_le_mul_right _ digits
  unfold endAroundCarry
  omega

/-- Add carries back until the total is a single digit. -/
def foldCarries (base total : Nat) : Nat :=
  if 2 ≤ base ∧ base ≤ total then
    foldCarries base (endAroundCarry base total)
  else
    total
termination_by total
decreasing_by exact endAroundCarry_lt (by omega) (by omega)

/-- A carry keeps the residue of a total to the base less one. -/
theorem endAroundCarry_modEq
    {base : Nat}
    (digits : 2 ≤ base)
    (total : Nat) :
    endAroundCarry base total ≡ total [MOD base - 1] := by
  have shape : total = total % base + base * (total / base) :=
    (Nat.mod_add_div total base).symm
  have isOne : base ≡ 1 [MOD base - 1] :=
    ((Nat.modEq_iff_dvd' (by omega)).mpr (dvd_refl _)).symm
  conv_rhs => rw [shape]
  unfold endAroundCarry
  apply Nat.ModEq.add_left
  simpa using (isOne.mul_right (total / base)).symm

/-- The folded total is the residue from one to the base less one. -/
theorem foldCarries_of_pos
    {base total : Nat}
    (digits : 2 ≤ base)
    (positive : 0 < total) :
    foldCarries base total = (total - 1) % (base - 1) + 1 := by
  induction total using Nat.strongRecOn with
  | ind total inductionHypothesis =>
      unfold foldCarries
      split
      case isTrue carries =>
        have smaller := endAroundCarry_lt digits carries.2
        have stillPositive : 0 < endAroundCarry base total := by
          have := Nat.div_pos carries.2 (by omega)
          unfold endAroundCarry
          omega
        rw [inductionHypothesis _ smaller stillPositive]
        congr 1
        have same := endAroundCarry_modEq digits total
        apply Nat.ModEq.add_right_cancel' 1
        rwa [Nat.sub_add_cancel stillPositive, Nat.sub_add_cancel positive]
      case isFalse single =>
        rw [Nat.mod_eq_of_lt (by omega)]
        omega

@[simp] theorem foldCarries_zero (base : Nat) : foldCarries base 0 = 0 := by
  unfold foldCarries
  rw [if_neg (by omega)]

theorem foldCarries_bounds
    {base total : Nat}
    (digits : 2 ≤ base)
    (positive : 0 < total) :
    0 < foldCarries base total ∧ foldCarries base total ≤ base - 1 := by
  have bound := Nat.mod_lt (total - 1) (show 0 < base - 1 by omega)
  rw [foldCarries_of_pos digits positive]
  omega

theorem foldCarries_modEq
    {base total : Nat}
    (digits : 2 ≤ base)
    (positive : 0 < total) :
    foldCarries base total ≡ total [MOD base - 1] := by
  rw [foldCarries_of_pos digits positive]
  have residue := (Nat.mod_modEq (total - 1) (base - 1)).add_right 1
  rwa [Nat.sub_add_cancel positive] at residue

/-- The complement of a folded sum. -/
def onesComplementChecksum (base : Nat) (words : List Nat) : Nat :=
  base - 1 - foldCarries base words.sum

/--
Raising a verified checksum by what the summed words lose gives the checksum
computed anew, except where it gives the other representation of zero.
-/
theorem recomputed_iff
    {base sum loss checksum : Nat}
    (digits : 2 ≤ base)
    (isDigit : checksum < base)
    (verified : foldCarries base (sum + checksum) = base - 1)
    (remains : loss < sum)
    (small : loss < base - 1) :
    endAroundCarry base (checksum + loss) =
        base - 1 - foldCarries base (sum - loss) ↔
      checksum + loss ≠ base - 1 := by
  have left := foldCarries_bounds digits (show 0 < sum - loss by omega)
  have zero : sum + checksum ≡ 0 [MOD base - 1] := by
    have folded :=
      foldCarries_modEq digits (show 0 < sum + checksum by omega)
    rw [verified] at folded
    exact folded.symm.trans (Nat.modEq_zero_iff_dvd.mpr (dvd_refl _))
  -- Both sides are the residue of the negated sum.
  have same :
      endAroundCarry base (checksum + loss) ≡
        base - 1 - foldCarries base (sum - loss) [MOD base - 1] := by
    apply Nat.ModEq.add_right_cancel' (foldCarries base (sum - loss))
    rw [Nat.sub_add_cancel left.2]
    have folded :=
      foldCarries_modEq digits (show 0 < sum - loss by omega)
    have total :=
      (endAroundCarry_modEq digits (checksum + loss)).add folded
    rw [show checksum + loss + (sum - loss) = sum + checksum by omega]
      at total
    exact (total.trans zero).trans
      (Nat.modEq_zero_iff_dvd.mpr (dvd_refl _)).symm
  have carried :
      endAroundCarry base (checksum + loss) =
        if checksum + loss < base then checksum + loss
        else checksum + loss - (base - 1) := by
    unfold endAroundCarry
    split
    case isTrue single =>
      rw [Nat.mod_eq_of_lt single, Nat.div_eq_of_lt single, Nat.add_zero]
    case isFalse carries =>
      have quotient : (checksum + loss) / base = 1 :=
        Nat.div_eq_of_lt_le (by omega) (by omega)
      have rest := Nat.mod_add_div (checksum + loss) base
      rw [quotient] at rest ⊢
      omega
  constructor
  · intro equal isZero
    rw [carried, if_pos (by omega)] at equal
    omega
  · intro notZero
    apply same.eq_of_lt_of_lt
    · rw [carried]
      split <;> omega
    · omega

end PacketAudit.Library
