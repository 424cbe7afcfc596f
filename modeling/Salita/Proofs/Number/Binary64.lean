import Mathlib
import Salita.Value.Basic

namespace Salita

namespace Binary64

open Float.Model.UnpackedFloat

theorem toBits_ofBits {b : UInt64} (finite : b.toNat % signBit < infiniteMagnitude) :
    (Float.ofBits b).toBits = b := by
  have exponent : (@unpackExponent .binary64 b.toBitVec).toNat = b.toNat / 2 ^ 52 % 2 ^ 11 := by
    simp [unpackExponent, Nat.shiftRight_eq_div_pow]
  have number : @isNaNBits .binary64 b.toBitVec = false := by
    refine decide_eq_false fun ⟨ones, _⟩ => ?_
    have full : (@unpackExponent .binary64 b.toBitVec).toNat = 2047 :=
      (congrArg BitVec.toNat ones).trans (by decide)
    simp only [signBit, infiniteMagnitude, unit] at finite
    omega
  have packed := @pack_unpack .binary64 b.toBitVec (by decide)
  rw [if_neg (Bool.eq_false_iff.1 number)] at packed
  exact congrArg UInt64.ofBitVec packed

section
variable {magnitude : Nat} (finite : magnitude < infiniteMagnitude) (negative : Bool)
include finite

theorem toNat_toBits_ofMagnitude :
    (ofMagnitude negative magnitude).toBits.toNat =
      if negative then signBit + magnitude else magnitude := by
  simp only [infiniteMagnitude, unit] at finite
  have bits : (UInt64.ofNat (if negative then signBit + magnitude else magnitude)).toNat =
      if negative then signBit + magnitude else magnitude := by
    apply Nat.mod_eq_of_lt
    simp only [signBit]
    split <;> omega
  rw [ofMagnitude, toBits_ofBits, bits]
  rw [bits]
  simp only [signBit, infiniteMagnitude, unit]
  split <;> omega

theorem magnitude_ofMagnitude :
    Binary64.magnitude (ofMagnitude negative magnitude) = magnitude := by
  rw [Binary64.magnitude, toNat_toBits_ofMagnitude finite]
  simp only [signBit, infiniteMagnitude, unit] at *
  split <;> omega

theorem isNegative_ofMagnitude : isNegative (ofMagnitude negative magnitude) = negative := by
  rw [isNegative, toNat_toBits_ofMagnitude finite]
  simp only [signBit, infiniteMagnitude, unit] at *
  cases negative with
  | false => exact decide_eq_false (by simp only [Bool.false_eq_true, ↓reduceIte]; omega)
  | true => exact decide_eq_true (by simp)

theorem isNaN_ofMagnitude : isNaN (ofMagnitude negative magnitude) = false := by
  rw [isNaN, magnitude_ofMagnitude finite]
  exact decide_eq_false (Nat.lt_asymm finite)

theorem rank_ofMagnitude :
    rank (ofMagnitude negative magnitude) = if negative then -(magnitude : Int) else magnitude := by
  rw [rank, isNegative_ofMagnitude finite, magnitude_ofMagnitude finite]

end

end Binary64

namespace Whole

theorem divHalfEven_mono (d : Nat) {n m : Nat} (le : n ≤ m) :
    divHalfEven n d ≤ divHalfEven m d := by
  have quotients : n / d ≤ m / d := Nat.div_le_div_right le
  simp only [divHalfEven]
  rcases Nat.lt_or_eq_of_le quotients with less | same
  · split <;> split <;> omega
  · have remainders : n % d ≤ m % d := by
      have left := Nat.div_add_mod n d
      have right := Nat.div_add_mod m d
      rw [same] at left
      omega
    rw [same]
    split <;> split <;> omega

theorem divHalfEven_mul (q : Nat) {d : Nat} (positive : 0 < d) : divHalfEven (q * d) d = q := by
  unfold divHalfEven
  rw [Nat.mul_div_cancel q positive, Nat.mul_mod_left, if_neg (by omega)]

end Whole

namespace Binary64

def mantissaOfNat (n : Nat) : Nat :=
  if n.log2 ≤ 52 then n * Nat.pow 2 (52 - n.log2)
  else Whole.divHalfEven n (Nat.pow 2 (n.log2 - 52))

theorem magnitudeOfNat_eq {n : Nat} (nonzero : n ≠ 0) :
    magnitudeOfNat n = (n.log2 + 1022) * unit + mantissaOfNat n := by
  rw [magnitudeOfNat, mantissaOfNat, if_neg nonzero]
  split <;> rfl

theorem mantissaOfNat_between {n : Nat} (nonzero : n ≠ 0) :
    unit ≤ mantissaOfNat n ∧ mantissaOfNat n ≤ 2 * unit := by
  obtain ⟨low, high⟩ := (Nat.log2_eq_iff nonzero).1 rfl
  simp only [mantissaOfNat, Nat.pow_eq]
  split
  case isTrue small =>
    have scaled : 2 ^ n.log2 * 2 ^ (52 - n.log2) = unit := by
      rw [← Nat.pow_add, Nat.add_sub_cancel' small]
      rfl
    have left := Nat.mul_le_mul_right (2 ^ (52 - n.log2)) low
    have right := Nat.mul_le_mul_right (2 ^ (52 - n.log2)) high.le
    rw [Nat.pow_succ, Nat.mul_right_comm] at right
    omega
  case isFalse large =>
    have positive : 0 < 2 ^ (n.log2 - 52) := Nat.two_pow_pos _
    have scaled : unit * 2 ^ (n.log2 - 52) = 2 ^ n.log2 := by
      rw [show unit = 2 ^ 52 from rfl, ← Nat.pow_add, Nat.add_sub_cancel' (by omega)]
    constructor
    · rw [← Whole.divHalfEven_mul unit positive, scaled]
      exact Whole.divHalfEven_mono _ low
    · rw [← Whole.divHalfEven_mul (2 * unit) positive, Nat.mul_assoc, scaled, Nat.mul_comm 2]
      exact Whole.divHalfEven_mono _ high.le

theorem mantissaOfNat_mono {n m : Nat} (same : n.log2 = m.log2) (le : n ≤ m) :
    mantissaOfNat n ≤ mantissaOfNat m := by
  unfold mantissaOfNat
  rw [same]
  split
  · exact Nat.mul_le_mul_right _ le
  · exact Whole.divHalfEven_mono _ le

theorem magnitudeOfNat_mono {n m : Nat} (le : n ≤ m) : magnitudeOfNat n ≤ magnitudeOfNat m := by
  by_cases zero : n = 0
  · subst zero
    exact Nat.zero_le _
  · have nonzero : m ≠ 0 := by omega
    rw [magnitudeOfNat_eq zero, magnitudeOfNat_eq nonzero]
    have logs : n.log2 ≤ m.log2 := by
      rw [Nat.log2_eq_log_two, Nat.log2_eq_log_two]
      exact Nat.log_mono_right le
    rcases Nat.lt_or_eq_of_le logs with less | same
    · -- A mantissa may be rounded up to the next power of two, but not beyond it.
      have left := (mantissaOfNat_between zero).2
      have right := (mantissaOfNat_between nonzero).1
      have steps := Nat.mul_le_mul_right unit (Nat.succ_le_of_lt less)
      rw [Nat.succ_mul] at steps
      rw [Nat.add_mul, Nat.add_mul]
      omega
    · rw [same]
      exact Nat.add_le_add_left (mantissaOfNat_mono same le) _

theorem magnitudeOfNat_lt {n : Nat} (bound : n ≤ 2 ^ 63) : magnitudeOfNat n < infiniteMagnitude :=
  calc magnitudeOfNat n
    _ ≤ magnitudeOfNat (2 ^ 63) := magnitudeOfNat_mono bound
    _ < infiniteMagnitude := by decide +kernel

end Binary64

namespace Value

theorem magnitudeOfNat_toInt_lt (n : Int64) :
    Binary64.magnitudeOfNat n.toInt.natAbs < Binary64.infiniteMagnitude := by
  have low := n.le_toInt
  have high := n.toInt_lt
  exact Binary64.magnitudeOfNat_lt (by omega)

theorem isNaN_widen (n : Int64) : Binary64.isNaN (widen n) = false :=
  Binary64.isNaN_ofMagnitude (magnitudeOfNat_toInt_lt n) _

theorem rank_widen (n : Int64) : Binary64.rank (widen n) =
    if n.toInt < 0 then -(Binary64.magnitudeOfNat n.toInt.natAbs : Int)
    else Binary64.magnitudeOfNat n.toInt.natAbs := by
  simp only [widen, Binary64.ofInt, Binary64.rank_ofMagnitude (magnitudeOfNat_toInt_lt n),
    decide_eq_true_eq]

theorem rank_widen_mono {m n : Int64} (le : m.toInt ≤ n.toInt) :
    Binary64.rank (widen m) ≤ Binary64.rank (widen n) := by
  rw [rank_widen, rank_widen]
  split <;> split
  case isTrue.isTrue =>
    have := Binary64.magnitudeOfNat_mono (show n.toInt.natAbs ≤ m.toInt.natAbs by omega)
    omega
  case isFalse.isFalse =>
    have := Binary64.magnitudeOfNat_mono (show m.toInt.natAbs ≤ n.toInt.natAbs by omega)
    omega
  all_goals omega

end Value

end Salita
