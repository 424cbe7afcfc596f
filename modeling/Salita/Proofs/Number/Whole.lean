import Mathlib.Algebra.Order.Ring.Int
import Mathlib.Algebra.Ring.Int.Parity
import Mathlib.Data.Rat.Floor
import Mathlib.Tactic.Linarith
import Salita.Proofs.Number.Reading

/-!
# Exact whole numbers

A power is found by squaring, and a quotient or remainder by correcting the one rounded toward zero.
A step on the way may be out of range. What is given is still the exact integer, if that is in range.
-/

namespace Salita.Whole

def InRange (n : Int) : Prop := -2 ^ 63 ≤ n ∧ n < 2 ^ 63

instance (n : Int) : Decidable (InRange n) := inferInstanceAs (Decidable (_ ∧ _))

theorem inRange_toInt (value : Int64) : InRange value.toInt := ⟨value.le_toInt, value.toInt_lt⟩

theorem toInt_ofInt {n : Int} (inRange : InRange n) : (Int64.ofInt n).toInt = n :=
  Int64.toInt_ofInt_of_le inRange.1 inRange.2

theorem ofInt?_eq_none_iff {n : Int} : ofInt? n = none ↔ ¬ InRange n := by
  unfold ofInt? limit InRange
  split <;> simp_all

theorem none_eq_ofInt? {n : Int} (outside : ¬ InRange n) : none = ofInt? n :=
  (ofInt?_eq_none_iff.2 outside).symm

theorem exists_ofInt? {n : Int} (inRange : InRange n) :
    ∃ value : Int64, value.toInt = n ∧ ofInt? n = some value := by
  cases found : ofInt? n with
  | none => exact absurd inRange (ofInt?_eq_none_iff.1 found)
  | some value => exact ⟨value, ofInt?_eq_some_iff.1 found, rfl⟩

theorem ofInt?_toInt (value : Int64) : ofInt? value.toInt = some value :=
  ofInt?_eq_some_iff.2 rfl

theorem not_inRange_mul {n k : Int} (outside : ¬ InRange n) (positive : 0 < k) :
    ¬ InRange (n * k) := by
  unfold InRange at *
  rcases lt_or_ge n 0 with negative | natural
  · have : n * k ≤ n := by nlinarith
    omega
  · have : n ≤ n * k := by nlinarith
    omega

theorem pow_halved (base : Int) (exponent : Nat) :
    base ^ exponent = base ^ (exponent % 2) * (base * base) ^ (exponent / 2) := by
  rw [← pow_two, ← pow_mul, ← pow_add, Nat.mod_add_div]

theorem sq_pow_pos {base : Int} (nonzero : base ≠ 0) (exponent : Nat) :
    0 < (base * base) ^ exponent := by
  have := mul_self_pos.2 nonzero
  positivity

/-- No square is `2 ^ 63`, so that multiples of a square out of range miss the least number too. -/
theorem not_inRange_mul_sq_pow {factor base : Int} (nonzero : factor ≠ 0)
    (outside : ¬ InRange (base * base)) {exponent : Nat} (positive : exponent ≠ 0) :
    ¬ InRange (factor * (base * base) ^ exponent) := by
  have large : 2 ^ 63 < base.natAbs * base.natAbs := by
    unfold InRange at outside
    rw [← Int.natAbs_mul_self] at outside
    by_contra small
    have root : base.natAbs < 3037000500 := by nlinarith
    have : base.natAbs * base.natAbs ≤ 3037000499 * 3037000499 :=
      Nat.mul_le_mul (by omega) (by omega)
    omega
  have size : 2 ^ 63 < (factor * (base * base) ^ exponent).natAbs :=
    calc 2 ^ 63 < base.natAbs * base.natAbs := large
      _ ≤ (base.natAbs * base.natAbs) ^ exponent := Nat.le_self_pow positive _
      _ ≤ factor.natAbs * (base.natAbs * base.natAbs) ^ exponent :=
        Nat.le_mul_of_pos_left _ (Int.natAbs_pos.2 nonzero)
      _ = (factor * (base * base) ^ exponent).natAbs := by
        rw [Int.natAbs_mul, Int.natAbs_pow, Int.natAbs_mul]
  unfold InRange
  omega

theorem mul_odd_eq (factor base : Int64) (exponent : Nat) :
    (if exponent % 2 = 1 then mul? factor base else some factor) =
      ofInt? (factor.toInt * base.toInt ^ (exponent % 2)) := by
  split
  case isTrue odd => rw [odd, pow_one, mul?]
  case isFalse even =>
    have zero : exponent % 2 = 0 := by omega
    rw [zero, pow_zero, mul_one, ofInt?_toInt]

theorem ne_zero_of_mul_pow {factor : Int64} {base : Int} {exponent : Nat}
    (outside : ¬ InRange (factor.toInt * base ^ exponent)) : base ≠ 0 := by
  rintro rfl
  cases exponent with
  | zero =>
      rw [pow_zero, mul_one] at outside
      exact outside (inRange_toInt factor)
  | succ exponent =>
      rw [zero_pow exponent.succ_ne_zero, mul_zero] at outside
      exact outside (by decide)

theorem mulPow?_of_two_le (factor base : Int64) {exponent : Nat} (several : 2 ≤ exponent) :
    mulPow? factor base exponent =
      (ofInt? (factor.toInt * base.toInt ^ (exponent % 2))).bind fun factor =>
        (ofInt? (base.toInt * base.toInt)).bind fun square =>
          mulPow? factor square (exponent / 2) := by
  rw [mulPow?, if_neg (by omega), if_neg (by omega), mul_odd_eq]
  rfl

/-- No step of the squaring fails where the power is in range. -/
theorem mulPow?_eq {factor base : Int64} (regular : base.toInt ≠ 0 → factor.toInt ≠ 0)
    (exponent : Nat) :
    mulPow? factor base exponent = ofInt? (factor.toInt * base.toInt ^ exponent) := by
  induction exponent using Nat.strongRecOn generalizing factor base with
  | ind exponent ih =>
      obtain rfl | rfl | several : exponent = 0 ∨ exponent = 1 ∨ 2 ≤ exponent := by omega
      · rw [mulPow?, if_pos rfl, pow_zero, mul_one, ofInt?_toInt]
      · rw [mulPow?, if_neg one_ne_zero, if_pos rfl, pow_one, mul?]
      have nonzero (other : base.toInt ≠ 0) : factor.toInt * base.toInt ^ (exponent % 2) ≠ 0 :=
        mul_ne_zero (regular other) (pow_ne_zero _ other)
      rw [mulPow?_of_two_le factor base several, pow_halved base.toInt exponent, ← mul_assoc]
      cases multiplied : ofInt? (factor.toInt * base.toInt ^ (exponent % 2)) with
      | none =>
          -- The squares that follow are positive and keep the product out of range.
          have outside := ofInt?_eq_none_iff.1 multiplied
          have squares := sq_pow_pos (ne_zero_of_mul_pow outside) (exponent / 2)
          exact none_eq_ofInt? (not_inRange_mul outside squares)
      | some next =>
          rw [← ofInt?_eq_some_iff.1 multiplied] at nonzero ⊢
          cases squared : ofInt? (base.toInt * base.toInt) with
          | none =>
              have outside := ofInt?_eq_none_iff.1 squared
              have other : base.toInt ≠ 0 := by
                intro zero
                rw [zero] at outside
                exact outside (by decide)
              exact none_eq_ofInt? (not_inRange_mul_sq_pow (nonzero other) outside (by omega))
          | some square =>
              have product := ofInt?_eq_some_iff.1 squared
              rw [← product, Option.bind_some, Option.bind_some]
              refine ih (exponent / 2) (by omega) fun other => ?_
              rw [product] at other
              exact nonzero (left_ne_zero_of_mul other)

theorem not_inRange_pow {base : Int} (large : 1 < base.natAbs) {exponent : Nat}
    (long : 64 ≤ exponent) : ¬ InRange (base ^ exponent) := by
  have size : 2 ^ 64 ≤ (base ^ exponent).natAbs :=
    calc 2 ^ 64 ≤ 2 ^ exponent := Nat.pow_le_pow_right (by omega) long
      _ ≤ base.natAbs ^ exponent := Nat.pow_le_pow_left large exponent
      _ = (base ^ exponent).natAbs := (Int.natAbs_pow base exponent).symm
  unfold InRange
  omega

theorem mulPow?_one (base : Int64) (exponent : Nat) :
    mulPow? 1 base exponent = ofInt? (base.toInt ^ exponent) := by
  rw [mulPow?_eq fun _ => by decide]
  exact congrArg ofInt? (one_mul _)

theorem pow?_eq (base : Int64) (exponent : Nat) :
    pow? base exponent = ofInt? (base.toInt ^ exponent) := by
  unfold pow? exponentLimit
  split
  case isTrue => exact mulPow?_one base exponent
  case isFalse long =>
    split
    case isTrue unit =>
      have same : base.toInt ^ exponent = base.toInt := by
        rcases unit with zero | one
        · rw [zero, zero_pow (by omega)]
        · rw [one, one_pow]
      rw [same, ofInt?_toInt]
    case isFalse =>
      split
      case isTrue negative =>
        simp only [negative, neg_one_pow_eq_ite, Nat.even_iff]
        split <;> rfl
      case isFalse =>
        exact none_eq_ofInt? (not_inRange_pow (by omega) (by omega))

theorem fdiv_eq_floor (a b : Int) : a.fdiv b = ⌊(a : ℚ) / b⌋ := by
  have ofNat (a : Int) (n : Nat) : a.fdiv n = ⌊(a : ℚ) / n⌋ := by
    rw [Int.fdiv_eq_ediv_of_nonneg a (Int.natCast_nonneg n), Rat.floor_intCast_div_natCast]
  obtain ⟨n, rfl | rfl⟩ := b.eq_nat_or_neg
  · rw [ofNat, Int.cast_natCast]
  · rw [← Int.neg_fdiv_neg, neg_neg, ofNat]
    push_cast
    rw [div_neg, neg_div]

theorem fmod_between (a : Int) {b : Int} (nonzero : b ≠ 0) :
    (0 ≤ a.fmod b ∧ a.fmod b < b) ∨ (b < a.fmod b ∧ a.fmod b ≤ 0) := by
  rcases Int.lt_or_gt_of_ne nonzero with negative | positive
  · have low := Int.fmod_nonneg_of_pos (-a) (Int.neg_pos.2 negative)
    have high := Int.fmod_lt_of_pos (-a) (Int.neg_pos.2 negative)
    rw [Int.neg_fmod_neg] at low high
    omega
  · exact .inl ⟨Int.fmod_nonneg_of_pos a positive, Int.fmod_lt_of_pos a positive⟩

theorem fmod_sign (a : Int) {b : Int} (nonzero : b ≠ 0) :
    (a.fmod b = 0 ∨ (a.fmod b).sign = b.sign) ∧ |a.fmod b| < |b| := by
  rcases fmod_between a nonzero with ⟨low, high⟩ | ⟨low, high⟩
  · refine ⟨?_, by rwa [abs_of_nonneg low, abs_of_pos (by omega)]⟩
    rcases low.eq_or_lt with zero | positive
    · exact .inl zero.symm
    · exact .inr (by rw [Int.sign_eq_one_of_pos positive, Int.sign_eq_one_of_pos (by omega)])
  · refine ⟨?_, by rw [abs_of_nonpos high, abs_of_neg (by omega)]; omega⟩
    rcases high.eq_or_lt with zero | negative
    · exact .inl zero
    · right
      rw [Int.sign_eq_neg_one_of_neg negative, Int.sign_eq_neg_one_of_neg (by omega)]

/-- Only the least number divided by -1 gives a quotient out of range. -/
theorem inRange_fdiv_iff {a b : Int} (inRange : InRange a) (nonzero : b ≠ 0) :
    InRange (a.fdiv b) ↔ ¬ (a = -2 ^ 63 ∧ b = -1) := by
  have parts := Int.mul_fdiv_add_fmod a b
  have between := fmod_between a nonzero
  obtain ⟨low, high⟩ := inRange
  generalize a.fdiv b = q at parts
  generalize a.fmod b = r at parts between
  unfold InRange
  by_cases unit : b = -1
  · subst unit
    omega
  · simp only [unit, and_false, not_false_eq_true, iff_true]
    rcases between with positive | negative
    · constructor <;> nlinarith
    · have below : b ≤ -2 := by omega
      constructor <;> nlinarith

def Opposed (a b : Int) : Prop := a.tmod b ≠ 0 ∧ ¬ (a.tmod b < 0 ↔ b < 0)

instance (a b : Int) : Decidable (Opposed a b) := inferInstanceAs (Decidable (_ ∧ _))

theorem tmod_nonpos {a : Int} (negative : a ≤ 0) (b : Int) : a.tmod b ≤ 0 := by
  have opposite := Int.tmod_nonneg b (Int.neg_nonneg.2 negative)
  rw [Int.neg_tmod] at opposite
  omega

theorem fdiv_eq_tdiv_sub (a : Int) {b : Int} (nonzero : b ≠ 0) :
    a.fdiv b = a.tdiv b - if Opposed a b then 1 else 0 := by
  have natural (sign : 0 ≤ a) := Int.tmod_nonneg b sign
  have negative (sign : a ≤ 0) := tmod_nonpos sign b
  rw [Int.fdiv_eq_tdiv]
  simp only [Int.dvd_iff_tmod_eq_zero, Opposed]
  rcases Int.lt_or_gt_of_ne nonzero with below | above
  · rw [Int.sign_eq_neg_one_of_neg below]
    split_ifs <;> omega
  · rw [Int.sign_eq_one_of_pos above]
    split_ifs <;> omega

theorem fmod_eq_tmod_add (a : Int) {b : Int} (nonzero : b ≠ 0) :
    a.fmod b = a.tmod b + if Opposed a b then b else 0 := by
  rw [Int.fmod_def, Int.tmod_def, fdiv_eq_tdiv_sub a nonzero]
  split <;> ring

theorem inRange_tdiv_iff {a b : Int} (inRange : InRange a) (nonzero : b ≠ 0) :
    InRange (a.tdiv b) ↔ ¬ (a = -2 ^ 63 ∧ b = -1) := by
  have size : (a.tdiv b).natAbs = a.natAbs / b.natAbs := Int.natAbs_tdiv a b
  obtain ⟨low, high⟩ := inRange
  unfold InRange
  by_cases unit : b = -1
  · subst unit
    rw [Int.tdiv_neg, Int.tdiv_one]
    omega
  · by_cases one : b = 1
    · subst one
      rw [Int.tdiv_one]
      omega
    · have half : a.natAbs / b.natAbs ≤ 2 ^ 63 / 2 :=
        Nat.div_le_div (by omega) (by omega) (by omega)
      omega

theorem inRange_tmod {a b : Int} (inRange : InRange b) (nonzero : b ≠ 0) : InRange (a.tmod b) := by
  have size : (a.tmod b).natAbs < b.natAbs := by
    rw [Int.natAbs_tmod]
    exact Nat.mod_lt _ (by omega)
  unfold InRange at *
  omega

section
variable {a b : Int64}

theorem isOpposed_iff {remainder : Int64} (same : remainder.toInt = a.toInt.tmod b.toInt) :
    isOpposed remainder b = true ↔ Opposed a.toInt b.toInt := by
  simp [isOpposed, Opposed, same]

theorem rem?_eq (nonzero : b.toInt ≠ 0) {quotient : Int64} (divided : div? a b = some quotient) :
    ∃ remainder : Int64, remainder.toInt = a.toInt.tmod b.toInt ∧ rem? a b = some remainder := by
  have inRange : InRange (a.toInt.tmod b.toInt) := inRange_tmod (inRange_toInt b) nonzero
  obtain ⟨remainder, same, found⟩ := exists_ofInt? inRange
  refine ⟨remainder, same, ?_⟩
  rw [rem?, divided, ← found]
  rfl

theorem floorDiv?_eq (nonzero : b.toInt ≠ 0) :
    floorDiv? a b = ofInt? (a.toInt.fdiv b.toInt) := by
  have divided : div? a b = ofInt? (a.toInt.tdiv b.toInt) := if_neg nonzero
  rw [floorDiv?]
  cases found : div? a b with
  | none =>
      have outside := ofInt?_eq_none_iff.1 (divided.symm.trans found)
      rw [inRange_tdiv_iff (inRange_toInt a) nonzero,
        ← inRange_fdiv_iff (inRange_toInt a) nonzero] at outside
      exact none_eq_ofInt? outside
  | some quotient =>
      have rounded := ofInt?_eq_some_iff.1 (divided.symm.trans found)
      obtain ⟨remainder, same, left⟩ := rem?_eq nonzero found
      rw [left]
      simp only [Option.bind_eq_bind, Option.bind_some, isOpposed_iff same]
      rw [fdiv_eq_tdiv_sub _ nonzero, ← rounded]
      split
      · rfl
      · rw [Int.sub_zero, ofInt?_toInt]
        rfl

theorem floorMod?_eq (nonzero : b.toInt ≠ 0) :
    floorMod? a b = ofInt? (a.toInt.fmod b.toInt) := by
  unfold floorMod?
  split
  case isTrue unit =>
    have between := fmod_between a.toInt nonzero
    have zero : a.toInt.fmod b.toInt = 0 := by omega
    rw [zero]
    rfl
  case isFalse other =>
    have inside : InRange (a.toInt.tdiv b.toInt) :=
      (inRange_tdiv_iff (inRange_toInt a) nonzero).2 fun least => other least.2
    obtain ⟨quotient, -, found⟩ := exists_ofInt? inside
    obtain ⟨remainder, same, left⟩ := rem?_eq nonzero ((if_neg nonzero).trans found)
    rw [left]
    simp only [Option.bind_eq_bind, Option.bind_some, isOpposed_iff same]
    rw [fmod_eq_tmod_add _ nonzero, ← same]
    split
    · rfl
    · rw [Int.add_zero, ofInt?_toInt]
      rfl

end

end Salita.Whole
