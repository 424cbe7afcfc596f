import Salita.Proofs.Number.Whole

namespace Salita.Whole

/-- `m` is the multiple of `step` nearest to `n`: every other one is farther away, or just as far and
`m` is the even multiple. -/
def NearestMultiple (step : Nat) (n m : Int) : Prop :=
  ∃ q : Int, m = q * step ∧ ∀ k : Int, k ≠ q →
    (n - q * step).natAbs < (n - k * step).natAbs ∨
    ((n - q * step).natAbs = (n - k * step).natAbs ∧ Even q)

variable {step : Nat} {n m other : Int}

theorem mul_add_le_of_lt (step : Nat) {q k : Int} (below : k < q) : k * step + step ≤ q * step := by
  nlinarith

theorem mul_of_ne (step : Nat) {q k : Int} (distinct : k ≠ q) :
    k * step + step ≤ q * step ∨ q * step + step ≤ k * step :=
  (Int.lt_or_gt_of_ne distinct).imp (mul_add_le_of_lt step) (mul_add_le_of_lt step)

theorem NearestMultiple.unique (positive : 0 < step) (nearest : NearestMultiple step n m)
    (also : NearestMultiple step n other) : other = m := by
  obtain ⟨q, rfl, first⟩ := nearest
  obtain ⟨k, rfl, second⟩ := also
  by_contra apart
  have distinct : k ≠ q := fun same => apart (by rw [same])
  obtain ⟨far, evenQ, evenK⟩ :
      (n - q * step).natAbs = (n - k * step).natAbs ∧ q % 2 = 0 ∧ k % 2 = 0 := by
    have := first k distinct
    have := second q distinct.symm
    simp only [Int.even_iff] at *
    omega
  -- Both are even, so that a multiple between them is nearer than they are.
  have least (j : Int) (odd : j % 2 = 1) :
      (n - q * step).natAbs ≤ (n - j * step).natAbs := by
    rcases first j (by omega) with nearer | ⟨level, -⟩
    · exact nearer.le
    · exact level.le
  rcases Int.lt_or_gt_of_ne distinct with below | above
  · have middle := least (q - 1) (by omega)
    have beyond : k * step + step ≤ (q - 1) * step := mul_add_le_of_lt step (by omega)
    rw [Int.sub_mul, Int.one_mul] at middle beyond
    omega
  · have middle := least (q + 1) (by omega)
    have beyond : (q + 1) * step + step ≤ k * step := mul_add_le_of_lt step (by omega)
    rw [Int.add_mul, Int.one_mul] at middle beyond
    omega

def roundToMultiple (n : Int) (step : Nat) : Int :=
  if step < n % step * 2 ∨ (n % step * 2 = step ∧ n / step % 2 ≠ 0) then (n / step + 1) * step
  else n / step * step

theorem nearestMultiple_roundToMultiple (positive : 0 < step) (n : Int) :
    NearestMultiple step n (roundToMultiple n step) := by
  have parts := Int.mul_ediv_add_emod n step
  have low := Int.emod_nonneg n (Int.natCast_ne_zero.2 positive.ne')
  have high := Int.emod_lt_of_pos n (Int.natCast_pos.2 positive)
  rw [Int.mul_comm] at parts
  unfold roundToMultiple
  split
  case isTrue up =>
    refine ⟨n / step + 1, rfl, ?_⟩
    intro k distinct
    have apart := mul_of_ne step distinct
    rw [Int.even_iff]
    rw [Int.add_mul, Int.one_mul] at apart ⊢
    omega
  case isFalse down =>
    refine ⟨n / step, rfl, ?_⟩
    intro k distinct
    have apart := mul_of_ne step distinct
    rw [Int.even_iff]
    omega

theorem nearestMultiple_zero (near : 2 * n.natAbs ≤ step) : NearestMultiple step n 0 := by
  refine ⟨0, (Int.zero_mul _).symm, ?_⟩
  intro k distinct
  have apart := mul_of_ne step distinct
  have even : Even (0 : Int) := ⟨0, rfl⟩
  simp only [even, and_true]
  omega

theorem NearestMultiple.not_inRange (wide : 2 ^ 63 < step) (far : step < 2 * n.natAbs)
    (nearest : NearestMultiple step n m) : ¬ InRange m := by
  obtain ⟨q, rfl, first⟩ := nearest
  have nonzero : q ≠ 0 := by
    rintro rfl
    -- One of the two multiples around zero is nearer.
    have above := first 1 (by omega)
    have below := first (-1) (by omega)
    omega
  have apart := mul_of_ne step nonzero
  unfold InRange
  omega

theorem ofInt?_bind_mul? {factor : Int64} (positive : 0 < factor.toInt) (n : Int) :
    (ofInt? n).bind (mul? · factor) = ofInt? (n * factor.toInt) := by
  cases found : ofInt? n with
  | none => exact none_eq_ofInt? (not_inRange_mul (ofInt?_eq_none_iff.1 found) positive)
  | some value => rw [← ofInt?_eq_some_iff.1 found, Option.bind_some, mul?]

theorem inRange_ediv {n : Int} (inRange : InRange n) (positive : 0 < step) :
    InRange (n / step) := by
  have size : (n / step).natAbs ≤ n.natAbs := Int.natAbs_ediv_le_natAbs n step
  unfold InRange at *
  have sign : 0 ≤ n / step ↔ 0 ≤ n := Int.ediv_nonneg_iff_of_pos (Int.natCast_pos.2 positive)
  omega

theorem roundToMultiple?_eq (n : Int64) {size : Int64} (same : size.toInt = step)
    (positive : 0 < step) (small : step ≤ 2 ^ 62) :
    roundToMultiple? n size = ofInt? (roundToMultiple n.toInt step) := by
  have low := Int.emod_nonneg n.toInt (Int.natCast_ne_zero.2 positive.ne')
  have high := Int.emod_lt_of_pos n.toInt (Int.natCast_pos.2 positive)
  have quotient : (Int64.ofInt (n.toInt / step)).toInt = n.toInt / step :=
    toInt_ofInt (inRange_ediv (inRange_toInt n) positive)
  have remainder : (Int64.ofInt (n.toInt % step)).toInt = n.toInt % step :=
    toInt_ofInt (by unfold InRange; omega)
  obtain ⟨twice, doubled, found⟩ :
      ∃ twice : Int64, twice.toInt = n.toInt % step * 2 ∧
        mul? (Int64.ofInt (n.toInt % step)) 2 = some twice := by
    rw [mul?, remainder]
    exact exists_ofInt? (by unfold InRange; omega)
  have run : roundToMultiple? n size =
      (if (step : Int) < twice.toInt ∨ (twice.toInt = step ∧ n.toInt / step % 2 ≠ 0)
        then ofInt? (n.toInt / step + 1) else ofInt? (n.toInt / step)).bind (mul? · size) := by
    have kept : some (Int64.ofInt (n.toInt / step)) = ofInt? (n.toInt / step) := by
      rw [← ofInt?_toInt, quotient]
    have raised : add? (Int64.ofInt (n.toInt / step)) 1 = ofInt? (n.toInt / step + 1) := by
      rw [add?, quotient]
      rfl
    simp only [roundToMultiple?, same, found, quotient, kept, raised, Option.bind_eq_bind,
      Option.bind_some]
  rw [run, doubled, roundToMultiple]
  split
  · rw [ofInt?_bind_mul? (by omega), same]
  · rw [ofInt?_bind_mul? (by omega), same]

theorem not_inRange_ten_pow {places : Nat} (many : 18 < places) : ¬ InRange (10 ^ places) := by
  have size : (10 : Int) ^ 19 ≤ 10 ^ places := pow_le_pow_right₀ (by omega) many
  unfold InRange
  omega

theorem roundPlaces?_of_le {value : Int64} {digits : Int} (negative : digits < 0)
    (few : -18 ≤ digits) :
    roundPlaces? value digits = ofInt? (roundToMultiple value.toInt (10 ^ digits.natAbs)) := by
  have small : 10 ^ digits.natAbs ≤ 10 ^ 18 := Nat.pow_le_pow_right (by omega) (by omega)
  have positive : 0 < 10 ^ digits.natAbs := Nat.pow_pos (by omega)
  obtain ⟨size, same, found⟩ : ∃ size : Int64, size.toInt = (10 ^ digits.natAbs : Nat) ∧
      mulPow? 1 10 digits.natAbs = some size := by
    have power : (10 : Int64).toInt ^ digits.natAbs = (10 ^ digits.natAbs : Nat) := by
      rw [Nat.cast_pow]
      rfl
    rw [mulPow?_one, power]
    exact exists_ofInt? (by unfold InRange; omega)
  rw [roundPlaces?, if_neg (by omega), exponentLimit, if_pos (by omega), found]
  exact roundToMultiple?_eq value same positive (by omega)

theorem roundPlaces?_of_lt {value : Int64} {digits : Int} (many : digits < -18) :
    roundPlaces? value digits = some 0 := by
  have missing : mulPow? 1 10 digits.natAbs = none := by
    rw [mulPow?_one]
    exact ofInt?_eq_none_iff.2 (not_inRange_ten_pow (by omega))
  rw [roundPlaces?, if_neg (by omega), missing, ite_self]

/-- Only a number that is nearer to `10 ^ 19` or to `-10 ^ 19` than to zero is not rounded to its
nearest multiple. -/
theorem roundPlaces?_eq {value : Int64} {digits : Int} (negative : digits < 0)
    (nearest : NearestMultiple (10 ^ digits.natAbs) value.toInt m) :
    roundPlaces? value digits =
      if digits = -19 ∧ 5 * 10 ^ 18 < value.toInt.natAbs then some 0 else ofInt? m := by
  have positive : 0 < 10 ^ digits.natAbs := Nat.pow_pos (by omega)
  by_cases many : digits < -18
  · rw [roundPlaces?_of_lt many]
    split
    case isTrue => rfl
    case isFalse near =>
      have zero : m = 0 := by
        refine NearestMultiple.unique positive (nearestMultiple_zero ?_) nearest
        by_cases least : digits = -19
        · subst least
          norm_num at near ⊢
          omega
        · have large : 10 ^ 20 ≤ 10 ^ digits.natAbs := Nat.pow_le_pow_right (by omega) (by omega)
          have low := value.le_toInt
          have high := value.toInt_lt
          omega
      rw [zero]
      rfl
  · rw [roundPlaces?_of_le negative (by omega), if_neg (by omega),
      NearestMultiple.unique positive (nearestMultiple_roundToMultiple positive _) nearest]

end Salita.Whole
