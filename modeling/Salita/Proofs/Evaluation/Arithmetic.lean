import Salita.Evaluation.Operation
import Salita.Proofs.Number.Whole

namespace Salita

open Whole (InRange)

namespace Eval

def Yields (x : Eval Value) (n : Int) : Prop :=
  ∀ s, ∃ value : Int64, value.toInt = n ∧ x s = .ok (.int value) s

def FailsBy (x : Eval Value) (cause : Cause) : Prop := ∀ s, x s = .error { cause := cause } s

def Exact (x : Eval Value) (n : Int) (operation : String) : Prop :=
  (InRange n → x.Yields n) ∧ (¬ InRange n → x.FailsBy (.integerOverflow operation))

theorem exact_ofInt? (report : Option Int64 → Eval Value) {operation : String}
    (found : ∀ value s, report (some value) s = .ok (.int value) s)
    (missing : (report none).FailsBy (.integerOverflow operation)) (n : Int) :
    (report (Whole.ofInt? n)).Exact n operation := by
  constructor
  · intro inRange s
    obtain ⟨value, same, some⟩ := Whole.exists_ofInt? inRange
    exact ⟨value, same, by rw [some, found]⟩
  · intro outside
    rw [Whole.ofInt?_eq_none_iff.2 outside]
    exact missing

end Eval

namespace Operation

def written (a : Int64) (op : BinaryOp) (b : Int64) : String :=
  a.toInt.repr ++ " " ++ op.text ++ " " ++ b.toInt.repr

theorem exact_ofInt? (n : Int) (a : Int64) (op : BinaryOp) (b : Int64) :
    (exact (Whole.ofInt? n) a op b).Exact n (written a op b) :=
  Eval.exact_ofInt? (exact · a op b) (fun _ _ => rfl) (fun _ => rfl) n

variable {a b : Int64}

theorem binary_pow (natural : 0 ≤ b.toInt) :
    (binary (.int a) (.int b) .pow).Exact (a.toInt ^ b.toInt.toNat) (written a .pow b) := by
  have power : binary (.int a) (.int b) .pow =
      exact (Whole.ofInt? (a.toInt ^ b.toInt.toNat)) a .pow b := by
    rw [← Whole.pow?_eq]
    exact if_neg (Int.not_lt.2 natural)
  rw [power]
  exact exact_ofInt? _ a .pow b

theorem binary_floorDiv (nonzero : b.toInt ≠ 0) :
    (binary (.int a) (.int b) .floorDiv).Exact ⌊(a.toInt : ℚ) / b.toInt⌋ (written a .floorDiv b) := by
  have quotient : binary (.int a) (.int b) .floorDiv =
      exact (Whole.ofInt? ⌊(a.toInt : ℚ) / b.toInt⌋) a .floorDiv b := by
    rw [← Whole.fdiv_eq_floor, ← Whole.floorDiv?_eq nonzero]
    exact if_neg nonzero
  rw [quotient]
  exact exact_ofInt? _ a .floorDiv b

theorem binary_mod (nonzero : b.toInt ≠ 0) :
    (binary (.int a) (.int b) .mod).Yields (a.toInt.fmod b.toInt) := by
  have remainder : binary (.int a) (.int b) .mod =
      exact (Whole.ofInt? (a.toInt.fmod b.toInt)) a .mod b := by
    rw [← Whole.floorMod?_eq nonzero]
    exact if_neg nonzero
  have inRange : InRange (a.toInt.fmod b.toInt) := by
    have between := Whole.fmod_between a.toInt nonzero
    have divisor := Whole.inRange_toInt b
    unfold InRange at divisor ⊢
    omega
  rw [remainder]
  exact (exact_ofInt? _ a .mod b).1 inRange

theorem fails_divideByZero (a : Int64) :
    (divideByZero (.int a)).FailsBy (.divisionByZero a.toInt.repr .int) := fun _ => rfl

theorem binary_by_zero (zero : b.toInt = 0) {op : BinaryOp}
    (member : op ∈ [BinaryOp.div, .floorDiv, .mod]) :
    binary (.int a) (.int b) op = divideByZero (.int a) := by
  simp only [List.mem_cons, List.not_mem_nil, or_false] at member
  obtain rfl | rfl | rfl := member
  all_goals exact if_pos zero

theorem binary_pow_of_zero (zero : a.toInt = 0) (negative : b.toInt < 0) :
    binary (.int a) (.int b) .pow = divideByZero (.int a) :=
  (if_pos negative).trans (if_pos zero)

theorem unary_neg (a : Int64) :
    (unary (.int a) .neg).Exact (-a.toInt) ("-(" ++ a.toInt.repr ++ ")") := by
  let report (result : Option Int64) : Eval Value :=
    result.elim (Eval.fail (.integerOverflow ("-(" ++ a.toInt.repr ++ ")"))) fun n => return .int n
  have opposite : unary (.int a) .neg = report (Whole.ofInt? (-a.toInt)) := by
    simp only [unary, Whole.neg?]
    cases Whole.ofInt? (-a.toInt) <;> rfl
  rw [opposite]
  exact Eval.exact_ofInt? report (fun _ _ => rfl) (fun _ => rfl) (-a.toInt)

/-- Sums, differences, products and powers with a natural exponent are exact or an overflow. The
quotient `//` is the floor of the exact one, and only the least number by -1 overflows. The remainder
goes with that quotient and always exists. Zero divides nothing, and has no power with a negative
exponent. Only the least number has no opposite. -/
theorem arithmetic_exact (a b : Int64) :
    (binary (.int a) (.int b) .add).Exact (a.toInt + b.toInt) (written a .add b) ∧
    (binary (.int a) (.int b) .sub).Exact (a.toInt - b.toInt) (written a .sub b) ∧
    (binary (.int a) (.int b) .mul).Exact (a.toInt * b.toInt) (written a .mul b) ∧
    (0 ≤ b.toInt →
      (binary (.int a) (.int b) .pow).Exact (a.toInt ^ b.toInt.toNat) (written a .pow b)) ∧
    (b.toInt ≠ 0 →
      (a.toInt = -2 ^ 63 ∧ b.toInt = -1 →
        (binary (.int a) (.int b) .floorDiv).FailsBy (.integerOverflow (written a .floorDiv b))) ∧
      (¬ (a.toInt = -2 ^ 63 ∧ b.toInt = -1) →
        (binary (.int a) (.int b) .floorDiv).Yields ⌊(a.toInt : ℚ) / b.toInt⌋) ∧
      ∃ r : Int, (binary (.int a) (.int b) .mod).Yields r ∧
        r = a.toInt - b.toInt * ⌊(a.toInt : ℚ) / b.toInt⌋ ∧
        (r = 0 ∨ r.sign = b.toInt.sign) ∧ |r| < |b.toInt|) ∧
    (b.toInt = 0 → ∀ op ∈ [BinaryOp.div, .floorDiv, .mod],
      (binary (.int a) (.int b) op).FailsBy (.divisionByZero a.toInt.repr .int)) ∧
    (a.toInt = 0 → b.toInt < 0 →
      (binary (.int a) (.int b) .pow).FailsBy (.divisionByZero a.toInt.repr .int)) ∧
    (a.toInt = -2 ^ 63 →
      (unary (.int a) .neg).FailsBy (.integerOverflow ("-(" ++ a.toInt.repr ++ ")"))) ∧
    (a.toInt ≠ -2 ^ 63 → (unary (.int a) .neg).Yields (-a.toInt)) := by
  refine ⟨exact_ofInt? _ a .add b, exact_ofInt? _ a .sub b, exact_ofInt? _ a .mul b, binary_pow, ?_,
    ?_, ?_, ?_, ?_⟩
  · intro nonzero
    have quotient := binary_floorDiv (a := a) nonzero
    have inRange := Whole.inRange_fdiv_iff (Whole.inRange_toInt a) nonzero
    rw [Whole.fdiv_eq_floor] at inRange
    refine ⟨?_, ?_, a.toInt.fmod b.toInt, binary_mod nonzero, ?_, Whole.fmod_sign _ nonzero⟩
    · intro least
      exact quotient.2 fun inside => inRange.1 inside least
    · intro other
      exact quotient.1 (inRange.2 other)
    · rw [Int.fmod_def, Whole.fdiv_eq_floor]
  · intro zero op member
    rw [binary_by_zero zero member]
    exact fails_divideByZero a
  · intro zero negative
    rw [binary_pow_of_zero zero negative]
    exact fails_divideByZero a
  · intro least
    refine (unary_neg a).2 ?_
    rw [least]
    exact fun inside => absurd inside.2 (by decide)
  · intro other
    have operand := Whole.inRange_toInt a
    refine (unary_neg a).1 ?_
    unfold InRange at operand ⊢
    omega

theorem arithmetic_exact_edges :
    (binary (.int Int64.minValue) (.int (-1)) .floorDiv).FailsBy
      (.integerOverflow "-9223372036854775808 // -1") ∧
    (∃ r, (binary (.int Int64.minValue) (.int (-1)) .mod).Yields r ∧ |r| < 1) ∧
    (unary (.int Int64.minValue) .neg).FailsBy (.integerOverflow "-(-9223372036854775808)") ∧
    (binary (.int (-1)) (.int Int64.maxValue) .pow).Yields (-1) ∧
    (binary (.int 2) (.int 63) .pow).FailsBy (.integerOverflow "2 ** 63") ∧
    (binary (.int 7) (.int (-2)) .floorDiv).Yields (-4) ∧
    (binary (.int 0) (.int (-2)) .pow).FailsBy (.divisionByZero "0" .int) ∧
    (binary (.int 7) (.int 0) .mod).FailsBy (.divisionByZero "7" .int) := by
  obtain ⟨-, -, -, -, least, -, -, opposite, -⟩ := arithmetic_exact Int64.minValue (-1)
  obtain ⟨overflow, -, r, remainder, -, -, small⟩ := least (by decide)
  obtain ⟨-, -, -, alternating, -⟩ := arithmetic_exact (-1) Int64.maxValue
  obtain ⟨-, -, -, doubling, -⟩ := arithmetic_exact 2 63
  obtain ⟨-, -, -, -, seven, -⟩ := arithmetic_exact 7 (-2)
  obtain ⟨-, -, -, -, -, -, zeroth, -⟩ := arithmetic_exact 0 (-2)
  obtain ⟨-, -, -, -, -, byZero, -⟩ := arithmetic_exact 7 0
  have odd : Odd Int64.maxValue.toInt.toNat := Nat.odd_iff.2 (by decide)
  have power : (-1 : Int64).toInt ^ Int64.maxValue.toInt.toNat = -1 := odd.neg_one_pow
  have floor : ⌊(((7 : Int64).toInt : Int) : ℚ) / ((-2 : Int64).toInt : Int)⌋ = -4 := by
    rw [← Whole.fdiv_eq_floor]
    decide
  refine ⟨overflow (by decide), ⟨r, remainder, small⟩, opposite (by decide), ?_, ?_, ?_,
    zeroth (by decide) (by decide), byZero (by decide) .mod (by decide)⟩
  · rw [← power]
    exact (alternating (by decide)).1 (by rw [power]; decide)
  · exact (doubling (by decide)).2 (by decide)
  · rw [← floor]
    exact (seven (by decide)).2.1 (by decide)

end Operation

end Salita
