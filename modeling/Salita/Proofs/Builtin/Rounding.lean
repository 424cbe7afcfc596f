import Salita.Builtin.Dispatch
import Salita.Proofs.Evaluation.Arithmetic
import Salita.Proofs.Number.Multiple

/-!
# Rounding whole numbers

Main statement: `ibilog` rounds a whole number to the nearest multiple of a power of ten, a tie going
to the even multiple, or reports that this is no number of 64 bits. By a step of `10 ^ 19` a number
above half the step gives zero instead.
-/

namespace Salita

open Whole (InRange NearestMultiple)

namespace Native

theorem call_ibilog_eq {ibilog : Native} (known : Registry.standard.get? "ibilog" = some ibilog)
    (n digits : Int64) :
    ibilog.call [.int n, .int digits] =
      Call.exact ⟨"ibilog", [.int n, .int digits]⟩ (Whole.roundPlaces? n digits.toInt) := by
  cases known
  rfl

theorem exact_call_ibilog (n digits : Int64) (m : Int) :
    (Call.exact ⟨"ibilog", [.int n, .int digits]⟩ (Whole.ofInt? m)).Exact m
      ("ibilog(" ++ n.toInt.repr ++ ", " ++ digits.toInt.repr ++ ")") := by
  have text : "ibilog" ++ "(" ++ ", ".intercalate [n.toInt.repr, digits.toInt.repr] ++ ")" =
      "ibilog(" ++ n.toInt.repr ++ ", " ++ digits.toInt.repr ++ ")" := by
    rw [String.intercalate_cons_cons, String.intercalate_singleton]
    simp only [String.append_assoc]
    rfl
  rw [← text]
  exact Eval.exact_ofInt? (Call.exact ⟨"ibilog", [.int n, .int digits]⟩) (fun _ _ => rfl)
    (fun _ => rfl) m

/-- Rounding a whole number to places before the point gives the nearest multiple of the step, or
reports an overflow if it has more than 64 bits. Places behind the point change nothing. A step of
`10 ^ 19` has no multiple of 64 bits but zero, and zero is also given where another one is nearest. -/
theorem call_ibilog (n digits : Int64) (ibilog : Native)
    (known : Registry.standard.get? "ibilog" = some ibilog) :
    (0 ≤ digits.toInt → (ibilog.call [.int n, .int digits]).Yields n.toInt) ∧
    (digits.toInt < 0 → ∃ m, NearestMultiple (10 ^ digits.toInt.natAbs) n.toInt m ∧
      (∀ other, NearestMultiple (10 ^ digits.toInt.natAbs) n.toInt other → other = m) ∧
      (¬ (digits.toInt = -19 ∧ 5 * 10 ^ 18 < n.toInt.natAbs) →
        (ibilog.call [.int n, .int digits]).Exact m
          ("ibilog(" ++ n.toInt.repr ++ ", " ++ digits.toInt.repr ++ ")")) ∧
      (digits.toInt = -19 ∧ 5 * 10 ^ 18 < n.toInt.natAbs →
        ¬ InRange m ∧ (ibilog.call [.int n, .int digits]).Yields 0)) := by
  rw [call_ibilog_eq known]
  constructor
  · intro natural s
    rw [Whole.roundPlaces?, if_pos natural]
    exact ⟨n, rfl, rfl⟩
  · intro negative
    have positive : 0 < 10 ^ digits.toInt.natAbs := Nat.pow_pos (by omega)
    have nearest := Whole.nearestMultiple_roundToMultiple positive n.toInt
    refine ⟨_, nearest, fun _ => nearest.unique positive, ?_, ?_⟩
    · intro regular
      rw [Whole.roundPlaces?_eq negative nearest, if_neg regular]
      exact exact_call_ibilog n digits _
    · intro beyond
      rw [Whole.roundPlaces?_eq negative nearest, if_pos beyond]
      refine ⟨nearest.not_inRange ?_ ?_, fun s => ⟨0, rfl, rfl⟩⟩
      · rw [beyond.1]
        decide
      · have far := beyond.2
        rw [beyond.1]
        norm_num
        omega

theorem call_ibilog_tie :
    ∃ ibilog, Registry.standard.get? "ibilog" = some ibilog ∧
      (ibilog.call [.int 1250, .int (-2)]).Yields 1200 ∧
      (ibilog.call [.int Int64.maxValue, .int (-1)]).FailsBy
        (.integerOverflow "ibilog(9223372036854775807, -1)") := by
  refine ⟨⟨"ibilog", .range 1 2, .ibilog⟩, rfl, ?_, ?_⟩
  · obtain ⟨m, -, unique, regular, -⟩ := (call_ibilog 1250 (-2) _ rfl).2 (by decide)
    have nearest : NearestMultiple (10 ^ 2) 1250 1200 :=
      Whole.nearestMultiple_roundToMultiple (by decide) 1250
    cases unique 1200 nearest
    exact (regular (by decide)).1 (by decide)
  · obtain ⟨m, -, unique, regular, -⟩ := (call_ibilog Int64.maxValue (-1) _ rfl).2 (by decide)
    have nearest : NearestMultiple (10 ^ 1) 9223372036854775807 9223372036854775810 :=
      Whole.nearestMultiple_roundToMultiple (by decide) 9223372036854775807
    cases unique 9223372036854775810 nearest
    exact (regular (by decide)).2 (by decide)

/-- The multiple of `10 ^ 19` nearest to `9 * 10 ^ 18` is `10 ^ 19`. It has more than 64 bits, and
what is given is zero. -/
theorem call_ibilog_beyond :
    ∃ ibilog, Registry.standard.get? "ibilog" = some ibilog ∧
      NearestMultiple (10 ^ 19) 9000000000000000000 (10 ^ 19) ∧ ¬ InRange (10 ^ 19) ∧
      (ibilog.call [.int 9000000000000000000, .int (-19)]).Yields 0 := by
  have nearest : NearestMultiple (10 ^ 19) 9000000000000000000 (10 ^ 19) :=
    Whole.nearestMultiple_roundToMultiple (by decide) 9000000000000000000
  refine ⟨⟨"ibilog", .range 1 2, .ibilog⟩, rfl, nearest, by decide, ?_⟩
  rw [call_ibilog_eq rfl, Whole.roundPlaces?_of_lt (by decide)]
  exact fun s => ⟨0, rfl, rfl⟩

end Native

end Salita
