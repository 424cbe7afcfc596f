import Salita.Proofs.Number.Binary64
import Salita.Proofs.Value.Comparison

/-!
# The order of numbers

Whole numbers are ordered exactly, and a whole number and a float by their places among the floats.
A number that is at most a second one, which is at most a third, is at most the third, unless the
second is the float to which the two others round. What is strictly less stays so without exception.
-/

namespace Salita

namespace Value

def isNumber : Value → Bool
  | .int _ => true
  | .float x => !Binary64.isNaN x
  | _ => false

def place : Value → Int
  | .int n => Binary64.rank (widen n)
  | .float x => Binary64.rank x
  | _ => 0

def numberOrder : Value → Value → Ordering
  | .int m, .int n => compare m.toInt n.toInt
  | a, b => compare a.place b.place

variable {a b c : Value}

theorem order_of_isNumber (ha : a.isNumber) (hb : b.isNumber) :
    a.order b = .ok (some (a.numberOrder b)) := by
  have floats {x y : Float} (hx : Binary64.isNaN x = false) (hy : Binary64.isNaN y = false) :
      Binary64.order? x y = some (compare (Binary64.rank x) (Binary64.rank y)) := by
    simp [Binary64.order?, hx, hy]
  cases a <;> cases b <;> simp only [isNumber, Bool.not_eq_true', Bool.false_eq_true] at ha hb
  case int.int => rfl
  case int.float m y => exact congrArg Except.ok (floats (isNaN_widen m) hb)
  case float.int x n => exact congrArg Except.ok (floats ha (isNaN_widen n))
  case float.float x y => exact congrArg Except.ok (floats ha hb)

theorem both_int_or_numberOrder_eq (a b : Value) :
    (∃ m n, a = .int m ∧ b = .int n) ∨ a.numberOrder b = compare a.place b.place := by
  cases a <;> cases b
  case int.int m n => exact .inl ⟨m, n, rfl, rfl⟩
  all_goals exact .inr rfl

theorem place_le_of_isLE (le : (a.numberOrder b).isLE) : a.place ≤ b.place := by
  obtain ⟨m, n, rfl, rfl⟩ | same := both_int_or_numberOrder_eq a b
  · exact rank_widen_mono (Int.isLE_compare.1 le)
  · rw [same] at le
    exact Int.isLE_compare.1 le

theorem numberOrder_swap (a b : Value) : b.numberOrder a = (a.numberOrder b).swap := by
  have swapped (i j : Int) : compare j i = (compare i j).swap := Std.OrientedCmp.eq_swap
  cases a <;> cases b <;> exact swapped _ _

def RoundsTo (n : Int64) (x : Float) : Prop := Binary64.order? (widen n) x = some .eq

instance (n : Int64) (x : Float) : Decidable (RoundsTo n x) :=
  inferInstanceAs (Decidable (Binary64.order? (widen n) x = some .eq))

theorem roundsTo_of_rank_eq {n : Int64} {x : Float} (number : (Value.float x).isNumber)
    (same : Binary64.rank (widen n) = Binary64.rank x) : RoundsTo n x := by
  have order := order_of_isNumber (a := .int n) rfl number
  have equal : (Value.int n).numberOrder (.float x) = .eq := Int.compare_eq_eq.2 same
  rw [equal] at order
  exact Except.ok.inj order

/-- The first and the last value are whole numbers, and between them stands the float to which both
of them round. -/
def RoundTogether (a b c : Value) (m n : Int64) : Prop :=
  a = .int m ∧ c = .int n ∧ ∃ x, b = .float x ∧ RoundsTo m x ∧ RoundsTo n x

theorem RoundTogether.symm {m n : Int64} (together : RoundTogether a b c m n) :
    RoundTogether c b a n m := by
  obtain ⟨first, last, x, between, left, right⟩ := together
  exact ⟨last, first, x, between, right, left⟩

theorem isLE_trans_iff (hb : b.isNumber) (first : (a.numberOrder b).isLE)
    (second : (b.numberOrder c).isLE) :
    (a.numberOrder c).isLE ↔ ¬ ∃ m n, RoundTogether a b c m n ∧ n.toInt < m.toInt := by
  constructor
  · rintro le ⟨m, n, ⟨rfl, rfl, -⟩, less⟩
    exact Int.not_lt.2 (Int.isLE_compare.1 le) less
  · intro apart
    have left := place_le_of_isLE first
    have right := place_le_of_isLE second
    obtain ⟨m, n, rfl, rfl⟩ | same := both_int_or_numberOrder_eq a c
    · refine Int.isLE_compare.2 (Int.not_lt.1 fun less => ?_)
      cases b with
      | int k =>
          have lower := Int.isLE_compare.1 first
          have upper := Int.isLE_compare.1 second
          omega
      | float x =>
          -- The float stands between the two, and rounding does not turn their order round.
          have back := rank_widen_mono less.le
          simp only [place] at left right
          exact apart ⟨m, n, ⟨rfl, rfl, x, rfl, roundsTo_of_rank_eq hb (by omega),
            roundsTo_of_rank_eq hb (by omega)⟩, less⟩
      | _ => cases hb
    · rw [same]
      exact Int.isLE_compare.2 (left.trans right)

theorem eq_trans_iff (hb : b.isNumber) (first : a.numberOrder b = .eq)
    (second : b.numberOrder c = .eq) :
    a.numberOrder c = .eq ↔ ¬ ∃ m n, RoundTogether a b c m n ∧ m ≠ n := by
  constructor
  · rintro same ⟨m, n, ⟨rfl, rfl, -⟩, distinct⟩
    exact distinct (Int64.toInt_inj.1 (Int.compare_eq_eq.1 same))
  · intro apart
    have ahead : (a.numberOrder c).isLE := by
      refine (isLE_trans_iff hb (by rw [first]; rfl) (by rw [second]; rfl)).2 ?_
      rintro ⟨m, n, together, less⟩
      exact apart ⟨m, n, together, fun same => by rw [same] at less; omega⟩
    have behind : (c.numberOrder a).isLE := by
      refine (isLE_trans_iff hb (by rw [numberOrder_swap, second]; rfl)
        (by rw [numberOrder_swap, first]; rfl)).2 ?_
      rintro ⟨n, m, together, less⟩
      exact apart ⟨m, n, together.symm, fun same => by rw [same] at less; omega⟩
    rw [numberOrder_swap a c] at behind
    cases order : a.numberOrder c with
    | eq => rfl
    | lt =>
        rw [order] at behind
        cases behind
    | gt =>
        rw [order] at ahead
        cases ahead

theorem place_lt_of_lt (less : a.numberOrder b = .lt)
    (apart : ¬ ∃ m n, a = .int m ∧ b = .int n) : a.place < b.place := by
  rw [(both_int_or_numberOrder_eq a b).resolve_left apart] at less
  exact Int.compare_eq_lt.1 less

theorem lt_of_place_lt (less : a.place < b.place) : a.numberOrder b = .lt := by
  obtain ⟨m, n, rfl, rfl⟩ | same := both_int_or_numberOrder_eq a b
  · refine Int.compare_eq_lt.2 (Int.not_le.1 fun le => ?_)
    exact Int.not_le.2 less (rank_widen_mono le)
  · rw [same]
    exact Int.compare_eq_lt.2 less

theorem numberOrder_lt_trans (first : a.numberOrder b = .lt) (second : b.numberOrder c = .lt) :
    a.numberOrder c = .lt := by
  have left := place_le_of_isLE (a := a) (b := b) (by rw [first]; rfl)
  have right := place_le_of_isLE (a := b) (b := c) (by rw [second]; rfl)
  by_cases whole : ∃ m n, a = .int m ∧ b = .int n
  · by_cases wholeToo : ∃ k n, b = .int k ∧ c = .int n
    · obtain ⟨m, k, rfl, rfl⟩ := whole
      obtain ⟨_, n, same, rfl⟩ := wholeToo
      cases same
      exact Int.compare_eq_lt.2 ((Int.compare_eq_lt.1 first).trans (Int.compare_eq_lt.1 second))
    · exact lt_of_place_lt (Int.lt_of_le_of_lt left (place_lt_of_lt second wholeToo))
  · exact lt_of_place_lt (Int.lt_of_lt_of_le (place_lt_of_lt first whole) right)

theorem isNumber_of_order?_eq_some {x y : Float} {order : Ordering}
    (ordered : Binary64.order? x y = some order) :
    (Value.float x).isNumber ∧ (Value.float y).isNumber := by
  unfold Binary64.order? at ordered
  split at ordered
  case isTrue => cases ordered
  case isFalse numbers => simpa [isNumber] using numbers

theorem order_ne_of_isNaN {f : Float} (nan : Binary64.isNaN f) (x : Value) (order : Ordering) :
    (Value.float f).order x ≠ .ok (some order) ∧ x.order (.float f) ≠ .ok (some order) := by
  cases x <;> simp [Value.order, Binary64.order?, nan]

theorem order_eq_lt_cases (less : a.order b = .ok (some .lt)) :
    (a.isNumber ∧ b.isNumber ∧ a.numberOrder b = .lt) ∨
    (∃ s t, a = .str s ∧ b = .str t ∧ compare s t = .lt) ∨
    ∃ s t, a = .bool s ∧ b = .bool t ∧ compare s t = .lt := by
  have ofNumbers (ha : a.isNumber) (hb : b.isNumber) :
      a.isNumber ∧ b.isNumber ∧ a.numberOrder b = .lt := by
    rw [order_of_isNumber ha hb] at less
    exact ⟨ha, hb, Option.some.inj (Except.ok.inj less)⟩
  cases a <;> cases b
  case int.int m n => exact .inl (ofNumbers rfl rfl)
  case int.float m y =>
    exact .inl (ofNumbers rfl (isNumber_of_order?_eq_some (Except.ok.inj less)).2)
  case float.int x n =>
    exact .inl (ofNumbers (isNumber_of_order?_eq_some (Except.ok.inj less)).1 rfl)
  case float.float x y =>
    obtain ⟨hx, hy⟩ := isNumber_of_order?_eq_some (Except.ok.inj less)
    exact .inl (ofNumbers hx hy)
  case str.str s t => exact .inr (.inl ⟨s, t, rfl, rfl, Option.some.inj (Except.ok.inj less)⟩)
  case bool.bool s t => exact .inr (.inr ⟨s, t, rfl, rfl, Option.some.inj (Except.ok.inj less)⟩)
  all_goals cases less

theorem order_lt_trans (first : a.order b = .ok (some .lt)) (second : b.order c = .ok (some .lt)) :
    a.order c = .ok (some .lt) := by
  obtain ⟨ha, hb, left⟩ | ⟨s, t, rfl, rfl, left⟩ | ⟨s, t, rfl, rfl, left⟩ :=
    order_eq_lt_cases first
  · obtain ⟨-, hc, right⟩ | ⟨t, u, rfl, -⟩ | ⟨t, u, rfl, -⟩ := order_eq_lt_cases second
    · rw [order_of_isNumber ha hc, numberOrder_lt_trans left right]
    · cases hb
    · cases hb
  · obtain ⟨hb, -⟩ | ⟨_, u, same, rfl, right⟩ | ⟨_, u, same, -⟩ := order_eq_lt_cases second
    · cases hb
    · cases same
      rw [order, Std.TransCmp.lt_trans left right]
    · cases same
  · obtain ⟨hb, -⟩ | ⟨_, u, same, -⟩ | ⟨_, u, same, rfl, right⟩ := order_eq_lt_cases second
    · cases hb
    · cases same
    · cases same
      rw [order, Std.TransCmp.lt_trans left right]

end Value

end Salita
