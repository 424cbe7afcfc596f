import Salita.Evaluation.Operation

namespace Salita.Operation

theorem getElem?_flatten_replicate {α : Type} (l : List α) (n i : Nat) (inside : i < n * l.length) :
    (List.replicate n l).flatten[i]? = l[i % l.length]? := by
  induction n generalizing i with
  | zero => simp at inside
  | succ n ih =>
      rw [List.replicate_succ, List.flatten_cons]
      by_cases first : i < l.length
      · rw [List.getElem?_append_left first, Nat.mod_eq_of_lt first]
      · rw [Nat.succ_mul] at inside
        rw [List.getElem?_append_right (by omega), ih _ (by omega), ← Nat.mod_eq_sub_mod (by omega)]

theorem toNat_mul_ofNat (m n : Nat) :
    (UInt64.ofNat m * UInt64.ofNat n).toNat = m * n % UInt64.size := by
  rw [UInt64.toNat_mul, UInt64.toNat_ofNat', UInt64.toNat_ofNat', ← Nat.mul_mod]

/-- As many elements as the length says are taken from the copies. Where the product is too large for
a machine word, these are fewer than there are. -/
theorem toList_repeatItems (items : Array Value) (times : Int64) :
    (repeatItems items times).toList =
      (List.replicate times.toInt.toNat items.toList).flatten.take
        (items.size * times.toInt.toNat % UInt64.size) := by
  by_cases empty : items.size = 0
  · simp [repeatItems, empty]
  · have positive : 0 < items.size := Nat.pos_of_ne_zero empty
    rw [← toNat_mul_ofNat]
    apply List.ext_getElem?
    intro i
    simp only [repeatItems, empty, ↓reduceDIte, Array.toList_ofFn, List.getElem?_ofFn,
      List.getElem?_take]
    split
    case isFalse => rfl
    case isTrue inside =>
      have bound := Nat.mod_le (items.size * times.toInt.toNat) UInt64.size
      rw [toNat_mul_ofNat] at inside
      rw [getElem?_flatten_replicate, Array.length_toList, Array.getElem?_toList,
        Array.getElem?_eq_getElem (Nat.mod_lt _ positive)]
      rw [Array.length_toList, Nat.mul_comm]
      omega

theorem toList_repeatItems_of_lt {items : Array Value} {times : Int64}
    (small : items.size * times.toInt.toNat < UInt64.size) :
    (repeatItems items times).toList =
      (List.replicate times.toInt.toNat items.toList).flatten := by
  rw [toList_repeatItems, Nat.mod_eq_of_lt small]
  apply List.take_of_length_le
  simp [Nat.mul_comm]

example : repeatItems #[.int 1, .int 2, .int 3, .int 4] 4611686018427387904 = #[] := rfl

end Salita.Operation
