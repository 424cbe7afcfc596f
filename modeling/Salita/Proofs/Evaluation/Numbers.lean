import Salita.Proofs.Evaluation.Comparison
import Salita.Proofs.Value.Number

namespace Salita

namespace Operation

def Holds (s : Store) (left : Value) (op : BinaryOp) (right : Value) : Prop :=
  compare left right op s = .ok true s

variable {s : Store} {a b c : Value}

theorem heap_order_of_isNumber (ha : a.isNumber) (hb : b.isNumber) :
    s.heap.order a b = .ok (some (a.numberOrder b)) := by
  have apart : a.type ≠ .list := by
    rintro isList
    cases a with
    | list => cases ha
    | _ => cases isList
  rw [Heap.order_of_apart (.inl apart), Value.order_of_isNumber ha hb]

theorem holds_lessEq_iff (ha : a.isNumber) (hb : b.isNumber) :
    Holds s a .lessEq b ↔ (a.numberOrder b).isLE := by
  rw [Holds, compare_eq_ok_iff, heap_order_of_isNumber ha hb]
  cases a.numberOrder b <;> decide

theorem holds_eq_iff (ha : a.isNumber) (hb : b.isNumber) :
    Holds s a .eq b ↔ a.numberOrder b = .eq := by
  rw [Holds, compare_eq_ok_iff, heap_order_of_isNumber ha hb]
  cases a.numberOrder b <;> decide

/-- Of two numbers one is at most the other. Where a number is at most a second one and this is at
most a third, the first is at most the third, unless both are whole numbers in decreasing order that
round to the second, a float. Equality passes on in the same way, unless two different whole numbers
round to the float between them. -/
theorem numbers_preordered (s : Store) (a b c : Value) (ha : a.isNumber) (hb : b.isNumber)
    (hc : c.isNumber) :
    (Holds s a .lessEq b ∨ Holds s b .lessEq a) ∧
    (Holds s a .lessEq b → Holds s b .lessEq c →
      (Holds s a .lessEq c ↔ ¬ ∃ m n, Value.RoundTogether a b c m n ∧ n.toInt < m.toInt)) ∧
    (Holds s a .eq b → Holds s b .eq c →
      (Holds s a .eq c ↔ ¬ ∃ m n, Value.RoundTogether a b c m n ∧ m ≠ n)) := by
  refine ⟨?_, ?_, ?_⟩
  · rw [holds_lessEq_iff ha hb, holds_lessEq_iff hb ha, Value.numberOrder_swap a b]
    cases a.numberOrder b <;> decide
  · rw [holds_lessEq_iff ha hb, holds_lessEq_iff hb hc, holds_lessEq_iff ha hc]
    exact Value.isLE_trans_iff hb
  · rw [holds_eq_iff ha hb, holds_eq_iff hb hc, holds_eq_iff ha hc]
    exact Value.eq_trans_iff hb

theorem numbers_preordered_rounded :
    ∃ (s : Store) (a b c : Value),
      a = .int 9007199254740992 ∧ b = .float (Float.ofBits 0x4340000000000000) ∧
      c = .int 9007199254740993 ∧ a.isNumber ∧ b.isNumber ∧ c.isNumber ∧
      Holds s a .lessEq b ∧ Holds s b .lessEq c ∧ Holds s a .lessEq c ∧
      Holds s a .eq b ∧ Holds s b .eq c ∧ ¬ Holds s a .eq c := by
  let s : Store := {}
  let a : Value := .int 9007199254740992
  let b : Value := .float (Float.ofBits 0x4340000000000000)
  let c : Value := .int 9007199254740993
  have hb : b.isNumber := by decide +kernel
  have first : a.numberOrder b = .eq := by decide +kernel
  have second : b.numberOrder c = .eq := by decide +kernel
  have ab : Holds s a .eq b := (holds_eq_iff rfl hb).2 first
  have bc : Holds s b .eq c := (holds_eq_iff hb rfl).2 second
  have aLe : Holds s a .lessEq b := (holds_lessEq_iff rfl hb).2 (by rw [first]; rfl)
  have bLe : Holds s b .lessEq c := (holds_lessEq_iff hb rfl).2 (by rw [second]; rfl)
  obtain ⟨-, ordered, equal⟩ := numbers_preordered s a b c rfl hb rfl
  refine ⟨s, a, b, c, rfl, rfl, rfl, rfl, hb, rfl, aLe, bLe, ?_, ab, bc, ?_⟩
  · refine (ordered aLe bLe).2 ?_
    rintro ⟨m, n, ⟨first, last, -⟩, less⟩
    rw [← Value.int.inj first, ← Value.int.inj last] at less
    exact absurd less (by decide)
  · intro same
    exact (equal ab bc).1 same ⟨_, _, ⟨rfl, rfl, _, rfl, by decide +kernel, by decide +kernel⟩,
      by decide⟩

/-- The same numbers the other way round: each is at most the next and equal to it, but the first is
greater than the last. -/
theorem numbers_not_transitive :
    (Value.int 9007199254740993).isNumber ∧
    (Value.float (Float.ofBits 0x4340000000000000)).isNumber ∧
    (Value.int 9007199254740992).isNumber ∧
    Holds {} (.int 9007199254740993) .lessEq (.float (Float.ofBits 0x4340000000000000)) ∧
    Holds {} (.float (Float.ofBits 0x4340000000000000)) .lessEq (.int 9007199254740992) ∧
    ¬ Holds {} (.int 9007199254740993) .lessEq (.int 9007199254740992) ∧
    Holds {} (.int 9007199254740993) .eq (.float (Float.ofBits 0x4340000000000000)) ∧
    Holds {} (.float (Float.ofBits 0x4340000000000000)) .eq (.int 9007199254740992) ∧
    ¬ Holds {} (.int 9007199254740993) .eq (.int 9007199254740992) := by
  have number : (Value.float (Float.ofBits 0x4340000000000000)).isNumber := by decide +kernel
  refine ⟨rfl, number, rfl, ?_⟩
  rw [holds_lessEq_iff rfl number, holds_lessEq_iff number rfl, holds_lessEq_iff rfl rfl,
    holds_eq_iff rfl number, holds_eq_iff number rfl, holds_eq_iff rfl rfl]
  decide +kernel

end Operation

end Salita
