import Salita.Evaluation.Operation
import Salita.Proofs.Computation
import Salita.Proofs.Value.Comparison

namespace Salita

namespace Eval

variable {α : Type}

def Refuses (x : Eval α) (s : Store) : Prop := ∃ e, x s = .error e s ∧ e.code = .typeMismatch

theorem Refuses.ne_ok {x : Eval α} {s : Store} (refuses : x.Refuses s) (a : α) :
    x s ≠ .ok a s := by
  obtain ⟨e, failed, -⟩ := refuses
  rw [failed]
  exact nofun

inductive Agrees (x : Eval α) (s : Store) (y : Eval α) (t : Store) : Prop
  | answer (a : α) (first : x s = .ok a s) (second : y t = .ok a t)
  | refused (first : x.Refuses s) (second : y.Refuses t)

end Eval

def BinaryOp.mirrored : BinaryOp → BinaryOp
  | .less => .greater
  | .lessEq => .greaterEq
  | .greater => .less
  | .greaterEq => .lessEq
  | op => op

namespace Operation

variable {left right : Value} {op : BinaryOp} {s : Store}

theorem refuses_refuse {α : Type} (left right : Value) (op : BinaryOp) (s : Store) :
    (refuse left op right : Eval α).Refuses s :=
  ⟨_, rfl, rfl⟩

theorem order_of_ok {result : Option Ordering} (ordered : s.heap.order left right = .ok result) :
    order left right op s = .ok result s := by
  simp only [order, Eval.heap, bind, EStateM.bind, ordered]
  rfl

theorem refuses_order {pair : Incomparable} (refused : s.heap.order left right = .error pair) :
    (order left right op).Refuses s := by
  have run : order left right op s = refuse pair.left op pair.right s := by
    simp only [order, Eval.heap, bind, EStateM.bind, refused]
  obtain ⟨e, failed, code⟩ := refuses_refuse pair.left pair.right op s
  exact ⟨e, run.trans failed, code⟩

theorem order_eq_ok_iff {result : Option Ordering} :
    order left right op s = .ok result s ↔ s.heap.order left right = .ok result := by
  refine ⟨fun done => ?_, order_of_ok⟩
  cases found : s.heap.order left right with
  | error pair => exact absurd done ((refuses_order found).ne_ok result)
  | ok other =>
      rw [order_of_ok found] at done
      cases done
      rfl

theorem refuses_order_iff :
    (order left right op).Refuses s ↔ ∃ pair, s.heap.order left right = .error pair := by
  refine ⟨fun refuses => ?_, fun ⟨pair, refused⟩ => refuses_order refused⟩
  cases found : s.heap.order left right with
  | error pair => exact ⟨pair, rfl⟩
  | ok result => exact absurd (order_of_ok found) (refuses.ne_ok result)

def answer? (op : BinaryOp) : Except Incomparable (Option Ordering) → Option Bool
  | .ok result => holds? op result
  | .error _ => none

theorem compare_of_some {answer : Bool}
    (answers : answer? op (s.heap.order left right) = some answer) :
    compare left right op s = .ok answer s := by
  cases found : s.heap.order left right with
  | error pair =>
      rw [found] at answers
      cases answers
  | ok result =>
      rw [found] at answers
      refine (run_bind_of_ok (order_of_ok found)).trans ?_
      rw [show holds? op result = some answer from answers]
      rfl

theorem refuses_compare_of_none (silent : answer? op (s.heap.order left right) = none) :
    (compare left right op).Refuses s := by
  cases found : s.heap.order left right with
  | error pair =>
      have refused : (order left right op).Refuses s := refuses_order found
      obtain ⟨e, failed, code⟩ := refused
      exact ⟨e, bind_eq_error.2 (.inl failed), code⟩
  | ok result =>
      rw [found] at silent
      have refused : (refuse left op right : Eval Bool).Refuses s := refuses_refuse ..
      obtain ⟨e, failed, code⟩ := refused
      refine ⟨e, (run_bind_of_ok (order_of_ok found)).trans ?_, code⟩
      rw [show holds? op result = none from silent]
      exact failed

theorem compare_eq_ok_iff {answer : Bool} :
    compare left right op s = .ok answer s ↔
      answer? op (s.heap.order left right) = some answer := by
  refine ⟨fun done => ?_, compare_of_some⟩
  cases answers : answer? op (s.heap.order left right) with
  | none => exact absurd done ((refuses_compare_of_none answers).ne_ok answer)
  | some other =>
      rw [compare_of_some answers] at done
      cases done
      rfl

theorem compare_eq_true_iff :
    compare left right .eq s = .ok true s ↔ s.heap.order left right = .ok (some .eq) := by
  rw [compare_eq_ok_iff]
  rcases s.heap.order left right with pair | _ | _ | _ | _ <;> simp [answer?, holds?]

theorem agrees_compare {left' right' : Value} {op' : BinaryOp} {t : Store}
    (same : answer? op (s.heap.order left right) = answer? op' (t.heap.order left' right')) :
    (compare left right op).Agrees s (compare left' right' op') t := by
  cases answers : answer? op (s.heap.order left right) with
  | none =>
      exact .refused (refuses_compare_of_none answers) (refuses_compare_of_none (same ▸ answers))
  | some answer => exact .answer answer (compare_of_some answers) (compare_of_some (same ▸ answers))

theorem answer?_mirrored (op : BinaryOp) (ordered : Except Incomparable (Option Ordering)) :
    answer? op.mirrored (mirror ordered) = answer? op ordered := by
  cases ordered with
  | error pair => rfl
  | ok result => cases op <;> rcases result with _ | _ | _ | _ <;> rfl

theorem exists_error_mirror {ordered : Except Incomparable (Option Ordering)} :
    (∃ pair, mirror ordered = .error pair) ↔ ∃ pair, ordered = .error pair := by
  cases ordered <;> simp [mirror]

theorem mirror_eq_ok_iff {ordered : Except Incomparable (Option Ordering)}
    {result : Option Ordering} :
    mirror ordered = .ok (result.map Ordering.swap) ↔ ordered = .ok result := by
  cases ordered with
  | error pair => simp [mirror]
  | ok found =>
      rw [mirror, Except.ok.injEq, Except.ok.injEq, Option.map_inj_right]
      exact fun x y => Ordering.swap_inj.1

/-- Operands have an order if they have one when they are exchanged, and it is the mirrored one. A
comparison agrees with the mirrored comparison of the exchanged operands. -/
theorem compare_mirrored (s : Store) (left right : Value) (op other : BinaryOp) :
    (∀ result, order left right op s = .ok result s ↔
      order right left other s = .ok (result.map Ordering.swap) s) ∧
    ((order left right op).Refuses s ↔ (order right left other).Refuses s) ∧
    (compare left right op).Agrees s (compare right left op.mirrored) s := by
  have swapped := s.heap.order_swap left right
  refine ⟨fun result => ?_, ?_, ?_⟩
  · rw [order_eq_ok_iff, order_eq_ok_iff, swapped, mirror_eq_ok_iff]
  · rw [refuses_order_iff, refuses_order_iff, swapped, exists_error_mirror]
  · apply agrees_compare
    rw [swapped, answer?_mirrored]

end Operation

end Salita
