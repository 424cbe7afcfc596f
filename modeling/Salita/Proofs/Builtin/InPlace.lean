import Salita.Interpreter.Expression
import Salita.Proofs.Builtin.Sorting
import Salita.Proofs.Builtin.Storage

namespace Salita

/-! ## Positions -/

/-- The index denotes the position: its own number, or the one counted back from the end. -/
def Indexing.Denotes (length : Nat) (i : Int) (position : Nat) : Prop :=
  -length ≤ i ∧ i < length ∧ (position : Int) = if 0 ≤ i then i else length + i

instance (length : Nat) (i : Int) (position : Nat) :
    Decidable (Indexing.Denotes length i position) := inferInstanceAs (Decidable (_ ∧ _ ∧ _))

theorem Heap.ext_items {heap next : Heap} (contains : ∀ id, heap.Contains id ↔ next.Contains id)
    (items : ∀ id, heap.items id = next.items id) : heap = next := by
  have size : heap.lists.size = next.lists.size := by
    have first := contains ⟨heap.lists.size⟩
    have second := contains ⟨next.lists.size⟩
    simp only [Heap.Contains] at first second
    omega
  have lists : heap.lists = next.lists := by
    refine Array.ext size fun i before after => ?_
    simpa [Heap.items, before, after] using items ⟨i⟩
  cases heap
  cases next
  exact congrArg Heap.mk lists

structure Store.Replaces (s : Store) (id : ListId) (items : List Value) (next : Store) : Prop where
  target : (next.heap.items id).toList = items
  others : ∀ other, other ≠ id → next.heap.items other = s.heap.items other
  contains : ∀ other, next.heap.Contains other ↔ s.heap.Contains other
  files : next.files = s.files
  output : next.output = s.output
  input : next.input = s.input

namespace Store

variable {s next last : Store} {id : ListId} {items : List Value}

theorem Replaces.unique (first : s.Replaces id items next) (second : s.Replaces id items last) :
    next = last := by
  have heap : next.heap = last.heap := by
    refine Heap.ext_items (fun other => ?_) fun other => ?_
    · rw [first.contains, second.contains]
    · by_cases same : other = id
      · rw [same]
        exact Array.toList_inj.1 (first.target.trans second.target.symm)
      · rw [first.others other same, second.others other same]
  have files := first.files.trans second.files.symm
  have output := first.output.trans second.output.symm
  have input := first.input.trans second.input.symm
  cases next
  cases last
  cases heap
  cases files
  cases output
  cases input
  rfl

end Store

/-! ## Edits -/

/-- What a function makes of a list that it is given: the value that it returns, and the elements that
the list has afterwards. -/
inductive Heap.Edits (heap : Heap) : Builtin → List Value → ListId → Value → List Value → Prop
  | replace {id : ListId} {i : Int64} {position : Nat} (value : Value)
      (denotes : Indexing.Denotes (heap.items id).size i.toInt position) :
      Edits heap .palitan [.list id, .int i, value] id .void
        ((heap.items id).toList.set position value)
  | append (id : ListId) (value : Value) :
      Edits heap .idagdag [.list id, value] id .void ((heap.items id).toList ++ [value])
  | remove {id : ListId} {value : Value} {rest : List Value}
      (parts : (heap.items id).toList = rest ++ [value]) :
      Edits heap .tanggalan [.list id] id value rest
  | sort {id : ListId} {order : Option Value} {sorted : List Value}
      (done : heap.sort (order.any heap.isTrue) (heap.items id).toList = .ok sorted) :
      Edits heap .isaayos (.list id :: order.toList) id .void sorted
  | reverse (id : ListId) :
      Edits heap .baligtarin [.list id] id .void (heap.items id).toList.reverse

theorem Heap.Edits.head {heap : Heap} {builtin : Builtin} {args items : List Value} {id : ListId}
    {value : Value} (edits : heap.Edits builtin args id value items) :
    args.head? = some (.list id) := by
  cases edits <;> rfl

/-! ## Runs of the functions -/

namespace Builtin

variable (name : String) (id : ListId) (s : Store)

theorem perform_isaayos (order : Option Value) :
    isaayos.perform ⟨name, .list id :: order.toList⟩ s =
      (match s.heap.sort (order.any s.heap.isTrue) (s.heap.items id).toList with
        | .ok sorted => do
            Eval.modifyList id fun _ => sorted.toArray
            return .void
        | .error pair => Operation.refuse pair.left .less pair.right : Eval Value) s := by
  have run : isaayos.perform ⟨name, .list id :: order.toList⟩ s =
      (do
        let items ← Call.sorted (order.any s.heap.isTrue) (s.heap.items id).toList
        Eval.modifyList id fun _ => items
        return .void : Eval Value) s := by
    cases order <;> rfl
  rw [run]
  simp only [Call.sorted, Eval.heap, bind, EStateM.bind]
  cases s.heap.sort (order.any s.heap.isTrue) (s.heap.items id).toList <;> rfl

end Builtin

variable {s : Store} {id : ListId} {builtin : Builtin} {args items : List Value} {value : Value}

namespace Builtin

variable (name : String) (x y z : Value) (s : Store)

end Builtin

namespace Native

def inPlace : List String := ["palitan", "idagdag", "tanggalan", "isaayos", "baligtarin"]

variable {f : Native} {name : String}

theorem call_of_accepts (accepted : f.arity.accepts args.length = true) (s : Store) :
    f.call args s = f.builtin.perform ⟨f.name, args⟩ s := by
  refine run_bind_of_ok (x := f.arity.check f.name args.length) (a := ()) ?_
  rw [Arity.check, if_pos accepted]
  rfl

end Native

/-! ## Reading elements -/

theorem Indexing.Denotes.lt {length position : Nat} {i : Int} (denotes : Denotes length i position) :
    position < length := by
  unfold Denotes at denotes
  split at denotes <;> omega

section
variable {env : Environment} {target : Name} {position : Expr} {span : Span} {index : Value}
  {mid next : Store}

end

end Salita
