import Salita.Proofs.Builtin.Unordered
import Salita.Proofs.Evaluation.Comparison
import Salita.Proofs.Value.Comparable

namespace Salita.Sort

variable {P : Value → Value → Prop} {items rest : List Value} {best candidate v : Value}

/-- The value comes before all elements in front of it, and none behind it comes before the value. -/
def Foremost (P : Value → Value → Prop) (items : List Value) (v : Value) : Prop :=
  ∃ front back, items = front ++ v :: back ∧ (∀ x ∈ front, P v x) ∧ ∀ x ∈ back, ¬ P x v

theorem Foremost.not_before (weak : WeaklyOrders P items) (foremost : Foremost P items v) :
    ∀ x ∈ items, ¬ P x v := by
  obtain ⟨front, back, rfl, ahead, behind⟩ := foremost
  have inside : v ∈ front ++ v :: back := List.mem_append_right _ List.mem_cons_self
  intro x member first
  rcases List.mem_append.1 member with before | after
  · exact weak.irrefl inside (weak.trans ⟨v, inside⟩ ⟨x, member⟩ ⟨v, inside⟩ (ahead x before) first)
  · rcases List.mem_cons.1 after with rfl | after
    · exact weak.irrefl inside first
    · exact behind x after first

theorem Foremost.of_replaced (weak : WeaklyOrders P items) (inside : best :: candidate :: rest ⊆ items)
    (replaced : P candidate best) (foremost : Foremost P (candidate :: rest) v) :
    Foremost P (best :: candidate :: rest) v := by
  obtain ⟨front, back, split, ahead, behind⟩ := foremost
  have first : P v best := by
    cases front with
    | nil =>
        cases split
        exact replaced
    | cons x front =>
        have member : v ∈ candidate :: rest := by
          rw [split]
          exact List.mem_append_right _ List.mem_cons_self
        cases split
        exact weak.trans ⟨v, inside (.tail _ member)⟩ ⟨candidate, inside (by simp)⟩
          ⟨best, inside (by simp)⟩ (ahead candidate List.mem_cons_self) replaced
  exact ⟨best :: front, back, by rw [split]; rfl, List.forall_mem_cons.2 ⟨first, ahead⟩, behind⟩

theorem Foremost.of_kept (weak : WeaklyOrders P items) (inside : best :: candidate :: rest ⊆ items)
    (kept : ¬ P candidate best) (foremost : Foremost P (best :: rest) v) :
    Foremost P (best :: candidate :: rest) v := by
  obtain ⟨front, back, split, ahead, behind⟩ := foremost
  cases front with
  | nil =>
      cases split
      exact ⟨[], candidate :: rest, rfl, nofun, List.forall_mem_cons.2 ⟨kept, behind⟩⟩
  | cons x front =>
      cases split
      obtain ⟨first, ahead⟩ := List.forall_mem_cons.1 ahead
      have beats : P v candidate := by
        -- Otherwise `v` would be no better than the candidate, and so no better than `best`.
        by_contra level
        exact weak.mayFollow_trans (inside (by simp)) (inside (by simp)) (inside (by simp)) kept
          level first
      exact ⟨best :: candidate :: front, back, rfl,
        List.forall_mem_cons.2 ⟨first, List.forall_mem_cons.2 ⟨beats, ahead⟩⟩, behind⟩

end Salita.Sort

namespace Salita

namespace Heap

variable {heap : Heap} {descending : Bool} {items sorted : List Value} {v : Value}

theorem weaklyOrders_precedes (weak : Sort.WeaklyOrders (heap.Precedes false) items)
    (descending : Bool) : Sort.WeaklyOrders (heap.Precedes descending) items := by
  cases descending with
  | false => exact weak
  | true => exact {
      irrefl := fun x => weak.irrefl x.2
      trans := fun x y z first second => weak.trans z y x second first
      incomp_trans := fun x y z first second =>
        (weak.incomp_trans x y z first.symm second.symm).symm }

theorem Arranges.head? (arranges : heap.Arranges descending items sorted)
    (weak : Sort.WeaklyOrders (heap.Precedes descending) items)
    (foremost : Sort.Foremost (heap.Precedes descending) items v) : sorted.head? = some v := by
  classical
  have least := foremost.not_before weak
  obtain ⟨front, back, rfl, ahead, -⟩ := foremost
  have inside : v ∈ front ++ v :: back := List.mem_append_right _ List.mem_cons_self
  -- The elements that are level with `v` stay in their order, and `v` is the first of them.
  let keep (x : Value) : Bool :=
    decide (¬ heap.Precedes descending x v ∧ ¬ heap.Precedes descending v x)
  have level : Sort.Level (heap.Precedes descending) (front ++ v :: back) keep := by
    intro x hx y hy keptX keptY
    exact weak.mayFollow_trans hy inside hx (of_decide_eq_true keptY).2 (of_decide_eq_true keptX).1
  have keptSelf : keep v := decide_eq_true ⟨weak.irrefl inside, weak.irrefl inside⟩
  have dropped : front.filter keep = [] := by
    refine List.filter_eq_nil_iff.2 fun x member kept => ?_
    exact (of_decide_eq_true kept).2 (ahead x member)
  have same := arranges.stable weak keep level
  rw [List.filter_append, dropped, List.nil_append, List.filter_cons_of_pos keptSelf] at same
  have ordered := arranges.pairwise weak
  have member := arranges.perm.mem_iff.2 inside
  cases sorted with
  | nil => cases member
  | cons x sorted =>
      have kept : keep x := by
        refine decide_eq_true ⟨least x (arranges.perm.subset List.mem_cons_self), fun first => ?_⟩
        rcases List.mem_cons.1 member with rfl | behind
        · exact weak.irrefl inside first
        · exact List.rel_of_pairwise_cons ordered behind first
      rw [List.filter_cons_of_pos kept, List.cons.injEq] at same
      rw [same.1, List.head?_cons]

end Heap

def Store.refusal (s : Store) (op : BinaryOp) (pair : Incomparable) : EvalError where
  cause := .invalidBinary (s.heap.text pair.left) op (s.heap.text pair.right) pair.left.type
    pair.right.type

namespace Call

variable {op : BinaryOp} {wanted : Ordering} {best candidate v : Value} {rest : List Value}
  {s next : Store}

theorem select_cons :
    select op wanted best (candidate :: rest) s =
      match s.heap.order candidate best with
      | .ok result => select op wanted (if result = some wanted then candidate else best) rest s
      | .error pair => .error (s.refusal op pair) s := by
  cases ordered : s.heap.order candidate best with
  | ok result =>
      refine (run_bind_of_ok (Operation.order_of_ok ordered)).trans ?_
      dsimp only
      split <;> rfl
  | error pair =>
      refine bind_eq_error.2 (.inl ?_)
      simp only [Operation.order, Eval.heap, bind, EStateM.bind, ordered]
      rfl

theorem exists_select (comparable : (best :: rest).Pairwise s.heap.Comparable) (op : BinaryOp)
    (wanted : Ordering) : ∃ v, select op wanted best rest s = .ok v s := by
  induction rest generalizing best with
  | nil => exact ⟨best, rfl⟩
  | cons candidate rest ih =>
      obtain ⟨related, others⟩ := List.pairwise_cons.1 comparable
      obtain ⟨result, ordered⟩ := symm_of s.heap.Comparable (related candidate List.mem_cons_self)
      simp only [select_cons, ordered]
      split
      · exact ih others
      · refine ih (List.pairwise_cons.2 ⟨fun x member => related x (.tail _ member), ?_⟩)
        exact (List.pairwise_cons.1 others).2

theorem foremost_of_select {P : Value → Value → Prop} {items : List Value}
    (decides : ∀ x y result, s.heap.order x y = .ok result → (result = some wanted ↔ P x y))
    (weak : Sort.WeaklyOrders P items) (inside : best :: rest ⊆ items)
    (done : select op wanted best rest s = .ok v next) :
    next = s ∧ Sort.Foremost P (best :: rest) v := by
  induction rest generalizing best with
  | nil =>
      cases done
      exact ⟨rfl, [], [], rfl, nofun, nofun⟩
  | cons candidate rest ih =>
      have withoutBest := List.subset_of_cons_subset inside
      have withoutCandidate : best :: rest ⊆ items :=
        List.cons_subset.2 ⟨inside List.mem_cons_self, List.subset_of_cons_subset withoutBest⟩
      rw [select_cons] at done
      split at done
      case h_2 => cases done
      case h_1 result ordered =>
        have meaning := decides candidate best result ordered
        split at done
        case isTrue replaced =>
          obtain ⟨same, foremost⟩ := ih withoutBest done
          exact ⟨same, foremost.of_replaced weak inside (meaning.1 replaced)⟩
        case isFalse kept =>
          obtain ⟨same, foremost⟩ := ih withoutCandidate done
          exact ⟨same, foremost.of_kept weak inside fun first => kept (meaning.2 first)⟩

end Call

theorem Heap.order_eq_wanted_iff {heap : Heap} {x y : Value} {result : Option Ordering}
    (descending : Bool) (ordered : heap.order x y = .ok result) :
    result = some (if descending then .gt else .lt) ↔ heap.Precedes descending x y := by
  cases descending with
  | false => simp [Precedes, ordered]
  | true =>
      rw [Precedes, if_pos rfl, if_pos rfl, heap.order_swap x y, ordered]
      cases result with
      | none => simp [mirror]
      | some order => cases order <;> simp [mirror]

def Heap.candidates? (heap : Heap) : List Value → Option (List Value)
  | [] => none
  | [value] => heap.elements? value
  | args => some args

section
variable {s : Store} {args items : List Value} {value : Value}

theorem Native.accepts_of_candidates (given : s.heap.candidates? args = some items) :
    (Arity.atLeast 1).accepts args.length := by
  have filled : args ≠ [] := by
    rintro rfl
    cases given
  exact decide_eq_true (List.length_pos_of_ne_nil filled)

def Call.choose (call : Call) (op : BinaryOp) (wanted : Ordering) : List Value → Eval Value
  | [] => call.refuse .emptySequence
  | best :: rest => select op wanted best rest

theorem Call.extreme_of_candidates (name : String) (op : BinaryOp) (wanted : Ordering)
    (given : s.heap.candidates? args = some items) :
    Call.extreme ⟨name, args⟩ op wanted s = Call.choose ⟨name, args⟩ op wanted items s := by
  match args with
  | [] => cases given
  | [single] =>
      cases single <;> cases given
      case list | str => rfl
  | first :: _ :: _ =>
      cases given
      cases first <;> rfl

theorem Builtin.perform_nakaayos (name : String) (given : s.heap.elements? value = some items) :
    nakaayos.perform ⟨name, [value]⟩ s =
      (match s.heap.sort false items with
        | .ok sorted => Eval.newList sorted.toArray
        | .error pair => Operation.refuse pair.left .less pair.right : Eval Value) s := by
  have run : nakaayos.perform ⟨name, [value]⟩ s =
      (do Eval.newList (← Call.sorted false items) : Eval Value) s := by
    cases value <;> cases given <;> rfl
  rw [run]
  simp only [Call.sorted, Eval.heap, bind, EStateM.bind]
  cases s.heap.sort false items <;> rfl

end

namespace Native

section
variable {s : Store} {args items sorted : List Value} {value : Value}

theorem call_extreme (f : Native) {op : BinaryOp} {wanted : Ordering} (arity : f.arity = .atLeast 1)
    (performs : ∀ call, f.builtin.perform call = call.extreme op wanted)
    (given : s.heap.candidates? args = some items) :
    f.call args s = Call.choose ⟨f.name, args⟩ op wanted items s := by
  have accepted : f.arity.accepts args.length := by
    rw [arity]
    exact accepts_of_candidates given
  rw [call_of_accepts accepted, performs, Call.extreme_of_candidates _ _ _ given]

theorem call_minimo {minimo : Native} (known : Registry.standard.get? "minimo" = some minimo)
    (given : s.heap.candidates? args = some items) :
    minimo.call args s = Call.choose ⟨"minimo", args⟩ .less .lt items s := by
  cases known
  exact call_extreme ⟨"minimo", .atLeast 1, .minimo⟩ rfl (fun _ => rfl) given

theorem call_maximo {maximo : Native} (known : Registry.standard.get? "maximo" = some maximo)
    (given : s.heap.candidates? args = some items) :
    maximo.call args s = Call.choose ⟨"maximo", args⟩ .greater .gt items s := by
  cases known
  exact call_extreme ⟨"maximo", .atLeast 1, .maximo⟩ rfl (fun _ => rfl) given

theorem call_nakaayos_of_elements {nakaayos : Native}
    (known : Registry.standard.get? "nakaayos" = some nakaayos)
    (given : s.heap.elements? value = some items) (done : s.heap.sort false items = .ok sorted) :
    ∃ id next, nakaayos.call [value] s = .ok (.list id) next ∧
      next.heap.items id = sorted.toArray := by
  cases known
  rw [call_of_accepts (f := ⟨"nakaayos", .exact 1, .nakaayos⟩) rfl,
    Builtin.perform_nakaayos _ given, done]
  exact ⟨_, _, rfl, s.heap.items_alloc_self _⟩

theorem call_isaayos_of_items {isaayos : Native} {id : ListId}
    (known : Registry.standard.get? "isaayos" = some isaayos)
    (done : s.heap.sort true (s.heap.items id).toList = .ok sorted) :
    ∃ next, isaayos.call [.list id, .bool true] s = .ok .void next ∧
      next.heap.items id = sorted.toArray :=
  ⟨_, call_isaayos known (some (.bool true)) done, Heap.items_set_sorted done⟩

end

end Native

/-- `minimo` and `maximo` give the foremost candidate, in increasing and in decreasing order, and the
candidates begin with it when they are sorted. -/
structure Store.ExtremesLead (s : Store) (args items : List Value) : Prop where
  least : ∃ v, Sort.Foremost (s.heap.Precedes false) items v ∧
    (∀ minimo, Registry.standard.get? "minimo" = some minimo → minimo.call args s = .ok v s) ∧
    ∀ nakaayos, Registry.standard.get? "nakaayos" = some nakaayos →
      ∀ value, s.heap.elements? value = some items → ∃ id next,
        nakaayos.call [value] s = .ok (.list id) next ∧ (next.heap.items id)[0]? = some v
  greatest : ∃ v, Sort.Foremost (s.heap.Precedes true) items v ∧
    (∀ maximo, Registry.standard.get? "maximo" = some maximo → maximo.call args s = .ok v s) ∧
    ∀ isaayos, Registry.standard.get? "isaayos" = some isaayos →
      ∀ id, (s.heap.items id).toList = items → ∃ next,
        isaayos.call [.list id, .bool true] s = .ok .void next ∧
          (next.heap.items id)[0]? = some v

section
variable {s : Store} {args items : List Value}

theorem Store.exists_foremost (descending : Bool) (op : BinaryOp) (call : Call)
    (filled : items ≠ []) (comparable : items.Pairwise s.heap.Comparable)
    (weak : Sort.WeaklyOrders (s.heap.Precedes false) items) :
    ∃ v sorted, Sort.Foremost (s.heap.Precedes descending) items v ∧
      call.choose op (if descending then .gt else .lt) items s = .ok v s ∧
      s.heap.sort descending items = .ok sorted ∧ sorted.toArray[0]? = some v := by
  obtain ⟨best, rest, rfl⟩ := List.exists_cons_of_ne_nil filled
  obtain ⟨v, chosen⟩ := Call.exists_select comparable op (if descending then .gt else .lt)
  obtain ⟨sorted, done⟩ := Heap.exists_sort comparable descending
  have weak := Heap.weaklyOrders_precedes weak descending
  obtain ⟨-, foremost⟩ := Call.foremost_of_select
    (fun _ _ _ => Heap.order_eq_wanted_iff descending) weak (List.Subset.refl _) chosen
  have leads := (Heap.arranges_of_sort done).head? weak foremost
  refine ⟨v, sorted, foremost, chosen, done, ?_⟩
  rw [List.getElem?_toArray, ← List.head?_eq_getElem?, leads]

theorem Store.extremesLead (given : s.heap.candidates? args = some items) (filled : items ≠ [])
    (comparable : items.Pairwise s.heap.Comparable)
    (weak : Sort.WeaklyOrders (s.heap.Precedes false) items) : s.ExtremesLead args items where
  least := by
    obtain ⟨v, sorted, foremost, chosen, done, leads⟩ :=
      exists_foremost false .less ⟨"minimo", args⟩ filled comparable weak
    refine ⟨v, foremost, fun minimo known => (Native.call_minimo known given).trans chosen, ?_⟩
    intro nakaayos known value elements
    obtain ⟨id, next, run, placed⟩ := Native.call_nakaayos_of_elements known elements done
    exact ⟨id, next, run, placed ▸ leads⟩
  greatest := by
    obtain ⟨v, sorted, foremost, chosen, done, leads⟩ :=
      exists_foremost true .greater ⟨"maximo", args⟩ filled comparable weak
    refine ⟨v, foremost, fun maximo known => (Native.call_maximo known given).trans chosen, ?_⟩
    rintro isaayos known id rfl
    obtain ⟨next, run, placed⟩ := Native.call_isaayos_of_items known done
    exact ⟨next, run, placed ▸ leads⟩

end

/-- Where the elements can be compared and are in a strict weak order, the least is what `nakaayos`
puts in front, and the greatest is what `isaayos` puts in front in decreasing order. This holds of
the elements of a list, of several arguments, and of the characters of any text. -/
theorem Native.call_extremes (s : Store) :
    (∀ args items, s.heap.candidates? args = some items → items ≠ [] →
      items.Pairwise s.heap.Comparable → Sort.WeaklyOrders (s.heap.Precedes false) items →
        s.ExtremesLead args items) ∧
    ∀ text : String, text ≠ "" → s.ExtremesLead [.str text] (Value.characters text) := by
  constructor
  · intro args items given filled comparable weak
    exact Store.extremesLead given filled comparable weak
  · intro text filled
    have uniform : ∀ x ∈ Value.characters text, x.type = .str := by
      simp [Value.characters, Value.type]
    have kinds : ∀ x ∈ Value.characters text, x.kind? = some .text := by
      simp [Value.characters, Value.kind?]
    refine Store.extremesLead rfl (by simpa [Value.characters] using filled) ?_
      (Heap.weaklyOrders_of_type (by decide) uniform)
    refine List.pairwise_of_forall_mem_list fun x hx y hy => ?_
    exact (Heap.comparable_iff (.inl (by simp [uniform x hx]))).2 ⟨.text, kinds x hx, kinds y hy⟩

theorem Native.call_extremes_equal_numbers :
    ∃ (minimo maximo nakaayos isaayos : Native) (s up down : Store) (one three : Value),
      one = .float (Float.ofBits 0x3FF0000000000000) ∧
      three = .float (Float.ofBits 0x4008000000000000) ∧
      Registry.standard.get? "minimo" = some minimo ∧
      Registry.standard.get? "maximo" = some maximo ∧
      Registry.standard.get? "nakaayos" = some nakaayos ∧
      Registry.standard.get? "isaayos" = some isaayos ∧
      s.heap.lists = #[#[.int 2, one, .int 1, .int 3, three]] ∧
      s.ExtremesLead [.list ⟨0⟩] (s.heap.items ⟨0⟩).toList ∧
      s.ExtremesLead (s.heap.items ⟨0⟩).toList (s.heap.items ⟨0⟩).toList ∧
      minimo.call [.list ⟨0⟩] s = .ok one s ∧ maximo.call [.list ⟨0⟩] s = .ok (.int 3) s ∧
      nakaayos.call [.list ⟨0⟩] s = .ok (.list ⟨1⟩) up ∧
      up.heap.items ⟨1⟩ = #[one, .int 1, .int 2, .int 3, three] ∧
      isaayos.call [.list ⟨0⟩, .bool true] s = .ok .void down ∧
      down.heap.items ⟨0⟩ = #[.int 3, three, .int 2, one, .int 1] ∧
      s.ExtremesLead [.str "bab"] [.str "b", .str "a", .str "b"] := by
  let minimo : Native := ⟨"minimo", .atLeast 1, .minimo⟩
  let maximo : Native := ⟨"maximo", .atLeast 1, .maximo⟩
  let isaayos : Native := ⟨"isaayos", .range 1 2, .isaayos⟩
  let nakaayos : Native := ⟨"nakaayos", .exact 1, .nakaayos⟩
  let one : Value := .float (Float.ofBits 0x3FF0000000000000)
  let three : Value := .float (Float.ofBits 0x4008000000000000)
  let items : List Value := [.int 2, one, .int 1, .int 3, three]
  let ascending : Array Value := #[one, .int 1, .int 2, .int 3, three]
  let descending : Array Value := #[.int 3, three, .int 2, one, .int 1]
  let s : Store := { heap := ⟨#[items.toArray]⟩ }
  let up : Store := { heap := ⟨#[items.toArray, ascending]⟩ }
  let down : Store := { heap := ⟨#[descending]⟩ }
  have comparable : items.Pairwise s.heap.Comparable := by
    refine List.pairwise_of_forall_mem_list fun x hx y hy => ?_
    have kinds : ∀ z ∈ items, z.type ≠ .list ∧ z.kind? = some .number := by decide
    exact (Heap.comparable_iff (.inl (kinds x hx).1)).2 ⟨.number, (kinds x hx).2, (kinds y hy).2⟩
  have weak : Sort.WeaklyOrders (s.heap.Precedes false) items :=
    Heap.weaklyOrders_of_divides (by decide +kernel)
  obtain ⟨leads, texts⟩ := Native.call_extremes s
  have least : minimo.call [.list ⟨0⟩] s = .ok one s := by
    with_unfolding_all rfl
  have greatest : maximo.call [.list ⟨0⟩] s = .ok (.int 3) s := by
    with_unfolding_all rfl
  have apart : nakaayos.call [.list ⟨0⟩] s = .ok (.list ⟨1⟩) up :=
    Native.call_nakaayos rfl (by decide +kernel)
  have inPlace : isaayos.call [.list ⟨0⟩, .bool true] s = .ok .void down :=
    Native.call_isaayos rfl (some (.bool true)) (by decide +kernel)
  exact ⟨minimo, maximo, nakaayos, isaayos, s, up, down, one, three, rfl, rfl, rfl, rfl, rfl, rfl, rfl,
    leads _ items rfl nofun comparable weak, leads items items rfl nofun comparable weak, least,
    greatest, apart, rfl, inPlace, rfl, texts "bab" (by decide)⟩

end Salita
