import Salita.Proofs.Builtin.Extremes

namespace Salita

inductive Heap.Ranks (heap : Heap) : String → BinaryOp → List Value → List Value → Prop
  | isaayos (id : ListId) (order : Option Value) :
      heap.Ranks "isaayos" .less (.list id :: order.toList) (heap.items id).toList
  | nakaayos {value : Value} {items : List Value} (given : heap.elements? value = some items) :
      heap.Ranks "nakaayos" .less [value] items
  | maximo {args items : List Value} (given : heap.candidates? args = some items) :
      heap.Ranks "maximo" .greater args items
  | minimo {args items : List Value} (given : heap.candidates? args = some items) :
      heap.Ranks "minimo" .less args items

/-- The computation succeeds if the elements are of one kind, or else it refuses two that are not. -/
inductive Eval.RefusesMixed (x : Eval Value) (s : Store) (op : BinaryOp) (items : List Value) : Prop
  | refused {left right : Value} (mixed : Value.Mixed items) (first : left ∈ items)
      (second : right ∈ items) (differ : ¬ left.SameKind right)
      (failed : x s = .error (s.refusal op ⟨left, right⟩) s)
  | succeeded {value : Value} {next : Store} (plain : ¬ Value.Mixed items)
      (done : x s = .ok value next)

section
variable {x : Eval Value} {s : Store} {items : List Value}

theorem Eval.refusesMixed_of_sort (descending : Bool) (scalars : ∀ x ∈ items, x.type ≠ .list)
    (success : ∀ sorted, s.heap.sort descending items = .ok sorted → ∃ value next,
      x s = .ok value next)
    (failure : ∀ pair, s.heap.sort descending items = .error pair →
      x s = .error (s.refusal .less pair) s) : x.RefusesMixed s .less items := by
  cases done : s.heap.sort descending items with
  | ok sorted =>
      obtain ⟨value, next, run⟩ := success sorted done
      exact .succeeded ((Heap.exists_sort_iff scalars).1 ⟨sorted, done⟩) run
  | error pair =>
      obtain ⟨first, second, differ⟩ := Heap.sort_eq_error scalars done
      have mixed : Value.Mixed items := by
        by_contra plain
        obtain ⟨sorted, other⟩ : ∃ sorted, s.heap.sort descending items = .ok sorted :=
          (Heap.exists_sort_iff scalars).2 plain
        rw [done] at other
        cases other
      exact .refused mixed first second differ (failure pair done)

end

theorem Value.mixed_cons_cons_iff {best candidate : Value} (same : candidate.SameKind best)
    (rest : List Value) :
    (Mixed (best :: candidate :: rest) ↔ Mixed (candidate :: rest)) ∧
      (Mixed (best :: candidate :: rest) ↔ Mixed (best :: rest)) := by
  have absorb {x y : Value} (related : x.SameKind y) :
      (y :: x :: rest).Pairwise SameKind ↔ (x :: rest).Pairwise SameKind := by
    refine ⟨List.Pairwise.of_cons, fun pairwise => List.pairwise_cons.2 ⟨?_, pairwise⟩⟩
    refine List.forall_mem_cons.2 ⟨symm_of SameKind related, fun z member => ?_⟩
    exact trans_of SameKind (symm_of SameKind related) (List.rel_of_pairwise_cons pairwise member)
  have swapped : (best :: candidate :: rest).Pairwise SameKind ↔
      (candidate :: best :: rest).Pairwise SameKind :=
    (List.Perm.swap candidate best rest).pairwise_iff fun related => symm_of SameKind related
  constructor
  · rw [← not_iff_not, ← pairwise_sameKind_iff, ← pairwise_sameKind_iff, absorb same]
  · rw [← not_iff_not, ← pairwise_sameKind_iff, ← pairwise_sameKind_iff, swapped,
      absorb (symm_of SameKind same)]

theorem Eval.RefusesMixed.of_part {x y : Eval Value} {s : Store} {op : BinaryOp}
    {part items : List Value} (outcome : y.RefusesMixed s op part) (same : x s = y s)
    (mixed : Value.Mixed items ↔ Value.Mixed part) (inside : part ⊆ items) :
    x.RefusesMixed s op items := by
  cases outcome with
  | refused partMixed first second differ failed =>
      exact .refused (mixed.2 partMixed) (inside first) (inside second) differ (same.trans failed)
  | succeeded plain done => exact .succeeded (mixed.not.2 plain) (same.trans done)

theorem Call.refusesMixed_select {op : BinaryOp} {wanted : Ordering} {s : Store} {best : Value}
    {rest : List Value} (scalars : ∀ x ∈ best :: rest, x.type ≠ .list) :
    (select op wanted best rest).RefusesMixed s op (best :: rest) := by
  induction rest generalizing best with
  | nil => exact .succeeded (fun mixed => absurd mixed.1 (by simp)) rfl
  | cons candidate rest ih =>
      obtain ⟨bestScalar, scalars⟩ := List.forall_mem_cons.1 scalars
      have apart : candidate.type ≠ .list ∨ best.type ≠ .list := .inr bestScalar
      have inside : candidate ∈ best :: candidate :: rest := .tail _ List.mem_cons_self
      cases ordered : s.heap.order candidate best with
      | error pair =>
          obtain ⟨differ, rfl⟩ := Heap.order_eq_error apart ordered
          have mixed : Value.Mixed (best :: candidate :: rest) := by
            refine ⟨by simp, fun ⟨kind, uniform⟩ => differ ⟨kind, uniform candidate inside, ?_⟩⟩
            exact uniform best List.mem_cons_self
          exact .refused mixed inside List.mem_cons_self differ (by rw [select_cons, ordered])
      | ok result =>
          -- Either of the two stands for both: what goes on is of one kind exactly if all is.
          have related := (Heap.comparable_iff apart).1 ⟨result, ordered⟩
          obtain ⟨replaced, kept⟩ := Value.mixed_cons_cons_iff related rest
          by_cases first : result = some wanted
          · refine (ih scalars).of_part ?_ replaced (List.subset_cons_self ..)
            simp only [select_cons, ordered, if_pos first]
          · have others : ∀ x ∈ best :: rest, x.type ≠ .list :=
              List.forall_mem_cons.2 ⟨bestScalar, (List.forall_mem_cons.1 scalars).2⟩
            refine (ih others).of_part ?_ kept
              (List.cons_subset_cons best (List.subset_cons_self ..))
            simp only [select_cons, ordered, if_neg first]

namespace Native

def extremes : List String := ["maximo", "minimo"]

variable {f : Native} {name : String} {op : BinaryOp} {s : Store} {args items : List Value}

theorem call_of_empty (known : Registry.standard.get? name = some f)
    (ranks : s.heap.Ranks name op args []) (member : name ∈ extremes) :
    f.call args s = .error { cause := .invalidArgument name .emptySequence } s := by
  generalize empty : ([] : List Value) = items at ranks
  cases ranks with
  | isaayos | nakaayos => simp [extremes] at member
  | maximo given =>
      subst empty
      rw [call_maximo known given]
      rfl
  | minimo given =>
      subst empty
      rw [call_minimo known given]
      rfl

theorem call_isaayos_of_error {isaayos : Native} {id : ListId} {pair : Incomparable}
    (known : Registry.standard.get? "isaayos" = some isaayos) (order : Option Value)
    (failed : s.heap.sort (order.any s.heap.isTrue) (s.heap.items id).toList = .error pair) :
    isaayos.call (.list id :: order.toList) s = .error (s.refusal .less pair) s := by
  cases known
  have accepted : (Arity.range 1 2).accepts (Value.list id :: order.toList).length := by
    cases order <;> rfl
  rw [call_of_accepts (f := ⟨"isaayos", .range 1 2, .isaayos⟩) accepted, Builtin.perform_isaayos,
    failed]
  rfl

theorem call_nakaayos_of_error {nakaayos : Native} {value : Value} {pair : Incomparable}
    (known : Registry.standard.get? "nakaayos" = some nakaayos)
    (given : s.heap.elements? value = some items) (failed : s.heap.sort false items = .error pair) :
    nakaayos.call [value] s = .error (s.refusal .less pair) s := by
  cases known
  rw [call_of_accepts (f := ⟨"nakaayos", .exact 1, .nakaayos⟩) rfl,
    Builtin.perform_nakaayos _ given, failed]
  rfl

theorem refusesMixed_call (known : Registry.standard.get? name = some f)
    (ranks : s.heap.Ranks name op args items) (scalars : ∀ x ∈ items, x.type ≠ .list)
    (filled : name ∈ extremes → items ≠ []) :
    Eval.RefusesMixed (f.call args) s op items := by
  cases ranks with
  | isaayos id order =>
      refine Eval.refusesMixed_of_sort (order.any s.heap.isTrue) scalars ?_ ?_
      · intro sorted done
        exact ⟨_, _, call_isaayos known order done⟩
      · exact fun pair => call_isaayos_of_error known order
  | nakaayos given =>
      refine Eval.refusesMixed_of_sort false scalars ?_ ?_
      · intro sorted done
        obtain ⟨id, next, run, -⟩ := call_nakaayos_of_elements known given done
        exact ⟨_, _, run⟩
      · exact fun pair => call_nakaayos_of_error known given
  | maximo given =>
      obtain ⟨best, rest, rfl⟩ := List.exists_cons_of_ne_nil (filled (by decide))
      have run := call_maximo known given
      rw [Call.choose] at run
      exact (Call.refusesMixed_select scalars).of_part run .rfl (List.Subset.refl _)
  | minimo given =>
      obtain ⟨best, rest, rfl⟩ := List.exists_cons_of_ne_nil (filled (by decide))
      have run := call_minimo known given
      rw [Call.choose] at run
      exact (Call.refusesMixed_select scalars).of_part run .rfl (List.Subset.refl _)

theorem call_cases (known : Registry.standard.get? name = some f)
    (ranks : s.heap.Ranks name op args items) (scalars : ∀ x ∈ items, x.type ≠ .list) :
    (items = [] ∧ name ∈ extremes ∧
      f.call args s = .error { cause := .invalidArgument name .emptySequence } s) ∨
    (¬ (items = [] ∧ name ∈ extremes) ∧ Eval.RefusesMixed (f.call args) s op items) := by
  by_cases empty : items = [] ∧ name ∈ extremes
  · obtain ⟨rfl, member⟩ := empty
    exact .inl ⟨rfl, member, call_of_empty known ranks member⟩
  · refine .inr ⟨empty, refusesMixed_call known ranks scalars fun member none => ?_⟩
    exact empty ⟨none, member⟩

theorem exists_call_iff (known : Registry.standard.get? name = some f)
    (ranks : s.heap.Ranks name op args items) (scalars : ∀ x ∈ items, x.type ≠ .list) :
    (∃ value next, f.call args s = .ok value next) ↔
      ¬ (Value.Mixed items ∨ items = [] ∧ name ∈ extremes) := by
  rcases call_cases known ranks scalars with ⟨empty, member, failed⟩ | ⟨filled, outcome⟩
  · refine iff_of_false ?_ fun fits => fits (.inr ⟨empty, member⟩)
    rintro ⟨value, next, done⟩
    rw [failed] at done
    cases done
  · cases outcome with
    | refused mixed first second differ failed =>
        refine iff_of_false ?_ fun fits => fits (.inl mixed)
        rintro ⟨value, next, done⟩
        rw [failed] at done
        cases done
    | succeeded plain done =>
        exact iff_of_true ⟨_, _, done⟩ (not_or.2 ⟨plain, filled⟩)

end Native

theorem Eval.exists_error_iff {x : Eval Value} {s : Store} :
    (∃ e next, x s = .error e next) ↔ ¬ ∃ value next, x s = .ok value next := by
  cases x s <;> simp

theorem Value.Mixed.perm {items others : List Value} (perm : items.Perm others)
    (mixed : Mixed items) : Mixed others := by
  refine ⟨perm.length_eq ▸ mixed.1, fun ⟨kind, uniform⟩ => mixed.2 ⟨kind, fun x member => ?_⟩⟩
  exact uniform x (perm.subset member)

theorem Value.mixed_congr {items others : List Value} (perm : items.Perm others) :
    Mixed items ↔ Mixed others :=
  ⟨.perm perm, .perm perm.symm⟩

/-- The functions that rank elements, none of which is a list, fail on several that are not of one
kind: they refuse two of these. Besides, `maximo` and `minimo` fail where there is no element. Nothing
changes when they fail, and the order of the elements does not matter for whether they do. -/
theorem Native.call_fails_on_mixed (s : Store) (name : String) (op : BinaryOp) (f : Native)
    (args items : List Value) (known : Registry.standard.get? name = some f)
    (ranks : s.heap.Ranks name op args items) (scalars : ∀ x ∈ items, x.type ≠ .list) :
    ((∃ e next, f.call args s = .error e next) ↔
      Value.Mixed items ∨ items = [] ∧ name ∈ extremes) ∧
    (∀ e next, f.call args s = .error e next → next = s ∧
      ((∃ x ∈ items, ∃ y ∈ items, ¬ x.SameKind y ∧ e = s.refusal op ⟨x, y⟩) ∨
        items = [] ∧ e = { cause := .invalidArgument name .emptySequence })) ∧
    ∀ (t : Store) (args' others : List Value), t.heap.Ranks name op args' others →
      items.Perm others →
        ((∃ value next, f.call args s = .ok value next) ↔
          ∃ value next, f.call args' t = .ok value next) := by
  have succeeds := exists_call_iff known ranks scalars
  refine ⟨?_, ?_, ?_⟩
  · rw [Eval.exists_error_iff, succeeds, Classical.not_not]
  · intro e next failed
    rcases call_cases known ranks scalars with ⟨empty, -, refused⟩ | ⟨-, outcome⟩
    · rw [refused] at failed
      cases failed
      exact ⟨rfl, .inr ⟨empty, rfl⟩⟩
    · cases outcome with
      | refused mixed first second differ refused =>
          rw [refused] at failed
          cases failed
          exact ⟨rfl, .inl ⟨_, first, _, second, differ, rfl⟩⟩
      | succeeded plain done =>
          rw [done] at failed
          cases failed
  · intro t args' others ranks' perm
    have scalars' : ∀ x ∈ others, x.type ≠ .list := fun x member =>
      scalars x (perm.symm.subset member)
    have empty : items = [] ↔ others = [] := by
      rw [← List.length_eq_zero_iff, perm.length_eq, List.length_eq_zero_iff]
    rw [succeeds, exists_call_iff known ranks' scalars', Value.mixed_congr perm, empty]

theorem Native.call_fails_on_mixed_text :
    ∃ (isaayos maximo : Native) (s : Store),
      Registry.standard.get? "isaayos" = some isaayos ∧
      Registry.standard.get? "maximo" = some maximo ∧
      s.heap.lists = #[#[.int 3, .float Binary64.nan, .int 1, .str "a"],
        #[.str "a", .int 1, .float Binary64.nan, .int 3], #[.function maximo], #[]] ∧
      isaayos.call [.list ⟨0⟩] s = .error (s.refusal .less ⟨.str "a", .int 1⟩) s ∧
      maximo.call [.list ⟨0⟩] s = .error (s.refusal .greater ⟨.str "a", .int 3⟩) s ∧
      (∃ e next, isaayos.call [.list ⟨0⟩] s = .error e next) ∧
      (¬ ∃ value next, isaayos.call [.list ⟨1⟩, .bool true] s = .ok value next) ∧
      (¬ ∃ e next, isaayos.call [.list ⟨2⟩] s = .error e next) ∧
      ∃ e next, maximo.call [.list ⟨3⟩] s = .error e next := by
  let isaayos : Native := ⟨"isaayos", .range 1 2, .isaayos⟩
  let maximo : Native := ⟨"maximo", .atLeast 1, .maximo⟩
  let s : Store := { heap := ⟨#[#[.int 3, .float Binary64.nan, .int 1, .str "a"],
    #[.str "a", .int 1, .float Binary64.nan, .int 3], #[.function maximo], #[]]⟩ }
  obtain ⟨mixed, -, reordered⟩ := Native.call_fails_on_mixed s "isaayos" .less isaayos _ _ rfl
    (.isaayos ⟨0⟩ none) (by decide)
  obtain ⟨single, -, -⟩ := Native.call_fails_on_mixed s "isaayos" .less isaayos _ _ rfl
    (.isaayos ⟨2⟩ none) (by decide)
  obtain ⟨empty, -, -⟩ := Native.call_fails_on_mixed s "maximo" .greater maximo [.list ⟨3⟩] [] rfl
    (.maximo rfl) nofun
  have failed := mixed.2 (.inl (by decide))
  have behind := reordered s _ _ (.isaayos ⟨1⟩ (some (.bool true))) (List.reverse_perm _).symm
  have refused : isaayos.call [.list ⟨0⟩] s = .error (s.refusal .less ⟨.str "a", .int 1⟩) s :=
    Native.call_isaayos_of_error rfl none (by decide +kernel)
  exact ⟨isaayos, maximo, s, rfl, rfl, rfl, refused, by with_unfolding_all rfl, failed,
    behind.not.1 (Eval.exists_error_iff.1 failed), single.not.2 (by decide), empty.2 (by decide)⟩

end Salita
