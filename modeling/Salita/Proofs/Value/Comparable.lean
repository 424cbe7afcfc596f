import Salita.Proofs.Value.Sort

namespace Salita.Sort

variable {C : Value → Value → Prop} {before : Before}

theorem except_bind_eq_error {ε α β : Type} {x : Except ε α} {f : α → Except ε β} {e : ε} :
    (x >>= f) = .error e ↔ x = .error e ∨ ∃ a, x = .ok a ∧ f a = .error e := by
  cases x with
  | error d =>
      constructor
      · intro failed
        cases failed
        exact .inl rfl
      · rintro (failed | ⟨a, same, -⟩)
        · cases failed
          rfl
        · cases same
  | ok a =>
      constructor
      · exact fun failed => .inr ⟨a, rfl, failed⟩
      · rintro (failed | ⟨b, same, failed⟩)
        · cases failed
        · cases same
          exact failed

theorem append_of_takeBefore {item : Value} {right taken rest : List Value}
    (done : takeBefore before item right = .ok (taken, rest)) : taken ++ rest = right := by
  induction right generalizing taken rest with
  | nil =>
      cases done
      rfl
  | cons y right ih =>
      obtain ⟨answer, asked, done⟩ := except_bind_eq_ok.1 done
      cases answer with
      | false =>
          cases done
          rfl
      | true =>
          obtain ⟨⟨others, rest⟩, found, done⟩ := except_bind_eq_ok.1 done
          cases done
          rw [List.cons_append, ih found]

theorem perm_of_sortWithin {depth : Nat} {items sorted : List Value}
    (bound : items.length ≤ depth) (done : sortWithin before depth items = .ok sorted) :
    sorted.Perm items := by
  have decides : Decides before fun x y => before x y = .ok true := by
    intro x y answer asked
    simp only [asked, Except.ok.injEq]
  exact (Sorts.of_sortWithin decides bound done).perm

theorem length_halves {depth : Nat} {items : List Value} (long : ¬ items.length ≤ 1)
    (bound : items.length ≤ depth + 1) :
    (items.take (items.length / 2)).length ≤ depth ∧
      (items.drop (items.length / 2)).length ≤ depth := by
  rw [List.length_take, List.length_drop]
  omega

theorem exists_takeBefore {item : Value} {right : List Value}
    (answers : ∀ y ∈ right, ∃ answer, before y item = .ok answer) :
    ∃ taken rest, takeBefore before item right = .ok (taken, rest) := by
  induction right with
  | nil => exact ⟨[], [], rfl⟩
  | cons y right ih =>
      obtain ⟨answer, asked⟩ := answers y List.mem_cons_self
      cases answer with
      | false => exact ⟨[], y :: right, except_bind_eq_ok.2 ⟨false, asked, rfl⟩⟩
      | true =>
          obtain ⟨taken, rest, found⟩ := ih fun z member => answers z (.tail _ member)
          exact ⟨y :: taken, rest, except_bind_eq_ok.2
            ⟨true, asked, except_bind_eq_ok.2 ⟨(taken, rest), found, rfl⟩⟩⟩

theorem exists_merge {left right : List Value}
    (answers : ∀ x ∈ left, ∀ y ∈ right, ∃ answer, before y x = .ok answer) :
    ∃ result, merge before left right = .ok result := by
  induction left generalizing right with
  | nil => exact ⟨right, rfl⟩
  | cons item left ih =>
      obtain ⟨taken, rest, found⟩ := exists_takeBefore (answers item List.mem_cons_self)
      obtain rfl := append_of_takeBefore found
      obtain ⟨merged, merges⟩ := ih fun x inside y member =>
        answers x (.tail _ inside) y (List.mem_append_right taken member)
      exact ⟨taken ++ item :: merged, except_bind_eq_ok.2
        ⟨(taken, rest), found, except_bind_eq_ok.2 ⟨merged, merges, rfl⟩⟩⟩

theorem exists_sortWithin [Std.Symm C]
    (answers : ∀ x y, C x y → ∃ answer, before x y = .ok answer) {depth : Nat} {items : List Value}
    (bound : items.length ≤ depth) (pairwise : items.Pairwise C) :
    ∃ sorted, sortWithin before depth items = .ok sorted := by
  induction depth generalizing items with
  | zero => exact ⟨items, rfl⟩
  | succ depth ih =>
      unfold sortWithin
      split
      case isTrue => exact ⟨items, rfl⟩
      case isFalse long =>
        obtain ⟨frontBound, backBound⟩ := length_halves long bound
        rw [← List.take_append_drop (items.length / 2) items, List.pairwise_append] at pairwise
        obtain ⟨frontPairs, backPairs, across⟩ := pairwise
        obtain ⟨left, front⟩ := ih frontBound frontPairs
        obtain ⟨right, back⟩ := ih backBound backPairs
        obtain ⟨result, merged⟩ := exists_merge fun x inside y member =>
          answers y x (symm_of C (across x ((perm_of_sortWithin frontBound front).subset inside) y
            ((perm_of_sortWithin backBound back).subset member)))
        exact ⟨result, except_bind_eq_ok.2
          ⟨left, front, except_bind_eq_ok.2 ⟨right, back, merged⟩⟩⟩

theorem exists_error_of_takeBefore {item : Value} {right : List Value} {pair : Incomparable}
    (failed : takeBefore before item right = .error pair) :
    ∃ y ∈ right, before y item = .error pair := by
  induction right with
  | nil => cases failed
  | cons y right ih =>
      rcases except_bind_eq_error.1 failed with refused | ⟨answer, asked, failed⟩
      · exact ⟨y, List.mem_cons_self, refused⟩
      · cases answer with
        | false => cases failed
        | true =>
            rcases except_bind_eq_error.1 failed with failed | ⟨found, taken, failed⟩
            · obtain ⟨z, member, refused⟩ := ih failed
              exact ⟨z, .tail _ member, refused⟩
            · cases failed

theorem exists_error_of_merge {left right : List Value} {pair : Incomparable}
    (failed : merge before left right = .error pair) :
    ∃ x ∈ left, ∃ y ∈ right, before y x = .error pair := by
  induction left generalizing right with
  | nil => cases failed
  | cons item left ih =>
      rcases except_bind_eq_error.1 failed with stopped | ⟨⟨taken, rest⟩, found, merging⟩
      · exact ⟨item, List.mem_cons_self, exists_error_of_takeBefore stopped⟩
      · rcases except_bind_eq_error.1 merging with stopped | ⟨merged, merges, last⟩
        · obtain rfl := append_of_takeBefore found
          obtain ⟨x, inside, y, member, refused⟩ := ih stopped
          exact ⟨x, .tail _ inside, y, List.mem_append_right taken member, refused⟩
        · cases last

theorem exists_error_of_sortWithin {depth : Nat} {items : List Value} {pair : Incomparable}
    (bound : items.length ≤ depth) (failed : sortWithin before depth items = .error pair) :
    ∃ x ∈ items, ∃ y ∈ items, before x y = .error pair := by
  induction depth generalizing items with
  | zero => cases failed
  | succ depth ih =>
      unfold sortWithin at failed
      split at failed
      case isTrue => cases failed
      case isFalse long =>
        obtain ⟨frontBound, backBound⟩ := length_halves long bound
        have frontInside := List.take_subset (items.length / 2) items
        have backInside := List.drop_subset (items.length / 2) items
        rcases except_bind_eq_error.1 failed with failed | ⟨left, front, failed⟩
        · obtain ⟨x, inside, y, member, refused⟩ := ih frontBound failed
          exact ⟨x, frontInside inside, y, frontInside member, refused⟩
        · rcases except_bind_eq_error.1 failed with failed | ⟨right, back, failed⟩
          · obtain ⟨x, inside, y, member, refused⟩ := ih backBound failed
            exact ⟨x, backInside inside, y, backInside member, refused⟩
          · obtain ⟨x, inside, y, member, refused⟩ := exists_error_of_merge failed
            exact ⟨y, backInside ((perm_of_sortWithin backBound back).subset member), x,
              frontInside ((perm_of_sortWithin frontBound front).subset inside), refused⟩

theorem pairwise_of_short {items : List Value} (short : items.length ≤ 1) : items.Pairwise C := by
  match items with
  | [] => exact .nil
  | [x] => exact List.pairwise_singleton C x
  | _ :: _ :: _ => simp at short

theorem pairwise_append_of_rel [Std.Symm C] [IsTrans Value C] {front back : List Value}
    {item y : Value} (frontPairs : front.Pairwise C) (backPairs : back.Pairwise C)
    (inside : item ∈ front) (member : y ∈ back) (related : C item y) :
    (front ++ back).Pairwise C := by
  have toItem {x : Value} (hx : x ∈ front) : C x item := by
    by_cases same : x = item
    · rw [same]
      exact trans_of C related (symm_of C related)
    · exact frontPairs.forall hx inside same
  have fromY {z : Value} (hz : z ∈ back) : C y z := by
    by_cases same : y = z
    · rw [← same]
      exact trans_of C (symm_of C related) related
    · exact backPairs.forall member hz same
  refine List.pairwise_append.2 ⟨frontPairs, backPairs, fun x hx z hz => ?_⟩
  exact trans_of C (toItem hx) (trans_of C related (fromY hz))

theorem exists_answer_of_merge {item y : Value} {left right result : List Value}
    (done : merge before (item :: left) (y :: right) = .ok result) :
    ∃ answer, before y item = .ok answer := by
  obtain ⟨found, taken, -⟩ := except_bind_eq_ok.1 done
  obtain ⟨answer, asked, -⟩ := except_bind_eq_ok.1 taken
  exact ⟨answer, asked⟩

theorem pairwise_of_sortWithin [Std.Symm C] [IsTrans Value C] {depth : Nat}
    {items sorted : List Value}
    (compared : ∀ x ∈ items, ∀ y ∈ items, ∀ answer, before x y = .ok answer → C x y)
    (bound : items.length ≤ depth) (done : sortWithin before depth items = .ok sorted) :
    items.Pairwise C := by
  induction depth generalizing items sorted with
  | zero =>
      exact pairwise_of_short (by omega)
  | succ depth ih =>
      unfold sortWithin at done
      split at done
      case isTrue short => exact pairwise_of_short short
      case isFalse long =>
        obtain ⟨left, front, done⟩ := except_bind_eq_ok.1 done
        obtain ⟨right, back, done⟩ := except_bind_eq_ok.1 done
        obtain ⟨frontBound, backBound⟩ := length_halves long bound
        have frontInside := List.take_subset (items.length / 2) items
        have backInside := List.drop_subset (items.length / 2) items
        have frontPairs := ih (fun x hx y hy => compared x (frontInside hx) y (frontInside hy))
          frontBound front
        have backPairs := ih (fun x hx y hy => compared x (backInside hx) y (backInside hy))
          backBound back
        have leftPerm := perm_of_sortWithin frontBound front
        have rightPerm := perm_of_sortWithin backBound back
        have leftPos : 0 < left.length := by
          rw [leftPerm.length_eq, List.length_take]
          omega
        have rightPos : 0 < right.length := by
          rw [rightPerm.length_eq, List.length_drop]
          omega
        -- All of the one part is related, and all of the other, and merging compares an element of the
        -- one with one of the other.
        obtain ⟨item, left, rfl⟩ := List.exists_cons_of_length_pos leftPos
        obtain ⟨y, right, rfl⟩ := List.exists_cons_of_length_pos rightPos
        have inside := leftPerm.subset List.mem_cons_self
        have member := rightPerm.subset List.mem_cons_self
        obtain ⟨answer, asked⟩ := exists_answer_of_merge done
        have related := compared y (backInside member) item (frontInside inside) answer asked
        rw [← List.take_append_drop (items.length / 2) items]
        exact pairwise_append_of_rel frontPairs backPairs inside member (symm_of C related)

end Salita.Sort

namespace Salita

inductive Value.Kind where
  | number
  | text
  | truth
deriving DecidableEq

namespace Value

def kind? : Value → Option Kind
  | .int _ | .float _ => some .number
  | .str _ => some .text
  | .bool _ => some .truth
  | .list _ | .function _ | .file _ | .void => none

def SameKind (x y : Value) : Prop := ∃ kind, x.kind? = some kind ∧ y.kind? = some kind

def Mixed (items : List Value) : Prop :=
  2 ≤ items.length ∧ ¬ ∃ kind, ∀ x ∈ items, x.kind? = some kind

instance : Std.Symm SameKind where
  symm := by
    rintro x y ⟨kind, left, right⟩
    exact ⟨kind, right, left⟩

instance : IsTrans Value SameKind where
  trans := by
    rintro x y z ⟨kind, left, middle⟩ ⟨other, middle', right⟩
    rw [middle] at middle'
    cases middle'
    exact ⟨kind, left, right⟩

instance : DecidableRel SameKind := fun x y =>
  decidable_of_iff (x.kind? = y.kind? ∧ y.kind? ≠ none) (by
    rw [SameKind, Option.ne_none_iff_exists']
    constructor
    · rintro ⟨same, kind, right⟩
      exact ⟨kind, same.trans right, right⟩
    · rintro ⟨kind, left, right⟩
      exact ⟨left.trans right.symm, kind, right⟩)

theorem pairwise_sameKind_iff {items : List Value} :
    items.Pairwise SameKind ↔ ¬ Mixed items := by
  constructor
  · rintro pairwise ⟨long, mixed⟩
    match items with
    | x :: y :: rest =>
        obtain ⟨related, -⟩ := List.pairwise_cons.1 pairwise
        obtain ⟨kind, hx, -⟩ := related y List.mem_cons_self
        refine mixed ⟨kind, List.forall_mem_cons.2 ⟨hx, fun z member => ?_⟩⟩
        obtain ⟨other, hx', hz⟩ := related z member
        rw [hx] at hx'
        cases hx'
        exact hz
  · intro plain
    by_cases long : 2 ≤ items.length
    · obtain ⟨kind, uniform⟩ := Classical.not_not.1 fun mixed => plain ⟨long, mixed⟩
      exact List.pairwise_of_forall_mem_list fun x hx y hy => ⟨kind, uniform x hx, uniform y hy⟩
    · exact Sort.pairwise_of_short (by omega)

instance (items : List Value) : Decidable (Mixed items) :=
  decidable_of_iff (¬ items.Pairwise SameKind) (by rw [pairwise_sameKind_iff, Classical.not_not])

theorem order_cases {x y : Value} (apart : x.type ≠ .list ∨ y.type ≠ .list) :
    (SameKind x y ∧ ∃ order, x.order y = .ok order) ∨
      (¬ SameKind x y ∧ x.order y = .error ⟨x, y⟩) := by
  cases x <;> cases y
  case list.list => simp [type] at apart
  all_goals simp [SameKind, kind?, order]

end Value

namespace Heap

variable {heap : Heap} {descending : Bool}

def Comparable (heap : Heap) (x y : Value) : Prop := ∃ order, heap.order x y = .ok order

instance : Std.Symm heap.Comparable where
  symm := by
    rintro x y ⟨order, found⟩
    rw [Comparable, heap.order_swap x y, found]
    exact ⟨_, rfl⟩

theorem exists_isBefore_iff {x y : Value} :
    (∃ answer, heap.isBefore descending x y = .ok answer) ↔ heap.Comparable x y := by
  have asked (z w : Value) : (∃ answer, (heap.order z w >>= fun result =>
      (pure (result == some .lt) : Except Incomparable Bool)) = .ok answer) ↔
        heap.Comparable z w := by
    simp only [Sort.except_bind_eq_ok, Comparable]
    constructor
    · rintro ⟨answer, result, found, -⟩
      exact ⟨result, found⟩
    · rintro ⟨result, found⟩
      exact ⟨_, result, found, rfl⟩
  cases descending with
  | false => exact asked x y
  | true => exact (asked y x).trans ⟨symm_of heap.Comparable, symm_of heap.Comparable⟩

theorem exists_sort {items : List Value} (comparable : items.Pairwise heap.Comparable)
    (descending : Bool) : ∃ sorted, heap.sort descending items = .ok sorted :=
  Sort.exists_sortWithin (fun _ _ => exists_isBefore_iff.2) (Nat.le_refl _) comparable

theorem comparable_iff {x y : Value} (apart : x.type ≠ .list ∨ y.type ≠ .list) :
    heap.Comparable x y ↔ x.SameKind y := by
  rw [Comparable, order_of_apart apart]
  rcases Value.order_cases apart with ⟨same, ordered⟩ | ⟨differ, refused⟩
  · exact iff_of_true ordered same
  · refine iff_of_false ?_ differ
    rw [refused]
    exact nofun

theorem order_eq_error {x y : Value} {pair : Incomparable}
    (apart : x.type ≠ .list ∨ y.type ≠ .list) (refused : heap.order x y = .error pair) :
    ¬ x.SameKind y ∧ pair = ⟨x, y⟩ := by
  rw [order_of_apart apart] at refused
  rcases Value.order_cases apart with ⟨-, order, ordered⟩ | ⟨differ, named⟩
  · rw [ordered] at refused
    cases refused
  · rw [named] at refused
    cases refused
    exact ⟨differ, rfl⟩

theorem exists_sort_iff {items : List Value} (scalars : ∀ x ∈ items, x.type ≠ .list) :
    (∃ sorted, heap.sort descending items = .ok sorted) ↔ ¬ Value.Mixed items := by
  rw [← Value.pairwise_sameKind_iff]
  constructor
  · rintro ⟨sorted, done⟩
    refine Sort.pairwise_of_sortWithin ?_ (Nat.le_refl _) done
    intro x hx y hy answer asked
    exact (comparable_iff (.inl (scalars x hx))).1 (exists_isBefore_iff.1 ⟨answer, asked⟩)
  · intro pairwise
    refine exists_sort (pairwise.imp_of_mem fun hx _ same => ?_) descending
    exact (comparable_iff (.inl (scalars _ hx))).2 same

theorem sort_eq_error {items : List Value} {pair : Incomparable}
    (scalars : ∀ x ∈ items, x.type ≠ .list) (failed : heap.sort descending items = .error pair) :
    pair.left ∈ items ∧ pair.right ∈ items ∧ ¬ pair.left.SameKind pair.right := by
  obtain ⟨x, hx, y, hy, refused⟩ := Sort.exists_error_of_sortWithin (Nat.le_refl _) failed
  cases descending with
  | false =>
      rcases Sort.except_bind_eq_error.1 refused with refused | ⟨result, -, last⟩
      · obtain ⟨differ, rfl⟩ := order_eq_error (.inl (scalars x hx)) refused
        exact ⟨hx, hy, differ⟩
      · cases last
  | true =>
      rcases Sort.except_bind_eq_error.1 refused with refused | ⟨result, -, last⟩
      · obtain ⟨differ, rfl⟩ := order_eq_error (.inl (scalars y hy)) refused
        exact ⟨hy, hx, differ⟩
      · cases last

end Heap

end Salita
