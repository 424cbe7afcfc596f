import Mathlib.Data.List.Chain
import Mathlib.Data.List.Perm.Basic
import Mathlib.Order.RelClasses
import Mathlib.Order.RelIso.Set
import Salita.Proofs.Value.Comparison
import Salita.Value.Sort

namespace Salita.Sort

variable {P : Value → Value → Prop} {before : Before}

inductive Merges (P : Value → Value → Prop) : List Value → List Value → List Value → Prop
  | done (right : List Value) : Merges P [] right right
  | left {item : Value} {left right merged : List Value} (first : ∀ y ∈ right.head?, ¬ P y item)
      (rest : Merges P left right merged) : Merges P (item :: left) right (item :: merged)
  | right {item y : Value} {left right merged : List Value} (first : P y item)
      (rest : Merges P (item :: left) right merged) :
      Merges P (item :: left) (y :: right) (y :: merged)

inductive Sorts (P : Value → Value → Prop) : List Value → List Value → Prop
  | short {items : List Value} (short : items.length ≤ 1) : Sorts P items items
  | parts {front back left right result : List Value} (frontSorts : Sorts P front left)
      (backSorts : Sorts P back right) (merges : Merges P left right result) :
      Sorts P (front ++ back) result

def Decides (before : Before) (P : Value → Value → Prop) : Prop :=
  ∀ x y answer, before x y = .ok answer → (answer = true ↔ P x y)

theorem except_bind_eq_ok {ε α β : Type} {x : Except ε α} {f : α → Except ε β} {b : β} :
    (x >>= f) = .ok b ↔ ∃ a, x = .ok a ∧ f a = .ok b := by
  cases x with
  | error e =>
      constructor
      · exact nofun
      · rintro ⟨a, same, -⟩
        cases same
  | ok a =>
      constructor
      · exact fun done => ⟨a, rfl, done⟩
      · rintro ⟨a, same, done⟩
        cases same
        exact done

theorem Merges.of_takeBefore (decides : Decides before P) {item : Value}
    {left right taken rest merged : List Value}
    (done : takeBefore before item right = .ok (taken, rest)) (merges : Merges P left rest merged) :
    Merges P (item :: left) right (taken ++ item :: merged) := by
  induction right generalizing taken rest with
  | nil =>
      cases done
      exact .left nofun merges
  | cons y right ih =>
      obtain ⟨answer, asked, done⟩ := except_bind_eq_ok.1 done
      have meaning := decides y item answer asked
      cases answer with
      | false =>
          cases done
          refine .left ?_ merges
          rintro _ ⟨⟩
          exact fun first => nomatch meaning.2 first
      | true =>
          obtain ⟨⟨others, rest⟩, found, done⟩ := except_bind_eq_ok.1 done
          cases done
          exact .right (meaning.1 rfl) (ih found merges)

theorem Merges.of_merge (decides : Decides before P) {left right result : List Value}
    (done : merge before left right = .ok result) : Merges P left right result := by
  induction left generalizing right result with
  | nil =>
      cases done
      exact .done _
  | cons item left ih =>
      obtain ⟨⟨taken, rest⟩, found, done⟩ := except_bind_eq_ok.1 done
      obtain ⟨merged, merges, done⟩ := except_bind_eq_ok.1 done
      cases done
      exact .of_takeBefore decides found (ih merges)

theorem Sorts.of_sortWithin (decides : Decides before P) {depth : Nat} {items result : List Value}
    (bound : items.length ≤ depth) (done : sortWithin before depth items = .ok result) :
    Sorts P items result := by
  induction depth generalizing items result with
  | zero =>
      cases done
      exact .short (by omega)
  | succ depth ih =>
      unfold sortWithin at done
      split at done
      case isTrue short =>
        cases done
        exact .short short
      case isFalse long =>
        obtain ⟨left, front, done⟩ := except_bind_eq_ok.1 done
        obtain ⟨right, back, done⟩ := except_bind_eq_ok.1 done
        have frontSorts := ih (by rw [List.length_take]; omega) front
        have backSorts := ih (by rw [List.length_drop]; omega) back
        have parts := Sorts.parts frontSorts backSorts (.of_merge decides done)
        rwa [List.take_append_drop] at parts

theorem Merges.perm {left right result : List Value} (merges : Merges P left right result) :
    result.Perm (left ++ right) := by
  induction merges with
  | done right => exact .refl right
  | left first rest ih => exact ih.cons _
  | right first rest ih => exact (ih.cons _).trans List.perm_middle.symm

theorem Sorts.perm {items result : List Value} (sorts : Sorts P items result) :
    result.Perm items := by
  induction sorts with
  | short => exact .refl _
  | parts _ _ merges front back => exact merges.perm.trans (front.append back)

def MayFollow (P : Value → Value → Prop) (x y : Value) : Prop := ¬ P y x

theorem Merges.head {left right result : List Value} (merges : Merges P left right result) :
    ∀ x ∈ result.head?, x ∈ left.head? ∨ x ∈ right.head? := by
  cases merges with
  | done => exact fun x => .inr
  | left => exact fun x => .inl
  | right => exact fun x => .inr

theorem Merges.isChain (asymm : ∀ x y, P x y → ¬ P y x) {left right result : List Value}
    (merges : Merges P left right result) (leftChain : left.IsChain (MayFollow P))
    (rightChain : right.IsChain (MayFollow P)) : result.IsChain (MayFollow P) := by
  induction merges with
  | done => exact rightChain
  | left first rest ih =>
      rw [List.isChain_cons] at leftChain ⊢
      refine ⟨fun x member => ?_, ih leftChain.2 rightChain⟩
      rcases rest.head x member with old | new
      · exact leftChain.1 x old
      · exact first x new
  | right first rest ih =>
      rw [List.isChain_cons] at rightChain ⊢
      refine ⟨fun x member => ?_, ih leftChain rightChain.2⟩
      rcases rest.head x member with item | old
      · cases item
        exact asymm _ _ first
      · exact rightChain.1 x old

theorem Sorts.isChain (asymm : ∀ x y, P x y → ¬ P y x) {items result : List Value}
    (sorts : Sorts P items result) : result.IsChain (MayFollow P) := by
  induction sorts with
  | @short items short =>
      match items with
      | [] => exact .nil
      | [x] => exact .singleton x
      | _ :: _ :: _ => simp at short
  | parts _ _ merges front back => exact merges.isChain asymm front back

abbrev WeaklyOrders (P : Value → Value → Prop) (items : List Value) : Prop :=
  IsStrictWeakOrder {x // x ∈ items} (Subrel P (· ∈ items))

theorem WeaklyOrders.irrefl {items : List Value} (weak : WeaklyOrders P items) {x : Value}
    (hx : x ∈ items) : ¬ P x x :=
  irrefl_of (Subrel P (· ∈ items)) ⟨x, hx⟩

theorem WeaklyOrders.mayFollow_trans {items : List Value} (weak : WeaklyOrders P items)
    {x y z : Value} (hx : x ∈ items) (hy : y ∈ items) (hz : z ∈ items)
    (first : MayFollow P x y) (second : MayFollow P y z) : MayFollow P x z := by
  intro behind
  have trans {a b c : Value} (ha : a ∈ items) (hb : b ∈ items) (hc : c ∈ items) (ab : P a b)
      (bc : P b c) : P a c :=
    weak.trans ⟨a, ha⟩ ⟨b, hb⟩ ⟨c, hc⟩ ab bc
  -- Neither `x` and `y` nor `y` and `z` can be told apart, but `x` and `z` are.
  have level : ¬ P x y := fun ahead => second (trans hz hx hy behind ahead)
  have level' : ¬ P y z := fun ahead => first (trans hy hz hx ahead behind)
  exact (weak.incomp_trans ⟨x, hx⟩ ⟨y, hy⟩ ⟨z, hz⟩ ⟨level, first⟩ ⟨level', second⟩).2 behind

theorem WeaklyOrders.pairwise {items sorted : List Value} (weak : WeaklyOrders P items)
    (inside : sorted ⊆ items) (chain : sorted.IsChain (MayFollow P)) :
    sorted.Pairwise (MayFollow P) := by
  let R (x y : Value) : Prop := (x ∈ items ∧ y ∈ items) ∧ MayFollow P x y
  have : IsTrans Value R :=
    ⟨fun x y z xy yz =>
      ⟨⟨xy.1.1, yz.1.2⟩, weak.mayFollow_trans xy.1.1 xy.1.2 yz.1.2 xy.2 yz.2⟩⟩
  have chain : sorted.IsChain R :=
    chain.imp_of_mem_imp fun x y hx hy follows => ⟨⟨inside hx, inside hy⟩, follows⟩
  exact (List.isChain_iff_pairwise.1 chain).imp And.right

def Level (P : Value → Value → Prop) (items : List Value) (keep : Value → Bool) : Prop :=
  ∀ x ∈ items, ∀ y ∈ items, keep x → keep y → ¬ P x y

theorem WeaklyOrders.filter_eq_nil {items left : List Value} {keep : Value → Bool} {item y : Value}
    (weak : WeaklyOrders P items) (level : Level P items keep) (inside : item :: left ⊆ items)
    (sorted : (item :: left).Pairwise (MayFollow P)) (hy : y ∈ items) (kept : keep y)
    (first : P y item) : (item :: left).filter keep = [] := by
  refine List.filter_eq_nil_iff.2 fun x member keptToo => ?_
  have follows : MayFollow P item x := by
    rcases List.mem_cons.1 member with rfl | member
    · exact weak.irrefl (inside member)
    · exact List.rel_of_pairwise_cons sorted member
  have behind : MayFollow P x y := level y hy x (inside member) kept keptToo
  exact weak.mayFollow_trans (inside List.mem_cons_self) (inside member) hy follows behind first

theorem Merges.filter {items left right result : List Value} {keep : Value → Bool}
    (merges : Merges P left right result) (weak : WeaklyOrders P items) (level : Level P items keep)
    (leftInside : left ⊆ items) (rightInside : right ⊆ items)
    (sorted : left.Pairwise (MayFollow P)) :
    result.filter keep = left.filter keep ++ right.filter keep := by
  induction merges with
  | done => rfl
  | left first rest ih =>
      have ih := ih (List.subset_of_cons_subset leftInside) rightInside sorted.of_cons
      simp only [List.filter_cons, ih]
      split <;> rfl
  | @right item y left right merged first rest ih =>
      obtain ⟨hy, rightInside⟩ := List.cons_subset.1 rightInside
      have ih := ih leftInside rightInside sorted
      by_cases kept : keep y
      · have none := weak.filter_eq_nil level leftInside sorted hy kept first
        rw [List.filter_cons_of_pos kept, List.filter_cons_of_pos kept, ih, none]
        rfl
      · rw [List.filter_cons_of_neg kept, List.filter_cons_of_neg kept, ih]

theorem Sorts.filter (asymm : ∀ x y, P x y → ¬ P y x) {items part result : List Value}
    {keep : Value → Bool} (sorts : Sorts P part result) (weak : WeaklyOrders P items)
    (level : Level P items keep) (inside : part ⊆ items) :
    result.filter keep = part.filter keep := by
  induction sorts with
  | short => rfl
  | @parts front back left right result frontSorts backSorts merges frontKeeps backKeeps =>
      obtain ⟨frontInside, backInside⟩ := List.append_subset.1 inside
      have leftInside := frontSorts.perm.subset_congr_left.2 frontInside
      have rightInside := backSorts.perm.subset_congr_left.2 backInside
      have sorted := weak.pairwise leftInside (frontSorts.isChain asymm)
      calc result.filter keep
        _ = left.filter keep ++ right.filter keep :=
          merges.filter weak level leftInside rightInside sorted
        _ = front.filter keep ++ back.filter keep := by
          rw [frontKeeps frontInside, backKeeps backInside]
        _ = (front ++ back).filter keep := (List.filter_append ..).symm

end Salita.Sort

namespace Salita.Heap

def Precedes (heap : Heap) (descending : Bool) (x y : Value) : Prop :=
  (if descending then heap.order y x else heap.order x y) = .ok (some .lt)

variable {heap : Heap} {descending : Bool}

theorem decides_isBefore : Sort.Decides (heap.isBefore descending) (heap.Precedes descending) := by
  intro x y answer asked
  cases descending with
  | false | true =>
      obtain ⟨order, found, done⟩ := Sort.except_bind_eq_ok.1 asked
      cases done
      simp [Precedes, found]

theorem order_asymm {x y : Value} (less : heap.order x y = .ok (some .lt)) :
    heap.order y x ≠ .ok (some .lt) := by
  rw [heap.order_swap x y, less]
  exact nofun

theorem Precedes.asymm (x y : Value) (first : heap.Precedes descending x y) :
    ¬ heap.Precedes descending y x := by
  cases descending with
  | false | true => exact order_asymm first

/-- A value that is less than another divides the rest: each of them is greater than the one or less
than the other. -/
theorem weaklyOrders_of_divides {items : List Value}
    (divides : ∀ x ∈ items, ∀ y ∈ items, ∀ z ∈ items, heap.order x z = .ok (some .lt) →
      heap.order x y = .ok (some .lt) ∨ heap.order y z = .ok (some .lt)) :
    Sort.WeaklyOrders (heap.Precedes descending) items := by
  have : Std.Asymm (Subrel (heap.Precedes descending) (· ∈ items)) :=
    ⟨fun x y => Precedes.asymm x.1 y.1⟩
  have : IsOrderConnected _ (Subrel (heap.Precedes descending) (· ∈ items)) := by
    refine ⟨fun x y z first => ?_⟩
    cases descending with
    | false => exact divides x x.2 y y.2 z z.2 first
    | true => exact (divides z z.2 y y.2 x x.2 first).symm
  exact isStrictWeakOrder_of_isOrderConnected

theorem divides_compare {α : Type} [Ord α] [Std.TransOrd α] (a b c : α) (less : compare a c = .lt) :
    compare a b = .lt ∨ compare b c = .lt := by
  by_cases first : compare a b = .lt
  · exact .inl first
  · have behind := Std.OrientedCmp.isLE_of_isGE (Ordering.isGE_iff_ne_lt.2 first)
    exact .inr (Std.TransCmp.lt_of_isLE_of_lt behind less)

theorem divides_scalar {x y z : Value} {type : ValueType} (scalar : type ∈ [.int, .str, .bool])
    (hx : x.type = type) (hy : y.type = type) (hz : z.type = type)
    (less : x.order z = .ok (some .lt)) :
    x.order y = .ok (some .lt) ∨ y.order z = .ok (some .lt) := by
  simp only [List.mem_cons, List.not_mem_nil, or_false] at scalar
  obtain rfl | rfl | rfl := scalar
  all_goals
    cases x <;> cases hx
    cases y <;> cases hy
    cases z <;> cases hz
    simp only [Value.order, Except.ok.injEq, Option.some.injEq] at less ⊢
    exact divides_compare _ _ _ less

theorem weaklyOrders_of_type {items : List Value} {type : ValueType}
    (scalar : type ∈ [.int, .str, .bool]) (uniform : ∀ x ∈ items, x.type = type) :
    Sort.WeaklyOrders (heap.Precedes descending) items := by
  have apart {v : Value} (member : v ∈ items) (w : Value) : heap.order v w = v.order w := by
    refine order_of_apart (.inl ?_)
    rw [uniform v member]
    rintro rfl
    simp at scalar
  refine weaklyOrders_of_divides fun x hx y hy z hz => ?_
  rw [apart hx, apart hx, apart hy]
  exact divides_scalar scalar (uniform x hx) (uniform y hy) (uniform z hz)

/-- The second list is the first one in order: no neighbours are the wrong way round. If the order is
a strict weak one, no elements are, and any elements that are level stand as they did. -/
structure Arranges (heap : Heap) (descending : Bool) (items sorted : List Value) : Prop where
  perm : sorted.Perm items
  neighbours : sorted.IsChain (Sort.MayFollow (heap.Precedes descending))
  pairwise : Sort.WeaklyOrders (heap.Precedes descending) items →
    sorted.Pairwise (Sort.MayFollow (heap.Precedes descending))
  stable : Sort.WeaklyOrders (heap.Precedes descending) items → ∀ keep : Value → Bool,
    Sort.Level (heap.Precedes descending) items keep → sorted.filter keep = items.filter keep

theorem arranges_of_sort {items sorted : List Value}
    (done : heap.sort descending items = .ok sorted) : heap.Arranges descending items sorted := by
  have sorts := Sort.Sorts.of_sortWithin decides_isBefore (Nat.le_refl _) done
  have chain := sorts.isChain Precedes.asymm
  exact {
    perm := sorts.perm
    neighbours := chain
    pairwise := fun weak => weak.pairwise sorts.perm.subset chain
    stable := fun weak keep level => sorts.filter Precedes.asymm weak level (List.Subset.refl _) }

end Salita.Heap
