import Mathlib.Data.Fintype.Card
import Mathlib.Data.Fintype.Prod
import Salita.Value.Order

/-!
# How values are compared

The rules by which two values are compared, without a bound on the lists that are entered. On every
heap they come to one end, since no pair of lists is entered twice. The order of the values is what
they come to, and exchanging the values mirrors it.
-/

namespace Salita

abbrev Comparison := Except Incomparable (Option Ordering × Pairs)

def Value.order : Value → Value → Except Incomparable (Option Ordering)
  | .int a, .int b => .ok (some (compare a.toInt b.toInt))
  | .float a, .float b => .ok (Binary64.order? a b)
  | .int a, .float b => .ok (Binary64.order? (widen a) b)
  | .float a, .int b => .ok (Binary64.order? a (widen b))
  | .str a, .str b => .ok (some (compare a b))
  | .bool a, .bool b => .ok (some (compare a b))
  | left, right => .error ⟨left, right⟩

theorem Value.both_lists_or_apart (left right : Value) :
    (∃ a b, left = .list a ∧ right = .list b) ∨ (left.type ≠ .list ∨ right.type ≠ .list) := by
  cases left <;> cases right <;> simp [Value.type]

namespace Heap

mutual

/-- Comparing two values, with the pairs of lists that were met before. -/
inductive Compares (heap : Heap) : Pairs → Value → Value → Comparison → Prop
  | scalar {met : Pairs} {left right : Value} (apart : left.type ≠ .list ∨ right.type ≠ .list) :
      Compares heap met left right ((left.order right).map (·, met))
  | known {met : Pairs} {a b : ListId} (known : a = b ∨ (a, b) ∈ met) :
      Compares heap met (.list a) (.list b) (.ok (some .eq, met))
  | enter {met : Pairs} {a b : ListId} {result : Comparison} (new : ¬ (a = b ∨ (a, b) ∈ met))
      (inside : ComparesItems heap (met.insert (a, b)) (heap.items a).toList (heap.items b).toList
        result) : Compares heap met (.list a) (.list b) result

inductive ComparesItems (heap : Heap) : Pairs → List Value → List Value → Comparison → Prop
  | both {met : Pairs} : ComparesItems heap met [] [] (.ok (some .eq, met))
  | left {met : Pairs} {y : Value} {ys : List Value} :
      ComparesItems heap met [] (y :: ys) (.ok (some .lt, met))
  | right {met : Pairs} {x : Value} {xs : List Value} :
      ComparesItems heap met (x :: xs) [] (.ok (some .gt, met))
  | equal {met next : Pairs} {x y : Value} {xs ys : List Value} {result : Comparison}
      (first : Compares heap met x y (.ok (some .eq, next)))
      (rest : ComparesItems heap next xs ys result) :
      ComparesItems heap met (x :: xs) (y :: ys) result
  | decided {met : Pairs} {x y : Value} {xs ys : List Value} {result : Comparison}
      (first : Compares heap met x y result)
      (unequal : ∀ next, result ≠ .ok (some .eq, next)) :
      ComparesItems heap met (x :: xs) (y :: ys) result

end

variable {heap : Heap}

theorem mem_insert_pairs {met : Pairs} {pair other : ListId × ListId} :
    other ∈ met.insert pair ↔ pair = other ∨ other ∈ met := by
  rw [Std.TreeSet.mem_insert, Std.LawfulEqCmp.compare_eq_iff_eq]

mutual

theorem Compares.unique {met : Pairs} {left right : Value} {first second : Comparison} :
    heap.Compares met left right first → heap.Compares met left right second → first = second
  | .scalar apart, other => by
      cases other with
      | scalar => rfl
      | known | enter => simp [Value.type] at apart
  | .known known, other => by
      cases other with
      | scalar apart => simp [Value.type] at apart
      | known => rfl
      | enter new => exact absurd known new
  | .enter new inside, other => by
      cases other with
      | scalar apart => simp [Value.type] at apart
      | known known => exact absurd known new
      | enter new other => exact inside.unique other

theorem ComparesItems.unique {met : Pairs} {xs ys : List Value} {first second : Comparison} :
    heap.ComparesItems met xs ys first → heap.ComparesItems met xs ys second → first = second
  | .both, other | .left, other | .right, other => by
      cases other
      rfl
  | .equal first rest, other => by
      cases other with
      | equal again other =>
          cases first.unique again
          exact rest.unique other
      | decided again unequal => exact absurd (first.unique again).symm (unequal _)
  | .decided first unequal, other => by
      cases other with
      | equal again other => exact absurd (first.unique again) (unequal _)
      | decided again => exact first.unique again

end

def Extends (met : Pairs) (result : Comparison) : Prop :=
  ∀ order next, result = .ok (order, next) → ∀ pair ∈ met, pair ∈ next

mutual

theorem Compares.extends {met : Pairs} {left right : Value} {result : Comparison} :
    heap.Compares met left right result → Extends met result
  | .scalar apart => by
      intro order next same
      cases decided : left.order right with
      | error pair =>
          rw [decided] at same
          cases same
      | ok found =>
          rw [decided] at same
          cases same
          exact fun _ => id
  | .known known => by
      intro order next same
      cases same
      exact fun _ => id
  | .enter new inside => by
      intro order next same pair old
      exact inside.extends order next same pair (mem_insert_pairs.2 (.inr old))

theorem ComparesItems.extends {met : Pairs} {xs ys : List Value} {result : Comparison} :
    heap.ComparesItems met xs ys result → Extends met result
  | .both | .left | .right => by
      intro order next same
      cases same
      exact fun _ => id
  | .equal first rest => by
      intro order next same pair old
      exact rest.extends order next same pair (first.extends _ _ rfl pair old)
  | .decided first unequal => first.extends

end

def unmet (heap : Heap) (met : Pairs) : Finset (Fin heap.lists.size × Fin heap.lists.size) :=
  Finset.univ.filter fun pair => (⟨pair.1⟩, ⟨pair.2⟩) ∉ met

theorem unmet_subset (heap : Heap) {met next : Pairs} (grown : ∀ pair ∈ met, pair ∈ next) :
    heap.unmet next ⊆ heap.unmet met := by
  intro pair outside
  simp only [unmet, Finset.mem_filter, Finset.mem_univ, true_and] at outside ⊢
  exact fun old => outside (grown _ old)

theorem card_unmet_insert {met : Pairs} {a b : ListId} (left : a.index < heap.lists.size)
    (right : b.index < heap.lists.size) (new : (a, b) ∉ met) :
    (heap.unmet (met.insert (a, b))).card < (heap.unmet met).card := by
  apply Finset.card_lt_card
  refine ⟨heap.unmet_subset fun pair old => mem_insert_pairs.2 (.inr old), fun subset => ?_⟩
  have before : (⟨a.index, left⟩, ⟨b.index, right⟩) ∈ heap.unmet met := by
    simpa [unmet] using new
  have now := subset before
  simp only [unmet, Finset.mem_filter, Finset.mem_univ, true_and] at now
  exact now (mem_insert_pairs.2 (.inl rfl))

theorem card_unmet_empty (heap : Heap) : (heap.unmet ∅).card < heap.pairCount := by
  have bound : (heap.unmet ∅).card ≤ _ := Finset.card_filter_le _ _
  rw [Finset.card_univ, Fintype.card_prod, Fintype.card_fin] at bound
  exact Nat.lt_succ_of_le bound

theorem orderWithin_of_apart {depth : Nat} {met : Pairs} {left right : Value}
    (apart : left.type ≠ .list ∨ right.type ≠ .list) :
    heap.orderWithin depth met left right = (left.order right).map (·, met) := by
  cases left <;> cases right
  case list.list => simp [Value.type] at apart
  all_goals
    unfold orderWithin
    rfl

theorem order_of_apart {left right : Value} (apart : left.type ≠ .list ∨ right.type ≠ .list) :
    heap.order left right = left.order right := by
  rw [order, orderWithin_of_apart apart]
  cases left.order right <;> rfl

theorem items_of_not_contained {id : ListId} (outside : ¬ id.index < heap.lists.size) :
    heap.items id = #[] := by
  rw [items, Array.getElem?_eq_none (Nat.le_of_not_lt outside)]
  rfl

theorem comparesItems_orderItems {depth : Nat}
    {step : Pairs → Value → Value → Except Incomparable (Option Ordering × Pairs)}
    (steps : ∀ met x y, (heap.unmet met).card < depth → heap.Compares met x y (step met x y))
    {met : Pairs} (bound : (heap.unmet met).card < depth) (xs ys : List Value) :
    heap.ComparesItems met xs ys (orderItems step met xs ys) := by
  induction xs generalizing met ys with
  | nil =>
      cases ys with
      | nil => exact .both
      | cons y ys => exact .left
  | cons x xs ih =>
      cases ys with
      | nil => exact .right
      | cons y ys =>
          have first := steps met x y bound
          unfold orderItems
          split
          case h_1 pair failed =>
            rw [failed] at first
            exact .decided first fun _ => nofun
          case h_2 next equal =>
            rw [equal] at first
            have fewer := Finset.card_le_card (heap.unmet_subset (first.extends _ _ rfl))
            exact .equal first (ih (Nat.lt_of_le_of_lt fewer bound) ys)
          case h_3 decided unequal done =>
            rw [done] at first
            refine .decided first fun next same => ?_
            cases same
            exact unequal next rfl

theorem compares_orderWithin {depth : Nat} {met : Pairs} (bound : (heap.unmet met).card < depth)
    (left right : Value) :
    heap.Compares met left right (heap.orderWithin depth met left right) := by
  induction depth generalizing met left right with
  | zero => exact absurd bound (Nat.not_lt_zero _)
  | succ depth ih =>
      obtain ⟨a, b, rfl, rfl⟩ | apart := left.both_lists_or_apart right
      · unfold orderWithin
        split
        case isTrue known => exact .known known
        case isFalse new =>
          refine .enter new ?_
          -- A pair with a list that is not there is entered for nothing: it has no elements.
          by_cases left : a.index < heap.lists.size
          · by_cases right : b.index < heap.lists.size
            · have fewer := card_unmet_insert left right fun old => new (.inr old)
              exact comparesItems_orderItems (fun met x y bound => ih bound x y) (by omega) _ _
            · rw [items_of_not_contained right]
              cases (heap.items a).toList with
              | nil => exact .both
              | cons x xs => exact .right
          · rw [items_of_not_contained left]
            cases (heap.items b).toList with
            | nil => exact .both
            | cons y ys => exact .left
      · rw [orderWithin_of_apart apart]
        exact .scalar apart

theorem compares_iff {left right : Value} {result : Comparison} :
    heap.Compares ∅ left right result ↔ result = heap.orderWithin heap.pairCount ∅ left right := by
  have done := compares_orderWithin heap.card_unmet_empty left right
  constructor
  · exact fun compares => compares.unique done
  · rintro rfl
    exact done

theorem Compares.order_eq {left right : Value} {result : Comparison}
    (compares : heap.Compares ∅ left right result) : heap.order left right = result.map (·.1) := by
  rw [order, ← compares_iff.1 compares]

end Heap

def Pairs.Mirrors (met other : Pairs) : Prop := ∀ a b, (a, b) ∈ met ↔ (b, a) ∈ other

theorem Pairs.Mirrors.insert {met other : Pairs} (mirrors : met.Mirrors other) (a b : ListId) :
    Pairs.Mirrors (met.insert (a, b)) (other.insert (b, a)) := by
  intro c d
  simp only [Heap.mem_insert_pairs, Prod.mk.injEq, mirrors c d, and_comm]

def mirror : Except Incomparable (Option Ordering) → Except Incomparable (Option Ordering)
  | .ok order => .ok (order.map Ordering.swap)
  | .error ⟨left, right⟩ => .error ⟨right, left⟩

inductive Comparison.Mirrors : Comparison → Comparison → Prop
  | ok {met other : Pairs} (order : Option Ordering) (pairs : met.Mirrors other) :
      Mirrors (.ok (order, met)) (.ok (order.map Ordering.swap, other))
  | error (left right : Value) : Mirrors (.error ⟨left, right⟩) (.error ⟨right, left⟩)

theorem Comparison.Mirrors.map_fst {result other : Comparison}
    (mirrors : Comparison.Mirrors result other) : other.map (·.1) = mirror (result.map (·.1)) := by
  cases mirrors <;> rfl

theorem Comparison.Mirrors.unequal {result other : Comparison}
    (mirrors : Comparison.Mirrors result other) (unequal : ∀ next, result ≠ .ok (some .eq, next)) :
    ∀ next, other ≠ .ok (some .eq, next) := by
  intro next same
  cases mirrors with
  | error => cases same
  | @ok met other order pairs =>
      match order with
      | none | some .lt | some .gt => cases same
      | some .eq => exact unequal met rfl

theorem Binary64.order?_swap (x y : Float) : order? y x = (order? x y).map Ordering.swap := by
  have swapped : compare (rank y) (rank x) = (compare (rank x) (rank y)).swap :=
    Std.OrientedCmp.eq_swap
  unfold order?
  rw [Bool.or_comm, swapped]
  split <;> rfl

theorem mirror_compare {α : Type} [Ord α] [Std.OrientedOrd α] (a b : α) :
    mirror (.ok (some (compare a b))) = .ok (some (compare b a)) := by
  have swapped : compare b a = (compare a b).swap := Std.OrientedCmp.eq_swap
  rw [swapped]
  rfl

theorem Value.order_swap (left right : Value) : right.order left = mirror (left.order right) := by
  cases left <;> cases right
  case int.int a b | str.str a b | bool.bool a b =>
    exact (mirror_compare _ _).symm
  case float.float a b | int.float a b | float.int a b =>
    exact congrArg Except.ok (Binary64.order?_swap _ _)
  all_goals rfl

namespace Heap

variable {heap : Heap}

mutual

theorem Compares.mirror {met other : Pairs} {left right : Value} {result : Comparison} :
    heap.Compares met left right result → met.Mirrors other →
      ∃ mirrored, heap.Compares other right left mirrored ∧ Comparison.Mirrors result mirrored
  | .scalar apart, mirrors => by
      refine ⟨_, .scalar apart.symm, ?_⟩
      rw [Value.order_swap left right]
      cases left.order right with
      | ok order => exact .ok order mirrors
      | error pair => exact .error pair.left pair.right
  | .known known, mirrors => by
      refine ⟨_, .known ?_, .ok _ mirrors⟩
      rwa [eq_comm, ← mirrors]
  | .enter new inside, mirrors => by
      obtain ⟨mirrored, inside, same⟩ := inside.mirror (mirrors.insert _ _)
      refine ⟨mirrored, .enter ?_ inside, same⟩
      rwa [eq_comm, ← mirrors]

theorem ComparesItems.mirror {met other : Pairs} {xs ys : List Value} {result : Comparison} :
    heap.ComparesItems met xs ys result → met.Mirrors other →
      ∃ mirrored, heap.ComparesItems other ys xs mirrored ∧ Comparison.Mirrors result mirrored
  | .both, mirrors => ⟨_, .both, .ok _ mirrors⟩
  | .left, mirrors => ⟨_, .right, .ok _ mirrors⟩
  | .right, mirrors => ⟨_, .left, .ok _ mirrors⟩
  | .equal first rest, mirrors => by
      obtain ⟨mirrored, first, same⟩ := first.mirror mirrors
      cases same with
      | ok order pairs =>
          obtain ⟨mirrored, rest, same⟩ := rest.mirror pairs
          exact ⟨mirrored, .equal first rest, same⟩
  | .decided first unequal, mirrors => by
      obtain ⟨mirrored, first, same⟩ := first.mirror mirrors
      exact ⟨mirrored, .decided first (same.unequal unequal), same⟩

end

theorem order_swap (heap : Heap) (left right : Value) :
    heap.order right left = Salita.mirror (heap.order left right) := by
  have compares : heap.Compares ∅ left right _ := compares_iff.2 rfl
  have empty : Pairs.Mirrors ∅ ∅ := fun a b => by simp
  obtain ⟨mirrored, other, same⟩ := compares.mirror empty
  rw [other.order_eq, compares.order_eq, same.map_fst]

end Heap

end Salita
