import Salita.Proofs.Value.Order

namespace Salita

def Value.same : Value → Value → Bool
  | .int a, .int b => a == b
  | .float a, .float b => Binary64.order? a b == some .eq
  | .str a, .str b => a == b
  | .bool a, .bool b => a == b
  | .function f, .function g => f.name == g.name && f.arity == g.arity
  | .file f, .file g => f.index == g.index
  | .void, .void => true
  | _, _ => false

namespace Heap

mutual

inductive Equates (heap : Heap) : Pairs → Value → Value → Bool × Pairs → Prop
  | scalar {met : Pairs} {left right : Value} (apart : left.type ≠ .list ∨ right.type ≠ .list) :
      Equates heap met left right (left.same right, met)
  | known {met : Pairs} {a b : ListId} (known : a = b ∨ (a, b) ∈ met) :
      Equates heap met (.list a) (.list b) (true, met)
  | enter {met : Pairs} {a b : ListId} {result : Bool × Pairs} (new : ¬ (a = b ∨ (a, b) ∈ met))
      (length : (heap.items a).size = (heap.items b).size)
      (inside : EquatesItems heap (met.insert (a, b)) (heap.items a).toList (heap.items b).toList
        result) : Equates heap met (.list a) (.list b) result
  | length {met : Pairs} {a b : ListId} (new : ¬ (a = b ∨ (a, b) ∈ met))
      (length : (heap.items a).size ≠ (heap.items b).size) :
      Equates heap met (.list a) (.list b) (false, met.insert (a, b))

inductive EquatesItems (heap : Heap) : Pairs → List Value → List Value → Bool × Pairs → Prop
  | all {met : Pairs} : EquatesItems heap met [] [] (true, met)
  | same {met next : Pairs} {x y : Value} {xs ys : List Value} {result : Bool × Pairs}
      (first : Equates heap met x y (true, next)) (rest : EquatesItems heap next xs ys result) :
      EquatesItems heap met (x :: xs) (y :: ys) result
  | differ {met next : Pairs} {x y : Value} {xs ys : List Value}
      (first : Equates heap met x y (false, next)) :
      EquatesItems heap met (x :: xs) (y :: ys) (false, next)

end

variable {heap : Heap}

mutual

theorem Equates.unique {met : Pairs} {left right : Value} {first second : Bool × Pairs} :
    heap.Equates met left right first → heap.Equates met left right second → first = second
  | .scalar apart, other => by
      cases other with
      | scalar => rfl
      | known | enter | length => simp [Value.type] at apart
  | .known known, other => by
      cases other with
      | scalar apart => simp [Value.type] at apart
      | known => rfl
      | enter new | length new => exact absurd known new
  | .enter new length inside, other => by
      cases other with
      | scalar apart => simp [Value.type] at apart
      | known known => exact absurd known new
      | enter new length other => exact inside.unique other
      | length new differs => exact absurd length differs
  | .length new differs, other => by
      cases other with
      | scalar apart => simp [Value.type] at apart
      | known known => exact absurd known new
      | enter new length other => exact absurd length differs
      | length => rfl

theorem EquatesItems.unique {met : Pairs} {xs ys : List Value} {first second : Bool × Pairs} :
    heap.EquatesItems met xs ys first → heap.EquatesItems met xs ys second → first = second
  | .all, other => by
      cases other
      rfl
  | .same first rest, other => by
      cases other with
      | same again other =>
          cases first.unique again
          exact rest.unique other
      | differ again => cases first.unique again
  | .differ first, other => by
      cases other with
      | same again other => cases first.unique again
      | differ again =>
          cases first.unique again
          rfl

end

mutual

theorem Equates.grown {met : Pairs} {left right : Value} {result : Bool × Pairs} :
    heap.Equates met left right result → ∀ pair ∈ met, pair ∈ result.2
  | .scalar _ | .known _ => fun _ => id
  | .enter _ _ inside => fun pair old => inside.grown pair (mem_insert_pairs.2 (.inr old))
  | .length _ _ => fun _ old => mem_insert_pairs.2 (.inr old)

theorem EquatesItems.grown {met : Pairs} {xs ys : List Value} {result : Bool × Pairs} :
    heap.EquatesItems met xs ys result → ∀ pair ∈ met, pair ∈ result.2
  | .all => fun _ => id
  | .same first rest => fun pair old => rest.grown pair (first.grown pair old)
  | .differ first => first.grown

end

theorem sameWithin_of_apart {depth : Nat} {met : Pairs} {left right : Value}
    (apart : left.type ≠ .list ∨ right.type ≠ .list) :
    heap.sameWithin depth met left right = (left.same right, met) := by
  cases left <;> cases right
  case list.list => simp [Value.type] at apart
  all_goals cases depth <;> rfl

theorem sameWithin_lists {depth : Nat} {met : Pairs} {a b : ListId} :
    heap.sameWithin (depth + 1) met (.list a) (.list b) =
      if a = b ∨ (a, b) ∈ met then (true, met)
      else if (heap.items a).size = (heap.items b).size then
        sameItems (heap.sameWithin depth) (met.insert (a, b)) (heap.items a).toList
          (heap.items b).toList
      else (false, met.insert (a, b)) := rfl

theorem same_of_apart {left right : Value} (apart : left.type ≠ .list ∨ right.type ≠ .list) :
    heap.same left right = left.same right := by
  rw [same, sameWithin_of_apart apart]

theorem equatesItems_sameItems {depth : Nat} {step : Pairs → Value → Value → Bool × Pairs}
    (steps : ∀ met x y, (heap.unmet met).card < depth → heap.Equates met x y (step met x y))
    {met : Pairs} (bound : (heap.unmet met).card < depth) {xs ys : List Value}
    (length : xs.length = ys.length) :
    heap.EquatesItems met xs ys (sameItems step met xs ys) := by
  induction xs generalizing met ys with
  | nil =>
      cases List.length_eq_zero_iff.1 length.symm
      exact .all
  | cons x xs ih =>
      obtain ⟨y, ys, rfl⟩ := List.exists_cons_of_length_eq_add_one length.symm
      have first := steps met x y bound
      unfold sameItems
      generalize step met x y = result at first ⊢
      obtain ⟨answer, next⟩ := result
      cases answer with
      | false => exact .differ first
      | true =>
          have fewer := Finset.card_le_card (heap.unmet_subset first.grown)
          exact .same first (ih (Nat.lt_of_le_of_lt fewer bound) (Nat.succ.inj length))

theorem equates_sameWithin {depth : Nat} {met : Pairs} (bound : (heap.unmet met).card < depth)
    (left right : Value) :
    heap.Equates met left right (heap.sameWithin depth met left right) := by
  induction depth generalizing met left right with
  | zero => exact absurd bound (Nat.not_lt_zero _)
  | succ depth ih =>
      obtain ⟨a, b, rfl, rfl⟩ | apart := left.both_lists_or_apart right
      · rw [sameWithin_lists]
        split
        case isTrue known => exact .known known
        case isFalse new =>
          split
          case isFalse differs => exact .length new differs
          case isTrue length =>
            refine .enter new length ?_
            -- A list that is not there has no elements, and neither has one of the same length.
            by_cases empty : heap.items a = #[]
            · have emptyToo : heap.items b = #[] := by
                rw [← Array.size_eq_zero_iff, ← length, empty, Array.size_empty]
              rw [empty, emptyToo]
              exact .all
            · have left : a.index < heap.lists.size :=
                Decidable.not_not.1 fun outside => empty (items_of_not_contained outside)
              have right : b.index < heap.lists.size := by
                refine Decidable.not_not.1 fun outside => empty ?_
                rw [← Array.size_eq_zero_iff, length, items_of_not_contained outside,
                  Array.size_empty]
              have fewer := card_unmet_insert left right fun old => new (.inr old)
              exact equatesItems_sameItems (fun met x y bound => ih bound x y) (by omega) length
      · rw [sameWithin_of_apart apart]
        exact .scalar apart

theorem equates_iff {depth : Nat} (enough : heap.pairCount ≤ depth) {left right : Value}
    {result : Bool × Pairs} :
    heap.Equates ∅ left right result ↔ result = heap.sameWithin depth ∅ left right := by
  have done := equates_sameWithin (Nat.lt_of_lt_of_le heap.card_unmet_empty enough) left right
  constructor
  · exact fun equates => equates.unique done
  · rintro rfl
    exact done

def Corresponds (heap : Heap) (R : ListId → ListId → Prop) (x y : Value) : Prop :=
  (∃ a b, x = .list a ∧ y = .list b ∧ R a b) ∨
    ((x.type ≠ .list ∨ y.type ≠ .list) ∧ heap.same x y = true)

/-- The relation pairs a list with itself, or with one that has as many elements, each of them
corresponding. -/
def IsBisimulation (heap : Heap) (R : ListId → ListId → Prop) : Prop :=
  ∀ a b, R a b → a = b ∨
    List.Forall₂ (heap.Corresponds R) (heap.items a).toList (heap.items b).toList

theorem Corresponds.mono {R S : ListId → ListId → Prop} {x y : Value} (le : ∀ a b, R a b → S a b)
    (corresponds : heap.Corresponds R x y) : heap.Corresponds S x y := by
  rcases corresponds with ⟨a, b, left, right, related⟩ | scalars
  · exact .inl ⟨a, b, left, right, le a b related⟩
  · exact .inr scalars

def ItemsCorrespond (heap : Heap) (met : Pairs) (pair : ListId × ListId) : Prop :=
  List.Forall₂ (heap.Corresponds (Related met)) (heap.items pair.1).toList
    (heap.items pair.2).toList

theorem ItemsCorrespond.mono {met next : Pairs} {pair : ListId × ListId}
    (grown : ∀ pair ∈ met, pair ∈ next) (correspond : heap.ItemsCorrespond met pair) :
    heap.ItemsCorrespond next pair :=
  correspond.imp fun _ _ => Corresponds.mono (Related.mono grown)

mutual

/-- Where the values are the same, every pair that is new has been gone through to its end. -/
theorem Equates.corresponds {met : Pairs} {left right : Value} {result : Bool × Pairs} :
    heap.Equates met left right result → result.1 = true →
      heap.Corresponds (Related result.2) left right ∧
        ∀ pair ∈ result.2, pair ∈ met ∨ heap.ItemsCorrespond result.2 pair
  | .scalar apart, same => by
      refine ⟨.inr ⟨apart, ?_⟩, fun _ => .inl⟩
      rw [same_of_apart apart]
      exact same
  | .known known, _ => ⟨.inl ⟨_, _, rfl, rfl, known⟩, fun _ => .inl⟩
  | @Equates.enter _ _ a b result new length inside, same => by
      obtain ⟨correspond, added⟩ := inside.corresponds same
      have member : (a, b) ∈ result.2 := inside.grown _ (mem_insert_pairs.2 (.inl rfl))
      refine ⟨.inl ⟨a, b, rfl, rfl, .inr member⟩, fun pair present => ?_⟩
      rcases added pair present with old | items
      · rcases mem_insert_pairs.1 old with rfl | old
        · exact .inr correspond
        · exact .inl old
      · exact .inr items
  | .length new differs, same => by cases same

theorem EquatesItems.corresponds {met : Pairs} {xs ys : List Value} {result : Bool × Pairs} :
    heap.EquatesItems met xs ys result → result.1 = true →
      List.Forall₂ (heap.Corresponds (Related result.2)) xs ys ∧
        ∀ pair ∈ result.2, pair ∈ met ∨ heap.ItemsCorrespond result.2 pair
  | .all, _ => ⟨.nil, fun _ => .inl⟩
  | .same first rest, same => by
      obtain ⟨corresponds, added⟩ := first.corresponds rfl
      obtain ⟨correspond, addedRest⟩ := rest.corresponds same
      have grown := rest.grown
      refine ⟨.cons (corresponds.mono (Related.mono grown)) correspond, fun pair present => ?_⟩
      rcases addedRest pair present with old | items
      · exact (added pair old).imp_right (ItemsCorrespond.mono grown)
      · exact .inr items
  | .differ first, same => by cases same

end

mutual

/-- Values that correspond by a bisimulation are never found to differ, whichever pairs were met. -/
theorem Equates.eq_true {R : ListId → ListId → Prop} (bisimulation : heap.IsBisimulation R)
    {met : Pairs} {left right : Value} {result : Bool × Pairs} :
    heap.Equates met left right result → heap.Corresponds R left right → result.1 = true
  | .scalar apart, corresponds => by
      rcases corresponds with ⟨a, b, rfl, rfl, -⟩ | ⟨-, same⟩
      · simp [Value.type] at apart
      · rwa [same_of_apart apart] at same
  | .known known, _ => rfl
  | .enter new length inside, corresponds => by
      rcases corresponds with ⟨a, b, left, right, related⟩ | ⟨apart, -⟩
      · cases left
        cases right
        rcases bisimulation _ _ related with same | correspond
        · exact absurd (.inl same) new
        · exact inside.eq_true bisimulation correspond
      · simp [Value.type] at apart
  | .length new differs, corresponds => by
      rcases corresponds with ⟨a, b, left, right, related⟩ | ⟨apart, -⟩
      · cases left
        cases right
        rcases bisimulation _ _ related with same | correspond
        · exact absurd (.inl same) new
        · exact absurd correspond.length_eq differs
      · simp [Value.type] at apart

theorem EquatesItems.eq_true {R : ListId → ListId → Prop} (bisimulation : heap.IsBisimulation R)
    {met : Pairs} {xs ys : List Value} {result : Bool × Pairs} :
    heap.EquatesItems met xs ys result → List.Forall₂ (heap.Corresponds R) xs ys →
      result.1 = true
  | .all, _ => rfl
  | .same _ rest, .cons _ correspond => rest.eq_true bisimulation correspond
  | .differ first, .cons corresponds _ => first.eq_true bisimulation corresponds

end

theorem exists_isBisimulation {a b : ListId} {result : Bool × Pairs}
    (equates : heap.Equates ∅ (.list a) (.list b) result) (same : result.1 = true) :
    ∃ R : ListId → ListId → Prop, R a b ∧ heap.IsBisimulation R := by
  obtain ⟨corresponds, added⟩ := equates.corresponds same
  refine ⟨Related result.2, ?_, fun c d related => related.imp_right fun member => ?_⟩
  · rcases corresponds with ⟨c, d, left, right, related⟩ | ⟨apart, -⟩
    · cases left
      cases right
      exact related
    · simp [Value.type] at apart
  · exact (added (c, d) member).resolve_left Std.TreeSet.not_mem_emptyc

/-- Finding out whether two lists are the same comes to one end on every heap, whatever its cycles,
and a greater bound on the lists that are entered changes nothing. The lists are the same exactly if
a bisimulation pairs them. -/
theorem same_bisimilar (heap : Heap) (a b : ListId) :
    (∃ result, heap.Equates ∅ (.list a) (.list b) result ∧
      heap.same (.list a) (.list b) = result.1 ∧
      (∀ other, heap.Equates ∅ (.list a) (.list b) other → other = result) ∧
      ∀ depth ≥ heap.pairCount, heap.sameWithin depth ∅ (.list a) (.list b) = result) ∧
    (heap.same (.list a) (.list b) = true ↔
      ∃ R : ListId → ListId → Prop, R a b ∧ heap.IsBisimulation R) := by
  have equates : heap.Equates ∅ (.list a) (.list b)
      (heap.sameWithin heap.pairCount ∅ (.list a) (.list b)) :=
    (equates_iff (Nat.le_refl _)).2 rfl
  refine ⟨⟨_, equates, rfl, fun _ => (equates_iff (Nat.le_refl _)).1, ?_⟩, ?_, ?_⟩
  · intro depth enough
    exact ((equates_iff enough).1 equates).symm
  · exact exists_isBisimulation equates
  · rintro ⟨R, related, bisimulation⟩
    exact equates.eq_true bisimulation (.inl ⟨a, b, rfl, rfl, related⟩)

/-- The first two lists hold each other and the third holds itself, so that all of them go on alike.
The fourth one has a float where they have a whole number. -/
theorem same_bisimilar_cycles :
    ∃ heap : Heap,
      heap.lists = #[#[.int 1, .list ⟨1⟩], #[.int 1, .list ⟨0⟩], #[.int 1, .list ⟨2⟩],
        #[.float 1.0, .list ⟨3⟩]] ∧
      heap.same (.list ⟨0⟩) (.list ⟨2⟩) = true ∧
      (∃ R : ListId → ListId → Prop, R ⟨0⟩ ⟨2⟩ ∧ heap.IsBisimulation R) ∧
      heap.same (.list ⟨2⟩) (.list ⟨3⟩) = false ∧
      ¬ ∃ R : ListId → ListId → Prop, R ⟨2⟩ ⟨3⟩ ∧ heap.IsBisimulation R := by
  let heap : Heap := ⟨#[#[.int 1, .list ⟨1⟩], #[.int 1, .list ⟨0⟩], #[.int 1, .list ⟨2⟩],
    #[.float 1.0, .list ⟨3⟩]]⟩
  have same : heap.same (.list ⟨0⟩) (.list ⟨2⟩) = true := by decide +kernel
  have differ : heap.same (.list ⟨2⟩) (.list ⟨3⟩) = false := by decide +kernel
  obtain ⟨-, paired⟩ := same_bisimilar heap ⟨0⟩ ⟨2⟩
  obtain ⟨-, apart⟩ := same_bisimilar heap ⟨2⟩ ⟨3⟩
  refine ⟨heap, rfl, same, paired.1 same, differ, fun found => ?_⟩
  rw [apart.2 found] at differ
  cases differ

end Heap

end Salita
