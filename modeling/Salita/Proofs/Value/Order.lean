import Mathlib.Data.List.Forall2
import Mathlib.Logic.Relation
import Salita.Proofs.Value.Comparison

namespace Salita.Heap

mutual

/-- The order of two values. That of lists goes by their elements, each time that they are met. -/
inductive Orders (heap : Heap) : Value → Value → Except Incomparable (Option Ordering) → Prop
  | scalar {left right : Value} (apart : left.type ≠ .list ∨ right.type ≠ .list) :
      Orders heap left right (left.order right)
  | same (a : ListId) : Orders heap (.list a) (.list a) (.ok (some .eq))
  | enter {a b : ListId} {result : Except Incomparable (Option Ordering)} (distinct : a ≠ b)
      (inside : OrdersItems heap (heap.items a).toList (heap.items b).toList result) :
      Orders heap (.list a) (.list b) result

inductive OrdersItems (heap : Heap) :
    List Value → List Value → Except Incomparable (Option Ordering) → Prop
  | both : OrdersItems heap [] [] (.ok (some .eq))
  | left {y : Value} {ys : List Value} : OrdersItems heap [] (y :: ys) (.ok (some .lt))
  | right {x : Value} {xs : List Value} : OrdersItems heap (x :: xs) [] (.ok (some .gt))
  | equal {x y : Value} {xs ys : List Value} {result : Except Incomparable (Option Ordering)}
      (first : Orders heap x y (.ok (some .eq))) (rest : OrdersItems heap xs ys result) :
      OrdersItems heap (x :: xs) (y :: ys) result
  | decided {x y : Value} {xs ys : List Value} {result : Except Incomparable (Option Ordering)}
      (first : Orders heap x y result) (unequal : result ≠ .ok (some .eq)) :
      OrdersItems heap (x :: xs) (y :: ys) result

end

variable {heap : Heap}

mutual

theorem Orders.unique {left right : Value} {first second : Except Incomparable (Option Ordering)} :
    heap.Orders left right first → heap.Orders left right second → first = second
  | .scalar apart, other => by
      cases other with
      | scalar => rfl
      | same | enter => simp [Value.type] at apart
  | .same a, other => by
      cases other with
      | scalar apart => simp [Value.type] at apart
      | same => rfl
      | enter distinct => exact absurd rfl distinct
  | .enter distinct inside, other => by
      cases other with
      | scalar apart => simp [Value.type] at apart
      | same => exact absurd rfl distinct
      | enter distinct other => exact inside.unique other

theorem OrdersItems.unique {xs ys : List Value}
    {first second : Except Incomparable (Option Ordering)} :
    heap.OrdersItems xs ys first → heap.OrdersItems xs ys second → first = second
  | .both, other | .left, other | .right, other => by
      cases other
      rfl
  | .equal first rest, other => by
      cases other with
      | equal again other => exact rest.unique other
      | decided again unequal => exact absurd (first.unique again).symm unequal
  | .decided first unequal, other => by
      cases other with
      | equal again other => exact absurd (first.unique again) unequal
      | decided again => exact first.unique again

end

def Holds (heap : Heap) (a b : ListId) : Prop := .list b ∈ (heap.items a).toList

def ReachesCycle (heap : Heap) (value : Value) : Prop :=
  ∃ a c, value = .list a ∧ Relation.ReflTransGen heap.Holds a c ∧ Relation.TransGen heap.Holds c c

theorem ReachesCycle.of_mem {a : ListId} {x : Value} (member : x ∈ (heap.items a).toList)
    (cycle : heap.ReachesCycle x) : heap.ReachesCycle (.list a) := by
  obtain ⟨b, c, rfl, path, loop⟩ := cycle
  exact ⟨a, c, rfl, path.head member, loop⟩

def Encloses (heap : Heap) (a : ListId) (value : Value) : Prop :=
  ∀ c, value = .list c → Relation.TransGen heap.Holds a c

def AreEqual (heap : Heap) (pair : ListId × ListId) : Prop :=
  heap.Orders (.list pair.1) (.list pair.2) (.ok (some .eq))

def AddsEqual (heap : Heap) (met : Pairs) (result : Comparison) : Prop :=
  ∀ next, result = .ok (some .eq, next) → ∀ pair ∈ next, pair ∈ met ∨ heap.AreEqual pair

theorem AddsEqual.of_same_pairs {met : Pairs} (order : Option Ordering) :
    heap.AddsEqual met (.ok (order, met)) := by
  intro next same pair member
  cases same
  exact .inl member

mutual

/-- A pair that was met is one of equal lists, or of lists whose comparison is not at its end. In
the second case the left one of them would be inside itself. -/
theorem Compares.orders {met : Pairs} {left right : Value} {result : Comparison} :
    heap.Compares met left right result → ¬ heap.ReachesCycle left →
    (∀ pair ∈ met, heap.AreEqual pair ∨ heap.Encloses pair.1 left) →
      heap.Orders left right (result.map (·.1)) ∧ heap.AddsEqual met result
  | .scalar apart, _, _ => by
      have plain : heap.Orders left right (left.order right) := .scalar apart
      cases done : left.order right with
      | error pair =>
          rw [done] at plain
          exact ⟨plain, nofun⟩
      | ok order =>
          rw [done] at plain
          exact ⟨plain, .of_same_pairs order⟩
  | .known known, acyclic, sound => by
      refine ⟨?_, .of_same_pairs _⟩
      rcases known with rfl | member
      · exact .same _
      · rcases sound _ member with equal | encloses
        · exact equal
        · exact absurd ⟨_, _, rfl, .refl, encloses _ rfl⟩ acyclic
  | @Compares.enter _ _ a b _ new inside, acyclic, sound => by
      have within : ∀ pair ∈ met.insert (a, b), heap.AreEqual pair ∨
          ∀ x ∈ (heap.items a).toList, heap.Encloses pair.1 x := by
        intro pair member
        rcases mem_insert_pairs.1 member with rfl | old
        · refine .inr fun x held c same => ?_
          subst same
          exact .single held
        · refine (sound pair old).imp_right fun encloses x held c same => ?_
          subst same
          exact (encloses a rfl).tail held
      obtain ⟨plain, adds⟩ :=
        inside.orders (fun x held cycle => acyclic (cycle.of_mem held)) within
      have plain := Orders.enter (fun same => new (.inl same)) plain
      refine ⟨plain, fun next same pair member => ?_⟩
      rcases adds next same pair member with old | equal
      · rcases mem_insert_pairs.1 old with rfl | old
        · subst same
          exact .inr plain
        · exact .inl old
      · exact .inr equal

theorem ComparesItems.orders {met : Pairs} {xs ys : List Value} {result : Comparison} :
    heap.ComparesItems met xs ys result → (∀ x ∈ xs, ¬ heap.ReachesCycle x) →
    (∀ pair ∈ met, heap.AreEqual pair ∨ ∀ x ∈ xs, heap.Encloses pair.1 x) →
      heap.OrdersItems xs ys (result.map (·.1)) ∧ heap.AddsEqual met result
  | .both, _, _ => ⟨.both, .of_same_pairs _⟩
  | .left, _, _ => ⟨.left, .of_same_pairs _⟩
  | .right, _, _ => ⟨.right, .of_same_pairs _⟩
  | .equal first rest, acyclic, sound => by
      obtain ⟨acyclicHead, acyclicTail⟩ := List.forall_mem_cons.1 acyclic
      obtain ⟨plain, adds⟩ := first.orders acyclicHead fun pair member =>
        (sound pair member).imp_right fun encloses => encloses _ List.mem_cons_self
      obtain ⟨plainRest, addsRest⟩ := rest.orders acyclicTail fun pair member => by
        rcases adds _ rfl pair member with old | equal
        · exact (sound pair old).imp_right fun encloses x held => encloses x (.tail _ held)
        · exact .inl equal
      refine ⟨.equal plain plainRest, fun next same pair member => ?_⟩
      rcases addsRest next same pair member with old | equal
      · exact adds _ rfl pair old
      · exact .inr equal
  | .decided first unequal, acyclic, sound => by
      obtain ⟨plain, adds⟩ := first.orders (acyclic _ List.mem_cons_self) fun pair member =>
        (sound pair member).imp_right fun encloses => encloses _ List.mem_cons_self
      refine ⟨.decided plain ?_, adds⟩
      rcases result with pair | ⟨order, next⟩
      · exact nofun
      · intro same
        cases same
        exact unequal next rfl

end

def Paired (heap : Heap) (R : ListId → ListId → Prop) (x y : Value) : Prop :=
  (∃ a b, x = .list a ∧ y = .list b ∧ R a b) ∨
    (x.type ≠ .list ∧ y.type ≠ .list ∧ heap.order x y = .ok (some .eq))

theorem Paired.mono {R S : ListId → ListId → Prop} {x y : Value} (le : ∀ a b, R a b → S a b)
    (paired : heap.Paired R x y) : heap.Paired S x y := by
  rcases paired with ⟨a, b, left, right, related⟩ | scalars
  · exact .inl ⟨a, b, left, right, le a b related⟩
  · exact .inr scalars

def Related (met : Pairs) (a b : ListId) : Prop := a = b ∨ (a, b) ∈ met

theorem Related.mono {met next : Pairs} (grown : ∀ pair ∈ met, pair ∈ next) (a b : ListId)
    (related : Related met a b) : Related next a b := related.imp_right (grown (a, b))

def PairedItems (heap : Heap) (met : Pairs) (pair : ListId × ListId) : Prop :=
  List.Forall₂ (heap.Paired (Related met)) (heap.items pair.1).toList (heap.items pair.2).toList

theorem PairedItems.mono {met next : Pairs} {pair : ListId × ListId}
    (grown : ∀ pair ∈ met, pair ∈ next) (paired : heap.PairedItems met pair) :
    heap.PairedItems next pair :=
  paired.imp fun _ _ => Paired.mono (Related.mono grown)

theorem not_lists_of_order {left right : Value} {order : Option Ordering}
    (apart : left.type ≠ .list ∨ right.type ≠ .list) (done : left.order right = .ok order) :
    left.type ≠ .list ∧ right.type ≠ .list := by
  cases left <;> cases right <;> simp_all [Value.type, Value.order]

mutual

theorem Compares.paired {met next : Pairs} {left right : Value} {result : Comparison} :
    heap.Compares met left right result → result = .ok (some .eq, next) →
      heap.Paired (Related next) left right ∧
        ∀ pair ∈ next, pair ∈ met ∨ heap.PairedItems next pair
  | .scalar apart, same => by
      cases done : left.order right with
      | error pair =>
          rw [done] at same
          cases same
      | ok order =>
          rw [done] at same
          cases same
          obtain ⟨leftScalar, rightScalar⟩ := not_lists_of_order apart done
          refine ⟨.inr ⟨leftScalar, rightScalar, ?_⟩, fun _ => .inl⟩
          rw [order_of_apart apart, done]
  | .known known, same => by
      cases same
      exact ⟨.inl ⟨_, _, rfl, rfl, known⟩, fun _ => .inl⟩
  | @Compares.enter _ _ a b _ new inside, same => by
      obtain ⟨paired, added⟩ := inside.paired same
      have member : (a, b) ∈ next := inside.extends _ _ same _ (mem_insert_pairs.2 (.inl rfl))
      refine ⟨.inl ⟨a, b, rfl, rfl, .inr member⟩, fun pair present => ?_⟩
      rcases added pair present with old | items
      · rcases mem_insert_pairs.1 old with rfl | old
        · exact .inr paired
        · exact .inl old
      · exact .inr items

theorem ComparesItems.paired {met next : Pairs} {xs ys : List Value} {result : Comparison} :
    heap.ComparesItems met xs ys result → result = .ok (some .eq, next) →
      List.Forall₂ (heap.Paired (Related next)) xs ys ∧
        ∀ pair ∈ next, pair ∈ met ∨ heap.PairedItems next pair
  | .both, same => by
      cases same
      exact ⟨.nil, fun _ => .inl⟩
  | .left, same | .right, same => by cases same
  | .equal first rest, same => by
      obtain ⟨paired, added⟩ := first.paired rfl
      obtain ⟨pairedRest, addedRest⟩ := rest.paired same
      have grown := rest.extends _ _ same
      refine ⟨.cons (paired.mono (Related.mono grown)) pairedRest, fun pair present => ?_⟩
      rcases addedRest pair present with old | items
      · exact (added pair old).imp_right (PairedItems.mono grown)
      · exact .inr items
  | .decided first unequal, same => absurd same (unequal next)

end

/-- Comparing two values by the rules comes to one end, and their order is what it says. If neither
is a list from which one comes to a list inside itself, the order is that of plain recursion. Lists
that are equal are paired by a relation that goes on to all their elements. -/
theorem order_lexicographic (heap : Heap) (left right : Value) :
    (∃ result, heap.Compares ∅ left right result ∧
      heap.order left right = result.map (·.1) ∧
      ∀ other, heap.Compares ∅ left right other → other = result) ∧
    (¬ heap.ReachesCycle left → ¬ heap.ReachesCycle right →
      ∀ result, heap.Orders left right result ↔ result = heap.order left right) ∧
    ∀ a b, left = .list a → right = .list b → heap.order left right = .ok (some .eq) →
      ∃ R : ListId → ListId → Prop, R a b ∧ ∀ c d, R c d → c = d ∨
        List.Forall₂ (heap.Paired R) (heap.items c).toList (heap.items d).toList := by
  have compares : heap.Compares ∅ left right (heap.orderWithin heap.pairCount ∅ left right) :=
    compares_iff.2 rfl
  refine ⟨⟨_, compares, compares.order_eq, fun _ => compares_iff.1⟩, ?_, ?_⟩
  · intro acyclic _ result
    obtain ⟨plain, -⟩ := compares.orders acyclic fun _ member =>
      absurd member Std.TreeSet.not_mem_emptyc
    rw [← compares.order_eq] at plain
    exact ⟨fun orders => orders.unique plain, fun same => same ▸ plain⟩
  · rintro a b rfl rfl equal
    cases done : heap.orderWithin heap.pairCount ∅ (.list a) (.list b) with
    | error pair =>
        rw [order, done] at equal
        cases equal
    | ok result =>
        obtain ⟨decided, next⟩ := result
        rw [order, done] at equal
        cases equal
        obtain ⟨paired, added⟩ := compares.paired done
        refine ⟨Related next, ?_, ?_⟩
        · rcases paired with ⟨c, d, left, right, related⟩ | ⟨scalar, -⟩
          · cases left
            cases right
            exact related
          · exact absurd rfl scalar
        · intro c d related
          refine related.imp_right fun member => ?_
          exact (added (c, d) member).resolve_left Std.TreeSet.not_mem_emptyc

theorem not_reachesCycle {inside : ListId → Prop}
    (later : ∀ a b, inside a → heap.Holds a b → inside b ∧ a.index < b.index) {a : ListId}
    (start : inside a) : ¬ heap.ReachesCycle (.list a) := by
  rintro ⟨b, c, same, reached, loop⟩
  cases same
  have contained : ∀ d, Relation.ReflTransGen heap.Holds a d → inside d := by
    intro d path
    induction path with
    | refl => exact start
    | tail _ held ih => exact (later _ _ ih held).1
  have greater : ∀ d, Relation.TransGen heap.Holds c d → inside d ∧ c.index < d.index := by
    intro d path
    induction path with
    | single held => exact later _ _ (contained c reached) held
    | tail _ held ih =>
        obtain ⟨inner, next⟩ := later _ _ ih.1 held
        exact ⟨inner, ih.2.trans next⟩
  exact Nat.lt_irrefl _ (greater c loop).2

/-- Two lists hold two others twice each, so that the pair of these is met again before the numbers
decide. The last two lists are inside themselves. -/
theorem order_lexicographic_shared :
    ∃ heap : Heap,
      heap.lists = #[#[.list ⟨2⟩, .list ⟨2⟩, .int 1], #[.list ⟨3⟩, .list ⟨3⟩, .int 2], #[.str "a"],
        #[.str "a"], #[.list ⟨4⟩], #[.list ⟨5⟩]] ∧
      ¬ heap.ReachesCycle (.list ⟨0⟩) ∧ ¬ heap.ReachesCycle (.list ⟨1⟩) ∧
      heap.order (.list ⟨0⟩) (.list ⟨1⟩) = .ok (some .lt) ∧
      heap.Orders (.list ⟨0⟩) (.list ⟨1⟩) (.ok (some .lt)) ∧
      heap.order (.list ⟨4⟩) (.list ⟨5⟩) = .ok (some .eq) ∧
      ∃ R : ListId → ListId → Prop, R ⟨4⟩ ⟨5⟩ ∧ ∀ c d, R c d → c = d ∨
        List.Forall₂ (heap.Paired R) (heap.items c).toList (heap.items d).toList := by
  let heap : Heap := ⟨#[#[.list ⟨2⟩, .list ⟨2⟩, .int 1], #[.list ⟨3⟩, .list ⟨3⟩, .int 2],
    #[.str "a"], #[.str "a"], #[.list ⟨4⟩], #[.list ⟨5⟩]]⟩
  have checked : ∀ i < 4, ∀ x ∈ (heap.items ⟨i⟩).toList,
      x ∈ [.int 1, .int 2, .str "a"] ∨ i < 2 ∧ x ∈ [.list ⟨2⟩, .list ⟨3⟩] := by decide +kernel
  have later : ∀ a b : ListId, a.index < 4 → heap.Holds a b → b.index < 4 ∧ a.index < b.index := by
    intro a b small held
    rcases checked a.index small _ held with scalar | ⟨outer, inner⟩
    · simp at scalar
    · simp only [List.mem_cons, Value.list.injEq, List.not_mem_nil, or_false] at inner
      obtain rfl | rfl := inner
      all_goals exact ⟨by decide, by dsimp only; omega⟩
  have first : ¬ heap.ReachesCycle (.list ⟨0⟩) := not_reachesCycle later (by decide)
  have second : ¬ heap.ReachesCycle (.list ⟨1⟩) := not_reachesCycle later (by decide)
  have less : heap.order (.list ⟨0⟩) (.list ⟨1⟩) = .ok (some .lt) := by decide +kernel
  have equal : heap.order (.list ⟨4⟩) (.list ⟨5⟩) = .ok (some .eq) := by decide +kernel
  obtain ⟨-, plain, -⟩ := order_lexicographic heap (.list ⟨0⟩) (.list ⟨1⟩)
  obtain ⟨-, -, paired⟩ := order_lexicographic heap (.list ⟨4⟩) (.list ⟨5⟩)
  exact ⟨heap, rfl, first, second, less, (plain first second _).2 less.symm, equal,
    paired ⟨4⟩ ⟨5⟩ rfl rfl equal⟩

end Salita.Heap
