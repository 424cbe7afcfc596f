import Salita.Proofs.Builtin.Storage
import Salita.Proofs.Evaluation.Comparison
import Salita.Proofs.Value.Order

/-!
# Comparing copies of lists

A list and a copy of it hold the same elements. Main statement: where no list is inside itself, the
copy is compared with any other list as the list is. Compared with the list itself, which is equal
to itself whatever it holds, the copy is equal only if each of its elements is equal to itself.
-/

namespace Salita

namespace Heap

structure Grown (heap next : Heap) : Prop where
  closed : ∀ a b, heap.Holds a b → heap.Contains b
  kept : heap.Kept false next

def Knows (heap : Heap) (value : Value) : Prop := ∀ id, value = .list id → heap.Contains id

theorem knows_list {heap : Heap} {id : ListId} : heap.Knows (.list id) ↔ heap.Contains id := by
  simp [Knows]

namespace Grown

variable {heap next : Heap} (grown : heap.Grown next) {a b : ListId}
include grown

theorem items_eq (present : heap.Contains a) : next.items a = heap.items a :=
  grown.kept.items rfl a present

theorem knows {x : Value} (member : x ∈ (heap.items a).toList) : heap.Knows x := by
  rintro b rfl
  exact grown.closed a b member

theorem holds (present : heap.Contains a) (held : next.Holds a b) :
    heap.Holds a b ∧ heap.Contains b := by
  rw [Holds, grown.items_eq present] at held
  exact ⟨held, grown.closed a b held⟩

theorem reflTransGen (present : heap.Contains a) (path : Relation.ReflTransGen next.Holds a b) :
    Relation.ReflTransGen heap.Holds a b ∧ heap.Contains b := by
  induction path with
  | refl => exact ⟨.refl, present⟩
  | tail _ held ih =>
      obtain ⟨held, there⟩ := grown.holds ih.2 held
      exact ⟨ih.1.tail held, there⟩

theorem transGen (present : heap.Contains a) (path : Relation.TransGen next.Holds a b) :
    Relation.TransGen heap.Holds a b := by
  obtain ⟨c, path, held⟩ := Relation.TransGen.tail'_iff.1 path
  obtain ⟨path, there⟩ := grown.reflTransGen present path
  exact Relation.TransGen.tail' path (grown.holds there held).1

theorem reachesCycle {value : Value} (known : heap.Knows value) (cycle : next.ReachesCycle value) :
    heap.ReachesCycle value := by
  obtain ⟨a, c, rfl, path, loop⟩ := cycle
  obtain ⟨path, there⟩ := grown.reflTransGen (knows_list.1 known) path
  exact ⟨a, c, rfl, path, grown.transGen there loop⟩

end Grown

variable {heap next : Heap}

mutual

theorem Orders.of_grown {left right : Value} {result : Except Incomparable (Option Ordering)} :
    heap.Orders left right result → heap.Grown next → heap.Knows left → heap.Knows right →
      next.Orders left right result
  | .scalar apart, _, _, _ => .scalar apart
  | .same a, _, _, _ => .same a
  | .enter distinct inside, grown, left, right => by
      refine .enter distinct ?_
      rw [grown.items_eq (knows_list.1 left), grown.items_eq (knows_list.1 right)]
      exact inside.of_grown grown (fun x => grown.knows) (fun y => grown.knows)

theorem OrdersItems.of_grown {xs ys : List Value}
    {result : Except Incomparable (Option Ordering)} :
    heap.OrdersItems xs ys result → heap.Grown next → (∀ x ∈ xs, heap.Knows x) →
      (∀ y ∈ ys, heap.Knows y) → next.OrdersItems xs ys result
  | .both, _, _, _ => .both
  | .left, _, _, _ => .left
  | .right, _, _, _ => .right
  | .equal first rest, grown, left, right => by
      obtain ⟨x, xs⟩ := List.forall_mem_cons.1 left
      obtain ⟨y, ys⟩ := List.forall_mem_cons.1 right
      exact .equal (first.of_grown grown x y) (rest.of_grown grown xs ys)
  | .decided first unequal, grown, left, right =>
      .decided (first.of_grown grown (left _ List.mem_cons_self) (right _ List.mem_cons_self))
        unequal

end

theorem orders_order {left : Value} (acyclic : ¬ heap.ReachesCycle left) (right : Value) :
    heap.Orders left right (heap.order left right) := by
  have compares : heap.Compares ∅ left right _ := compares_iff.2 rfl
  obtain ⟨plain, -⟩ := compares.orders acyclic fun _ member =>
    absurd member Std.TreeSet.not_mem_emptyc
  rwa [← compares.order_eq] at plain

end Heap

/-- Whether a value is equal to itself. What is not a number is unequal to everything, and
functions, files and `void` are not compared at all. -/
def Value.isReflexive : Value → Bool
  | .int _ | .str _ | .bool _ | .list _ => true
  | .float x => !Binary64.isNaN x
  | .function _ | .file _ | .void => false

namespace Heap

variable {heap next : Heap}

theorem exists_orders_self (heap : Heap) (x : Value) :
    ∃ result, heap.Orders x x result ∧ (result = .ok (some .eq) ↔ x.isReflexive) := by
  cases x with
  | list id => exact ⟨_, .same id, by simp [Value.isReflexive]⟩
  | _ =>
      refine ⟨_, .scalar (.inl (by simp [Value.type])), ?_⟩
      simp [Value.order, Value.isReflexive, Binary64.order?]

theorem exists_ordersItems_self (heap : Heap) (xs : List Value) :
    ∃ result, heap.OrdersItems xs xs result ∧
      (result = .ok (some .eq) ↔ ∀ x ∈ xs, x.isReflexive) := by
  induction xs with
  | nil => exact ⟨_, .both, by simp⟩
  | cons x xs ih =>
      obtain ⟨result, first, equal⟩ := heap.exists_orders_self x
      by_cases same : result = .ok (some .eq)
      · obtain ⟨last, rest, equalRest⟩ := ih
        subst same
        refine ⟨last, .equal first rest, ?_⟩
        rw [List.forall_mem_cons, equalRest]
        exact ⟨fun others => ⟨equal.1 rfl, others⟩, And.right⟩
      · refine ⟨result, .decided first same, ?_⟩
        rw [List.forall_mem_cons, ← equal]
        simp [same]

section
variable {xs ys copy : ListId} (grown : heap.Grown next) (present : heap.Contains ys)
  (acyclic : ¬ heap.ReachesCycle (.list ys)) (new : ¬ heap.Contains copy)
  (elements : next.items copy = heap.items xs)
include grown present acyclic new elements

theorem order_copy {result : Except Incomparable (Option Ordering)}
    (inside : heap.OrdersItems (heap.items ys).toList (heap.items xs).toList result) :
    next.order (.list ys) (.list copy) = result := by
  have distinct : ys ≠ copy := by
    rintro rfl
    exact new present
  have moved : next.Orders (.list ys) (.list copy) result := by
    refine .enter distinct ?_
    rw [grown.items_eq present, elements]
    exact inside.of_grown grown (fun x => grown.knows) (fun y => grown.knows)
  have still : ¬ next.ReachesCycle (.list ys) := fun cycle =>
    acyclic (grown.reachesCycle (knows_list.2 present) cycle)
  exact (orders_order still _).unique moved

theorem order_copy_of_ne (distinct : xs ≠ ys) :
    next.order (.list ys) (.list copy) = heap.order (.list ys) (.list xs) := by
  have plain := orders_order acyclic (.list xs)
  generalize heap.order (.list ys) (.list xs) = result at plain
  cases plain with
  | scalar apart => simp [Value.type] at apart
  | same => exact absurd rfl distinct
  | enter _ inside => exact order_copy grown present acyclic new elements inside

theorem order_copy_self (same : xs = ys) :
    next.order (.list ys) (.list copy) = .ok (some .eq) ↔
      ∀ x ∈ (heap.items xs).toList, x.isReflexive := by
  subst same
  obtain ⟨result, inside, equal⟩ := heap.exists_ordersItems_self (heap.items xs).toList
  rw [order_copy grown present acyclic new elements inside, equal]

end

theorem order_self (heap : Heap) (id : ListId) :
    heap.order (.list id) (.list id) = .ok (some .eq) := by
  have compares : heap.Compares ∅ (.list id) (.list id) _ := .known (.inl rfl)
  exact compares.order_eq

end Heap

/-- A copy of a list, compared with a list that reaches no cycle, agrees with the list, except where
that list is the same one and holds an element that is not equal to itself. Then the list is equal
to itself, and the copy is not equal to it. -/
theorem Operation.compare_copy {s next : Store} {xs ys copy : ListId}
    (grown : s.heap.Grown next.heap) (present : s.heap.Contains ys)
    (acyclic : ¬ s.heap.ReachesCycle (.list ys)) (new : ¬ s.heap.Contains copy)
    (elements : next.heap.items copy = s.heap.items xs) :
    ((xs = ys → ∀ x ∈ (s.heap.items xs).toList, x.isReflexive) → ∀ op,
      (compare (.list xs) (.list ys) op).Agrees s (compare (.list copy) (.list ys) op) next ∧
      (compare (.list ys) (.list xs) op).Agrees s (compare (.list ys) (.list copy) op) next) ∧
    (xs = ys → ∀ x ∈ (s.heap.items xs).toList, x.isReflexive = false →
      compare (.list xs) (.list ys) .eq s = .ok true s ∧
      compare (.list copy) (.list ys) .eq next ≠ .ok true next) := by
  have self := Heap.order_copy_self grown present acyclic new elements
  constructor
  · intro reflexive op
    have behind : s.heap.order (.list ys) (.list xs) = next.heap.order (.list ys) (.list copy) := by
      by_cases same : xs = ys
      · rw [(self same).2 (reflexive same), same, Heap.order_self]
      · exact (Heap.order_copy_of_ne grown present acyclic new elements same).symm
    have ahead : s.heap.order (.list xs) (.list ys) = next.heap.order (.list copy) (.list ys) := by
      rw [Heap.order_swap _ (.list ys), behind, ← Heap.order_swap]
    exact ⟨agrees_compare (by rw [ahead]), agrees_compare (by rw [behind])⟩
  · intro same x member apart
    refine ⟨compare_eq_true_iff.2 (by rw [same, Heap.order_self]), fun equal => ?_⟩
    have mirrored : next.heap.order (.list ys) (.list copy) = .ok (some .eq) := by
      rw [Heap.order_swap _ (.list copy), compare_eq_true_iff.1 equal]
      rfl
    rw [(self same).1 mirrored x member] at apart
    cases apart

theorem Operation.compare_copy_nested :
    ∃ (s next : Store) (xs copy : ListId),
      s.heap.lists = #[#[.int 1, .list ⟨1⟩], #[.float Binary64.nan], #[]] ∧ xs = ⟨0⟩ ∧
      binary (.list xs) (.list ⟨2⟩) .add s = .ok (.list copy) next ∧
      s.heap.Grown next.heap ∧ s.heap.Contains xs ∧ ¬ s.heap.ReachesCycle (.list xs) ∧
      ¬ s.heap.Contains copy ∧ next.heap.items copy = s.heap.items xs ∧
      (∀ x ∈ (s.heap.items xs).toList, x.isReflexive) ∧
      (compare (.list xs) (.list xs) .eq).Agrees s (compare (.list copy) (.list xs) .eq) next := by
  let s : Store := { heap := ⟨#[#[.int 1, .list ⟨1⟩], #[.float Binary64.nan], #[]]⟩ }
  let next : Store := { s with heap := (s.heap.alloc #[.int 1, .list ⟨1⟩]).2 }
  have checked : ∀ i < 3, ∀ x ∈ (s.heap.items ⟨i⟩).toList,
      x.type = .list → i = 0 ∧ x = .list ⟨1⟩ := by decide +kernel
  have held : ∀ a b, s.heap.Holds a b → a = ⟨0⟩ ∧ b = ⟨1⟩ := by
    rintro ⟨i⟩ b held
    by_cases inside : i < 3
    · obtain ⟨rfl, same⟩ := checked i inside _ held rfl
      exact ⟨rfl, Value.list.inj same⟩
    · rw [Heap.Holds, Heap.items_of_not_contained inside] at held
      cases held
  have grown : s.heap.Grown next.heap := by
    refine ⟨fun a b member => ?_, .alloc _ _⟩
    rw [(held a b member).2]
    decide
  have later : ∀ a b : ListId, a.index < 2 → s.heap.Holds a b →
      b.index < 2 ∧ a.index < b.index := by
    intro a b _ member
    obtain ⟨rfl, rfl⟩ := held a b member
    decide
  have acyclic : ¬ s.heap.ReachesCycle (.list ⟨0⟩) := Heap.not_reachesCycle later (by decide)
  have reflexive : ∀ x ∈ (s.heap.items ⟨0⟩).toList, x.isReflexive := by decide +kernel
  obtain ⟨agrees, -⟩ :=
    @compare_copy s next ⟨0⟩ ⟨0⟩ ⟨3⟩ grown (by decide) acyclic (by decide) rfl
  exact ⟨s, next, ⟨0⟩, ⟨3⟩, rfl, rfl, rfl, grown, by decide, acyclic, by decide, rfl, reflexive,
    (agrees (fun _ => reflexive) .eq).1⟩

/-- A list that holds what is not a number, and one that holds `void`, are equal to themselves. The
copy of the first is unequal to it, and that of the second cannot be compared with it. -/
theorem Operation.compare_copy_unequal :
    ∃ s first second : Store,
      s.heap.lists = #[#[.float Binary64.nan], #[.void], #[]] ∧
      binary (.list ⟨0⟩) (.list ⟨2⟩) .add s = .ok (.list ⟨3⟩) first ∧
      compare (.list ⟨0⟩) (.list ⟨0⟩) .eq s = .ok true s ∧
      compare (.list ⟨3⟩) (.list ⟨0⟩) .eq first = .ok false first ∧
      binary (.list ⟨1⟩) (.list ⟨2⟩) .add s = .ok (.list ⟨3⟩) second ∧
      compare (.list ⟨1⟩) (.list ⟨1⟩) .eq s = .ok true s ∧
      (compare (.list ⟨3⟩) (.list ⟨1⟩) .eq).Refuses second := by
  let lists : Array (Array Value) := #[#[.float Binary64.nan], #[.void], #[]]
  let s : Store := { heap := ⟨lists⟩ }
  let first : Store := { heap := ⟨lists.push #[.float Binary64.nan]⟩ }
  let second : Store := { heap := ⟨lists.push #[.void]⟩ }
  have unordered : first.heap.order (.list ⟨3⟩) (.list ⟨0⟩) = .ok none := by decide +kernel
  have incomparable : second.heap.order (.list ⟨3⟩) (.list ⟨1⟩) = .error ⟨.void, .void⟩ := by
    decide +kernel
  exact ⟨s, first, second, rfl, rfl, compare_eq_true_iff.2 (s.heap.order_self _),
    compare_of_some (by rw [unordered]; rfl), rfl, compare_eq_true_iff.2 (s.heap.order_self _),
    refuses_compare_of_none (by rw [incomparable]; rfl)⟩

end Salita
