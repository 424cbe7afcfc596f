import Mathlib.Data.List.Sigma
import Salita.Proofs.Value.Number
import Salita.Proofs.Value.Order
import Salita.Proofs.Value.Sort

/-!
# What sorting moves

Sorting moves an element ahead of another only where it has to stand before that one, or before one
that stood in front of it. Main statement: two elements that are unordered stay in their order,
unless the later of them comes before an element in front of the earlier one.
-/

namespace Salita.Sort

variable {α : Type} {P : Value → Value → Prop} {f : α → Value}

/-- A merged list of two: both stay in their order, and an element of the second goes ahead of one
of the first only if it comes before that one or before one that stands in front of it. -/
structure Interleaves (P : Value → Value → Prop) (f : α → Value) (xs ys zs : List α) : Prop where
  perm : zs.Perm (xs ++ ys)
  front : xs.Sublist zs
  back : ys.Sublist zs
  order : ∀ x ∈ xs, ∀ y ∈ ys,
    [x, y].Sublist zs ∨ ∃ p, (p = x ∨ [p, x].Sublist xs) ∧ P (f y) (f p)

theorem pair_sublist_cons {x y : α} {zs : List α} (member : y ∈ zs) : [x, y].Sublist (x :: zs) :=
  (List.singleton_sublist.2 member).cons_cons x

theorem Interleaves.nil (ys : List α) : Interleaves P f [] ys ys where
  perm := .refl _
  front := List.nil_sublist _
  back := .refl _
  order := nofun

theorem Interleaves.left {xs ys zs : List α} (rest : Interleaves P f xs ys zs) (x : α) :
    Interleaves P f (x :: xs) ys (x :: zs) where
  perm := rest.perm.cons x
  front := rest.front.cons_cons x
  back := rest.back.cons x
  order := by
    intro z inside y member
    rcases List.mem_cons.1 inside with rfl | inside
    · exact .inl (pair_sublist_cons (rest.back.subset member))
    · rcases rest.order z inside y member with pair | ⟨p, front, first⟩
      · exact .inl (pair.cons x)
      · exact .inr ⟨p, front.imp_right (.cons x), first⟩

theorem Interleaves.right {x y : α} {xs ys zs : List α} (first : P (f y) (f x))
    (rest : Interleaves P f (x :: xs) ys zs) : Interleaves P f (x :: xs) (y :: ys) (y :: zs) where
  perm := (rest.perm.cons y).trans List.perm_middle.symm
  front := rest.front.cons y
  back := rest.back.cons_cons y
  order := by
    intro z inside w member
    rcases List.mem_cons.1 member with rfl | member
    · refine .inr ⟨x, ?_, first⟩
      exact (List.mem_cons.1 inside).imp Eq.symm pair_sublist_cons
    · exact (rest.order z inside w member).imp_left (.cons y)

theorem Merges.exists_interleaves {left right result : List Value}
    (merges : Merges P left right result) {xs ys : List α} (front : xs.map f = left)
    (back : ys.map f = right) :
    ∃ zs, zs.map f = result ∧ Interleaves P f xs ys zs := by
  induction merges generalizing xs ys with
  | done right =>
      obtain rfl := List.map_eq_nil_iff.1 front
      exact ⟨ys, back, .nil ys⟩
  | left first rest ih =>
      obtain ⟨x, xs, rfl, rfl, rfl⟩ := List.map_eq_cons_iff.1 front
      obtain ⟨zs, rfl, interleaves⟩ := ih rfl back
      exact ⟨x :: zs, rfl, interleaves.left x⟩
  | right first rest ih =>
      obtain ⟨x, xs, rfl, rfl, rfl⟩ := List.map_eq_cons_iff.1 front
      obtain ⟨y, ys, rfl, rfl, rfl⟩ := List.map_eq_cons_iff.1 back
      have whole : (x :: xs).map f = f x :: xs.map f := rfl
      obtain ⟨zs, rfl, interleaves⟩ := ih whole rfl
      exact ⟨y :: zs, rfl, interleaves.right first⟩

/-- The later element comes, by steps of the order, before the earlier one or before one that stands
in front of it. -/
def Overtakes (P : Value → Value → Prop) (f : α → Value) (xs : List α) (later earlier : α) : Prop :=
  ∃ z, (z = earlier ∨ [z, earlier].Sublist xs) ∧ Relation.TransGen P (f later) (f z)

theorem Overtakes.mono {xs ys : List α} {x y : α} (inside : xs.Sublist ys)
    (overtakes : Overtakes P f xs y x) : Overtakes P f ys y x := by
  obtain ⟨z, front, path⟩ := overtakes
  exact ⟨z, front.imp_right fun pair => pair.trans inside, path⟩

def Preserves (P : Value → Value → Prop) (f : α → Value) (xs zs : List α) : Prop :=
  ∀ x y, [x, y].Sublist xs → [x, y].Sublist zs ∨ Overtakes P f xs y x

theorem pair_sublist_append {x y : α} {xs ys : List α} (pair : [x, y].Sublist (xs ++ ys)) :
    [x, y].Sublist xs ∨ [x, y].Sublist ys ∨ x ∈ xs ∧ y ∈ ys := by
  obtain ⟨left, right, same, first, second⟩ := List.sublist_append_iff.1 pair
  rcases left with _ | ⟨a, _ | ⟨b, left⟩⟩
  · cases same
    exact .inr (.inl second)
  · cases same
    exact .inr (.inr ⟨List.singleton_sublist.1 first, List.singleton_sublist.1 second⟩)
  · obtain ⟨rfl, rfl, rfl, -⟩ : x = a ∧ y = b ∧ left = [] ∧ right = [] := by simpa using same
    exact .inl first

theorem pair_sublist_or {x y : α} {xs : List α} (hx : x ∈ xs) (hy : y ∈ xs) (apart : x ≠ y) :
    [x, y].Sublist xs ∨ [y, x].Sublist xs := by
  induction xs with
  | nil => cases hx
  | cons z xs ih =>
      rcases List.mem_cons.1 hx with rfl | left
      · exact .inl (pair_sublist_cons ((List.mem_cons.1 hy).resolve_left apart.symm))
      · rcases List.mem_cons.1 hy with rfl | right
        · exact .inr (pair_sublist_cons left)
        · exact (ih left right).imp (.cons z) (.cons z)

theorem not_pair_sublist_swap {x y : α} {xs : List α} (distinct : xs.Nodup)
    (pair : [x, y].Sublist xs) : ¬ [y, x].Sublist xs := by
  intro swapped
  induction xs with
  | nil => cases pair
  | cons z xs ih =>
      obtain ⟨new, distinct⟩ := List.nodup_cons.1 distinct
      cases pair with
      | cons _ pair =>
          cases swapped with
          | cons _ swapped => exact ih distinct pair swapped
          | cons_cons _ rest => exact new (pair.subset (by simp))
      | cons_cons _ rest =>
          cases swapped with
          | cons _ swapped => exact new (swapped.subset (by simp))
          | cons_cons _ rest' => exact new (List.singleton_sublist.1 rest')

theorem Preserves.of_interleaves {xs ys front back zs : List α} (distinct : xs.Nodup)
    (frontPerm : front.Perm xs) (backPerm : back.Perm ys) (frontPreserves : Preserves P f xs front)
    (backPreserves : Preserves P f ys back) (interleaves : Interleaves P f front back zs) :
    Preserves P f (xs ++ ys) zs := by
  intro x y pair
  rcases pair_sublist_append pair with pair | pair | ⟨left, right⟩
  · exact (frontPreserves x y pair).imp (fun kept => kept.trans interleaves.front)
      (.mono (List.sublist_append_left ..))
  · exact (backPreserves x y pair).imp (fun kept => kept.trans interleaves.back)
      (.mono (List.sublist_append_right ..))
  · rcases interleaves.order x (frontPerm.mem_iff.2 left) y (backPerm.mem_iff.2 right) with
      pair | ⟨p, ahead, first⟩
    · exact .inl pair
    · right
      refine Overtakes.mono (List.sublist_append_left xs ys) ?_
      rcases ahead with rfl | ahead
      · exact ⟨p, .inl rfl, .single first⟩
      · have sortedDistinct : front.Nodup := frontPerm.nodup_iff.2 distinct
        have apart : p ≠ x := by simpa using sortedDistinct.sublist ahead
        have inside : p ∈ xs := frontPerm.subset (ahead.subset (by simp))
        rcases pair_sublist_or inside left apart with before | behind
        · exact ⟨p, .inr before, .single first⟩
        · -- The element that `y` went ahead of had itself overtaken `x`.
          rcases frontPreserves x p behind with kept | ⟨z, before, path⟩
          · exact absurd kept (not_pair_sublist_swap sortedDistinct ahead)
          · exact ⟨z, before, .head first path⟩

theorem Sorts.exists_preserves {items result : List Value} (sorts : Sorts P items result)
    {xs : List α} (distinct : xs.Nodup) (same : xs.map f = items) :
    ∃ zs, zs.map f = result ∧ zs.Perm xs ∧ Preserves P f xs zs := by
  induction sorts generalizing xs with
  | short => exact ⟨xs, same, .refl _, fun x y => .inl⟩
  | parts frontSorts backSorts merges frontKeeps backKeeps =>
      obtain ⟨front, back, rfl, rfl, rfl⟩ := List.map_eq_append_iff.1 same
      obtain ⟨frontDistinct, backDistinct, -⟩ := List.nodup_append.1 distinct
      obtain ⟨left, rfl, leftPerm, leftPreserves⟩ := frontKeeps frontDistinct rfl
      obtain ⟨right, rfl, rightPerm, rightPreserves⟩ := backKeeps backDistinct rfl
      obtain ⟨zs, rfl, interleaves⟩ := merges.exists_interleaves rfl rfl
      exact ⟨zs, rfl, interleaves.perm.trans (leftPerm.append rightPerm),
        .of_interleaves frontDistinct leftPerm rightPerm leftPreserves rightPreserves interleaves⟩

end Salita.Sort

namespace Salita.Heap

variable {heap : Heap} {descending : Bool}

theorem type_ne_list_of_order {x y : Value} {order : Option Ordering}
    (apart : x.type ≠ .list ∨ y.type ≠ .list) (ordered : heap.order x y = .ok order) :
    x.type ≠ .list ∧ y.type ≠ .list := by
  rw [order_of_apart apart] at ordered
  exact not_lists_of_order apart ordered

theorem order_lt_trans {x y z : Value} (scalar : y.type ≠ .list)
    (first : heap.order x y = .ok (some .lt)) (second : heap.order y z = .ok (some .lt)) :
    heap.order x z = .ok (some .lt) := by
  obtain ⟨scalarLeft, -⟩ := type_ne_list_of_order (.inr scalar) first
  rw [order_of_apart (.inr scalar)] at first
  rw [order_of_apart (.inl scalar)] at second
  rw [order_of_apart (.inl scalarLeft)]
  exact Value.order_lt_trans first second

theorem Precedes.trans {x y z : Value} (scalar : y.type ≠ .list)
    (first : heap.Precedes descending x y) (second : heap.Precedes descending y z) :
    heap.Precedes descending x z := by
  cases descending with
  | false => exact order_lt_trans scalar first second
  | true => exact order_lt_trans scalar second first

theorem Precedes.scalar {x y : Value} (precedes : heap.Precedes descending x y)
    (scalar : x.type ≠ .list) : y.type ≠ .list := by
  cases descending with
  | false => exact (type_ne_list_of_order (.inl scalar) precedes).2
  | true => exact (type_ne_list_of_order (.inr scalar) precedes).1

/-- Steps of the order from a value that is no list are one step. -/
theorem precedes_of_transGen {x y : Value} (scalar : x.type ≠ .list)
    (path : Relation.TransGen (heap.Precedes descending) x y) :
    heap.Precedes descending x y := by
  have both : heap.Precedes descending x y ∧ y.type ≠ .list := by
    induction path with
    | single first => exact ⟨first, first.scalar scalar⟩
    | tail _ last ih => exact ⟨ih.1.trans ih.2 last, last.scalar ih.2⟩
  exact both.1

theorem not_precedes_of_unordered {x y : Value} (unordered : heap.order x y = .ok none) :
    ¬ heap.Precedes descending y x := by
  intro precedes
  cases descending with
  | false =>
      rw [Precedes, if_neg Bool.false_ne_true, order_swap heap x y, unordered] at precedes
      cases precedes
  | true =>
      rw [Precedes, if_pos rfl, unordered] at precedes
      cases precedes

theorem not_precedes_of_isNaN {f : Float} (nan : Binary64.isNaN f) (y : Value) :
    ¬ heap.Precedes descending (.float f) y := by
  have apart : (Value.float f).type ≠ .list ∨ y.type ≠ .list := .inl nofun
  obtain ⟨left, right⟩ := Value.order_ne_of_isNaN nan y .lt
  intro precedes
  cases descending with
  | false =>
      have less : heap.order (.float f) y = .ok (some .lt) := precedes
      rw [order_of_apart apart] at less
      exact left less
  | true =>
      have less : heap.order y (.float f) = .ok (some .lt) := precedes
      rw [order_of_apart apart.symm] at less
      exact right less

/-- The elements of a sorted list with the positions that they had. Of any two elements the first
stays ahead, unless the second overtakes it; something that is not a number overtakes nothing. If
the two are unordered and the second, which is no list, goes ahead, then it comes before an element
that stood in front of the first. -/
structure Tracks (heap : Heap) (descending : Bool) (items sorted : List Value)
    (moved : List (Value × Nat)) : Prop where
  perm : moved.Perm items.zipIdx
  elements : moved.map Prod.fst = sorted
  preserves : Sort.Preserves (heap.Precedes descending) Prod.fst items.zipIdx moved
  behind : ∀ x y f, [x, y].Sublist items.zipIdx → y.1 = .float f → Binary64.isNaN f →
    [x, y].Sublist moved
  unordered : ∀ x y, [x, y].Sublist items.zipIdx → heap.order x.1 y.1 = .ok none →
    y.1.type ≠ .list →
      [x, y].Sublist moved ∨ ∃ z, [z, x].Sublist items.zipIdx ∧ heap.Precedes descending y.1 z.1

theorem exists_tracks_of_sort {items sorted : List Value}
    (done : heap.sort descending items = .ok sorted) :
    ∃ moved, heap.Tracks descending items sorted moved := by
  have sorts := Sort.Sorts.of_sortWithin decides_isBefore (Nat.le_refl _) done
  have distinct : items.zipIdx.Nodup := (List.nodup_zipIdx_map_snd items).of_map _
  obtain ⟨moved, elements, perm, preserves⟩ :=
    sorts.exists_preserves distinct (List.zipIdx_map_fst ..)
  refine ⟨moved, perm, elements, preserves, ?_, ?_⟩
  · intro x y f pair same nan
    refine (preserves x y pair).resolve_right fun ⟨z, front, path⟩ => ?_
    rw [same] at path
    obtain ⟨w, first, -⟩ := Relation.TransGen.head'_iff.1 path
    exact not_precedes_of_isNaN nan w first
  · intro x y pair unordered scalar
    refine (preserves x y pair).imp_right fun ⟨z, front, path⟩ => ?_
    have precedes := precedes_of_transGen scalar path
    rcases front with rfl | front
    · exact absurd precedes (not_precedes_of_unordered unordered)
    · exact ⟨z, front, precedes⟩

end Salita.Heap
