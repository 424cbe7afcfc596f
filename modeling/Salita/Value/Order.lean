import Salita.Value.Basic
import Std.Data.TreeSet

/-!
# Comparing values

Numbers are compared with numbers, texts with texts and truth values with each other. Lists are
compared element by element: the first unequal pair decides, then the lengths. A pair of lists that
is met again counts as equal, so that lists which contain themselves are compared in finite time.
-/

namespace Salita

abbrev Pairs.order : ListId × ListId → ListId × ListId → Ordering :=
  compareLex (compareOn fun pair => pair.1.index) (compareOn fun pair => pair.2.index)

instance : Std.LawfulEqCmp Pairs.order where
  eq_of_compare {p q} equal := by
    obtain ⟨⟨a⟩, ⟨b⟩⟩ := p
    obtain ⟨⟨c⟩, ⟨d⟩⟩ := q
    simpa [compareLex, compareOn, Ordering.then_eq_eq] using equal

abbrev Pairs := Std.TreeSet (ListId × ListId) Pairs.order

structure Incomparable where
  left : Value
  right : Value
deriving DecidableEq

namespace Heap

def orderItems (step : Pairs → Value → Value → Except Incomparable (Option Ordering × Pairs)) :
    Pairs → List Value → List Value → Except Incomparable (Option Ordering × Pairs)
  | met, [], [] => .ok (some .eq, met)
  | met, [], _ :: _ => .ok (some .lt, met)
  | met, _ :: _, [] => .ok (some .gt, met)
  | met, x :: xs, y :: ys =>
      match step met x y with
      | .error e => .error e
      | .ok (some .eq, met) => orderItems step met xs ys
      | .ok decided => .ok decided

/-- The order of two values, and the pairs of lists met up to then. At most `depth` pairs of lists
are entered inside one another. -/
def orderWithin (heap : Heap) (depth : Nat) (met : Pairs) (left right : Value) :
    Except Incomparable (Option Ordering × Pairs) :=
  match left, right with
  | .int a, .int b => .ok (some (compare a.toInt b.toInt), met)
  | .float a, .float b => .ok (Binary64.order? a b, met)
  | .int a, .float b => .ok (Binary64.order? (Value.widen a) b, met)
  | .float a, .int b => .ok (Binary64.order? a (Value.widen b), met)
  | .str a, .str b => .ok (some (compare a b), met)
  | .bool a, .bool b => .ok (some (compare a b), met)
  | .list a, .list b =>
      if a = b ∨ (a, b) ∈ met then .ok (some .eq, met)
      else
        match depth with
        | 0 => .ok (some .eq, met)
        | depth + 1 =>
            orderItems (heap.orderWithin depth) (met.insert (a, b)) (heap.items a).toList
              (heap.items b).toList
  | left, right => .error ⟨left, right⟩

/-- No comparison enters more pairs of lists than there are. -/
def pairCount (heap : Heap) : Nat := heap.lists.size * heap.lists.size + 1

def order (heap : Heap) (left right : Value) : Except Incomparable (Option Ordering) :=
  (heap.orderWithin heap.pairCount ∅ left right).map (·.1)

def sameItems (step : Pairs → Value → Value → Bool × Pairs) :
    Pairs → List Value → List Value → Bool × Pairs
  | met, x :: xs, y :: ys =>
      match step met x y with
      | (true, met) => sameItems step met xs ys
      | differ => differ
  | met, _, _ => (true, met)

def sameWithin (heap : Heap) (depth : Nat) (met : Pairs) (left right : Value) : Bool × Pairs :=
  match left, right with
  | .int a, .int b => (a == b, met)
  | .float a, .float b => (Binary64.order? a b == some .eq, met)
  | .str a, .str b => (a == b, met)
  | .bool a, .bool b => (a == b, met)
  | .function f, .function g => (f.name == g.name && f.arity == g.arity, met)
  | .file f, .file g => (f.index == g.index, met)
  | .void, .void => (true, met)
  | .list a, .list b =>
      if a = b ∨ (a, b) ∈ met then (true, met)
      else
        match depth with
        | 0 => (true, met)
        | depth + 1 =>
            let met := met.insert (a, b)
            if (heap.items a).size = (heap.items b).size then
              sameItems (heap.sameWithin depth) met (heap.items a).toList (heap.items b).toList
            else (false, met)
  | _, _ => (false, met)

def same (heap : Heap) (left right : Value) : Bool :=
  (heap.sameWithin heap.pairCount ∅ left right).1

end Heap

end Salita
