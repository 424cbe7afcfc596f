import Salita.Value.Order

namespace Salita.Sort

abbrev Before := Value → Value → Except Incomparable Bool

def takeBefore (before : Before) (item : Value) :
    List Value → Except Incomparable (List Value × List Value)
  | [] => .ok ([], [])
  | x :: rest => do
      if ← before x item then
        let (taken, rest) ← takeBefore before item rest
        return (x :: taken, rest)
      else return ([], x :: rest)

/-- Two sorted lists as one. An element of the second list goes ahead only where it has to. -/
def merge (before : Before) : List Value → List Value → Except Incomparable (List Value)
  | [], right => .ok right
  | item :: left, right => do
      let (taken, right) ← takeBefore before item right
      let merged ← merge before left right
      return taken ++ item :: merged

def sortWithin (before : Before) : Nat → List Value → Except Incomparable (List Value)
  | 0, items => .ok items
  | depth + 1, items =>
      if items.length ≤ 1 then .ok items
      else do
        let half := items.length / 2
        let left ← sortWithin before depth (items.take half)
        let right ← sortWithin before depth (items.drop half)
        merge before left right

end Salita.Sort

namespace Salita.Heap

def isBefore (heap : Heap) (descending : Bool) : Sort.Before := fun x y => do
  let result ← if descending then heap.order y x else heap.order x y
  return result == some .lt

def sort (heap : Heap) (descending : Bool) (items : List Value) :
    Except Incomparable (List Value) :=
  Sort.sortWithin (heap.isBefore descending) items.length items

end Salita.Heap
