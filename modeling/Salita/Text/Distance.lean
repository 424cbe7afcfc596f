namespace Salita.Text

/-- The entries of a row behind its first. `left` is the entry before, and `diagonal` the one of the
last row before the entry above, of which `row` starts with the latter. -/
def rowBehind (c : Char) : Nat → Nat → List Char → List Nat → List Nat
  | diagonal, left, d :: b, above :: row =>
      let entry := if c = d then diagonal else 1 + min diagonal (min above left)
      entry :: rowBehind c above entry b row
  | _, _, _, _ => []

def nextRow (b : List Char) (row : List Nat) (c : Char) : List Nat :=
  match row with
  | [] => []
  | first :: row => (first + 1) :: rowBehind c first (first + 1) b row

def distance (a b : List Char) : Nat :=
  (a.foldl (nextRow b) (List.range (b.length + 1))).getLastD 0

end Salita.Text
