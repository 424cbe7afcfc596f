import Salita.Text.Distance

namespace Salita.Suggestion

def tolerance (length : Nat) : Nat :=
  if length ≤ 2 then 0 else if length ≤ 5 then 1 else if length ≤ 9 then 2 else 3

def nearer (a b : Nat × String) : Nat × String :=
  if b.1 < a.1 ∨ (b.1 = a.1 ∧ b.2 < a.2) then b else a

def candidatesFor (name : String) (candidates : List String) : List (Nat × String) :=
  let limit := tolerance name.length
  ((candidates.filter (· ≠ name)).map fun c => (Text.distance name.toList c.toList, c)).filter
    fun c => c.1 ≤ limit

def closest? (name : String) (candidates : List String) : Option String :=
  if tolerance name.length = 0 then none
  else
    match candidatesFor name candidates with
    | [] => none
    | first :: rest => some (rest.foldl nearer first).2

def didYouMean? (name : String) (candidates : List String) : Option String :=
  (closest? name candidates).map fun found => "did you mean `" ++ found ++ "`?"

end Salita.Suggestion
