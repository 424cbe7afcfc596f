import Salita.Evaluation.Store

namespace Salita.Indexing

def position? (length : Nat) (index : Int) : Option Nat :=
  if index < 0 then if index.natAbs ≤ length then some (length - index.natAbs) else none
  else if index.toNat < length then some index.toNat else none

def resolve (id : ListId) (index : Value) : Eval Nat := do
  match index with
  | .int i =>
      let length := (← Eval.items id).size
      match position? length i.toInt with
      | some position => return position
      | none => Eval.fail (.indexOutOfRange i (← Eval.textOf (.list id)) ((length : Int) - 1))
  | other => Eval.fail (.invalidIndexType (← Eval.textOf other) other.type)

def get (id : ListId) (index : Value) : Eval Value := do
  let position ← resolve id index
  return (← Eval.items id)[position]?.getD .void

def set (id : ListId) (index value : Value) : Eval Unit := do
  let position ← resolve id index
  Eval.modifyList id (·.setIfInBounds position value)

end Salita.Indexing
