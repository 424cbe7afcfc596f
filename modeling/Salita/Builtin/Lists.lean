import Salita.Builtin.Arguments
import Salita.Evaluation.Indexing
import Salita.Value.Sort

namespace Salita.Call

def palitan (call : Call) : Eval Value := do
  let id ← call.list 0
  Indexing.set id (← call.arg 1) (← call.arg 2)
  return .void

def idagdag (call : Call) : Eval Value := do
  let value ← call.arg 1
  let id ← call.list 0
  Eval.modifyList id (·.push value)
  return .void

def silipin (call : Call) : Eval Value := do
  match ← Eval.last? (← call.list 0) with
  | some value => return value
  | none => Eval.fail (.emptyList call.name)

def tanggalan (call : Call) : Eval Value := do
  let id ← call.list 0
  match ← Eval.last? id with
  | some value =>
      Eval.modifyList id (·.pop)
      return value
  | none => Eval.fail (.emptyList call.name)

def sorted (descending : Bool) (items : List Value) : Eval (Array Value) := do
  match (← Eval.heap).sort descending items with
  | .ok items => return items.toArray
  | .error pair => Operation.refuse pair.left .less pair.right

def isaayos (call : Call) : Eval Value := do
  let id ← call.list 0
  let descending ← match call.arg? 1 with
    | some value => Eval.isTrue value
    | none => pure false
  let items ← sorted descending (← Eval.items id).toList
  Eval.modifyList id fun _ => items
  return .void

def baligtarin (call : Call) : Eval Value := do
  let id ← call.list 0
  Eval.modifyList id (·.reverse)
  return .void

def baligtad (call : Call) : Eval Value := do
  Eval.newList (← call.sequence 0).toArray.reverse

def nakaayos (call : Call) : Eval Value := do
  Eval.newList (← sorted false (← call.sequence 0))

end Salita.Call
