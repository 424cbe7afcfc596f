import Salita.Evaluation.Operation

namespace Salita

structure Call where
  name : String
  args : List Value

namespace Call

def refuse {α : Type} (call : Call) (problem : ArgumentProblem) : Eval α :=
  Eval.fail (.invalidArgument call.name problem)

def refuseType {α : Type} (call : Call) (position : Nat) (wanted : String) (found : Value) :
    Eval α :=
  call.refuse (.type position wanted found.type)

def arg? (call : Call) (position : Nat) : Option Value := call.args[position]?

def arg (call : Call) (position : Nat) : Eval Value :=
  match call.arg? position with
  | some value => return value
  | none => call.refuse (.missing position)

def list (call : Call) (position : Nat) : Eval ListId := do
  match ← call.arg position with
  | .list id => return id
  | other => call.refuseType position "list" other

def str (call : Call) (position : Nat) : Eval String := do
  match ← call.arg position with
  | .str s => return s
  | other => call.refuseType position "str" other

def number (call : Call) (position : Nat) : Eval Float := do
  let value ← call.arg position
  match value.toFloat? with
  | some x => return x
  | none => call.refuseType position "a number" value

def file (call : Call) (position : Nat) : Eval FileRef := do
  match ← call.arg position with
  | .file f => return f
  | other => call.refuseType position "file" other

def text (call : Call) : Eval String := do
  let heap ← Eval.heap
  return call.name ++ "(" ++ ", ".intercalate (call.args.map heap.text) ++ ")"

def wholeOf (call : Call) (rounding : Binary64.Rounding) (x : Float) : Eval Value := do
  if Binary64.isNaN x then Eval.fail (.mathDomain (← call.text))
  else
    match (Binary64.round? rounding x).bind Whole.ofInt? with
    | some n => return .int n
    | none => Eval.fail (.integerOverflow (← call.text))

def exact (call : Call) (result : Option Int64) : Eval Value := do
  match result with
  | some n => return .int n
  | none => Eval.fail (.integerOverflow (← call.text))

def sequence (call : Call) (position : Nat) : Eval (List Value) := do
  match ← call.arg position with
  | .list id => return (← Eval.items id).toList
  | .str s => return Value.characters s
  | other => call.refuseType position "list or str" other

end Call

end Salita
