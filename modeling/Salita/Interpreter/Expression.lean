import Salita.Builtin.Dispatch
import Salita.Interpreter.Environment
import Salita.Syntax.Basic

namespace Salita

def Literal.value : Literal → Value
  | .int n => .int n
  | .float x => .float x
  | .str s => .str s
  | .bool b => .bool b

namespace Environment

def found {α : Type} (span : Span) (result : Except EvalError α) : Eval α := fun s =>
  match result with
  | .ok a => .ok a s
  | .error e => .error (e.placed span) s

/-- Calls a function with the arguments that `args` evaluates to. The function is looked up before
its arguments are evaluated. -/
def invoke (env : Environment) (target : Name) (span : Span) (args : Eval (List Value)) :
    Eval Value :=
  Eval.orAt span do
    let f ← found target.span (env.functionOf target.text)
    let values ← args
    f.call values

mutual

def eval (env : Environment) : Expr → Eval Value
  | .literal value _ => return value.value
  | .var name => found name.span (env.valueOf name.text)
  | .list items span => Eval.orAt span do
      let values ← evalAll env items
      Eval.newList values.toArray
  | .binary op left right span => Eval.orAt span do
      let left ← eval env left
      let right ← eval env right
      Operation.binary left right op
  | .unary op operand span => Eval.orAt span do
      let operand ← eval env operand
      Operation.unary operand op
  | .index target position span => Eval.orAt span do
      match ← found target.span (env.valueOf target.text) with
      | .list id =>
          let value ← eval env position
          Eval.placed position.span (Indexing.get id value)
      | other =>
          Eval.placed target.span (Eval.fail (.notSubscriptable target.text other.type))
  | .call target args span => invoke env target span (evalAll env args)

def evalAll (env : Environment) : List Expr → Eval (List Value)
  | [] => return []
  | e :: rest => do
      let value ← eval env e
      let values ← evalAll env rest
      return value :: values

end

end Environment

end Salita
