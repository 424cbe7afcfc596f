import Salita.Builtin.Arguments

namespace Salita.Call

def halaga (call : Call) : Eval Value := do
  match ← call.arg 0 with
  | .int n => call.exact (Whole.abs? n)
  | .float x => return .float (Binary64.ofMagnitude false (Binary64.magnitude x))
  | other => call.refuseType 0 "a number" other

def ibilog (call : Call) : Eval Value := do
  let digits ← match call.arg? 1 with
    | none => pure none
    | some (.int n) => pure (some n.toInt)
    | some other => call.refuseType 1 "int" other
  match ← call.arg 0, digits with
  | .int n, none => return .int n
  | .float x, none => call.wholeOf .halfEven x
  | .int n, some digits => call.exact (Whole.roundPlaces? n digits)
  | .float x, some digits => return .float (Binary64.roundPlaces x digits)
  | other, _ => call.refuseType 0 "a number" other

def roundBy (call : Call) (rounding : Binary64.Rounding) : Eval Value := do
  match ← call.arg 0 with
  | .int n => return .int n
  | .float x => call.wholeOf rounding x
  | other => call.refuseType 0 "a number" other

def iangat (call : Call) : Eval Value := do
  let base ← call.number 0
  let exponent ← call.number 1
  let result := Float.pow base exponent
  let undefined :=
    (Binary64.isNaN result && !Binary64.isNaN base && !Binary64.isNaN exponent)
      || (Binary64.isZero base && Binary64.isBelowZero exponent)
  if undefined then Eval.fail (.mathDomain (← call.text)) else return .float result

def notPositive (x : Float) : Bool := Binary64.isZero x || Binary64.isBelowZero x

def ibaba (call : Call) : Eval Value := do
  let x ← call.number 0
  let base ← match call.arg? 1 with
    | none => pure none
    | some _ => some <$> call.number 1
  let badBase := match base with
    | some b => notPositive b || Binary64.order? b 1.0 == some .eq
    | none => false
  if notPositive x || badBase then Eval.fail (.mathDomain (← call.text))
  else
    match base with
    | some b => return .float (Float.log x / Float.log b)
    | none => return .float (Float.log x)

def parisugat (call : Call) : Eval Value := do
  let x ← call.number 0
  if Binary64.isBelowZero x then Eval.fail (.mathDomain (← call.text))
  else return .float (Float.sqrt x)

def select (op : BinaryOp) (wanted : Ordering) : Value → List Value → Eval Value
  | best, [] => return best
  | best, candidate :: rest => do
      if (← Operation.order candidate best op) = some wanted then select op wanted candidate rest
      else select op wanted best rest

def extreme (call : Call) (op : BinaryOp) (wanted : Ordering) : Eval Value := do
  let candidates ← match call.args with
    | [.list id] => pure (← Eval.items id).toList
    | [.str s] => pure (Value.characters s)
    | [single] => call.refuseType 0 "a list or str" single
    | args => pure args
  match candidates with
  | [] => call.refuse .emptySequence
  | best :: rest => select op wanted best rest

def maximo (call : Call) : Eval Value := call.extreme .greater .gt

def minimo (call : Call) : Eval Value := call.extreme .less .lt

def haba (call : Call) : Eval Value := do
  match ← call.arg 0 with
  | .list id => return .int (Int64.ofNat (← Eval.items id).size)
  | .str s => return .int (Int64.ofNat s.length)
  | other => call.refuseType 0 "list or str" other

end Salita.Call
