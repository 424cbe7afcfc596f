import Salita.Builtin.Arguments
import Salita.Number.Reading
import Salita.Text.Blank

namespace Salita.Call

def bilang (call : Call) : Eval Value := do
  match ← call.arg 0 with
  | .int n => return .int n
  | .float x => call.wholeOf .towardZero x
  | .bool b => return .int (if b then 1 else 0)
  | .str s =>
      match Decimal.readWhole? (Text.trim s.toList) with
      | some n => return .int n
      | none => call.refuse (.noWhole s)
  | other => call.refuseType 0 "a number, bool or str" other

def lutang (call : Call) : Eval Value := do
  match ← call.arg 0 with
  | .int n => return .float (Value.widen n)
  | .float x => return .float x
  | .bool b => return .float (if b then 1.0 else 0.0)
  | .str s =>
      match Decimal.readFloat? (Text.trim s.toList) with
      | some x => return .float x
      | none => call.refuse (.noFloat s)
  | other => call.refuseType 0 "a number, bool or str" other

def titik (call : Call) : Eval Value := do
  return .str (← Eval.textOf (← call.arg 0))

end Salita.Call
