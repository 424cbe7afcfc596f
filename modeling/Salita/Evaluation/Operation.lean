import Salita.Evaluation.Store
import Salita.Value.Order

namespace Salita.Operation

def refuse {α : Type} (left : Value) (op : BinaryOp) (right : Value) : Eval α := do
  Eval.fail (.invalidBinary (← Eval.textOf left) op (← Eval.textOf right) left.type right.type)

def divideByZero {α : Type} (dividend : Value) : Eval α := do
  Eval.fail (.divisionByZero (← Eval.textOf dividend) dividend.type)

def order (left right : Value) (op : BinaryOp) : Eval (Option Ordering) := do
  match (← Eval.heap).order left right with
  | .ok result => return result
  | .error pair => refuse pair.left op pair.right

def holds? (op : BinaryOp) (order : Option Ordering) : Option Bool :=
  match op with
  | .eq => some (order == some .eq)
  | .notEq => some (order != some .eq)
  | .less => some (order == some .lt)
  | .lessEq => some (order == some .lt || order == some .eq)
  | .greater => some (order == some .gt)
  | .greaterEq => some (order == some .gt || order == some .eq)
  | _ => none

def compare (left right : Value) (op : BinaryOp) : Eval Bool := do
  match holds? op (← order left right op) with
  | some result => return result
  | none => refuse left op right

def exact (result : Option Int64) (a : Int64) (op : BinaryOp) (b : Int64) : Eval Value :=
  match result with
  | some n => return .int n
  | none => Eval.fail (.integerOverflow (a.toInt.repr ++ " " ++ op.text ++ " " ++ b.toInt.repr))

def wholePower (base exponent : Int64) : Eval Value :=
  if exponent.toInt < 0 then
    if base.toInt = 0 then divideByZero (.int base)
    else return .float (Float.pow (Value.widen base) (Value.widen exponent))
  else exact (Whole.pow? base exponent.toInt.toNat) base .pow exponent

def whole (a b : Int64) (op : BinaryOp) : Eval Value :=
  match op with
  | .add => exact (Whole.add? a b) a op b
  | .sub => exact (Whole.sub? a b) a op b
  | .mul => exact (Whole.mul? a b) a op b
  | .div =>
      if b.toInt = 0 then divideByZero (.int a)
      else return .float (Value.widen a / Value.widen b)
  | .floorDiv => if b.toInt = 0 then divideByZero (.int a) else exact (Whole.floorDiv? a b) a op b
  | .mod => if b.toInt = 0 then divideByZero (.int a) else exact (Whole.floorMod? a b) a op b
  | .pow => wholePower a b
  | _ => refuse (.int a) op (.int b)

def floatPower (a b : Float) (dividend : Value) : Eval Value := do
  if Binary64.isZero a && Binary64.isBelowZero b then divideByZero dividend
  else
    let result := Float.pow a b
    if Binary64.isNaN result && !Binary64.isNaN a && !Binary64.isNaN b then
      Eval.fail (.mathDomain
        ((← Eval.textOf (.float a)) ++ " ** " ++ (← Eval.textOf (.float b))))
    else return .float result

/-- Arithmetic of floats. `dividend` is the left operand before it was widened. -/
def float (a b : Float) (op : BinaryOp) (dividend : Value) : Eval Value :=
  match op with
  | .add => return .float (a + b)
  | .sub => return .float (a - b)
  | .mul => return .float (a * b)
  | .div => if Binary64.isZero b then divideByZero dividend else return .float (a / b)
  | .floorDiv =>
      if Binary64.isZero b then divideByZero dividend else return .float (Binary64.divMod a b).1
  | .mod =>
      if Binary64.isZero b then divideByZero dividend else return .float (Binary64.divMod a b).2
  | .pow => floatPower a b dividend
  | _ => refuse (.float a) op (.float b)

def repeatText (s : String) (times : Int64) : String :=
  if s.isEmpty then "" else String.join (List.replicate times.toInt.toNat s)

/-- Elements over and over, up to a length that wraps as a machine word does. -/
def repeatItems (items : Array Value) (times : Int64) : Array Value :=
  let length := UInt64.ofNat items.size * UInt64.ofNat times.toInt.toNat
  if empty : items.size = 0 then #[]
  else Array.ofFn fun i : Fin length.toNat =>
    have inside : i.val % items.size < items.size := Nat.mod_lt _ (Nat.pos_of_ne_zero empty)
    items[i.val % items.size]

def binary (left right : Value) (op : BinaryOp) : Eval Value := do
  if op = .and then return .bool ((← Eval.isTrue left) && (← Eval.isTrue right))
  else if op = .or then return .bool ((← Eval.isTrue left) || (← Eval.isTrue right))
  else if op.isComparison then return .bool (← compare left right op)
  else
    match left, right with
    | .int a, .int b => whole a b op
    | .float a, .float b => float a b op left
    | .int a, .float b => float (Value.widen a) b op left
    | .float a, .int b => float a (Value.widen b) op left
    | .str a, .str b => if op = .add then return .str (a ++ b) else refuse left op right
    | .str s, .int n | .int n, .str s =>
        if op = .mul then return .str (repeatText s n) else refuse left op right
    | .list a, .list b =>
        if op = .add then Eval.newList ((← Eval.items a) ++ (← Eval.items b))
        else refuse left op right
    | .list a, .int n | .int n, .list a =>
        if op = .mul then Eval.newList (repeatItems (← Eval.items a) n) else refuse left op right
    | _, _ => refuse left op right

def unary (operand : Value) (op : UnaryOp) : Eval Value := do
  match op, operand with
  | .not, value => return .bool (!(← Eval.isTrue value))
  | .neg, .int n =>
      match Whole.neg? n with
      | some n => return .int n
      | none => Eval.fail (.integerOverflow ("-(" ++ n.toInt.repr ++ ")"))
  | .neg, .float x => return .float (-x)
  | .neg, value => Eval.fail (.invalidUnary op (← Eval.textOf value) value.type)

end Salita.Operation
