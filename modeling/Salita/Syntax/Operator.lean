namespace Salita

inductive BinaryOp where
  | add
  | sub
  | mul
  | div
  | floorDiv
  | mod
  | pow
  | eq
  | notEq
  | less
  | lessEq
  | greater
  | greaterEq
  | and
  | or
deriving DecidableEq, Repr

namespace BinaryOp

def all : List BinaryOp :=
  [.add, .sub, .mul, .div, .floorDiv, .mod, .pow, .eq, .notEq, .less, .lessEq, .greater, .greaterEq,
    .and, .or]

def text : BinaryOp → String
  | .add => "+"
  | .sub => "-"
  | .mul => "*"
  | .div => "/"
  | .floorDiv => "//"
  | .mod => "%"
  | .pow => "**"
  | .eq => "=="
  | .notEq => "!="
  | .less => "<"
  | .lessEq => "<="
  | .greater => ">"
  | .greaterEq => ">="
  | .and => "at"
  | .or => "o"

def ofText? (spelling : String) : Option BinaryOp := all.find? (·.text == spelling)

def name : BinaryOp → String
  | .add => "Add"
  | .sub => "Sub"
  | .mul => "Mul"
  | .div => "Div"
  | .floorDiv => "FloorDiv"
  | .mod => "Mod"
  | .pow => "Pow"
  | .eq => "Eq"
  | .notEq => "NotEq"
  | .less => "Lt"
  | .lessEq => "LtEq"
  | .greater => "Gt"
  | .greaterEq => "GtEq"
  | .and => "And"
  | .or => "Or"

def isComparison : BinaryOp → Bool
  | .eq | .notEq | .less | .lessEq | .greater | .greaterEq => true
  | _ => false

def isLogical : BinaryOp → Bool
  | .and | .or => true
  | _ => false

end BinaryOp

inductive UnaryOp where
  | neg
  | not
deriving DecidableEq, Repr

namespace UnaryOp

def all : List UnaryOp := [.neg, .not]

def text : UnaryOp → String
  | .neg => "-"
  | .not => "hindi"

def ofText? (spelling : String) : Option UnaryOp := all.find? (·.text == spelling)

def name : UnaryOp → String
  | .neg => "Neg"
  | .not => "Not"

end UnaryOp

end Salita
