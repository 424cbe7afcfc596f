import Salita.File.Handle
import Salita.Report.Basic
import Salita.Syntax.Operator
import Salita.Value.Basic

namespace Salita

inductive NameSpace where
  | vars
  | functions
deriving DecidableEq, Repr

def NameSpace.text : NameSpace → String
  | .vars => "variable"
  | .functions => "function"

inductive ArgumentProblem where
  | count (arity : Arity) (given : Nat)
  /-- The argument at a position, counted from zero, has the wrong type. -/
  | type (position : Nat) (wanted : String) (found : ValueType)
  | missing (position : Nat)
  | noWhole (text : String)
  | noFloat (text : String)
  | noMode (text : String)
  | emptySequence
deriving DecidableEq, Repr

def ArgumentProblem.text : ArgumentProblem → String
  | .count arity given => arity.description ++ " (" ++ given.repr ++ " given)"
  | .type position wanted found =>
      "argument " ++ (position + 1).repr ++ " must be " ++ wanted ++ ", not " ++ found.text
  | .missing position => "missing argument " ++ (position + 1).repr
  | .noWhole text => "invalid literal for int: \"" ++ text ++ "\""
  | .noFloat text => "invalid literal for float: \"" ++ text ++ "\""
  | .noMode text => "invalid mode: \"" ++ text ++ "\""
  | .emptySequence => "arg is an empty sequence"

inductive TransferError where
  | endOfInput
  | file (error : FileError)
deriving DecidableEq, Repr

def TransferError.text : TransferError → String
  | .endOfInput => "EOF when reading a line"
  | .file error => error.text

inductive Cause where
  | undefinedName (name : String) (space : NameSpace)
  | invalidBinary (left : String) (op : BinaryOp) (right : String) (leftType rightType : ValueType)
  | invalidUnary (op : UnaryOp) (operand : String) (type : ValueType)
  | invalidArgument (function : String) (problem : ArgumentProblem)
  | notSubscriptable (name : String) (type : ValueType)
  | invalidRangeBound (bound : String) (type : ValueType)
  | divisionByZero (dividend : String) (type : ValueType)
  | integerOverflow (operation : String)
  | mathDomain (operation : String)
  | invalidIndexType (index : String) (type : ValueType)
  | indexOutOfRange (index : Int64) (list : String) (last : Int)
  | emptyList (function : String)
  | fileNotFound (path : String)
  | transfer (error : TransferError)
deriving DecidableEq, Repr

namespace Cause

def code : Cause → Code
  | .undefinedName .. => .undefinedName
  | .invalidBinary .. | .invalidUnary .. | .invalidArgument .. | .notSubscriptable ..
  | .invalidRangeBound .. => .typeMismatch
  | .divisionByZero .. | .integerOverflow _ | .mathDomain _ => .arithmetic
  | .invalidIndexType .. | .indexOutOfRange .. | .emptyList _ => .index
  | .fileNotFound _ => .missingFile
  | .transfer _ => .inputOutput

def detail : Cause → String
  | .undefinedName name space => "\"" ++ name ++ "\" is not a defined " ++ space.text ++ " name"
  | .invalidBinary left op right leftType rightType =>
      "Invalid operation: \"" ++ left ++ " " ++ op.text ++ " " ++ right ++ "\" <~ ("
        ++ leftType.text ++ " " ++ op.text ++ " " ++ rightType.text ++ ")"
  | .invalidUnary op operand type =>
      "Invalid operation: \"" ++ op.text ++ " " ++ type.text ++ "\" <~ (" ++ op.text ++ " "
        ++ operand ++ ")"
  | .invalidArgument function problem => function ++ "() " ++ problem.text
  | .notSubscriptable name type => "\"" ++ name ++ "\" (" ++ type.text ++ ") is not subscriptable"
  | .invalidRangeBound bound type =>
      "Range bound \"" ++ bound ++ "\" (" ++ type.text ++ ") should be of type int"
  | .divisionByZero dividend type =>
      "Invalid operation: Dividing " ++ type.text ++ " (" ++ dividend ++ ") by zero (0)"
  | .integerOverflow operation => "Integer overflow: \"" ++ operation ++ "\""
  | .mathDomain operation => "Math domain error: \"" ++ operation ++ "\""
  | .invalidIndexType index type =>
      type.text ++ " ~> \"" ++ index ++ "\" is not a valid index; index should be of type int"
  | .indexOutOfRange index list last =>
      "Index (= " ++ index.toInt.repr ++ ") is not within the list's (" ++ list
        ++ ") index range (0 to " ++ last.repr ++ ")"
  | .emptyList function => function ++ "() from an empty list"
  | .fileNotFound path => "File \"" ++ path ++ "\" not found"
  | .transfer error => error.text

def message (cause : Cause) : String := "(" ++ cause.code.className ++ ") : " ++ cause.detail

def label : Cause → String
  | .undefinedName _ .vars => "not bound to a value"
  | .undefinedName _ .functions => "no built-in function with this name"
  | .invalidBinary .. => "unsupported operand types"
  | .invalidUnary .. => "unsupported operand type"
  | .invalidArgument .. => "invalid arguments"
  | .notSubscriptable .. => "not a list"
  | .invalidRangeBound .. => "range bound must be an int"
  | .divisionByZero .. => "division by zero"
  | .integerOverflow _ => "result does not fit in a 64-bit integer"
  | .mathDomain _ => "outside the function's domain"
  | .invalidIndexType .. => "index must be an int"
  | .indexOutOfRange .. => "index out of range"
  | .emptyList _ => "list is empty"
  | .fileNotFound _ => "file not found"
  | .transfer _ => "I/O failure"

def note? : Cause → Option String
  | .undefinedName _ .vars =>
      some "variables are bound by assignment or by a `sa bawat` loop"
  | .undefinedName _ .functions => some "only built-in functions can be called"
  | .invalidBinary .. => some "ints and floats mix freely; other operands must share a type"
  | .indexOutOfRange .. => some "negative indices count back from the end of the list"
  | .invalidRangeBound .. => some "`sa bawat` ranges are inclusive and step by one"
  | _ => none

end Cause

structure EvalError where
  cause : Cause
  span : Option Span := none
  help : Option String := none
deriving DecidableEq, Repr

namespace EvalError

def placed (e : EvalError) (span : Span) : EvalError := { e with span := some span }

def orAt (e : EvalError) (span : Span) : EvalError := { e with span := some (e.span.getD span) }

def code (e : EvalError) : Code := e.cause.code

def message (e : EvalError) : String := e.cause.message

def report (e : EvalError) : Report where
  code := e.code
  message := e.message
  labels := e.span.toList.map fun span => ⟨span, e.cause.label, true⟩
  remarks := e.cause.note?.toList.map Remark.note ++ e.help.toList.map Remark.help

end EvalError

end Salita
