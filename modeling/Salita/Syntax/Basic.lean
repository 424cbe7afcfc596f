import Salita.Source.Span
import Salita.Syntax.Operator

namespace Salita

inductive Literal where
  | int (value : Int64)
  | float (value : Float)
  | str (value : String)
  | bool (value : Bool)
deriving DecidableEq

structure Name where
  text : String
  span : Span
deriving DecidableEq, Repr

/-- Expressions. Variables are looked up among variables only, and the targets of calls among
functions only. -/
inductive Expr where
  | literal (value : Literal) (span : Span)
  | var (name : Name)
  | list (items : List Expr) (span : Span)
  | binary (op : BinaryOp) (left right : Expr) (span : Span)
  | unary (op : UnaryOp) (operand : Expr) (span : Span)
  | index (target : Name) (position : Expr) (span : Span)
  | call (target : Name) (args : List Expr) (span : Span)

/-- The text an expression was read from. Parentheses around it do not belong to it. -/
def Expr.span : Expr → Span
  | .literal _ span | .list _ span | .binary _ _ _ span | .unary _ _ span | .index _ _ span
  | .call _ _ span => span
  | .var name => name.span

mutual

inductive Stmt where
  | assign (target : Name) (value : Expr) (span : Span)
  | update (target : Name) (op : BinaryOp) (value : Expr) (span : Span)
  | choose (choice : Choice) (span : Span)
  | repeatWhile (cond : Expr) (body : Block) (span : Span)
  | forEach (var : Name) (first last : Expr) (body : Block) (span : Span)
  | print (args : List Expr) (span : Span)
  | leave (span : Span)
  | call (target : Name) (args : List Expr) (span : Span)

inductive Choice where
  | mk (cond : Expr) (block : Block) (otherwise : Otherwise)

inductive Otherwise where
  | nothing
  | block (block : Block)
  | choice (choice : Choice)

inductive Block where
  | mk (stmts : List Stmt) (span : Span)

end

def Stmt.span : Stmt → Span
  | .assign _ _ span | .update _ _ _ span | .choose _ span | .repeatWhile _ _ span
  | .forEach _ _ _ _ span | .print _ span | .leave span | .call _ _ span => span

namespace Block

def stmts : Block → List Stmt
  | .mk stmts _ => stmts

def span : Block → Span
  | .mk _ span => span

end Block

abbrev Program := List Stmt

end Salita
