import Salita.Number.Layout
import Salita.Syntax.Basic
import Salita.Text.Quoted

namespace Salita

inductive Outline where
  | leaf (text : String)
  | record (name : String) (fields : List (String × Outline))
  | wrapped (name : String) (item : Outline)
  | list (items : List Outline)

namespace Outline

def step : String := "    "

mutual

def render (indent : String) : Outline → String
  | .leaf text => text
  | .record name fields =>
      name ++ " \x7b\n" ++ renderFields (indent ++ step) fields ++ indent ++ "\x7d"
  | .wrapped name item =>
      name ++ "(\n" ++ indent ++ step ++ render (indent ++ step) item ++ ",\n" ++ indent ++ ")"
  | .list [] => "[]"
  | .list (item :: items) =>
      "[\n" ++ indent ++ step ++ render (indent ++ step) item ++ ",\n"
        ++ renderItems (indent ++ step) items ++ indent ++ "]"

def renderFields (indent : String) : List (String × Outline) → String
  | [] => ""
  | (name, value) :: fields =>
      indent ++ name ++ ": " ++ render indent value ++ ",\n" ++ renderFields indent fields

def renderItems (indent : String) : List Outline → String
  | [] => ""
  | item :: items => indent ++ render indent item ++ ",\n" ++ renderItems indent items

end

def ofSpan (span : Span) : Outline := .leaf span.text

def ofLiteral : Literal → Outline
  | .int n => .wrapped "Int" (.leaf n.toInt.repr)
  | .float x => .wrapped "Float" (.leaf (Decimal.Layout.listing.write x))
  | .str s => .wrapped "Str" (.leaf (Text.quoted s))
  | .bool b => .wrapped "Bool" (.leaf (if b then "true" else "false"))

def ofName (kind : String) (name : Name) : Outline :=
  .record kind [("name", .leaf (Text.quoted name.text)), ("span", ofSpan name.span)]

def ofVariable (name : Name) : Outline := ofName "VariableRef" name

def ofCall (target : Name) (args : List Outline) : Outline :=
  .wrapped "Call" (.record "Call" [("target", ofName "CallTarget" target), ("args", .list args)])

def node (kind : String) (part : Outline) (span : Span) : Outline :=
  .record kind [("kind", part), ("span", ofSpan span)]

mutual

def ofExpr : Expr → Outline
  | .literal value span => node "Expr" (.wrapped "Literal" (ofLiteral value)) span
  | .var name => node "Expr" (.wrapped "Variable" (ofVariable name)) name.span
  | .list items span => node "Expr" (.wrapped "Array" (.list (ofExprs items))) span
  | .binary op left right span =>
      node "Expr" (.record "Binary"
        [("op", .leaf op.name), ("left", ofExpr left), ("right", ofExpr right)]) span
  | .unary op operand span =>
      node "Expr" (.record "Unary" [("op", .leaf op.name), ("operand", ofExpr operand)]) span
  | .index target position span =>
      node "Expr" (.record "Index" [("target", ofVariable target), ("index", ofExpr position)]) span
  | .call target args span => node "Expr" (ofCall target (ofExprs args)) span

def ofExprs : List Expr → List Outline
  | [] => []
  | e :: rest => ofExpr e :: ofExprs rest

end

mutual

def ofStmt : Stmt → Outline
  | .assign target value span =>
      node "Stmt" (.record "Assign" [("target", ofVariable target), ("value", ofExpr value)]) span
  | .update target op value span =>
      node "Stmt" (.record "CompoundAssign"
        [("target", ofVariable target), ("op", .leaf op.name), ("value", ofExpr value)]) span
  | .choose choice span => node "Stmt" (.wrapped "If" (ofChoice choice)) span
  | .repeatWhile cond body span =>
      node "Stmt" (.record "While" [("cond", ofExpr cond), ("body", ofBlock body)]) span
  | .forEach var first last body span =>
      node "Stmt" (.record "For"
        [("var", ofVariable var), ("start", ofExpr first), ("end", ofExpr last),
          ("body", ofBlock body)]) span
  | .print args span => node "Stmt" (.wrapped "Print" (.list (ofExprs args))) span
  | .leave span => node "Stmt" (.leaf "Exit") span
  | .call target args span => node "Stmt" (ofCall target (ofExprs args)) span

def ofChoice : Choice → Outline
  | .mk cond block otherwise =>
      .record "IfStmt"
        [("cond", ofExpr cond), ("then_block", ofBlock block),
          ("else_branch", ofOtherwise otherwise)]

def ofOtherwise : Otherwise → Outline
  | .nothing => .leaf "None"
  | .block block => .wrapped "Some" (.wrapped "Block" (ofBlock block))
  | .choice choice => .wrapped "Some" (.wrapped "If" (ofChoice choice))

def ofBlock : Block → Outline
  | .mk stmts span => .record "Block" [("stmts", .list (ofStmts stmts)), ("span", ofSpan span)]

def ofStmts : List Stmt → List Outline
  | [] => []
  | stmt :: rest => ofStmt stmt :: ofStmts rest

end

end Outline

def Stmt.outline (stmt : Stmt) : String := (Outline.ofStmt stmt).render ""

end Salita
