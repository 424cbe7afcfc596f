import Salita.Syntax.Parser

/-!
# The recursion of the parser

The rules of the parser call each other, within a bound. Here each rule is written with the rules it
calls as parameters: `Rules.body` is what one call of each rule does, and the rules with a bound of
one more are the body of those with the bound (`bounded_succ`). Other rules than the parser's may
stand where calls nest deepest, and `Rules.atDepth` is the recursion with them.
-/

namespace Salita.Parser

structure Rules where
  level : Level → Rule Expr
  levelRest : Level → Expr → Rule Expr
  operand : Level → Rule Expr
  negation : Rule Expr
  signed : Rule Expr
  power : Rule Expr
  primary : Rule Expr
  named : Name → Rule Expr
  arguments : Rule (List Expr × Span)
  exprs : Symbol → Rule (List Expr)
  exprsFrom : List Expr → Rule (List Expr)
  stmt : Rule Stmt
  choice : Rule Choice
  block : Rule Block
  blockStmts : List Stmt → Rule (List Stmt)
  programFrom : List Stmt → Rule Program

def bounded (fuel : Nat) : Rules where
  level := level fuel
  levelRest := levelRest fuel
  operand := operand fuel
  negation := negation fuel
  signed := signed fuel
  power := power fuel
  primary := primary fuel
  named := named fuel
  arguments := arguments fuel
  exprs := exprs fuel
  exprsFrom := exprsFrom fuel
  stmt := stmt fuel
  choice := choice fuel
  block := block fuel
  blockStmts := blockStmts fuel
  programFrom := programFrom fuel

namespace Rules

def condition (r : Rules) : Rule Expr := do
  let _ ← symbol .leftParen
  let cond ← r.level .or
  let _ ← symbol .rightParen
  return cond

def nameStmt (r : Rules) : Rule Stmt := do
  let name ← identifier
  let kind ← currentKind
  if kind = .symbol .leftParen then
    let (args, _) ← r.arguments
    let stop ← symbol .semicolon
    return .call name args (name.span.merge stop)
  else if kind = .symbol .equal then
    let _ ← advance
    let value ← r.level .or
    let stop ← symbol .semicolon
    return .assign name value (name.span.merge stop)
  else
    match updateOperator? kind with
    | some op =>
        let _ ← advance
        let value ← r.level .or
        let stop ← symbol .semicolon
        return .update name op value (name.span.merge stop)
    | none => unexpected .assignmentOrCall

def printStmt (r : Rules) : Rule Stmt := do
  let start ← advance
  let (args, _) ← r.arguments
  let stop ← symbol .semicolon
  return .print args (start.merge stop)

def body (r : Rules) : Rules where
  level l := do
    let left ← r.operand l
    r.levelRest l left
  levelRest l left := do
    match l.operator? (← currentKind) with
    | none => return left
    | some op =>
        let _ ← advance
        let right ← r.operand l
        r.levelRest l (binary op left right)
  operand
    | .or => r.level .and
    | .and => r.negation
    | .comparison => r.level .sum
    | .sum => r.level .product
    | .product => r.signed
  negation := do
    match ← currentKind with
    | .keyword .hindi =>
        let start ← advance
        let operand ← r.negation
        return unary .not start operand
    | _ => r.level .comparison
  signed := do
    match ← currentKind with
    | .symbol .minus =>
        let start ← advance
        let operand ← r.signed
        return unary .neg start operand
    | _ => r.power
  power := do
    let base ← r.primary
    match ← currentKind with
    | .symbol .starStar =>
        let _ ← advance
        let exponent ← r.signed
        return binary .pow base exponent
    | _ => return base
  primary := do
    let kind ← currentKind
    match literal? kind with
    | some value => return .literal value (← advance)
    | none =>
        match kind with
        | .ident text =>
            let span ← advance
            r.named ⟨text, span⟩
        | .symbol .leftParen =>
            let _ ← advance
            let inner ← r.level .or
            let _ ← symbol .rightParen
            return inner
        | .symbol .leftBracket =>
            let start ← advance
            let items ← r.exprs .rightBracket
            let stop ← symbol .rightBracket
            return .list items (start.merge stop)
        | _ => unexpected .expression
  named name := do
    match ← currentKind with
    | .symbol .leftParen =>
        let (args, stop) ← r.arguments
        return .call name args (name.span.merge stop)
    | .symbol .leftBracket =>
        let _ ← advance
        let position ← r.level .or
        let stop ← symbol .rightBracket
        return .index name position (name.span.merge stop)
    | _ => return .var name
  arguments := do
    let _ ← symbol .leftParen
    let args ← r.exprs .rightParen
    let stop ← symbol .rightParen
    return (args, stop)
  exprs closing := do
    if (← currentKind) = .symbol closing then return []
    else r.exprsFrom []
  exprsFrom before := do
    let item ← r.level .or
    match ← currentKind with
    | .symbol .comma =>
        let _ ← advance
        r.exprsFrom (item :: before)
    | _ => return (item :: before).reverse
  stmt := do
    match ← currentKind with
    | .ident _ => r.nameStmt
    | .keyword .kapag =>
        let start := (← get).span
        let choice ← r.choice
        return .choose choice (start.merge (← get).previousSpan)
    | .keyword .hanggat =>
        let start ← advance
        let cond ← r.condition
        let body ← r.block
        return .repeatWhile cond body (start.merge body.span)
    | .keyword .sa =>
        let start ← advance
        let _ ← keyword .bawat
        let var ← identifier
        let _ ← keyword .sa
        let _ ← symbol .leftBracket
        let first ← r.level .or
        let _ ← symbol .colon
        let last ← r.level .or
        let _ ← symbol .rightBracket
        let body ← r.block
        return .forEach var first last body (start.merge body.span)
    | .keyword .ilimbag => r.printStmt
    | .keyword .lumisan => leaveStmt
    | _ => unexpected .statement
  choice := do
    let _ ← keyword .kapag
    let cond ← r.condition
    let body ← r.block
    match ← currentKind with
    | .keyword .kundiman =>
        let _ ← advance
        let otherwise ← r.block
        return .mk cond body (.block otherwise)
    | .keyword .ngunit =>
        let _ ← advance
        let next ← r.choice
        return .mk cond body (.choice next)
    | _ => return .mk cond body .nothing
  block := do
    let brace ← symbol .leftBrace
    let stmts ← inside brace (r.blockStmts [])
    let stop ← advance
    return .mk stmts (brace.merge stop)
  blockStmts before := do
    match ← currentKind with
    | .symbol .rightBrace => return before.reverse
    | .eof => unexpected (.symbol .rightBrace)
    | _ =>
        let next ← r.stmt
        r.blockStmts (next :: before)
  programFrom before := do
    match ← currentKind with
    | .eof => return before.reverse
    | _ =>
        let next ← r.stmt
        r.programFrom (next :: before)

def atDepth (deeper : Rules) : Nat → Rules
  | 0 => deeper
  | depth + 1 => (deeper.atDepth depth).body

def parse (r : Rules) (tokens : Array Token) (source : String) : Except ParseError Program :=
  match r.programFrom [] (.ofTokens tokens) with
  | .ok program _ => .ok program
  | .error failure _ => .error (failure.toError source)

end Rules

theorem bounded_succ (fuel : Nat) : bounded (fuel + 1) = (bounded fuel).body := rfl

theorem parse_eq_bounded (tokens : Array Token) (source : String) :
    Salita.parse tokens source = (bounded (enough tokens.size)).parse tokens source := rfl

end Salita.Parser
