import Salita.Syntax.Basic
import Salita.Syntax.Cursor
import Salita.Syntax.Error

/-!
# From tokens to programs

One function for each rule of the grammar. A rule looks at the token at the cursor, and either
fails there or moves on behind the text it has read. Rules call each other no deeper than `fuel`,
of which `parse` gives enough for every list of tokens.

The levels of operators from loose to tight are `o`, `at`, `hindi`, comparisons, sums, products,
`-` in front, and `**`. All levels between two operands group to the left but `**`, whose right
operand may again have a `-` in front.
-/

namespace Salita.Parser

/-- A rule reads a part of a program at a cursor. A failure keeps the place where it arose. -/
abbrev Rule := EStateM SyntaxFailure Cursor

def unexpected {α : Type} (expected : Expected) : Rule α := fun c =>
  .error { found := c.current, expected := expected } c

def currentKind : Rule TokenKind := fun c => .ok c.kind c

def advance : Rule Span := fun c => .ok c.span c.advance

def token (kind : TokenKind) (expected : Expected) : Rule Span := do
  if (← currentKind).sameKind kind then advance else unexpected expected

def symbol (mark : Symbol) : Rule Span := token (.symbol mark) (.symbol mark)

def keyword (word : Keyword) : Rule Span := token (.keyword word) (.keyword word)

def identifier : Rule Name := do
  match ← currentKind with
  | .ident text => return ⟨text, ← advance⟩
  | _ => unexpected .identifier

def inside {α : Type} (brace : Span) (rule : Rule α) : Rule α := fun c =>
  match rule c with
  | .ok a c => .ok a c
  | .error failure c => .error (failure.within brace) c

/-! ## Operators -/

inductive Level where
  | or
  | and
  | comparison
  | sum
  | product
deriving DecidableEq, Repr

def Level.operator? : Level → TokenKind → Option BinaryOp
  | .or, .keyword .o => some .or
  | .and, .keyword .at => some .and
  | .comparison, .symbol .equalEqual => some .eq
  | .comparison, .symbol .notEqual => some .notEq
  | .comparison, .symbol .less => some .less
  | .comparison, .symbol .lessEqual => some .lessEq
  | .comparison, .symbol .greater => some .greater
  | .comparison, .symbol .greaterEqual => some .greaterEq
  | .sum, .symbol .plus => some .add
  | .sum, .symbol .minus => some .sub
  | .product, .symbol .star => some .mul
  | .product, .symbol .slash => some .div
  | .product, .symbol .slashSlash => some .floorDiv
  | .product, .symbol .percent => some .mod
  | _, _ => none

def updateOperator? : TokenKind → Option BinaryOp
  | .symbol .plusEqual => some .add
  | .symbol .minusEqual => some .sub
  | .symbol .starEqual => some .mul
  | .symbol .slashEqual => some .div
  | .symbol .slashSlashEqual => some .floorDiv
  | .symbol .starStarEqual => some .pow
  | .symbol .percentEqual => some .mod
  | _ => none

def literal? : TokenKind → Option Literal
  | .int value => some (.int value)
  | .float value => some (.float value)
  | .str value => some (.str value)
  | .keyword .totoo => some (.bool true)
  | .keyword .huwad => some (.bool false)
  | _ => none

def binary (op : BinaryOp) (left right : Expr) : Expr :=
  .binary op left right (left.span.merge right.span)

def unary (op : UnaryOp) (start : Span) (operand : Expr) : Expr :=
  .unary op operand (start.merge operand.span)

/-! ## Expressions -/

mutual

def level (fuel : Nat) (l : Level) : Rule Expr :=
  match fuel with
  | 0 => unexpected .expression
  | fuel + 1 => do
      let left ← operand fuel l
      levelRest fuel l left

def levelRest (fuel : Nat) (l : Level) (left : Expr) : Rule Expr :=
  match fuel with
  | 0 => unexpected .expression
  | fuel + 1 => do
      match l.operator? (← currentKind) with
      | none => return left
      | some op =>
          let _ ← advance
          let right ← operand fuel l
          levelRest fuel l (binary op left right)

def operand (fuel : Nat) (l : Level) : Rule Expr :=
  match fuel with
  | 0 => unexpected .expression
  | fuel + 1 =>
      match l with
      | .or => level fuel .and
      | .and => negation fuel
      | .comparison => level fuel .sum
      | .sum => level fuel .product
      | .product => signed fuel

def negation (fuel : Nat) : Rule Expr :=
  match fuel with
  | 0 => unexpected .expression
  | fuel + 1 => do
      match ← currentKind with
      | .keyword .hindi =>
          let start ← advance
          let operand ← negation fuel
          return unary .not start operand
      | _ => level fuel .comparison

def signed (fuel : Nat) : Rule Expr :=
  match fuel with
  | 0 => unexpected .expression
  | fuel + 1 => do
      match ← currentKind with
      | .symbol .minus =>
          let start ← advance
          let operand ← signed fuel
          return unary .neg start operand
      | _ => power fuel

def power (fuel : Nat) : Rule Expr :=
  match fuel with
  | 0 => unexpected .expression
  | fuel + 1 => do
      let base ← primary fuel
      match ← currentKind with
      | .symbol .starStar =>
          let _ ← advance
          let exponent ← signed fuel
          return binary .pow base exponent
      | _ => return base

def primary (fuel : Nat) : Rule Expr :=
  match fuel with
  | 0 => unexpected .expression
  | fuel + 1 => do
      let kind ← currentKind
      match literal? kind with
      | some value => return .literal value (← advance)
      | none =>
          match kind with
          | .ident text =>
              let span ← advance
              named fuel ⟨text, span⟩
          | .symbol .leftParen =>
              let _ ← advance
              let inner ← level fuel .or
              let _ ← symbol .rightParen
              return inner
          | .symbol .leftBracket =>
              let start ← advance
              let items ← exprs fuel .rightBracket
              let stop ← symbol .rightBracket
              return .list items (start.merge stop)
          | _ => unexpected .expression

def named (fuel : Nat) (name : Name) : Rule Expr :=
  match fuel with
  | 0 => unexpected .expression
  | fuel + 1 => do
      match ← currentKind with
      | .symbol .leftParen =>
          let (args, stop) ← arguments fuel
          return .call name args (name.span.merge stop)
      | .symbol .leftBracket =>
          let _ ← advance
          let position ← level fuel .or
          let stop ← symbol .rightBracket
          return .index name position (name.span.merge stop)
      | _ => return .var name

def arguments (fuel : Nat) : Rule (List Expr × Span) :=
  match fuel with
  | 0 => unexpected .expression
  | fuel + 1 => do
      let _ ← symbol .leftParen
      let args ← exprs fuel .rightParen
      let stop ← symbol .rightParen
      return (args, stop)

def exprs (fuel : Nat) (closing : Symbol) : Rule (List Expr) :=
  match fuel with
  | 0 => unexpected .expression
  | fuel + 1 => do
      if (← currentKind) = .symbol closing then return []
      else exprsFrom fuel []

def exprsFrom (fuel : Nat) (before : List Expr) : Rule (List Expr) :=
  match fuel with
  | 0 => unexpected .expression
  | fuel + 1 => do
      let item ← level fuel .or
      match ← currentKind with
      | .symbol .comma =>
          let _ ← advance
          exprsFrom fuel (item :: before)
      | _ => return (item :: before).reverse

end

def expr (fuel : Nat) : Rule Expr := level fuel .or

def condition (fuel : Nat) : Rule Expr := do
  let _ ← symbol .leftParen
  let cond ← expr fuel
  let _ ← symbol .rightParen
  return cond

/-! ## Statements -/

def nameStmt (fuel : Nat) : Rule Stmt := do
  let name ← identifier
  let kind ← currentKind
  if kind = .symbol .leftParen then
    let (args, _) ← arguments fuel
    let stop ← symbol .semicolon
    return .call name args (name.span.merge stop)
  else if kind = .symbol .equal then
    let _ ← advance
    let value ← expr fuel
    let stop ← symbol .semicolon
    return .assign name value (name.span.merge stop)
  else
    match updateOperator? kind with
    | some op =>
        let _ ← advance
        let value ← expr fuel
        let stop ← symbol .semicolon
        return .update name op value (name.span.merge stop)
    | none => unexpected .assignmentOrCall

def printStmt (fuel : Nat) : Rule Stmt := do
  let start ← advance
  let (args, _) ← arguments fuel
  let stop ← symbol .semicolon
  return .print args (start.merge stop)

def leaveStmt : Rule Stmt := do
  let start ← advance
  let stop ← symbol .semicolon
  return .leave (start.merge stop)

mutual

def stmt (fuel : Nat) : Rule Stmt :=
  match fuel with
  | 0 => unexpected .statement
  | fuel + 1 => do
      match ← currentKind with
      | .ident _ => nameStmt fuel
      | .keyword .kapag =>
          let start := (← get).span
          let choice ← choice fuel
          return .choose choice (start.merge (← get).previousSpan)
      | .keyword .hanggat =>
          let start ← advance
          let cond ← condition fuel
          let body ← block fuel
          return .repeatWhile cond body (start.merge body.span)
      | .keyword .sa =>
          let start ← advance
          let _ ← keyword .bawat
          let var ← identifier
          let _ ← keyword .sa
          let _ ← symbol .leftBracket
          let first ← expr fuel
          let _ ← symbol .colon
          let last ← expr fuel
          let _ ← symbol .rightBracket
          let body ← block fuel
          return .forEach var first last body (start.merge body.span)
      | .keyword .ilimbag => printStmt fuel
      | .keyword .lumisan => leaveStmt
      | _ => unexpected .statement

def choice (fuel : Nat) : Rule Choice :=
  match fuel with
  | 0 => unexpected .statement
  | fuel + 1 => do
      let _ ← keyword .kapag
      let cond ← condition fuel
      let body ← block fuel
      match ← currentKind with
      | .keyword .kundiman =>
          let _ ← advance
          let otherwise ← block fuel
          return .mk cond body (.block otherwise)
      | .keyword .ngunit =>
          let _ ← advance
          let next ← choice fuel
          return .mk cond body (.choice next)
      | _ => return .mk cond body .nothing

def block (fuel : Nat) : Rule Block :=
  match fuel with
  | 0 => unexpected .statement
  | fuel + 1 => do
      let brace ← symbol .leftBrace
      let stmts ← inside brace (blockStmts fuel [])
      let stop ← advance
      return .mk stmts (brace.merge stop)

def blockStmts (fuel : Nat) (before : List Stmt) : Rule (List Stmt) :=
  match fuel with
  | 0 => unexpected .statement
  | fuel + 1 => do
      match ← currentKind with
      | .symbol .rightBrace => return before.reverse
      | .eof => unexpected (.symbol .rightBrace)
      | _ =>
          let next ← stmt fuel
          blockStmts fuel (next :: before)

end

def programFrom (fuel : Nat) (before : List Stmt) : Rule Program :=
  match fuel with
  | 0 => unexpected .statement
  | fuel + 1 => do
      match ← currentKind with
      | .eof => return before.reverse
      | _ =>
          let next ← stmt fuel
          programFrom fuel (next :: before)

/-- Rules nest at most this deep on so many tokens: from one token read to the next, fewer than
twenty rules call each other. -/
def enough (tokens : Nat) : Nat := 20 * (tokens + 1)

end Salita.Parser

namespace Salita

def parse (tokens : Array Token) (source : String) : Except ParseError Program :=
  match Parser.programFrom (Parser.enough tokens.size) [] (.ofTokens tokens) with
  | .ok program _ => .ok program
  | .error failure _ => .error (failure.toError source)

end Salita
