import Salita.Syntax.Basic
import Salita.Token.Basic

/-!
# The grammar of programs

Which tokens make up an expression, a statement or a program, and the tree that each derivation
stands for. The rules speak of tokens and trees only, and not of how tokens are read:

* `ExprText r tokens e`: the tokens derive `e` at the rank `r` of expressions.
* `ItemsText` and `ListText`: expressions with commas between them, the latter also none.
* `StmtText`, `ChoiceText`, `BlockText`, `StmtsText`: statements and their parts.
* `ProgramText`: a program, which is any number of statements.

Trees carry spans, so the rules also say which tokens a span reaches from and to.
-/

namespace Salita.Grammar

inductive Rank where
  | or
  | and
  | not
  | comparison
  | sum
  | product
  | sign
  | power
  | primary
deriving DecidableEq, Repr

namespace Rank

def tighter? : Rank → Option Rank
  | .or => some .and
  | .and => some .not
  | .not => some .comparison
  | .comparison => some .sum
  | .sum => some .product
  | .product => some .sign
  | .sign => some .power
  | .power => some .primary
  | .primary => none

def depth : Rank → Nat
  | .or => 0
  | .and => 1
  | .not => 2
  | .comparison => 3
  | .sum => 4
  | .product => 5
  | .sign => 6
  | .power => 7
  | .primary => 8

end Rank

def rankOf : BinaryOp → Rank
  | .or => .or
  | .and => .and
  | .eq | .notEq | .less | .lessEq | .greater | .greaterEq => .comparison
  | .add | .sub => .sum
  | .mul | .div | .floorDiv | .mod => .product
  | .pow => .power

def operatorKind : BinaryOp → TokenKind
  | .add => .symbol .plus
  | .sub => .symbol .minus
  | .mul => .symbol .star
  | .div => .symbol .slash
  | .floorDiv => .symbol .slashSlash
  | .mod => .symbol .percent
  | .pow => .symbol .starStar
  | .eq => .symbol .equalEqual
  | .notEq => .symbol .notEqual
  | .less => .symbol .less
  | .lessEq => .symbol .lessEqual
  | .greater => .symbol .greater
  | .greaterEq => .symbol .greaterEqual
  | .and => .keyword .at
  | .or => .keyword .o

def updateMark? : BinaryOp → Option Symbol
  | .add => some .plusEqual
  | .sub => some .minusEqual
  | .mul => some .starEqual
  | .div => some .slashEqual
  | .floorDiv => some .slashSlashEqual
  | .pow => some .starStarEqual
  | .mod => some .percentEqual
  | _ => none

def literalKind : Literal → TokenKind
  | .int value => .int value
  | .float value => .float value
  | .str value => .str value
  | .bool true => .keyword .totoo
  | .bool false => .keyword .huwad

mutual

inductive ExprText : Rank → List Token → Expr → Prop
  | tighter {r r' : Rank} {ts : List Token} {e : Expr} (next : r.tighter? = some r') :
      ExprText r' ts e → ExprText r ts e
  | binary {r : Rank} {ls rs : List Token} {left right : Expr} {mark : Token} (op : BinaryOp)
      (leftward : op ≠ .pow) (spelled : mark.kind = operatorKind op)
      (next : (rankOf op).tighter? = some r) :
      ExprText (rankOf op) ls left → ExprText r rs right →
      ExprText (rankOf op) (ls ++ mark :: rs)
        (.binary op left right (left.span.merge right.span))
  | power {bs es : List Token} {base exponent : Expr} {mark : Token}
      (spelled : mark.kind = operatorKind .pow) :
      ExprText .primary bs base → ExprText .sign es exponent →
      ExprText .power (bs ++ mark :: es)
        (.binary .pow base exponent (base.span.merge exponent.span))
  | not {ts : List Token} {e : Expr} {mark : Token} (spelled : mark.kind = .keyword .hindi) :
      ExprText .not ts e →
      ExprText .not (mark :: ts) (.unary .not e (mark.span.merge e.span))
  | neg {ts : List Token} {e : Expr} {mark : Token} (spelled : mark.kind = .symbol .minus) :
      ExprText .sign ts e →
      ExprText .sign (mark :: ts) (.unary .neg e (mark.span.merge e.span))
  | literal {t : Token} (value : Literal) (spelled : t.kind = literalKind value) :
      ExprText .primary [t] (.literal value t.span)
  | var {name : String} {t : Token} (named : t.kind = .ident name) :
      ExprText .primary [t] (.var ⟨name, t.span⟩)
  | call {name : String} {t opening closing : Token} {ts : List Token} {args : List Expr}
      (named : t.kind = .ident name) (opened : opening.kind = .symbol .leftParen)
      (closed : closing.kind = .symbol .rightParen) :
      ListText ts args →
      ExprText .primary (t :: opening :: ts ++ [closing])
        (.call ⟨name, t.span⟩ args (t.span.merge closing.span))
  | index {name : String} {t opening closing : Token} {ts : List Token} {position : Expr}
      (named : t.kind = .ident name) (opened : opening.kind = .symbol .leftBracket)
      (closed : closing.kind = .symbol .rightBracket) :
      ExprText .or ts position →
      ExprText .primary (t :: opening :: ts ++ [closing])
        (.index ⟨name, t.span⟩ position (t.span.merge closing.span))
  | group {opening closing : Token} {ts : List Token} {e : Expr}
      (opened : opening.kind = .symbol .leftParen)
      (closed : closing.kind = .symbol .rightParen) :
      ExprText .or ts e → ExprText .primary (opening :: ts ++ [closing]) e
  | list {opening closing : Token} {ts : List Token} {items : List Expr}
      (opened : opening.kind = .symbol .leftBracket)
      (closed : closing.kind = .symbol .rightBracket) :
      ListText ts items →
      ExprText .primary (opening :: ts ++ [closing])
        (.list items (opening.span.merge closing.span))

inductive ItemsText : List Token → List Expr → Prop
  | one {ts : List Token} {e : Expr} : ExprText .or ts e → ItemsText ts [e]
  | more {ts us : List Token} {e : Expr} {es : List Expr} {comma : Token}
      (separated : comma.kind = .symbol .comma) :
      ExprText .or ts e → ItemsText us es → ItemsText (ts ++ comma :: us) (e :: es)

inductive ListText : List Token → List Expr → Prop
  | none : ListText [] []
  | some {ts : List Token} {es : List Expr} : ItemsText ts es → ListText ts es

end

mutual

inductive StmtText : List Token → Stmt → Prop
  | call {name : String} {t opening closing stop : Token} {ts : List Token} {args : List Expr}
      (named : t.kind = .ident name) (opened : opening.kind = .symbol .leftParen)
      (closed : closing.kind = .symbol .rightParen) (ended : stop.kind = .symbol .semicolon) :
      ListText ts args →
      StmtText (t :: opening :: ts ++ [closing, stop])
        (.call ⟨name, t.span⟩ args (t.span.merge stop.span))
  | assign {name : String} {t mark stop : Token} {ts : List Token} {e : Expr}
      (named : t.kind = .ident name) (spelled : mark.kind = .symbol .equal)
      (ended : stop.kind = .symbol .semicolon) :
      ExprText .or ts e →
      StmtText (t :: mark :: ts ++ [stop])
        (.assign ⟨name, t.span⟩ e (t.span.merge stop.span))
  | update {name : String} {t mark stop : Token} {ts : List Token} {e : Expr} {symbol : Symbol}
      (op : BinaryOp) (named : t.kind = .ident name) (compound : updateMark? op = some symbol)
      (spelled : mark.kind = .symbol symbol) (ended : stop.kind = .symbol .semicolon) :
      ExprText .or ts e →
      StmtText (t :: mark :: ts ++ [stop])
        (.update ⟨name, t.span⟩ op e (t.span.merge stop.span))
  | choose {first last : Token} {ts : List Token} {choice : Choice} :
      ChoiceText (first :: ts ++ [last]) choice →
      StmtText (first :: ts ++ [last]) (.choose choice (first.span.merge last.span))
  | repeatWhile {first opening closing : Token} {cs bs : List Token} {cond : Expr} {body : Block}
      (spelled : first.kind = .keyword .hanggat) (opened : opening.kind = .symbol .leftParen)
      (closed : closing.kind = .symbol .rightParen) :
      ExprText .or cs cond → BlockText bs body →
      StmtText (first :: opening :: cs ++ closing :: bs)
        (.repeatWhile cond body (first.span.merge body.span))
  | forEach {first each t within opening colon closing : Token} {name : String}
      {fs ls bs : List Token} {lower upper : Expr} {body : Block}
      (spelled : first.kind = .keyword .sa) (each_spelled : each.kind = .keyword .bawat)
      (named : t.kind = .ident name) (within_spelled : within.kind = .keyword .sa)
      (opened : opening.kind = .symbol .leftBracket) (divided : colon.kind = .symbol .colon)
      (closed : closing.kind = .symbol .rightBracket) :
      ExprText .or fs lower → ExprText .or ls upper → BlockText bs body →
      StmtText (first :: each :: t :: within :: opening :: fs ++ colon :: ls ++ closing :: bs)
        (.forEach ⟨name, t.span⟩ lower upper body (first.span.merge body.span))
  | print {first opening closing stop : Token} {ts : List Token} {args : List Expr}
      (spelled : first.kind = .keyword .ilimbag) (opened : opening.kind = .symbol .leftParen)
      (closed : closing.kind = .symbol .rightParen) (ended : stop.kind = .symbol .semicolon) :
      ListText ts args →
      StmtText (first :: opening :: ts ++ [closing, stop])
        (.print args (first.span.merge stop.span))
  | leave {first stop : Token} (spelled : first.kind = .keyword .lumisan)
      (ended : stop.kind = .symbol .semicolon) :
      StmtText [first, stop] (.leave (first.span.merge stop.span))

inductive ChoiceText : List Token → Choice → Prop
  | alone {first opening closing : Token} {cs bs : List Token} {cond : Expr} {body : Block}
      (spelled : first.kind = .keyword .kapag) (opened : opening.kind = .symbol .leftParen)
      (closed : closing.kind = .symbol .rightParen) :
      ExprText .or cs cond → BlockText bs body →
      ChoiceText (first :: opening :: cs ++ closing :: bs) (.mk cond body .nothing)
  | otherwise {first opening closing mark : Token} {cs bs os : List Token} {cond : Expr}
      {body other : Block}
      (spelled : first.kind = .keyword .kapag) (opened : opening.kind = .symbol .leftParen)
      (closed : closing.kind = .symbol .rightParen) (marked : mark.kind = .keyword .kundiman) :
      ExprText .or cs cond → BlockText bs body → BlockText os other →
      ChoiceText (first :: opening :: cs ++ closing :: bs ++ mark :: os)
        (.mk cond body (.block other))
  | further {first opening closing mark : Token} {cs bs os : List Token} {cond : Expr}
      {body : Block} {other : Choice}
      (spelled : first.kind = .keyword .kapag) (opened : opening.kind = .symbol .leftParen)
      (closed : closing.kind = .symbol .rightParen) (marked : mark.kind = .keyword .ngunit) :
      ExprText .or cs cond → BlockText bs body → ChoiceText os other →
      ChoiceText (first :: opening :: cs ++ closing :: bs ++ mark :: os)
        (.mk cond body (.choice other))

inductive BlockText : List Token → Block → Prop
  | braces {opening closing : Token} {ts : List Token} {stmts : List Stmt}
      (opened : opening.kind = .symbol .leftBrace)
      (closed : closing.kind = .symbol .rightBrace) :
      StmtsText ts stmts →
      BlockText (opening :: ts ++ [closing]) (.mk stmts (opening.span.merge closing.span))

inductive StmtsText : List Token → List Stmt → Prop
  | nil : StmtsText [] []
  | cons {ts us : List Token} {stmt : Stmt} {stmts : List Stmt} :
      StmtText ts stmt → StmtsText us stmts → StmtsText (ts ++ us) (stmt :: stmts)

end

theorem BlockText.exists_concat {ts : List Token} {body : Block} (derived : BlockText ts body) :
    ∃ us last, ts = us ++ [last] := by
  cases derived with
  | braces _ _ _ => exact ⟨_, _, rfl⟩

theorem ChoiceText.exists_concat {ts : List Token} {choice : Choice} :
    ChoiceText ts choice → ∃ first us last, ts = first :: us ++ [last] ∧
      first.kind = .keyword .kapag
  | .alone spelled _ _ _ body => by
      obtain ⟨us, last, rfl⟩ := body.exists_concat
      exact ⟨_, _, last, (List.append_assoc _ (_ :: us) _).symm, spelled⟩
  | .otherwise spelled _ _ _ _ _ other => by
      obtain ⟨us, last, rfl⟩ := other.exists_concat
      exact ⟨_, _, last, (List.append_assoc _ (_ :: us) _).symm, spelled⟩
  | .further spelled _ _ _ _ _ other => by
      obtain ⟨first, us, last, rfl, -⟩ := other.exists_concat
      exact ⟨_, _, last, (List.append_assoc _ (_ :: first :: us) _).symm, spelled⟩

abbrev ProgramText (tokens : List Token) (program : Program) : Prop := StmtsText tokens program

end Salita.Grammar
