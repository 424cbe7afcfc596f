import Salita.Proofs.Syntax.Soundness

/-!
# What the grammar derives is read by the parser

A rule at the start of tokens that the grammar derives passes exactly these and gives their tree,
if the token behind them cannot continue the expression and the fuel is ample for all tokens left.

A level reads its operands one by one, while the grammar nests its derivations to the left. So the
statement about a level, `Begins`, leaves the loop of the level where the derived tokens end, and
the loop goes on from there or stops.
-/

namespace Salita.Parser
open Cursor Grammar

/-! ## First and next tokens -/

inductive Starts (r : Rank) : TokenKind → Prop
  | literal (value : Literal) : Starts r (literalKind value)
  | name (text : String) : Starts r (.ident text)
  | group : Starts r (.symbol .leftParen)
  | list : Starts r (.symbol .leftBracket)
  | minus (loose : r.depth ≤ Rank.sign.depth) : Starts r (.symbol .minus)
  | not (loose : r.depth ≤ Rank.not.depth) : Starts r (.keyword .hindi)

inductive Continues (r : Rank) : TokenKind → Prop
  | call : Continues r (.symbol .leftParen)
  | index : Continues r (.symbol .leftBracket)
  | operator (op : BinaryOp) (loose : r.depth ≤ (rankOf op).depth) : Continues r (operatorKind op)

theorem depth_lt_of_tighter? {r r' : Rank} (next : r.tighter? = some r') : r.depth < r'.depth := by
  cases r <;> cases next <;> decide

theorem Starts.of_tighter {r r' : Rank} {kind : TokenKind} (next : r.tighter? = some r')
    (starts : Starts r' kind) : Starts r kind := by
  have deeper := depth_lt_of_tighter? next
  cases starts with
  | literal value => exact .literal value
  | name text => exact .name text
  | group => exact .group
  | list => exact .list
  | minus loose => exact .minus (by omega)
  | not loose => exact .not (by omega)

theorem Continues.of_tighter {r r' : Rank} {kind : TokenKind} (next : r.tighter? = some r')
    (continues : Continues r' kind) : Continues r kind := by
  have deeper := depth_lt_of_tighter? next
  cases continues with
  | call => exact .call
  | index => exact .index
  | operator op loose => exact .operator op (by omega)

theorem operatorKind_injective {op other : BinaryOp} (same : operatorKind op = operatorKind other) :
    op = other := by
  cases op <;> cases other <;> first | rfl | cases same

theorem not_continues_operator {r : Rank} {op : BinaryOp}
    (next : (rankOf op).tighter? = some r) : ¬Continues r (operatorKind op) := by
  have deeper := depth_lt_of_tighter? next
  intro continues
  generalize spelled : operatorKind op = kind at continues
  cases continues with
  | call => cases op <;> cases spelled
  | index => cases op <;> cases spelled
  | operator other loose =>
      rw [operatorKind_injective spelled] at deeper
      omega

theorem not_continues_of_mem {r : Rank} {mark : Symbol}
    (ending : mark ∈ [Symbol.rightParen, .rightBracket, .comma, .colon, .semicolon]) :
    ¬Continues r (.symbol mark) := by
  intro continues
  generalize spelled : TokenKind.symbol mark = kind at continues
  cases continues with
  | call => cases spelled; simp at ending
  | index => cases spelled; simp at ending
  | operator op loose => cases op <;> cases spelled <;> simp at ending

theorem literalKind_ne_symbol (value : Literal) (mark : Symbol) :
    literalKind value ≠ .symbol mark := by
  cases value with
  | bool b => cases b <;> simp [literalKind]
  | _ => simp [literalKind]

theorem literalKind_ne_hindi (value : Literal) : literalKind value ≠ .keyword .hindi := by
  cases value with
  | bool b => cases b <;> simp [literalKind]
  | _ => simp [literalKind]

theorem not_starts_closing {r : Rank} {mark : Symbol}
    (closing : mark = .rightParen ∨ mark = .rightBracket) : ¬Starts r (.symbol mark) := by
  intro starts
  generalize spelled : TokenKind.symbol mark = kind at starts
  cases starts with
  | literal value => exact literalKind_ne_symbol value mark spelled.symm
  | name | not => cases spelled
  | group | list | minus => cases spelled; simp at closing

theorem not_starts_hindi {r : Rank} (tight : Rank.not.depth < r.depth) :
    ¬Starts r (.keyword .hindi) := by
  intro starts
  generalize spelled : TokenKind.keyword .hindi = kind at starts
  cases starts with
  | literal value => exact literalKind_ne_hindi value spelled.symm
  | name | group | list | minus => cases spelled
  | not loose => omega

theorem not_starts_minus {r : Rank} (tight : Rank.sign.depth < r.depth) :
    ¬Starts r (.symbol .minus) := by
  intro starts
  generalize spelled : TokenKind.symbol .minus = kind at starts
  cases starts with
  | literal value => exact literalKind_ne_symbol value .minus spelled.symm
  | name | group | list | not => cases spelled
  | minus loose => omega

theorem starts_of_exprText {r : Rank} {ts : List Token} {e : Expr} :
    ExprText r ts e → ∃ t us, ts = t :: us ∧ Starts r t.kind
  | .literal value spelled => ⟨_, _, rfl, spelled ▸ .literal value⟩
  | .var named => ⟨_, _, rfl, named ▸ .name _⟩
  | .call named _ _ _ => ⟨_, _, rfl, named ▸ .name _⟩
  | .index named _ _ _ => ⟨_, _, rfl, named ▸ .name _⟩
  | .group opened _ _ => ⟨_, _, rfl, opened ▸ .group⟩
  | .list opened _ _ => ⟨_, _, rfl, opened ▸ .list⟩
  | .not spelled _ => ⟨_, _, rfl, spelled ▸ .not (by decide)⟩
  | .neg spelled _ => ⟨_, _, rfl, spelled ▸ .minus (by decide)⟩
  | .tighter next derived => by
      obtain ⟨t, us, rfl, starts⟩ := starts_of_exprText derived
      exact ⟨t, us, rfl, starts.of_tighter next⟩
  | .binary _ _ _ _ derived _ => by
      obtain ⟨t, us, rfl, starts⟩ := starts_of_exprText derived
      exact ⟨t, _, rfl, starts⟩
  | .power _ derived _ => by
      obtain ⟨t, us, rfl, starts⟩ := starts_of_exprText derived
      exact ⟨t, _, rfl, starts.of_tighter rfl⟩

/-! ## Fuel -/

theorem Ample.exists_succ {fuel cost : Nat} {left : List Token} (ample : Ample fuel (cost + 1) left) :
    ∃ less, fuel = less + 1 ∧ Ample less cost left := by
  unfold Ample at ample
  exact ⟨fuel - 1, by omega, by unfold Ample; omega⟩

def ruleAt : Rank → Nat → Rule Expr
  | .or, fuel => level fuel .or
  | .and, fuel => level fuel .and
  | .not, fuel => negation fuel
  | .comparison, fuel => level fuel .comparison
  | .sum, fuel => level fuel .sum
  | .product, fuel => level fuel .product
  | .sign, fuel => signed fuel
  | .power, fuel => power fuel
  | .primary, fuel => primary fuel

theorem exists_level {op : BinaryOp} {r : Rank} (leftward : op ≠ .pow)
    (next : (rankOf op).tighter? = some r) :
    ∃ l : Level, rankOf op = l.rank ∧ r = l.operandRank := by
  cases op with
  | or => exact ⟨.or, rfl, (Option.some.inj next).symm⟩
  | and => exact ⟨.and, rfl, (Option.some.inj next).symm⟩
  | eq | notEq | less | lessEq | greater | greaterEq =>
      exact ⟨.comparison, rfl, (Option.some.inj next).symm⟩
  | add | sub => exact ⟨.sum, rfl, (Option.some.inj next).symm⟩
  | mul | div | floorDiv | mod => exact ⟨.product, rfl, (Option.some.inj next).symm⟩
  | pow => exact absurd rfl leftward

theorem operand_succ (fuel : Nat) (l : Level) :
    operand (fuel + 1) l = ruleAt l.operandRank fuel := by
  cases l <;> rfl

theorem ruleAt_rank (fuel : Nat) (l : Level) : ruleAt l.rank fuel = level fuel l := by
  cases l <;> rfl

/-! ## Expressions -/

def Completes (r : Rank) (ts : List Token) (e : Expr) : Prop :=
  ∀ fuel passed t rest, ¬Continues r t.kind → Ample fuel (cost r) (ts ++ t :: rest) →
    (ruleAt r fuel).run (between passed (ts ++ t :: rest)) =
      .ok e (between (passed ++ ts) (t :: rest))

def Begins (l : Level) (ts : List Token) (e : Expr) : Prop :=
  ∀ fuel passed t rest, ¬Continues l.operandRank t.kind →
    Ample fuel (cost l.rank) (ts ++ t :: rest) →
    ∃ less, Ample less 1 (t :: rest) ∧
      (level fuel l).run (between passed (ts ++ t :: rest)) =
        (levelRest less l e).run (between (passed ++ ts) (t :: rest))

structure Complete (r : Rank) (ts : List Token) (e : Expr) : Prop where
  completes : Completes r ts e
  begins : ∀ l : Level, l.rank = r → Begins l ts e

variable {r : Rank} {l : Level} {ts : List Token} {e : Expr}

theorem Begins.completes (begins : Begins l ts e) : Completes l.rank ts e := by
  intro fuel passed t rest stops ample
  have inner : ¬Continues l.operandRank t.kind := fun h => stops (h.of_tighter l.tighter?_rank)
  obtain ⟨less, ample', run⟩ := begins fuel passed t rest inner ample
  obtain ⟨less, rfl, -⟩ := ample'.exists_succ
  have none : l.operator? t.kind = none := by
    rw [Option.eq_none_iff_forall_ne_some]
    intro op found
    obtain ⟨-, rank, spelled⟩ := Level.operator?_eq_some.1 found
    exact stops (spelled ▸ .operator op (Nat.le_of_eq (by rw [rank])))
  rw [ruleAt_rank, run, levelRest, run_bind_of_ok currentKind_between, none]
  rfl

theorem Begins.complete (begins : Begins l ts e) : Complete l.rank ts e := by
  refine ⟨begins.completes, fun l' same => ?_⟩
  have : l' = l := by cases l <;> cases l' <;> first | rfl | cases same
  exact this ▸ begins

theorem Completes.begins (operand : Completes l.operandRank ts e) : Begins l ts e := by
  intro fuel passed t rest stops ample
  have cheaper := cost_operandRank l
  unfold Ample at ample
  obtain ⟨less, rfl⟩ : ∃ less, fuel = less + 2 := ⟨fuel - 2, by omega⟩
  refine ⟨less + 1, ?_, ?_⟩
  · simp only [List.length_append] at ample
    unfold Ample
    omega
  · rw [level, operand_succ]
    exact run_bind_of_ok (operand less passed t rest stops (by unfold Ample; omega))

theorem Begins.binary {ls rs : List Token} {left right : Expr} {mark : Token} {op : BinaryOp}
    (leftward : op ≠ .pow) (spelled : mark.kind = operatorKind op) (rank : rankOf op = l.rank)
    (begins : Begins l ls left) (operand : Completes l.operandRank rs right) :
    Begins l (ls ++ mark :: rs) (binary op left right) := by
  intro fuel passed t rest stops ample
  have ends : ¬Continues l.operandRank mark.kind := by
    rw [spelled]
    exact not_continues_operator (by rw [rank, l.tighter?_rank])
  simp only [List.append_assoc, List.cons_append] at ample ⊢
  obtain ⟨less, ample', run⟩ := begins fuel passed mark (rs ++ t :: rest) ends ample
  have cheap : cost l.operandRank ≤ 12 := by cases l <;> decide
  simp only [Ample, List.length_append, List.length_cons] at ample'
  obtain ⟨less, rfl⟩ : ∃ n, less = n + 2 := ⟨less - 2, by omega⟩
  refine ⟨less + 1, ?_, ?_⟩
  · simp only [Ample, List.length_cons]
    omega
  · have found : l.operator? mark.kind = some op := Level.operator?_eq_some.2 ⟨leftward, rank, spelled⟩
    have more : mark.kind ≠ .eof := by
      rw [spelled]
      cases op <;> simp [operatorKind]
    have readRight := operand less (passed ++ ls ++ [mark]) t rest stops
      (by simp only [Ample, List.length_append, List.length_cons]; omega)
    rw [run, levelRest, run_bind_of_ok currentKind_between, found]
    simp only
    rw [run_bind_of_ok (advance_between more), operand_succ, run_bind_of_ok readRight]
    simp

theorem Completes.apart (completes : Completes r ts e) (apart : ∀ l : Level, l.rank ≠ r) :
    Complete r ts e :=
  ⟨completes, fun l same => absurd same (apart l)⟩

theorem Completes.not_of_comparison (derived : ExprText .comparison ts e)
    (inner : Completes .comparison ts e) : Completes .not ts e := by
  intro fuel passed t rest stops ample
  obtain ⟨first, us, rfl, starts⟩ := starts_of_exprText derived
  obtain ⟨less, rfl, ample'⟩ := ample.exists_succ
  have run := inner less passed t rest (fun h => stops (h.of_tighter rfl)) ample'
  simp only [ruleAt, List.cons_append] at run ⊢
  rw [negation, run_bind_of_ok currentKind_between]
  split
  · rename_i hindi
    exact absurd (hindi ▸ starts) (not_starts_hindi (by decide))
  · exact run

theorem Completes.sign_of_power (derived : ExprText .power ts e)
    (inner : Completes .power ts e) : Completes .sign ts e := by
  intro fuel passed t rest stops ample
  obtain ⟨first, us, rfl, starts⟩ := starts_of_exprText derived
  obtain ⟨less, rfl, ample'⟩ := ample.exists_succ
  have run := inner less passed t rest (fun h => stops (h.of_tighter rfl)) ample'
  simp only [ruleAt, List.cons_append] at run ⊢
  rw [signed, run_bind_of_ok currentKind_between]
  split
  · rename_i minus
    exact absurd (minus ▸ starts) (not_starts_minus (by decide))
  · exact run

theorem Completes.power_of_primary (inner : Completes .primary ts e) : Completes .power ts e := by
  intro fuel passed t rest stops ample
  obtain ⟨less, rfl, ample'⟩ := ample.exists_succ
  have run := inner less passed t rest (fun h => stops (h.of_tighter rfl)) ample'
  simp only [ruleAt] at run ⊢
  rw [power, run_bind_of_ok run, run_bind_of_ok currentKind_between]
  split
  · rename_i mark
    exact absurd (mark ▸ Continues.operator .pow (by decide)) stops
  · rfl

theorem Complete.tighter {r' : Rank} (next : r.tighter? = some r') (derived : ExprText r' ts e)
    (inner : Completes r' ts e) : Complete r ts e := by
  have level (l : Level) (inner : Completes l.operandRank ts e) : Complete l.rank ts e :=
    inner.begins.complete
  cases r with
  | or => cases next; exact level .or inner
  | and => cases next; exact level .and inner
  | not => cases next; exact (inner.not_of_comparison derived).apart (by intro l; cases l <;> simp [Level.rank])
  | comparison => cases next; exact level .comparison inner
  | sum => cases next; exact level .sum inner
  | product => cases next; exact level .product inner
  | sign => cases next; exact (inner.sign_of_power derived).apart (by intro l; cases l <;> simp [Level.rank])
  | power => cases next; exact inner.power_of_primary.apart (by intro l; cases l <;> simp [Level.rank])
  | primary => cases next

theorem Completes.negated {mark : Token} (spelled : mark.kind = .keyword .hindi)
    (inner : Completes .not ts e) :
    Completes .not (mark :: ts) (unary .not mark.span e) := by
  intro fuel passed t rest stops ample
  simp only [Ample, List.cons_append, List.length_cons] at ample
  obtain ⟨less, rfl⟩ : ∃ less, fuel = less + 1 := ⟨fuel - 1, by omega⟩
  have run := inner less (passed ++ [mark]) t rest stops (by unfold Ample; omega)
  simp only [ruleAt, List.cons_append] at run ⊢
  rw [negation, run_bind_of_ok currentKind_between, spelled]
  simp only
  rw [run_bind_of_ok (advance_between (by simp [spelled])), run_bind_of_ok run]
  simp

theorem Completes.negative {mark : Token} (spelled : mark.kind = .symbol .minus)
    (inner : Completes .sign ts e) :
    Completes .sign (mark :: ts) (unary .neg mark.span e) := by
  intro fuel passed t rest stops ample
  simp only [Ample, List.cons_append, List.length_cons] at ample
  obtain ⟨less, rfl⟩ : ∃ less, fuel = less + 1 := ⟨fuel - 1, by omega⟩
  have run := inner less (passed ++ [mark]) t rest stops (by unfold Ample; omega)
  simp only [ruleAt, List.cons_append] at run ⊢
  rw [signed, run_bind_of_ok currentKind_between, spelled]
  simp only
  rw [run_bind_of_ok (advance_between (by simp [spelled])), run_bind_of_ok run]
  simp

theorem Completes.raised {bs es : List Token} {base exponent : Expr} {mark : Token}
    (spelled : mark.kind = operatorKind .pow) (innerBase : Completes .primary bs base)
    (innerExponent : Completes .sign es exponent) :
    Completes .power (bs ++ mark :: es) (binary .pow base exponent) := by
  intro fuel passed t rest stops ample
  simp only [Ample, cost, List.append_assoc, List.cons_append, List.length_append,
    List.length_cons] at ample ⊢
  obtain ⟨less, rfl⟩ : ∃ less, fuel = less + 1 := ⟨fuel - 1, by omega⟩
  have ends : ¬Continues .primary mark.kind := spelled ▸ not_continues_operator rfl
  have inner : ¬Continues .sign t.kind := by
    intro continues
    generalize kind : t.kind = k at continues stops
    cases continues with
    | call => exact stops .call
    | index => exact stops .index
    | operator op loose =>
        have tight : (rankOf op).depth ≠ Rank.sign.depth := by cases op <;> decide
        exact stops (.operator op (by simp only [Rank.depth] at *; omega))
  have runBase := innerBase less passed mark (es ++ t :: rest) ends
    (by simp only [Ample, cost, List.length_append, List.length_cons]; omega)
  have runExponent := innerExponent less (passed ++ bs ++ [mark]) t rest inner
    (by simp only [Ample, cost, List.length_append, List.length_cons]; omega)
  simp only [ruleAt] at runBase runExponent ⊢
  rw [power, run_bind_of_ok runBase, run_bind_of_ok currentKind_between, spelled]
  simp only [operatorKind]
  rw [run_bind_of_ok (advance_between (by simp [spelled, operatorKind])), run_bind_of_ok runExponent]
  simp

/-! ## Primaries -/

theorem Completes.literal {t : Token} {value : Literal} (spelled : t.kind = literalKind value) :
    Completes .primary [t] (.literal value t.span) := by
  intro fuel passed next rest _ ample
  obtain ⟨less, rfl, -⟩ := ample.exists_succ
  have more : t.kind ≠ .eof := by
    rw [spelled]
    cases value with
    | bool b => cases b <;> simp [literalKind]
    | _ => simp [literalKind]
  simp only [ruleAt, List.cons_append, List.nil_append]
  rw [primary, run_bind_of_ok currentKind_between, literal?_eq_some.2 spelled]
  simp only
  rw [run_bind_of_ok (advance_between more)]
  rfl

theorem run_primary_name {t : Token} {name : String} (named : t.kind = .ident name) (fuel : Nat)
    (passed left : List Token) :
    (primary (fuel + 1)).run (between passed (t :: left)) =
      (Parser.named fuel ⟨name, t.span⟩).run (between (passed ++ [t]) left) := by
  rw [primary, run_bind_of_ok currentKind_between, named, literal?_ident]
  simp only
  rw [run_bind_of_ok (advance_between (by simp [named]))]

theorem Completes.var {t : Token} {name : String} (named : t.kind = .ident name) :
    Completes .primary [t] (.var ⟨name, t.span⟩) := by
  intro fuel passed next rest stops ample
  simp only [Ample, cost, List.cons_append, List.length_cons] at ample
  obtain ⟨less, rfl⟩ : ∃ less, fuel = less + 2 := ⟨fuel - 2, by omega⟩
  simp only [ruleAt, List.cons_append, List.nil_append]
  rw [run_primary_name named, Parser.named, run_bind_of_ok currentKind_between]
  split
  · rename_i paren
    exact absurd (paren ▸ Continues.call) stops
  · rename_i bracket
    exact absurd (bracket ▸ Continues.index) stops
  · rfl

theorem Completes.index {t opening closing : Token} {name : String}
    (named : t.kind = .ident name) (opened : opening.kind = .symbol .leftBracket)
    (closed : closing.kind = .symbol .rightBracket) (inner : Completes .or ts e) :
    Completes .primary (t :: opening :: ts ++ [closing])
      (.index ⟨name, t.span⟩ e (t.span.merge closing.span)) := by
  intro fuel passed next rest _ ample
  simp only [Ample, cost, List.append_assoc, List.cons_append, List.nil_append, List.length_append,
    List.length_cons] at ample ⊢
  obtain ⟨less, rfl⟩ : ∃ less, fuel = less + 2 := ⟨fuel - 2, by omega⟩
  have run := inner less (passed ++ [t] ++ [opening]) closing (next :: rest)
    (closed ▸ not_continues_of_mem (by simp))
    (by simp only [Ample, cost, List.length_append, List.length_cons]; omega)
  simp only [ruleAt] at run ⊢
  rw [run_primary_name named, Parser.named, run_bind_of_ok currentKind_between, opened]
  simp only
  rw [run_bind_of_ok (advance_between (by simp [opened])), run_bind_of_ok run,
    run_bind_of_ok (symbol_between closed)]
  simp

theorem Completes.group {opening closing : Token} (opened : opening.kind = .symbol .leftParen)
    (closed : closing.kind = .symbol .rightParen) (inner : Completes .or ts e) :
    Completes .primary (opening :: ts ++ [closing]) e := by
  intro fuel passed next rest _ ample
  simp only [Ample, cost, List.append_assoc, List.cons_append, List.nil_append, List.length_append,
    List.length_cons] at ample ⊢
  obtain ⟨less, rfl⟩ : ∃ less, fuel = less + 1 := ⟨fuel - 1, by omega⟩
  have run := inner less (passed ++ [opening]) closing (next :: rest)
    (closed ▸ not_continues_of_mem (by simp))
    (by simp only [Ample, cost, List.length_append, List.length_cons]; omega)
  simp only [ruleAt] at run ⊢
  rw [primary, run_bind_of_ok currentKind_between, opened, literal?_symbol]
  simp only
  rw [run_bind_of_ok (advance_between (by simp [opened])), run_bind_of_ok run,
    run_bind_of_ok (symbol_between closed)]
  simp

/-! ## Lists of expressions -/

def CompletesItems (ts : List Token) (es : List Expr) : Prop :=
  ∀ fuel passed before (closing : Token) rest mark, closing.kind = .symbol mark →
    (mark = .rightParen ∨ mark = .rightBracket) → Ample fuel 15 (ts ++ closing :: rest) →
    (exprsFrom fuel before).run (between passed (ts ++ closing :: rest)) =
      .ok (before.reverse ++ es) (between (passed ++ ts) (closing :: rest))

def CompletesList (ts : List Token) (es : List Expr) : Prop :=
  ∀ fuel passed (closing : Token) rest mark, closing.kind = .symbol mark →
    (mark = .rightParen ∨ mark = .rightBracket) → Ample fuel 16 (ts ++ closing :: rest) →
    (exprs fuel mark).run (between passed (ts ++ closing :: rest)) =
      .ok es (between (passed ++ ts) (closing :: rest))

theorem not_continues_closing {r : Rank} {mark : Symbol}
    (closing : mark = .rightParen ∨ mark = .rightBracket) : ¬Continues r (.symbol mark) :=
  not_continues_of_mem (by rcases closing with rfl | rfl <;> simp)

theorem CompletesItems.one (inner : Completes .or ts e) : CompletesItems ts [e] := by
  intro fuel passed before closing rest mark closed closes ample
  obtain ⟨less, rfl, ample'⟩ := ample.exists_succ
  have run := inner less passed closing rest (closed ▸ not_continues_closing closes) ample'
  simp only [ruleAt] at run
  rw [exprsFrom, run_bind_of_ok run, run_bind_of_ok currentKind_between, closed]
  split
  · rename_i comma
    cases comma
    simp at closes
  · simp

theorem CompletesItems.more {us : List Token} {es : List Expr} {comma : Token}
    (separated : comma.kind = .symbol .comma) (inner : Completes .or ts e)
    (items : CompletesItems us es) : CompletesItems (ts ++ comma :: us) (e :: es) := by
  intro fuel passed before closing rest mark closed closes ample
  simp only [Ample, List.append_assoc, List.cons_append, List.length_append,
    List.length_cons] at ample ⊢
  obtain ⟨less, rfl⟩ : ∃ less, fuel = less + 1 := ⟨fuel - 1, by omega⟩
  have run := inner less passed comma (us ++ closing :: rest)
    (separated ▸ not_continues_of_mem (by simp))
    (by simp only [Ample, cost, List.length_append, List.length_cons]; omega)
  have runItems := items less (passed ++ ts ++ [comma]) (e :: before) closing rest mark closed closes
    (by simp only [Ample, List.length_append, List.length_cons]; omega)
  simp only [ruleAt] at run
  rw [exprsFrom, run_bind_of_ok run, run_bind_of_ok currentKind_between, separated]
  simp only
  rw [run_bind_of_ok (advance_between (by simp [separated])), runItems]
  simp

theorem CompletesList.none : CompletesList [] [] := by
  intro fuel passed closing rest mark closed _ ample
  obtain ⟨less, rfl, -⟩ := ample.exists_succ
  simp only [List.nil_append, List.append_nil]
  rw [exprs, run_bind_of_ok currentKind_between, if_pos closed]
  rfl

theorem CompletesList.some {es : List Expr} (starts : ∃ t us, ts = t :: us ∧ Starts .or t.kind)
    (items : CompletesItems ts es) : CompletesList ts es := by
  intro fuel passed closing rest mark closed closes ample
  obtain ⟨first, us, rfl, starts⟩ := starts
  obtain ⟨less, rfl, ample'⟩ := ample.exists_succ
  have run := items less passed [] closing rest mark closed closes ample'
  have opens : ¬first.kind = .symbol mark := by
    intro same
    rw [same] at starts
    exact not_starts_closing closes starts
  simp only [List.cons_append] at run ⊢
  rw [exprs, run_bind_of_ok currentKind_between, if_neg opens, run]
  rfl

theorem CompletesList.arguments {args : List Expr} {opening closing : Token}
    (opened : opening.kind = .symbol .leftParen) (closed : closing.kind = .symbol .rightParen)
    (list : CompletesList ts args) (fuel : Nat) (passed rest : List Token)
    (ample : Ample fuel 1 (opening :: ts ++ closing :: rest)) :
    (arguments fuel).run (between passed (opening :: ts ++ closing :: rest)) =
      .ok (args, closing.span) (between (passed ++ opening :: ts ++ [closing]) rest) := by
  simp only [Ample, List.cons_append, List.length_append, List.length_cons] at ample ⊢
  obtain ⟨less, rfl⟩ : ∃ less, fuel = less + 1 := ⟨fuel - 1, by omega⟩
  have run := list less (passed ++ [opening]) closing rest _ closed (.inl rfl)
    (by simp only [Ample, List.length_append, List.length_cons]; omega)
  rw [Parser.arguments, run_bind_of_ok (symbol_between opened), run_bind_of_ok run,
    run_bind_of_ok (symbol_between closed)]
  simp

theorem Completes.call {t opening closing : Token} {name : String} {args : List Expr}
    (named : t.kind = .ident name) (opened : opening.kind = .symbol .leftParen)
    (closed : closing.kind = .symbol .rightParen) (list : CompletesList ts args) :
    Completes .primary (t :: opening :: ts ++ [closing])
      (.call ⟨name, t.span⟩ args (t.span.merge closing.span)) := by
  intro fuel passed next rest _ ample
  simp only [Ample, cost, List.append_assoc, List.cons_append, List.nil_append, List.length_append,
    List.length_cons] at ample ⊢
  obtain ⟨less, rfl⟩ : ∃ less, fuel = less + 2 := ⟨fuel - 2, by omega⟩
  have run := list.arguments opened closed less (passed ++ [t]) (next :: rest)
    (by simp only [Ample, List.cons_append, List.length_append, List.length_cons]; omega)
  simp only [List.cons_append] at run
  simp only [ruleAt]
  rw [run_primary_name named, Parser.named, run_bind_of_ok currentKind_between, opened]
  simp only
  rw [run_bind_of_ok run]
  simp

theorem Completes.list {opening closing : Token} {items : List Expr}
    (opened : opening.kind = .symbol .leftBracket) (closed : closing.kind = .symbol .rightBracket)
    (list : CompletesList ts items) :
    Completes .primary (opening :: ts ++ [closing])
      (.list items (opening.span.merge closing.span)) := by
  intro fuel passed next rest _ ample
  simp only [Ample, cost, List.append_assoc, List.cons_append, List.nil_append, List.length_append,
    List.length_cons] at ample ⊢
  obtain ⟨less, rfl⟩ : ∃ less, fuel = less + 1 := ⟨fuel - 1, by omega⟩
  have run := list less (passed ++ [opening]) closing (next :: rest) _ closed (.inr rfl)
    (by simp only [Ample, List.length_append, List.length_cons]; omega)
  simp only [ruleAt]
  rw [primary, run_bind_of_ok currentKind_between, opened, literal?_symbol]
  simp only
  rw [run_bind_of_ok (advance_between (by simp [opened])), run_bind_of_ok run,
    run_bind_of_ok (symbol_between closed)]
  simp

theorem starts_of_itemsText {es : List Expr} (derived : ItemsText ts es) :
    ∃ t us, ts = t :: us ∧ Starts .or t.kind := by
  cases derived with
  | one derived => exact starts_of_exprText derived
  | more _ derived _ =>
      obtain ⟨t, us, rfl, starts⟩ := starts_of_exprText derived
      exact ⟨t, _, rfl, starts⟩

/-! ## All expressions -/

theorem rank_ne_primary (l : Level) : l.rank ≠ .primary := by cases l <;> simp [Level.rank]

mutual

theorem complete {r : Rank} {ts : List Token} {e : Expr} : ExprText r ts e → Complete r ts e
  | .tighter next derived => Complete.tighter next derived (complete derived).completes
  | .binary op leftward spelled next derivedLeft derivedRight => by
      obtain ⟨l, rank, operandRank⟩ := exists_level leftward next
      have begins := (complete derivedLeft).begins l rank.symm
      have right := (complete derivedRight).completes
      rw [operandRank] at right
      rw [rank]
      exact (begins.binary leftward spelled rank right).complete
  | .power spelled derivedBase derivedExponent => by
      have completes := Completes.raised spelled (complete derivedBase).completes
        (complete derivedExponent).completes
      exact completes.apart (by intro l; cases l <;> simp [Level.rank])
  | .not spelled derived => by
      have completes := Completes.negated spelled (complete derived).completes
      exact completes.apart (by intro l; cases l <;> simp [Level.rank])
  | .neg spelled derived => by
      have completes := Completes.negative spelled (complete derived).completes
      exact completes.apart (by intro l; cases l <;> simp [Level.rank])
  | .literal _ spelled => (Completes.literal spelled).apart rank_ne_primary
  | .var named => (Completes.var named).apart rank_ne_primary
  | .call named opened closed derived =>
      (Completes.call named opened closed (completeList derived)).apart rank_ne_primary
  | .index named opened closed derived =>
      (Completes.index named opened closed (complete derived).completes).apart rank_ne_primary
  | .group opened closed derived =>
      (Completes.group opened closed (complete derived).completes).apart rank_ne_primary
  | .list opened closed derived =>
      (Completes.list opened closed (completeList derived)).apart rank_ne_primary

theorem completeItems {ts : List Token} {es : List Expr} : ItemsText ts es → CompletesItems ts es
  | .one derived => .one (complete derived).completes
  | .more separated derived items =>
      .more separated (complete derived).completes (completeItems items)

theorem completeList {ts : List Token} {es : List Expr} : ListText ts es → CompletesList ts es
  | .none => .none
  | .some items => .some (starts_of_itemsText items) (completeItems items)

end

end Salita.Parser
