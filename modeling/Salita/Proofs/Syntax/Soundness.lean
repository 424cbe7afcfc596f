import Salita.Proofs.Syntax.Cursor
import Salita.Proofs.Syntax.Grammar

/-!
# What the parser reads, and where it stops

`Reading` says what a rule does in front of tokens whose end is marked. It stops at one of them, and
what it has done depends neither on the tokens behind that one nor on fuel beyond what is ample. If
it succeeds, it has passed tokens for which `P` holds with its result. If it fails, it reports the
token at which it stopped, and those before it begin some for which `P` holds.

Each rule of the parser reads what the grammar derives, if the rules it calls with less fuel do;
`sound` and `soundStmts` draw the conclusion for all fuel.
-/

namespace Salita.Parser
open Cursor Grammar

variable {α β : Type}

/-- The fuel is ample for a rule of some cost in front of the tokens left. From one token to the
next, rules use up less than what a token adds. -/
def Ample (fuel need : Nat) (left : List Token) : Prop := 20 * left.length + need ≤ fuel

def Viable (P : List Token → α → Prop) (ts : List Token) : Prop := ∃ more a, P (ts ++ more) a

/-- The rule passes the tokens, stops in front of the next one and gives the answer, whatever stands
behind that. -/
def Gives (x : Rule α) (passed ts : List Token) (t : Token)
    (answer : Cursor → EStateM.Result SyntaxFailure Cursor α) : Prop :=
  ∀ rest, x.run (between passed (ts ++ t :: rest)) = answer (between (passed ++ ts) (t :: rest))

/-- The rule `x` stops at a token of what is left, at one that `S` allows if it succeeds, and `y`
does the same. -/
def Settled (S : TokenKind → Prop) (x y : Rule α) (P : List Token → α → Prop)
    (passed left : List Token) : Prop :=
  ∃ ts t rest, left = ts ++ t :: rest ∧ Ends (t :: rest) ∧
    ((∃ a, S t.kind ∧ P ts a ∧ Gives x passed ts t (.ok a) ∧ Gives y passed ts t (.ok a)) ∨
      ∃ failure : SyntaxFailure, failure.found = t ∧ Viable P ts ∧
        Gives x passed ts t (.error failure) ∧ Gives y passed ts t (.error failure))

structure Reading (K S : TokenKind → Prop) (fuel need : Nat) (x y : Rule α)
    (P : List Token → α → Prop) : Prop where
  viable : Viable P []
  settled : ∀ passed t left, K t.kind → Ends (t :: left) → Ample fuel need (t :: left) →
    Settled S x y P passed (t :: left)

def anyKind : TokenKind → Prop := fun _ => True

abbrev Reads (fuel need : Nat) (x y : Rule α) (P : List Token → α → Prop) : Prop :=
  Reading anyKind anyKind fuel need x y P

abbrev ReadsAt (kind : TokenKind) (fuel need : Nat) (x y : Rule α) (P : List Token → α → Prop) :
    Prop :=
  Reading (· = kind) anyKind fuel need x y P

abbrev ReadsUpTo (kind : TokenKind) (fuel need : Nat) (x y : Rule α)
    (P : List Token → α → Prop) : Prop :=
  Reading anyKind (· = kind) fuel need x y P

variable {x y : Rule α} {f g : α → Rule β} {P Q : List Token → α → Prop}
  {R : List Token → β → Prop} {K K' S S' : TokenKind → Prop} {kind : TokenKind}
  {fuel need need' : Nat}

theorem Viable.of_append {us vs : List Token} (viable : Viable P (us ++ vs)) : Viable P us := by
  obtain ⟨more, a, holds⟩ := viable
  exact ⟨vs ++ more, a, by simpa using holds⟩

theorem Viable.mono {ts : List Token} (weaker : ∀ ts a, P ts a → Q ts a) (viable : Viable P ts) :
    Viable Q ts := by
  obtain ⟨more, a, holds⟩ := viable
  exact ⟨more, a, weaker _ a holds⟩

theorem Reading.mono (reads : Reading K S fuel need x y P) (weaker : ∀ ts a, P ts a → Q ts a) :
    Reading K S fuel need x y Q := by
  refine ⟨reads.viable.mono weaker, ?_⟩
  intro passed t left start ends ample
  obtain ⟨ts, u, rest, split, ends', outcome⟩ := reads.settled passed t left start ends ample
  refine ⟨ts, u, rest, split, ends', ?_⟩
  rcases outcome with ⟨a, stop, holds, runs⟩ | ⟨failure, found, viable, runs⟩
  · exact .inl ⟨a, stop, weaker ts a holds, runs⟩
  · exact .inr ⟨failure, found, viable.mono weaker, runs⟩

/-- A rule that may start anywhere may start here, and a need may be set higher. -/
theorem Reading.here (reads : Reading anyKind S fuel need x y P) (cheaper : need ≤ need') :
    Reading K S fuel need' x y P := by
  refine ⟨reads.viable, ?_⟩
  intro passed t left _ ends ample
  exact reads.settled passed t left trivial ends (by unfold Ample at ample ⊢; omega)

theorem Reading.zero (viable : Viable P []) : Reading K S 0 need x y P := by
  refine ⟨viable, ?_⟩
  intro passed t left _ _ ample
  simp [Ample] at ample

theorem Reading.succ (reads : Reading K S fuel need x y P) :
    Reading K S (fuel + 1) (need + 1) x y P := by
  refine ⟨reads.viable, ?_⟩
  intro passed t left start ends ample
  exact reads.settled passed t left start ends (by unfold Ample at ample ⊢; omega)

theorem Gives.bind {passed us vs ws : List Token} {u t : Token} {a : α}
    {answer : Cursor → EStateM.Result SyntaxFailure Cursor β} (first : Gives x passed us u (.ok a))
    (front : vs ++ [t] = u :: ws) (next : Gives (f a) (passed ++ us) vs t answer) :
    Gives (x >>= f) passed (us ++ vs) t answer := by
  intro rest
  have behind : vs ++ t :: rest = u :: (ws ++ rest) := by
    rw [← List.cons_append, ← front]
    simp
  have run := first (ws ++ rest)
  rw [← behind] at run
  rw [List.append_assoc, run_bind_of_ok run, next rest, List.append_assoc]

theorem Gives.bind_error {passed ts : List Token} {t : Token} {failure : SyntaxFailure}
    (first : Gives x passed ts t (.error failure)) :
    Gives (x >>= f) passed ts t (.error failure) := by
  intro rest
  rw [EStateM.run_bind, first rest]

theorem exists_front {u t : Token} {vs rest rest' : List Token}
    (split : u :: rest = vs ++ t :: rest') : ∃ ws, vs ++ [t] = u :: ws := by
  cases vs with
  | nil => exact ⟨[], by rw [List.head_eq_of_cons_eq split]; rfl⟩
  | cons v vs => exact ⟨vs ++ [t], by rw [List.head_eq_of_cons_eq split]; rfl⟩

theorem Reading.bind (first : Reading K S fuel need x y P)
    (next : ∀ us a, P us a →
      Reading S S' fuel (need + 20 * us.length) (f a) (g a) fun vs b => R (us ++ vs) b) :
    Reading K S' fuel need (x >>= f) (y >>= g) R := by
  have completes {us : List Token} {a : α} (holds : P us a) : Viable R us := by
    obtain ⟨more, b, holds'⟩ := (next us a holds).viable
    exact ⟨more, b, holds'⟩
  constructor
  · obtain ⟨us, a, holds⟩ := first.viable
    exact (completes holds).of_append
  · intro passed t left start ends ample
    obtain ⟨us, u, rest, split, ends₁, outcome⟩ := first.settled passed t left start ends ample
    rcases outcome with ⟨a, stop, holds, runX, runY⟩ | ⟨failure, found, ⟨more, a, holds⟩, runX, runY⟩
    · have ample₁ : Ample fuel (need + 20 * us.length) (u :: rest) := by
        unfold Ample at ample ⊢
        rw [split, List.length_append] at ample
        omega
      obtain ⟨vs, v, rest', split', ends₂, outcome⟩ :=
        (next us a holds).settled (passed ++ us) u rest stop ends₁ ample₁
      obtain ⟨ws, front⟩ := exists_front split'
      refine ⟨us ++ vs, v, rest', by rw [split, split', List.append_assoc], ends₂, ?_⟩
      rcases outcome with ⟨b, stop', holds', runF, runG⟩ | ⟨failure, found, viable, runF, runG⟩
      · exact .inl ⟨b, stop', holds', runX.bind front runF, runY.bind front runG⟩
      · obtain ⟨more, b, holds'⟩ := viable
        refine .inr ⟨failure, found, ⟨more, b, ?_⟩, runX.bind front runF, runY.bind front runG⟩
        rw [List.append_assoc]
        exact holds'
    · exact ⟨us, u, rest, split, ends₁, .inr ⟨failure, found, (completes holds).of_append,
        runX.bind_error, runY.bind_error⟩⟩

theorem Reading.pure {a : α} (holds : P [] a) :
    Reading K K fuel need (Pure.pure a) (Pure.pure a) P := by
  refine ⟨⟨[], a, holds⟩, ?_⟩
  intro passed t left start ends _
  have runs : Gives (Pure.pure a) passed [] t (.ok a) := fun rest => by simp
  exact ⟨[], t, left, rfl, ends, .inl ⟨a, start, holds, runs, runs⟩⟩

theorem Reading.stay {a : α} (holds : P [] a) :
    Reading K anyKind fuel need (Pure.pure a) (Pure.pure a) P :=
  (Reading.pure holds).here (Nat.le_refl need)

theorem Reading.unexpected {expected : Expected} (viable : Viable P []) :
    Reading K S fuel need (unexpected expected) (unexpected expected) P := by
  refine ⟨viable, ?_⟩
  intro passed t left _ ends _
  refine ⟨[], t, left, rfl, ends, .inr ⟨⟨t, expected, none⟩, rfl, viable, ?_, ?_⟩⟩
  all_goals
    intro rest
    rw [run_unexpected]
    simp

theorem Reading.look {f g : TokenKind → Rule β}
    (next : ∀ kind, Reading (· = kind) S fuel need (f kind) (g kind) R) :
    Reading anyKind S fuel need (currentKind >>= f) (currentKind >>= g) R := by
  refine ⟨(next .eof).viable, ?_⟩
  intro passed t left _ ends ample
  obtain ⟨us, u, rest, split, ends', outcome⟩ := (next t.kind).settled passed t left rfl ends ample
  obtain ⟨ws, front⟩ := exists_front split
  have looked : Gives currentKind passed [] t (.ok t.kind) := by
    intro rest
    simp [currentKind_between]
  refine ⟨us, u, rest, split, ends', ?_⟩
  rcases outcome with ⟨b, stop, holds, runF, runG⟩ | ⟨failure, found, viable, runF, runG⟩
  · refine .inl ⟨b, stop, holds, ?_, ?_⟩
    · exact looked.bind front (by simpa using runF)
    · exact looked.bind front (by simpa using runG)
  · refine .inr ⟨failure, found, viable, ?_, ?_⟩
    · exact looked.bind front (by simpa using runF)
    · exact looked.bind front (by simpa using runG)

/-! ## One token -/

def OneToken (Q : Token → Prop) (ts : List Token) (span : Span) : Prop :=
  ∃ t, ts = [t] ∧ Q t ∧ span = t.span

theorem viable_oneToken : Viable (OneToken (·.kind = kind)) [] :=
  ⟨[⟨kind, .origin⟩], .origin, ⟨kind, .origin⟩, rfl, rfl, rfl⟩

theorem readsAt_advance (more : kind ≠ .eof) :
    ReadsAt kind fuel need advance advance (OneToken (·.kind = kind)) := by
  refine ⟨viable_oneToken, ?_⟩
  intro passed t left here ends _
  have inner : t.kind ≠ .eof := by rw [here]; exact more
  obtain ⟨u, rest, rfl⟩ := (ends.tail inner).exists_cons
  have runs : Gives advance passed [t] u (.ok t.span) := fun rest => advance_between inner
  exact ⟨[t], u, rest, rfl, ends.tail inner, .inl ⟨t.span, trivial, ⟨t, rfl, here, rfl⟩, runs, runs⟩⟩

theorem reads_token {expected : Expected}
    (fixed : (∃ mark, kind = .symbol mark) ∨ ∃ word, kind = .keyword word) :
    Reads fuel need (token kind expected) (token kind expected) (OneToken (·.kind = kind)) := by
  have more : kind ≠ .eof := by obtain ⟨mark, rfl⟩ | ⟨word, rfl⟩ := fixed <;> simp
  refine Reading.look fun current => ?_
  split
  · rename_i same
    rw [(sameKind_iff fixed).1 same]
    exact readsAt_advance more
  · exact Reading.unexpected viable_oneToken

theorem reads_symbol (mark : Symbol) :
    Reads fuel need (symbol mark) (symbol mark) (OneToken (·.kind = .symbol mark)) :=
  reads_token (.inl ⟨mark, rfl⟩)

theorem reads_keyword (word : Keyword) :
    Reads fuel need (keyword word) (keyword word) (OneToken (·.kind = .keyword word)) :=
  reads_token (.inr ⟨word, rfl⟩)

def NameText (ts : List Token) (name : Name) : Prop :=
  ∃ t, ts = [t] ∧ t.kind = .ident name.text ∧ name = ⟨name.text, t.span⟩

theorem reads_identifier : Reads fuel need identifier identifier NameText := by
  refine Reading.look fun kind => ?_
  split
  · rename_i text
    refine (readsAt_advance (by simp)).bind ?_
    rintro _ _ ⟨t, rfl, named, rfl⟩
    exact Reading.pure ⟨t, rfl, named, rfl⟩
  · exact Reading.unexpected
      ⟨[⟨.ident "", .origin⟩], ⟨"", .origin⟩, ⟨.ident "", .origin⟩, rfl, rfl, rfl⟩

/-! ## Operators -/

def Level.rank : Level → Rank
  | .or => .or
  | .and => .and
  | .comparison => .comparison
  | .sum => .sum
  | .product => .product

def Level.operandRank : Level → Rank
  | .or => .and
  | .and => .not
  | .comparison => .sum
  | .sum => .product
  | .product => .sign

theorem Level.tighter?_rank (l : Level) : l.rank.tighter? = some l.operandRank := by
  cases l <;> rfl

theorem Level.operator?_eq_some {l : Level} {kind : TokenKind} {op : BinaryOp} :
    l.operator? kind = some op ↔ op ≠ .pow ∧ rankOf op = l.rank ∧ kind = operatorKind op := by
  constructor
  · intro found
    unfold Level.operator? at found
    split at found <;> cases found <;> simp [rankOf, Level.rank, operatorKind]
  · rintro ⟨-, rank, rfl⟩
    cases op <;> cases l <;> first | rfl | cases rank

theorem updateOperator?_eq_some {kind : TokenKind} {op : BinaryOp} :
    updateOperator? kind = some op ↔
      ∃ mark, updateMark? op = some mark ∧ kind = .symbol mark := by
  constructor
  · intro found
    unfold updateOperator? at found
    split at found <;> cases found <;> exact ⟨_, rfl, rfl⟩
  · rintro ⟨mark, compound, rfl⟩
    cases op <;> cases compound <;> rfl

theorem literal?_eq_some {kind : TokenKind} {value : Literal} :
    literal? kind = some value ↔ kind = literalKind value := by
  constructor
  · intro found
    cases kind with
    | int n => cases found; rfl
    | float y => cases found; rfl
    | str text => cases found; rfl
    | keyword word => cases word <;> cases found <;> rfl
    | ident | symbol | eof => cases found
  · rintro rfl
    cases value with
    | bool b => cases b <;> rfl
    | int n => rfl
    | float y => rfl
    | str text => rfl

theorem literal?_ident (name : String) : literal? (.ident name) = none := rfl

theorem literal?_symbol (mark : Symbol) : literal? (.symbol mark) = none := rfl

/-! ## Expressions -/

/-- The fuel that a rule for a rank takes before the first token is passed. -/
def cost : Rank → Nat
  | .or => 14
  | .and => 12
  | .not => 10
  | .comparison => 9
  | .sum => 7
  | .product => 5
  | .sign => 3
  | .power => 2
  | .primary => 1

theorem cost_operandRank (l : Level) : cost l.operandRank + 2 ≤ cost l.rank := by
  cases l <;> decide

def ArgumentsText (ts : List Token) (result : List Expr × Span) : Prop :=
  ∃ opening us closing, ts = opening :: us ++ [closing] ∧
    opening.kind = .symbol .leftParen ∧ closing.kind = .symbol .rightParen ∧
    ListText us result.1 ∧ result.2 = closing.span

theorem viable_exprText (r : Rank) : Viable (ExprText r) [] := by
  have primary : Viable (ExprText .primary) [] :=
    ⟨[⟨.keyword .totoo, .origin⟩], _, .literal (.bool true) rfl⟩
  have looser {r r' : Rank} (next : r.tighter? = some r') (viable : Viable (ExprText r') []) :
      Viable (ExprText r) [] := viable.mono fun _ _ derived => .tighter next derived
  have sign : Viable (ExprText .sign) [] := looser rfl (looser rfl primary)
  have sum : Viable (ExprText .sum) [] := looser rfl (looser rfl sign)
  have not : Viable (ExprText .not) [] := looser rfl (looser rfl sum)
  cases r with
  | or => exact looser rfl (looser rfl not)
  | and => exact looser rfl not
  | not => exact not
  | comparison => exact looser rfl sum
  | sum => exact sum
  | product => exact looser rfl sign
  | sign => exact sign
  | power => exact looser rfl primary
  | primary => exact primary

structure Sound (less more : Nat) : Prop where
  level : ∀ l : Level, Reads less (cost l.rank) (level less l) (level more l) (ExprText l.rank)
  levelRest : ∀ l ls left, ExprText l.rank ls left →
    Reads less 1 (levelRest less l left) (levelRest more l left) fun ts e =>
      ExprText l.rank (ls ++ ts) e
  operand : ∀ l : Level, Reads less (cost l.operandRank + 1) (operand less l) (operand more l)
    (ExprText l.operandRank)
  negation : Reads less (cost .not) (negation less) (negation more) (ExprText .not)
  signed : Reads less (cost .sign) (signed less) (signed more) (ExprText .sign)
  power : Reads less (cost .power) (power less) (power more) (ExprText .power)
  primary : Reads less (cost .primary) (primary less) (primary more) (ExprText .primary)
  named : ∀ name (t : Token), t.kind = .ident name →
    Reads less 2 (named less ⟨name, t.span⟩) (named more ⟨name, t.span⟩) fun ts e =>
      ExprText .primary (t :: ts) e
  arguments : Reads less 1 (arguments less) (arguments more) ArgumentsText
  exprs : ∀ closing, Reads less 16 (exprs less closing) (exprs more closing) ListText
  exprsFrom : ∀ before, Reads less 15 (exprsFrom less before) (exprsFrom more before) fun ts es =>
    ∃ items, es = before.reverse ++ items ∧ ItemsText ts items

variable {less more : Nat}

theorem reads_level (ih : Sound less more) (l : Level) :
    Reads (less + 1) (cost l.rank) (level (less + 1) l) (level (more + 1) l) (ExprText l.rank) := by
  refine ((ih.operand l).bind fun us left derived => ?_).succ.here (cost_operandRank l)
  exact (ih.levelRest l us left (.tighter l.tighter?_rank derived)).here (by omega)

theorem reads_levelRest (ih : Sound less more) (l : Level) (ls : List Token) (left : Expr)
    (derived : ExprText l.rank ls left) :
    Reads (less + 1) 1 (levelRest (less + 1) l left) (levelRest (more + 1) l left) fun ts e =>
      ExprText l.rank (ls ++ ts) e := by
  refine (Reading.look fun kind => ?_).succ
  split
  · exact Reading.stay (by simpa using derived)
  · rename_i op found
    obtain ⟨leftward, rank, rfl⟩ := Level.operator?_eq_some.1 found
    refine (readsAt_advance (by cases op <;> simp [operatorKind])).bind ?_
    rintro _ _ ⟨mark, rfl, spelled, -⟩
    refine ((ih.operand l).here (by cases l <;> simp [cost, Level.operandRank])).bind
      fun rs right derivedRight => ?_
    have joined : ExprText l.rank (ls ++ mark :: rs) (binary op left right) := by
      rw [← rank] at derived ⊢
      exact .binary op leftward spelled (by rw [rank, l.tighter?_rank]) derived derivedRight
    simpa using (ih.levelRest l _ _ joined).here (by simp +arith)

theorem reads_operand (ih : Sound less more) (l : Level) :
    Reads (less + 1) (cost l.operandRank + 1) (operand (less + 1) l) (operand (more + 1) l)
      (ExprText l.operandRank) := by
  cases l with
  | or => exact (ih.level .and).succ
  | and => exact ih.negation.succ
  | comparison => exact (ih.level .sum).succ
  | sum => exact (ih.level .product).succ
  | product => exact ih.signed.succ

theorem reads_negation (ih : Sound less more) :
    Reads (less + 1) (cost .not) (negation (less + 1)) (negation (more + 1)) (ExprText .not) := by
  refine (Reading.look fun kind => ?_).succ
  split
  · refine (readsAt_advance (by simp)).bind ?_
    rintro _ _ ⟨mark, rfl, spelled, rfl⟩
    refine (ih.negation.here (by simp [cost])).bind fun ts e derived => Reading.pure ?_
    simpa [unary] using ExprText.not spelled derived
  · exact ((ih.level .comparison).mono fun ts e derived => .tighter rfl derived).here
      (by simp [cost, Level.rank])

theorem reads_signed (ih : Sound less more) :
    Reads (less + 1) (cost .sign) (signed (less + 1)) (signed (more + 1)) (ExprText .sign) := by
  refine (Reading.look fun kind => ?_).succ
  split
  · refine (readsAt_advance (by simp)).bind ?_
    rintro _ _ ⟨mark, rfl, spelled, rfl⟩
    refine (ih.signed.here (by simp [cost])).bind fun ts e derived => Reading.pure ?_
    simpa [unary] using ExprText.neg spelled derived
  · exact (ih.power.mono fun ts e derived => .tighter rfl derived).here (by simp [cost])

theorem reads_power (ih : Sound less more) :
    Reads (less + 1) (cost .power) (power (less + 1)) (power (more + 1)) (ExprText .power) := by
  refine (ih.primary.bind fun bs base derivedBase => ?_).succ
  refine Reading.look fun kind => ?_
  split
  · refine (readsAt_advance (by simp)).bind ?_
    rintro _ _ ⟨mark, rfl, spelled, -⟩
    refine (ih.signed.here (by simp [cost])).bind fun es exponent derived => Reading.pure ?_
    simpa [binary] using ExprText.power spelled derivedBase derived
  · exact Reading.stay (by simpa using ExprText.tighter rfl derivedBase)

theorem reads_primary (ih : Sound less more) :
    Reads (less + 1) (cost .primary) (primary (less + 1)) (primary (more + 1))
      (ExprText .primary) := by
  refine (Reading.look fun kind => ?_).succ
  split
  · rename_i value found
    obtain rfl := literal?_eq_some.1 found
    have more : literalKind value ≠ .eof := by
      cases value with
      | bool b => cases b <;> simp [literalKind]
      | _ => simp [literalKind]
    refine (readsAt_advance more).bind ?_
    rintro _ _ ⟨t, rfl, spelled, rfl⟩
    exact Reading.pure (.literal value spelled)
  · split
    · rename_i name _
      refine (readsAt_advance (by simp)).bind ?_
      rintro _ _ ⟨t, rfl, named, rfl⟩
      exact (ih.named name t named).here (by simp)
    · refine (readsAt_advance (by simp)).bind ?_
      rintro _ _ ⟨opening, rfl, opened, -⟩
      refine ((ih.level .or).here (by simp [cost, Level.rank])).bind fun ts e derived => ?_
      refine (reads_symbol _).bind ?_
      rintro _ _ ⟨closing, rfl, closed, -⟩
      exact Reading.pure (by simpa using ExprText.group opened closed derived)
    · refine (readsAt_advance (by simp)).bind ?_
      rintro _ _ ⟨opening, rfl, opened, rfl⟩
      refine ((ih.exprs .rightBracket).here (by simp)).bind fun ts items derived => ?_
      refine (reads_symbol _).bind ?_
      rintro _ _ ⟨closing, rfl, closed, rfl⟩
      exact Reading.pure (by simpa using ExprText.list opened closed derived)
    · exact Reading.unexpected (viable_exprText .primary)

theorem reads_named (ih : Sound less more) (name : String) (t : Token)
    (spelled : t.kind = .ident name) :
    Reads (less + 1) 2 (named (less + 1) ⟨name, t.span⟩) (named (more + 1) ⟨name, t.span⟩)
      fun ts e => ExprText .primary (t :: ts) e := by
  refine (Reading.look fun kind => ?_).succ
  split
  · refine (ih.arguments.here (by simp)).bind ?_
    rintro _ ⟨args, _⟩ ⟨opening, us, closing, rfl, opened, closed, derived, rfl⟩
    exact Reading.pure (by simpa using ExprText.call spelled opened closed derived)
  · refine (readsAt_advance (by simp)).bind ?_
    rintro _ _ ⟨opening, rfl, opened, -⟩
    refine ((ih.level .or).here (by simp [cost, Level.rank])).bind fun ts position derived => ?_
    refine (reads_symbol _).bind ?_
    rintro _ _ ⟨closing, rfl, closed, rfl⟩
    exact Reading.pure (by simpa using ExprText.index spelled opened closed derived)
  · exact Reading.stay (.var spelled)

theorem reads_arguments (ih : Sound less more) :
    Reads (less + 1) 1 (arguments (less + 1)) (arguments (more + 1)) ArgumentsText := by
  refine ((reads_symbol _).bind ?_).succ
  rintro _ _ ⟨opening, rfl, opened, -⟩
  refine ((ih.exprs .rightParen).here (by simp)).bind fun us args derived => ?_
  refine (reads_symbol _).bind ?_
  rintro _ _ ⟨closing, rfl, closed, rfl⟩
  exact Reading.pure ⟨opening, us, closing, by simp, opened, closed, derived, rfl⟩

theorem reads_exprs (ih : Sound less more) (closing : Symbol) :
    Reads (less + 1) 16 (exprs (less + 1) closing) (exprs (more + 1) closing) ListText := by
  refine (Reading.look fun kind => ?_).succ
  split
  · exact Reading.stay .none
  · refine ((ih.exprsFrom []).mono ?_).here (by simp)
    rintro ts _ ⟨items, rfl, derived⟩
    exact .some derived

theorem reads_exprsFrom (ih : Sound less more) (before : List Expr) :
    Reads (less + 1) 15 (exprsFrom (less + 1) before) (exprsFrom (more + 1) before) fun ts es =>
      ∃ items, es = before.reverse ++ items ∧ ItemsText ts items := by
  refine ((ih.level .or).bind fun ts item derived => ?_).succ
  refine Reading.look fun kind => ?_
  split
  · refine (readsAt_advance (by simp)).bind ?_
    rintro _ _ ⟨comma, rfl, separated, -⟩
    refine ((ih.exprsFrom (item :: before)).mono ?_).here (by simp [cost, Level.rank])
    rintro us _ ⟨items, rfl, derivedRest⟩
    exact ⟨item :: items, by simp, by simpa using ItemsText.more separated derived derivedRest⟩
  · exact Reading.stay ⟨[item], by simp, by simpa using ItemsText.one derived⟩

theorem viable_items (before : List Expr) :
    Viable (fun ts es => ∃ items, es = before.reverse ++ items ∧ ItemsText ts items) [] := by
  obtain ⟨ts, e, derived⟩ := viable_exprText .or
  exact ⟨ts, _, [e], rfl, .one derived⟩

theorem viable_arguments : Viable ArgumentsText [] :=
  ⟨[⟨.symbol .leftParen, .origin⟩, ⟨.symbol .rightParen, .origin⟩], ([], .origin), _, [], _, rfl,
    rfl, rfl, .none, rfl⟩

theorem sound (enough : less ≤ more) : Sound less more := by
  induction less generalizing more with
  | zero =>
      exact
        { level := fun l => .zero (viable_exprText _)
          levelRest := fun l ls left derived => .zero ⟨[], left, by simpa using derived⟩
          operand := fun l => .zero (viable_exprText _)
          negation := .zero (viable_exprText _)
          signed := .zero (viable_exprText _)
          power := .zero (viable_exprText _)
          primary := .zero (viable_exprText _)
          named := fun name t spelled => .zero ⟨[], _, .var spelled⟩
          arguments := .zero viable_arguments
          exprs := fun closing => .zero ⟨[], [], .none⟩
          exprsFrom := fun before => .zero (viable_items before) }
  | succ less ih =>
      obtain ⟨more, rfl⟩ := Nat.exists_eq_add_of_le' (Nat.le_trans (Nat.le_add_left 1 less) enough)
      have ih := ih (Nat.le_of_succ_le_succ enough)
      exact ⟨reads_level ih, reads_levelRest ih, reads_operand ih, reads_negation ih,
        reads_signed ih, reads_power ih, reads_primary ih, reads_named ih, reads_arguments ih,
        reads_exprs ih, reads_exprsFrom ih⟩

theorem reads_expr (enough : less ≤ more) :
    Reads less 14 (expr less) (expr more) (ExprText .or) :=
  (sound enough).level .or

def ConditionText (ts : List Token) (cond : Expr) : Prop :=
  ∃ opening cs closing, ts = opening :: cs ++ [closing] ∧
    opening.kind = .symbol .leftParen ∧ closing.kind = .symbol .rightParen ∧ ExprText .or cs cond

theorem reads_condition (enough : less ≤ more) :
    Reads less 0 (condition less) (condition more) ConditionText := by
  refine (reads_symbol _).bind ?_
  rintro _ _ ⟨opening, rfl, opened, -⟩
  refine ((reads_expr enough).here (by simp)).bind fun cs cond derived => ?_
  refine (reads_symbol _).bind ?_
  rintro _ _ ⟨closing, rfl, closed, -⟩
  exact Reading.pure ⟨opening, cs, closing, by simp, opened, closed, derived⟩

/-! ## Statements -/

theorem viable_stmtText : Viable StmtText [] :=
  ⟨[⟨.keyword .lumisan, .origin⟩, ⟨.symbol .semicolon, .origin⟩], _, .leave rfl rfl⟩

theorem viable_blockText : Viable BlockText [] :=
  ⟨[⟨.symbol .leftBrace, .origin⟩, ⟨.symbol .rightBrace, .origin⟩], _, .braces rfl rfl .nil⟩

theorem viable_choiceText : Viable ChoiceText [] := by
  obtain ⟨cs, cond, derived⟩ := viable_exprText .or
  obtain ⟨bs, body, derivedBody⟩ := viable_blockText
  exact ⟨⟨.keyword .kapag, .origin⟩ :: ⟨.symbol .leftParen, .origin⟩ :: cs ++
    ⟨.symbol .rightParen, .origin⟩ :: bs, _, .alone rfl rfl rfl derived derivedBody⟩

theorem reads_nameStmt (enough : less ≤ more) :
    Reads less 0 (nameStmt less) (nameStmt more) StmtText := by
  refine reads_identifier.bind ?_
  rintro _ ⟨name, _⟩ ⟨t, rfl, named, equal⟩
  obtain rfl := (Name.mk.inj equal).2
  refine Reading.look fun kind => ?_
  split
  · refine ((sound enough).arguments.here (by simp)).bind ?_
    rintro _ ⟨args, _⟩ ⟨opening, us, closing, rfl, opened, closed, derived, -⟩
    refine (reads_symbol _).bind ?_
    rintro _ _ ⟨stop, rfl, ended, rfl⟩
    exact Reading.pure (by simpa using StmtText.call named opened closed ended derived)
  · split
    · rename_i equals
      subst equals
      refine (readsAt_advance (by simp)).bind ?_
      rintro _ _ ⟨mark, rfl, spelled, -⟩
      refine ((reads_expr enough).here (by simp)).bind fun ts e derived => ?_
      refine (reads_symbol _).bind ?_
      rintro _ _ ⟨stop, rfl, ended, rfl⟩
      exact Reading.pure (by simpa using StmtText.assign named spelled ended derived)
    · split
      · rename_i op found
        obtain ⟨symbol, compound, rfl⟩ := updateOperator?_eq_some.1 found
        refine (readsAt_advance (by simp)).bind ?_
        rintro _ _ ⟨mark, rfl, spelled, -⟩
        refine ((reads_expr enough).here (by simp)).bind fun ts e derived => ?_
        refine (reads_symbol _).bind ?_
        rintro _ _ ⟨stop, rfl, ended, rfl⟩
        exact Reading.pure (by simpa using StmtText.update op named compound spelled ended derived)
      · obtain ⟨ts, e, derived⟩ := viable_exprText .or
        exact Reading.unexpected
          ⟨⟨.symbol .equal, .origin⟩ :: ts ++ [⟨.symbol .semicolon, .origin⟩], _,
            .assign named rfl rfl derived⟩

theorem readsAt_printStmt (enough : less ≤ more) :
    ReadsAt (.keyword .ilimbag) less need (printStmt less) (printStmt more) StmtText := by
  refine (readsAt_advance (by simp)).bind ?_
  rintro _ _ ⟨first, rfl, spelled, rfl⟩
  refine ((sound enough).arguments.here (by simp)).bind ?_
  rintro _ ⟨args, _⟩ ⟨opening, us, closing, rfl, opened, closed, derived, -⟩
  refine (reads_symbol _).bind ?_
  rintro _ _ ⟨stop, rfl, ended, rfl⟩
  exact Reading.pure (by simpa using StmtText.print spelled opened closed ended derived)

theorem readsAt_leaveStmt :
    ReadsAt (.keyword .lumisan) fuel need leaveStmt leaveStmt StmtText := by
  refine (readsAt_advance (by simp)).bind ?_
  rintro _ _ ⟨first, rfl, spelled, rfl⟩
  refine (reads_symbol _).bind ?_
  rintro _ _ ⟨stop, rfl, ended, rfl⟩
  exact Reading.pure (.leave spelled ended)

structure SoundStmts (less more : Nat) : Prop where
  stmt : Reads less 2 (stmt less) (stmt more) StmtText
  choice : Reads less 1 (choice less) (choice more) ChoiceText
  block : Reads less 1 (block less) (block more) BlockText
  blockStmts : ∀ before, ReadsUpTo (.symbol .rightBrace) less 3 (blockStmts less before)
    (blockStmts more before) fun ts stmts =>
      ∃ next, stmts = before.reverse ++ next ∧ StmtsText ts next

theorem run_inside_of_ok {c c' : Cursor} {a : α} (brace : Span) (run : x.run c = .ok a c') :
    (inside brace x).run c = .ok a c' := by
  simp only [EStateM.run] at run
  simp only [EStateM.run, Parser.inside, run]

theorem run_inside_of_error {c c' : Cursor} {failure : SyntaxFailure} (brace : Span)
    (run : x.run c = .error failure c') :
    (inside brace x).run c = .error (failure.within brace) c' := by
  simp only [EStateM.run] at run
  simp only [EStateM.run, Parser.inside, run]

theorem Gives.inside {passed ts : List Token} {t : Token} {a : α} (brace : Span)
    (runs : Gives x passed ts t (.ok a)) : Gives (inside brace x) passed ts t (.ok a) :=
  fun rest => run_inside_of_ok brace (runs rest)

theorem Gives.inside_error {passed ts : List Token} {t : Token} {failure : SyntaxFailure}
    (brace : Span) (runs : Gives x passed ts t (.error failure)) :
    Gives (Parser.inside brace x) passed ts t (.error (failure.within brace)) :=
  fun rest => run_inside_of_error brace (runs rest)

theorem found_within (brace : Span) (failure : SyntaxFailure) :
    (failure.within brace).found = failure.found := by
  unfold SyntaxFailure.within
  split <;> rfl

theorem Reading.inside {brace : Span} (reads : Reading K S fuel need x y P) :
    Reading K S fuel need (inside brace x) (inside brace y) P := by
  refine ⟨reads.viable, ?_⟩
  intro passed t left start ends ample
  obtain ⟨ts, u, rest, split, ends', outcome⟩ := reads.settled passed t left start ends ample
  refine ⟨ts, u, rest, split, ends', ?_⟩
  rcases outcome with ⟨a, stop, holds, runX, runY⟩ | ⟨failure, found, viable, runX, runY⟩
  · exact .inl ⟨a, stop, holds, runX.inside brace, runY.inside brace⟩
  · exact .inr ⟨failure.within brace, by rw [found_within, found], viable, runX.inside_error brace,
      runY.inside_error brace⟩

theorem reads_choice (enough : less ≤ more) (ih : SoundStmts less more) :
    Reads (less + 1) 1 (choice (less + 1)) (choice (more + 1)) ChoiceText := by
  refine ((reads_keyword _).bind ?_).succ
  rintro _ _ ⟨first, rfl, spelled, -⟩
  refine ((reads_condition enough).here (by simp)).bind ?_
  rintro _ cond ⟨opening, cs, closing, rfl, opened, closed, derived⟩
  refine (ih.block.here (by simp; omega)).bind fun bs body derivedBody => ?_
  refine Reading.look fun kind => ?_
  split
  · refine (readsAt_advance (by simp)).bind ?_
    rintro _ _ ⟨mark, rfl, marked, -⟩
    refine (ih.block.here (by simp)).bind fun os other derivedOther => Reading.pure ?_
    simpa using ChoiceText.otherwise spelled opened closed marked derived derivedBody derivedOther
  · refine (readsAt_advance (by simp)).bind ?_
    rintro _ _ ⟨mark, rfl, marked, -⟩
    refine (ih.choice.here (by simp)).bind fun os other derivedOther => Reading.pure ?_
    simpa using ChoiceText.further spelled opened closed marked derived derivedBody derivedOther
  · exact Reading.stay (by simpa using ChoiceText.alone spelled opened closed derived derivedBody)

theorem reads_block (ih : SoundStmts less more) :
    Reads (less + 1) 1 (block (less + 1)) (block (more + 1)) BlockText := by
  refine ((reads_symbol _).bind ?_).succ
  rintro _ _ ⟨opening, rfl, opened, rfl⟩
  refine ((ih.blockStmts []).inside.here (by simp)).bind ?_
  rintro ts _ ⟨stmts, rfl, derived⟩
  refine (readsAt_advance (by simp)).bind ?_
  rintro _ _ ⟨closing, rfl, closed, rfl⟩
  exact Reading.pure (by simpa using BlockText.braces opened closed derived)

theorem length_stmtText_pos {ts : List Token} {s : Stmt} (derived : StmtText ts s) :
    0 < ts.length := by
  cases derived <;> simp

theorem reads_blockStmts (ih : SoundStmts less more) (before : List Stmt) :
    ReadsUpTo (.symbol .rightBrace) (less + 1) 3 (blockStmts (less + 1) before)
      (blockStmts (more + 1) before) fun ts stmts =>
        ∃ next, stmts = before.reverse ++ next ∧ StmtsText ts next := by
  refine (Reading.look fun kind => ?_).succ
  split
  · exact Reading.pure ⟨[], by simp, .nil⟩
  · exact Reading.unexpected ⟨[], before.reverse, [], by simp, .nil⟩
  · refine (ih.stmt.here (by simp)).bind fun us next derived => ?_
    have consumed := length_stmtText_pos derived
    refine ((ih.blockStmts (next :: before)).mono ?_).here (by omega)
    rintro vs _ ⟨rest, rfl, derivedRest⟩
    exact ⟨next :: rest, by simp, .cons derived derivedRest⟩

theorem Gives.span {h : Span → Rule α} {passed ts ws : List Token} {t u : Token}
    {answer : Cursor → EStateM.Result SyntaxFailure Cursor α}
    (runs : Gives (h t.span) passed ts u answer) (front : ts ++ [u] = t :: ws) :
    Gives (get >>= fun c => h c.span) passed ts u answer := by
  intro rest
  have behind : ts ++ u :: rest = t :: (ws ++ rest) := by
    rw [← List.cons_append, ← front]
    simp
  rw [run_bind_of_ok (EStateM.run_get _), behind, span_between, ← behind, runs rest]

def chooseFrom (fuel : Nat) (start : Span) : Rule Stmt := do
  let choice ← choice fuel
  return .choose choice (start.merge (← get).previousSpan)

theorem Gives.choose {passed us : List Token} {last u : Token} {start : Span} {fuel : Nat}
    {alternatives : Choice} (runs : Gives (choice fuel) passed (us ++ [last]) u (.ok alternatives)) :
    Gives (chooseFrom fuel start) passed (us ++ [last]) u
      (.ok (.choose alternatives (start.merge last.span))) := by
  intro rest
  unfold chooseFrom
  rw [run_bind_of_ok (runs rest), run_bind_of_ok (EStateM.run_get _), ← List.append_assoc,
    previousSpan_concat]
  rfl

theorem readsAt_choose (ih : SoundStmts less more) :
    ReadsAt (.keyword .kapag) less 1 (get >>= fun c => chooseFrom less c.span)
      (get >>= fun c => chooseFrom more c.span) StmtText := by
  refine ⟨viable_stmtText, ?_⟩
  intro passed t left _ ends ample
  obtain ⟨ts, u, rest, split, ends', outcome⟩ := ih.choice.settled passed t left trivial ends ample
  obtain ⟨ws, front⟩ := exists_front split
  refine ⟨ts, u, rest, split, ends', ?_⟩
  rcases outcome with ⟨alternatives, _, derived, runX, runY⟩ |
    ⟨failure, found, ⟨after, alternatives, derived⟩, runX, runY⟩
  · -- The first token of the choice is the one whose span was taken.
    obtain ⟨first, us, last, rfl, -⟩ := derived.exists_concat
    obtain rfl := List.head_eq_of_cons_eq front
    exact .inl ⟨_, trivial, .choose derived, runX.choose.span front, runY.choose.span front⟩
  · obtain ⟨first, us, last, equal, -⟩ := derived.exists_concat
    have viable : Viable StmtText ts := by
      refine ⟨after, .choose alternatives (first.span.merge last.span), ?_⟩
      rw [equal] at derived ⊢
      exact .choose derived
    have fails {fuel : Nat} (run : Gives (choice fuel) passed ts u (.error failure)) :
        Gives (chooseFrom fuel t.span) passed ts u (.error failure) := run.bind_error
    exact .inr ⟨failure, found, viable, (fails runX).span front, (fails runY).span front⟩

theorem reads_stmt (enough : less ≤ more) (ih : SoundStmts less more) :
    Reads (less + 1) 2 (stmt (less + 1)) (stmt (more + 1)) StmtText := by
  refine (Reading.look fun kind => ?_).succ
  split
  · exact (reads_nameStmt enough).here (by simp)
  · exact readsAt_choose ih
  · refine (readsAt_advance (by simp)).bind ?_
    rintro _ _ ⟨first, rfl, spelled, rfl⟩
    refine ((reads_condition enough).here (by simp)).bind ?_
    rintro _ cond ⟨opening, cs, closing, rfl, opened, closed, derived⟩
    refine (ih.block.here (by simp; omega)).bind fun bs body derivedBody => Reading.pure ?_
    simpa using StmtText.repeatWhile spelled opened closed derived derivedBody
  · refine (readsAt_advance (by simp)).bind ?_
    rintro _ _ ⟨first, rfl, spelled, rfl⟩
    refine (reads_keyword _).bind ?_
    rintro _ _ ⟨each, rfl, eachSpelled, -⟩
    refine reads_identifier.bind ?_
    rintro _ ⟨name, _⟩ ⟨t, rfl, named, equal⟩
    obtain rfl := (Name.mk.inj equal).2
    refine (reads_keyword _).bind ?_
    rintro _ _ ⟨within, rfl, withinSpelled, -⟩
    refine (reads_symbol _).bind ?_
    rintro _ _ ⟨opening, rfl, opened, -⟩
    refine ((reads_expr enough).here (by simp)).bind fun fs lower derivedLower => ?_
    refine (reads_symbol _).bind ?_
    rintro _ _ ⟨colon, rfl, divided, -⟩
    refine ((reads_expr enough).here (by simp)).bind fun ls upper derivedUpper => ?_
    refine (reads_symbol _).bind ?_
    rintro _ _ ⟨closing, rfl, closed, -⟩
    refine (ih.block.here (by simp)).bind fun bs body derivedBody => Reading.pure ?_
    simpa using StmtText.forEach spelled eachSpelled named withinSpelled opened divided closed
      derivedLower derivedUpper derivedBody
  · exact readsAt_printStmt enough
  · exact readsAt_leaveStmt
  · exact Reading.unexpected viable_stmtText

theorem soundStmts (enough : less ≤ more) : SoundStmts less more := by
  induction less generalizing more with
  | zero =>
      exact ⟨.zero viable_stmtText, .zero viable_choiceText, .zero viable_blockText,
        fun before => .zero ⟨[], before.reverse, [], by simp, .nil⟩⟩
  | succ less ih =>
      obtain ⟨more, rfl⟩ := Nat.exists_eq_add_of_le' (Nat.le_trans (Nat.le_add_left 1 less) enough)
      have enough := Nat.le_of_succ_le_succ enough
      have ih := ih enough
      exact ⟨reads_stmt enough ih, reads_choice enough ih, reads_block ih, reads_blockStmts ih⟩

/-! ## Programs -/

theorem readsUpTo_programFrom (enough : less ≤ more) (before : List Stmt) :
    ReadsUpTo .eof less 3 (programFrom less before) (programFrom more before) fun ts program =>
      ∃ next, program = before.reverse ++ next ∧ ProgramText ts next := by
  induction less generalizing more before with
  | zero => exact .zero ⟨[], before.reverse, [], by simp, .nil⟩
  | succ less ih =>
      obtain ⟨more, rfl⟩ := Nat.exists_eq_add_of_le' (Nat.le_trans (Nat.le_add_left 1 less) enough)
      have enough := Nat.le_of_succ_le_succ enough
      refine (Reading.look fun kind => ?_).succ
      split
      · exact Reading.pure ⟨[], by simp, .nil⟩
      · refine ((soundStmts enough).stmt.here (by simp)).bind fun us next derived => ?_
        have consumed := length_stmtText_pos derived
        refine ((ih enough (next :: before)).mono ?_).here (by omega)
        rintro vs _ ⟨rest, rfl, derivedRest⟩
        exact ⟨next :: rest, by simp, .cons derived derivedRest⟩

end Salita.Parser
