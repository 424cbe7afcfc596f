import Salita.Proofs.Syntax.Exactness
import Salita.Proofs.Syntax.Operations
import Salita.Proofs.Syntax.Recursion

/-!
# The parser moves on and comes to an end

A rule that succeeds has passed tokens, unless it reads what may be empty, and one that fails stands
at the token it reports. From a call of a rule to the next one of the same rule inside it a token is
passed, so calls nest no deeper than the tokens left allow.

`Follows` says both of a rule `y`: how it moves on, and that another rule `x` does the same where
fuel is ample. With `x` from a recursion that ends in any rules at all, this means that the
recursion does not get there. `following_body` goes from the calls of a rule to the rule, and
`parse_progress` puts the statements together.
-/

namespace Salita.Parser
open Cursor Grammar

variable {α β : Type}

/-- The rule passes at least so many tokens and stops at another one, or it fails and reports the
token at which it has stopped. -/
def Moves (least : Nat) (y : Rule α) (passed left : List Token) : Prop :=
  ∃ ts t rest, left = ts ++ t :: rest ∧ Ends (t :: rest) ∧
    ((∃ a, least ≤ ts.length ∧
        y.run (between passed left) = .ok a (between (passed ++ ts) (t :: rest))) ∨
      ∃ failure : SyntaxFailure, failure.found = t ∧
        y.run (between passed left) = .error failure (between (passed ++ ts) (t :: rest)))

/-- At a token that `K` allows, the rule `y` moves on by at least so many tokens or fails, and `x`
does the same if the fuel is ample. -/
structure Follows (K : TokenKind → Prop) (fuel need least : Nat) (x y : Rule α) : Prop where
  moves : ∀ passed t left, K t.kind → Ends (t :: left) → Moves least y passed (t :: left)
  same : ∀ passed t left, K t.kind → Ends (t :: left) → Ample fuel need (t :: left) →
    x.run (between passed (t :: left)) = y.run (between passed (t :: left))

variable {x y : Rule α} {f g : α → Rule β} {K : TokenKind → Prop} {kind : TokenKind}
  {fuel need need' least least' : Nat}

theorem Moves.fewer {passed left : List Token} (moves : Moves least y passed left)
    (fewer : least' ≤ least) : Moves least' y passed left := by
  obtain ⟨ts, t, rest, split, ends, outcome⟩ := moves
  refine ⟨ts, t, rest, split, ends, ?_⟩
  rcases outcome with ⟨a, more, run⟩ | failed
  · exact .inl ⟨a, Nat.le_trans fewer more, run⟩
  · exact .inr failed

theorem Moves.of_run_eq {passed left : List Token} (moves : Moves least y passed left)
    (same : x.run (between passed left) = y.run (between passed left)) :
    Moves least x passed left := by
  unfold Moves
  rw [same]
  exact moves

theorem Follows.here (follows : Follows anyKind fuel need least x y) (cheaper : need ≤ need')
    (fewer : least' ≤ least) : Follows K fuel need' least' x y := by
  constructor
  · intro passed t left _ ends
    exact (follows.moves passed t left trivial ends).fewer fewer
  · intro passed t left _ ends ample
    exact follows.same passed t left trivial ends (by unfold Ample at ample ⊢; omega)

theorem Follows.succ (follows : Follows K fuel need least x y) :
    Follows K (fuel + 1) (need + 1) least x y := by
  refine ⟨follows.moves, ?_⟩
  intro passed t left start ends ample
  exact follows.same passed t left start ends (by unfold Ample at ample ⊢; omega)

theorem Follows.pure (a : α) : Follows K fuel need 0 (Pure.pure a) (Pure.pure a) := by
  refine ⟨?_, fun passed t left _ _ _ => rfl⟩
  intro passed t left _ ends
  exact ⟨[], t, left, rfl, ends, .inl ⟨a, Nat.le_refl 0, by simp⟩⟩

theorem Moves.unexpected {passed left : List Token} (expected : Expected) (ends : Ends left) :
    Moves least (unexpected expected : Rule α) passed left := by
  obtain ⟨t, rest, rfl⟩ := ends.exists_cons
  refine ⟨[], t, rest, rfl, ends, .inr ⟨⟨t, expected, none⟩, rfl, ?_⟩⟩
  rw [run_unexpected]
  simp

theorem Follows.unexpected (expected : Expected) :
    Follows K fuel need least (unexpected expected : Rule α) (unexpected expected) :=
  ⟨fun _ _ _ _ ends => Moves.unexpected expected ends, fun _ _ _ _ _ _ => rfl⟩

/-- Without fuel there is enough for no token, so any rule will do. -/
theorem Follows.zero (x : Rule α) (expected : Expected) :
    Follows K 0 need least x (Parser.unexpected expected) := by
  refine ⟨fun _ _ _ _ ends => Moves.unexpected expected ends, ?_⟩
  intro passed t left _ _ ample
  simp [Ample] at ample

/-- The tokens that the first rule has passed leave the next one more fuel to need. -/
theorem Follows.bind (first : Follows K fuel need least' x y)
    (next : ∀ a, Follows anyKind fuel (need + 20 * least') (least - least') (f a) (g a)) :
    Follows K fuel need least (x >>= f) (y >>= g) := by
  constructor
  · intro passed t left start ends
    obtain ⟨ts, u, rest, split, ends₁, outcome⟩ := first.moves passed t left start ends
    rcases outcome with ⟨a, more, run⟩ | ⟨failure, found, run⟩
    · obtain ⟨us, v, rest', split', ends₂, outcome⟩ :=
        (next a).moves (passed ++ ts) u rest trivial ends₁
      refine ⟨ts ++ us, v, rest', by rw [split, split', List.append_assoc], ends₂, ?_⟩
      rw [run_bind_of_ok run, ← List.append_assoc]
      rcases outcome with ⟨b, more', run'⟩ | failed
      · exact .inl ⟨b, by rw [List.length_append]; omega, run'⟩
      · exact .inr failed
    · refine ⟨ts, u, rest, split, ends₁, .inr ⟨failure, found, ?_⟩⟩
      rw [EStateM.run_bind, run]
  · intro passed t left start ends ample
    obtain ⟨ts, u, rest, split, ends₁, outcome⟩ := first.moves passed t left start ends
    rw [EStateM.run_bind, EStateM.run_bind, first.same passed t left start ends ample]
    rcases outcome with ⟨a, more, run⟩ | ⟨failure, found, run⟩
    · rw [run]
      refine (next a).same (passed ++ ts) u rest trivial ends₁ ?_
      unfold Ample at ample ⊢
      rw [split, List.length_append] at ample
      omega
    · rw [run]

theorem Follows.look {f g : TokenKind → Rule β}
    (next : ∀ kind, Follows (· = kind) fuel need least (f kind) (g kind)) :
    Follows K fuel need least (currentKind >>= f) (currentKind >>= g) := by
  constructor
  · intro passed t left _ ends
    have moves := (next t.kind).moves passed t left rfl ends
    exact moves.of_run_eq (run_bind_of_ok currentKind_between)
  · intro passed t left _ ends ample
    rw [run_bind_of_ok currentKind_between, run_bind_of_ok currentKind_between]
    exact (next t.kind).same passed t left rfl ends ample

theorem Follows.get {f g : Cursor → Rule β}
    (next : ∀ c, Follows K fuel need least (f c) (g c)) :
    Follows K fuel need least (get >>= f) (get >>= g) := by
  constructor
  · intro passed t left start ends
    exact ((next _).moves passed t left start ends).of_run_eq (run_bind_of_ok (EStateM.run_get _))
  · intro passed t left start ends ample
    rw [run_bind_of_ok (EStateM.run_get _), run_bind_of_ok (EStateM.run_get _)]
    exact (next _).same passed t left start ends ample

theorem Follows.inside (brace : Span) (follows : Follows K fuel need least x y) :
    Follows K fuel need least (inside brace x) (inside brace y) := by
  constructor
  · intro passed t left start ends
    obtain ⟨ts, u, rest, split, ends', outcome⟩ := follows.moves passed t left start ends
    refine ⟨ts, u, rest, split, ends', ?_⟩
    rcases outcome with ⟨a, more, run⟩ | ⟨failure, found, run⟩
    · exact .inl ⟨a, more, run_inside_of_ok brace run⟩
    · exact .inr ⟨failure.within brace, by rw [found_within, found], run_inside_of_error brace run⟩
  · intro passed t left start ends ample
    have same := follows.same passed t left start ends ample
    simp only [EStateM.run, Parser.inside] at same ⊢
    rw [same]

/-! ## One token -/

theorem follows_advance (more : kind ≠ .eof) :
    Follows (· = kind) fuel need 1 advance advance := by
  refine ⟨?_, fun passed t left _ _ _ => rfl⟩
  intro passed t left here ends
  have inner : t.kind ≠ .eof := by rw [here]; exact more
  obtain ⟨u, rest, rfl⟩ := (ends.tail inner).exists_cons
  exact ⟨[t], u, rest, rfl, ends.tail inner, .inl ⟨t.span, Nat.le_refl 1, advance_between inner⟩⟩

theorem follows_advance_any : Follows K fuel need 0 advance advance := by
  refine ⟨?_, fun passed t left _ _ _ => rfl⟩
  intro passed t left _ ends
  by_cases last : t.kind = .eof
  · have atEnd : (between passed (t :: left)).isAtEnd = true := by simp [isAtEnd, last]
    refine ⟨[], t, left, rfl, ends, .inl ⟨t.span, Nat.le_refl 0, ?_⟩⟩
    simp [advance, EStateM.run, advance_of_isAtEnd atEnd]
  · have follows : Follows (· = t.kind) fuel need 1 advance advance := follows_advance last
    exact (follows.moves passed t left rfl ends).fewer (Nat.zero_le 1)

theorem follows_token {expected : Expected}
    (fixed : (∃ mark, kind = .symbol mark) ∨ ∃ word, kind = .keyword word) :
    Follows K fuel need 1 (token kind expected) (token kind expected) := by
  have more : kind ≠ .eof := by obtain ⟨mark, rfl⟩ | ⟨word, rfl⟩ := fixed <;> simp
  refine Follows.look fun current => ?_
  split
  case isTrue same =>
    rw [(sameKind_iff fixed).1 same]
    exact follows_advance more
  case isFalse => exact Follows.unexpected expected

theorem follows_symbol (mark : Symbol) :
    Follows K fuel need 1 (symbol mark) (symbol mark) :=
  follows_token (.inl ⟨mark, rfl⟩)

theorem follows_keyword (word : Keyword) :
    Follows K fuel need 1 (keyword word) (keyword word) :=
  follows_token (.inr ⟨word, rfl⟩)

theorem follows_identifier : Follows K fuel need 1 identifier identifier := by
  refine Follows.look fun kind => ?_
  split
  case h_1 text => exact (follows_advance (by simp)).bind fun span => Follows.pure _
  case h_2 => exact Follows.unexpected _

/-! ## Expressions -/

/-- The rules `s` move on, and with ample fuel the rules `r` do the same. What a rule needs is how
deep calls nest in it before a token is passed. -/
structure Following (fuel : Nat) (r s : Rules) : Prop where
  level : ∀ l : Level, Follows anyKind fuel (cost l.rank) 1 (r.level l) (s.level l)
  levelRest : ∀ l left, Follows anyKind fuel 1 0 (r.levelRest l left) (s.levelRest l left)
  operand : ∀ l : Level,
    Follows anyKind fuel (cost l.operandRank + 1) 1 (r.operand l) (s.operand l)
  negation : Follows anyKind fuel (cost .not) 1 r.negation s.negation
  signed : Follows anyKind fuel (cost .sign) 1 r.signed s.signed
  power : Follows anyKind fuel (cost .power) 1 r.power s.power
  primary : Follows anyKind fuel (cost .primary) 1 r.primary s.primary
  named : ∀ name, Follows anyKind fuel 2 0 (r.named name) (s.named name)
  arguments : Follows anyKind fuel 1 2 r.arguments s.arguments
  exprs : ∀ closing, Follows anyKind fuel 16 0 (r.exprs closing) (s.exprs closing)
  exprsFrom : ∀ before, Follows anyKind fuel 15 1 (r.exprsFrom before) (s.exprsFrom before)
  stmt : Follows anyKind fuel 2 1 r.stmt s.stmt
  choice : Follows anyKind fuel 1 1 r.choice s.choice
  block : Follows anyKind fuel 1 1 r.block s.block
  blockStmts : ∀ before, Follows anyKind fuel 3 0 (r.blockStmts before) (s.blockStmts before)
  programFrom : ∀ before, Follows anyKind fuel 3 0 (r.programFrom before) (s.programFrom before)

variable {r s : Rules}

theorem cost_le (r : Rank) : cost r ≤ 14 := by
  cases r <;> decide

theorem follows_level (ih : Following fuel r s) (l : Level) :
    Follows anyKind (fuel + 1) (cost l.rank) 1 (r.body.level l) (s.body.level l) := by
  have following : Follows anyKind fuel (cost l.operandRank + 1) 1 (r.body.level l)
      (s.body.level l) :=
    (ih.operand l).bind fun left => (ih.levelRest l left).here (by omega) (Nat.le_refl 0)
  exact following.succ.here (cost_operandRank l) (Nat.le_refl 1)

theorem follows_levelRest (ih : Following fuel r s) (l : Level) (left : Expr) :
    Follows anyKind (fuel + 1) 1 0 (r.body.levelRest l left) (s.body.levelRest l left) := by
  refine (Follows.look fun kind => ?_).succ
  split
  case h_1 => exact Follows.pure left
  case h_2 op found =>
    have more : kind ≠ .eof := by
      rw [(Level.operator?_eq_some.1 found).2.2]
      cases op <;> simp [operatorKind]
    have cheap := cost_le l.operandRank
    refine (follows_advance more).bind fun _ => ?_
    refine ((ih.operand l).here (by omega) (Nat.le_refl 1)).bind fun right => ?_
    exact (ih.levelRest l _).here (by omega) (Nat.le_refl 0)

theorem follows_operand (ih : Following fuel r s) (l : Level) :
    Follows anyKind (fuel + 1) (cost l.operandRank + 1) 1 (r.body.operand l)
      (s.body.operand l) := by
  cases l with
  | or => exact (ih.level .and).succ
  | and => exact ih.negation.succ
  | comparison => exact (ih.level .sum).succ
  | sum => exact (ih.level .product).succ
  | product => exact ih.signed.succ

theorem follows_negation (ih : Following fuel r s) :
    Follows anyKind (fuel + 1) (cost .not) 1 r.body.negation s.body.negation := by
  refine (Follows.look fun kind => ?_).succ
  split
  case h_1 =>
    refine (follows_advance (by simp)).bind fun start => ?_
    exact (ih.negation.here (by decide) (Nat.le_refl 1)).bind fun operand => Follows.pure _
  case h_2 => exact (ih.level .comparison).here (by decide) (Nat.le_refl 1)

theorem follows_signed (ih : Following fuel r s) :
    Follows anyKind (fuel + 1) (cost .sign) 1 r.body.signed s.body.signed := by
  refine (Follows.look fun kind => ?_).succ
  split
  case h_1 =>
    refine (follows_advance (by simp)).bind fun start => ?_
    exact (ih.signed.here (by decide) (Nat.le_refl 1)).bind fun operand => Follows.pure _
  case h_2 => exact ih.power.here (by decide) (Nat.le_refl 1)

theorem follows_power (ih : Following fuel r s) :
    Follows anyKind (fuel + 1) (cost .power) 1 r.body.power s.body.power := by
  refine (ih.primary.bind fun base => Follows.look fun kind => ?_).succ
  split
  case h_1 =>
    refine (follows_advance (by simp)).bind fun _ => ?_
    exact (ih.signed.here (by decide) (Nat.le_refl 1)).bind fun exponent => Follows.pure _
  case h_2 => exact Follows.pure base

theorem follows_primary (ih : Following fuel r s) :
    Follows anyKind (fuel + 1) (cost .primary) 1 r.body.primary s.body.primary := by
  refine (Follows.look fun kind => ?_).succ
  split
  case h_1 value found =>
    have more : kind ≠ .eof := by
      rintro rfl
      cases found
    exact (follows_advance more).bind fun span => Follows.pure _
  case h_2 =>
    split
    case h_1 _ text _ =>
      refine (follows_advance (by simp)).bind fun span => ?_
      exact (ih.named ⟨text, span⟩).here (by decide) (Nat.le_refl 0)
    case h_2 =>
      refine (follows_advance (by simp)).bind fun _ => ?_
      refine ((ih.level .or).here (by decide) (Nat.le_refl 1)).bind fun inner => ?_
      exact (follows_symbol .rightParen).bind fun _ => Follows.pure inner
    case h_3 =>
      refine (follows_advance (by simp)).bind fun start => ?_
      refine ((ih.exprs .rightBracket).here (by decide) (Nat.le_refl 0)).bind fun items => ?_
      exact (follows_symbol .rightBracket).bind fun stop => Follows.pure _
    case h_4 => exact Follows.unexpected _

theorem follows_named (ih : Following fuel r s) (name : Name) :
    Follows anyKind (fuel + 1) 2 0 (r.body.named name) (s.body.named name) := by
  refine (Follows.look fun kind => ?_).succ
  split
  case h_1 =>
    exact (ih.arguments.here (by decide) (Nat.le_refl 2)).bind fun result => Follows.pure _
  case h_2 =>
    refine (follows_advance (by simp)).bind fun _ => ?_
    refine ((ih.level .or).here (by decide) (Nat.le_refl 1)).bind fun position => ?_
    exact (follows_symbol .rightBracket).bind fun stop => Follows.pure _
  case h_3 => exact Follows.pure _

theorem follows_arguments (ih : Following fuel r s) :
    Follows anyKind (fuel + 1) 1 2 r.body.arguments s.body.arguments := by
  refine ((follows_symbol .leftParen).bind fun _ => ?_).succ
  refine ((ih.exprs .rightParen).here (by decide) (Nat.le_refl 0)).bind fun args => ?_
  exact (follows_symbol .rightParen).bind fun stop => Follows.pure _

theorem follows_exprs (ih : Following fuel r s) (closing : Symbol) :
    Follows anyKind (fuel + 1) 16 0 (r.body.exprs closing) (s.body.exprs closing) := by
  refine (Follows.look fun kind => ?_).succ
  split
  case isTrue => exact Follows.pure []
  case isFalse => exact (ih.exprsFrom []).here (by decide) (by decide)

theorem follows_exprsFrom (ih : Following fuel r s) (before : List Expr) :
    Follows anyKind (fuel + 1) 15 1 (r.body.exprsFrom before) (s.body.exprsFrom before) := by
  refine ((ih.level .or).bind fun item => Follows.look fun kind => ?_).succ
  split
  case h_1 =>
    refine (follows_advance (by simp)).bind fun _ => ?_
    exact (ih.exprsFrom (item :: before)).here (by decide) (by decide)
  case h_2 => exact Follows.pure _

/-! ## Statements -/

theorem follows_condition (ih : Following fuel r s) :
    Follows anyKind fuel need 1 r.condition s.condition := by
  refine (follows_symbol .leftParen).bind fun _ => ?_
  refine ((ih.level .or).here (by simp [cost, Level.rank]) (Nat.le_refl 1)).bind fun cond => ?_
  exact (follows_symbol .rightParen).bind fun _ => Follows.pure cond

theorem follows_ended (statement : Span → Stmt) :
    Follows anyKind fuel need 0 (symbol .semicolon >>= fun stop => pure (statement stop))
      (symbol .semicolon >>= fun stop => pure (statement stop)) :=
  (follows_symbol .semicolon).bind fun stop => Follows.pure (statement stop)

theorem follows_nameStmt (ih : Following fuel r s) :
    Follows anyKind fuel need 1 r.nameStmt s.nameStmt := by
  refine follows_identifier.bind fun name => Follows.look fun kind => ?_
  split
  case isTrue =>
    exact (ih.arguments.here (by omega) (Nat.zero_le 2)).bind fun result => follows_ended _
  case isFalse =>
    split
    case isTrue equals =>
      subst equals
      refine (follows_advance (by simp)).bind fun _ => ?_
      exact ((ih.level .or).here (by simp [cost, Level.rank]) (Nat.le_refl 1)).bind
        fun value => follows_ended _
    case isFalse =>
      split
      case h_1 op found =>
        obtain ⟨mark, -, rfl⟩ := updateOperator?_eq_some.1 found
        refine (follows_advance (by simp)).bind fun _ => ?_
        exact ((ih.level .or).here (by simp [cost, Level.rank]) (Nat.le_refl 1)).bind
          fun value => follows_ended _
      case h_2 => exact Follows.unexpected _

theorem follows_printStmt (ih : Following fuel r s) :
    Follows (· = .keyword .ilimbag) fuel need 1 r.printStmt s.printStmt := by
  refine (follows_advance (by simp)).bind fun start => ?_
  exact (ih.arguments.here (by omega) (Nat.zero_le 2)).bind fun result => follows_ended _

theorem follows_leaveStmt : Follows (· = .keyword .lumisan) fuel need 1 leaveStmt leaveStmt :=
  (follows_advance (by simp)).bind fun _ => follows_ended _

theorem follows_stmt (ih : Following fuel r s) :
    Follows anyKind (fuel + 1) 2 1 r.body.stmt s.body.stmt := by
  refine (Follows.look fun kind => ?_).succ
  split
  case h_1 => exact (follows_nameStmt ih).here (Nat.le_refl 1) (Nat.le_refl 1)
  case h_2 =>
    refine Follows.get fun c => ?_
    exact (ih.choice.here (Nat.le_refl 1) (Nat.le_refl 1)).bind fun choice =>
      Follows.get fun behind => Follows.pure _
  case h_3 =>
    refine (follows_advance (by simp)).bind fun start => ?_
    refine (follows_condition ih).bind fun cond => ?_
    exact (ih.block.here (by decide) (Nat.zero_le 1)).bind fun body => Follows.pure _
  case h_4 =>
    refine (follows_advance (by simp)).bind fun start => ?_
    refine (follows_keyword .bawat).bind fun _ => follows_identifier.bind fun name => ?_
    refine (follows_keyword .sa).bind fun _ => (follows_symbol .leftBracket).bind fun _ => ?_
    refine ((ih.level .or).here (by decide) (Nat.zero_le 1)).bind fun first => ?_
    refine (follows_symbol .colon).bind fun _ => ?_
    refine ((ih.level .or).here (by decide) (Nat.zero_le 1)).bind fun last => ?_
    refine (follows_symbol .rightBracket).bind fun _ => ?_
    exact (ih.block.here (by decide) (Nat.zero_le 1)).bind fun body => Follows.pure _
  case h_5 => exact follows_printStmt ih
  case h_6 => exact follows_leaveStmt
  case h_7 => exact Follows.unexpected _

theorem follows_choice (ih : Following fuel r s) :
    Follows anyKind (fuel + 1) 1 1 r.body.choice s.body.choice := by
  refine ((follows_keyword .kapag).bind fun _ => (follows_condition ih).bind fun cond => ?_).succ
  refine (ih.block.here (by decide) (Nat.zero_le 1)).bind fun body => Follows.look fun kind => ?_
  split
  case h_1 =>
    refine (follows_advance (by simp)).bind fun _ => ?_
    exact (ih.block.here (by decide) (Nat.zero_le 1)).bind fun otherwise => Follows.pure _
  case h_2 =>
    refine (follows_advance (by simp)).bind fun _ => ?_
    exact (ih.choice.here (by decide) (Nat.zero_le 1)).bind fun next => Follows.pure _
  case h_3 => exact Follows.pure _

theorem follows_block (ih : Following fuel r s) :
    Follows anyKind (fuel + 1) 1 1 r.body.block s.body.block := by
  refine ((follows_symbol .leftBrace).bind fun brace => ?_).succ
  refine (((ih.blockStmts []).here (by decide) (Nat.le_refl 0)).inside brace).bind fun stmts => ?_
  exact follows_advance_any.bind fun stop => Follows.pure _

theorem follows_blockStmts (ih : Following fuel r s) (before : List Stmt) :
    Follows anyKind (fuel + 1) 3 0 (r.body.blockStmts before) (s.body.blockStmts before) := by
  refine (Follows.look fun kind => ?_).succ
  split
  case h_1 => exact Follows.pure _
  case h_2 => exact Follows.unexpected _
  case h_3 =>
    refine (ih.stmt.here (Nat.le_refl 2) (Nat.le_refl 1)).bind fun next => ?_
    exact (ih.blockStmts (next :: before)).here (by decide) (Nat.le_refl 0)

theorem follows_programFrom (ih : Following fuel r s) (before : List Stmt) :
    Follows anyKind (fuel + 1) 3 0 (r.body.programFrom before) (s.body.programFrom before) := by
  refine (Follows.look fun kind => ?_).succ
  split
  case h_1 => exact Follows.pure _
  case h_2 =>
    refine (ih.stmt.here (Nat.le_refl 2) (Nat.le_refl 1)).bind fun next => ?_
    exact (ih.programFrom (next :: before)).here (by decide) (Nat.le_refl 0)

/-! ## All rules -/

theorem following_body (ih : Following fuel r s) : Following (fuel + 1) r.body s.body where
  level := follows_level ih
  levelRest := follows_levelRest ih
  operand := follows_operand ih
  negation := follows_negation ih
  signed := follows_signed ih
  power := follows_power ih
  primary := follows_primary ih
  named := follows_named ih
  arguments := follows_arguments ih
  exprs := follows_exprs ih
  exprsFrom := follows_exprsFrom ih
  stmt := follows_stmt ih
  choice := follows_choice ih
  block := follows_block ih
  blockStmts := follows_blockStmts ih
  programFrom := follows_programFrom ih

/-- Whatever rules stand for the calls at some depth, the recursion down to it does what the parser
does with fuel for that depth. -/
theorem following_bounded (deeper : Rules) (fuel : Nat) :
    Following fuel (deeper.atDepth fuel) (bounded fuel) := by
  induction fuel with
  | zero => constructor <;> intros <;> exact Follows.zero _ _
  | succ fuel ih =>
      rw [bounded_succ]
      exact following_body ih

/-! ## Cursors in use -/

def Advances (x : Rule α) (c : Cursor) : Prop :=
  match x.run c with
  | .ok _ c' => c'.tokens = c.tokens ∧ c.position < c'.position ∧ c'.position < c.tokens.size
  | .error failure c' => c'.tokens = c.tokens ∧ c.position ≤ c'.position ∧
      ∃ t, c.tokens[c'.position]? = some t ∧ ∀ source, (failure.toError source).span = t.span

theorem Follows.advances {passed left : List Token} (follows : Follows anyKind fuel need 1 x y)
    (ends : Ends left) : Advances y (between passed left) := by
  obtain ⟨t, left, rfl⟩ := ends.exists_cons
  obtain ⟨ts, u, rest, split, -, outcome⟩ := follows.moves passed t left trivial ends
  have tokens :
      (between (passed ++ ts) (u :: rest)).tokens = (between passed (t :: left)).tokens := by
    simp [between, split]
  unfold Advances
  rcases outcome with ⟨a, more, run⟩ | ⟨failure, found, run⟩
  · rw [run]
    refine ⟨tokens, ?_, ?_⟩
    · simp only [between, List.length_append]
      omega
    · rw [← tokens]
      simp [between]
  · rw [run]
    refine ⟨tokens, by simp [between], u, ?_, fun source => congrArg Token.span found⟩
    rw [← tokens]
    simp [between]

theorem advances_bounded {passed left : List Token} (ends : Ends left) (fuel : Nat) :
    let c := between passed left
    Advances (stmt fuel) c ∧ Advances (block fuel) c ∧ Advances (expr fuel) c ∧
      Advances (negation fuel) c ∧ Advances (signed fuel) c ∧ Advances (primary fuel) c := by
  have following := following_bounded (bounded 0) fuel
  exact ⟨following.stmt.advances ends, following.block.advances ends,
    (following.level .or).advances ends, following.negation.advances ends,
    following.signed.advances ends, following.primary.advances ends⟩

/-- Calls at the depth that is enough are never made: nothing changes, whatever they would do. -/
theorem parse_atDepth_enough {tokens : List Token} (ends : Ends tokens) (deeper : Rules)
    (source : String) :
    (deeper.atDepth (enough tokens.length)).parse tokens.toArray source =
      Salita.parse tokens.toArray source := by
  have ample := ample_enough tokens
  obtain ⟨t, left, rfl⟩ := ends.exists_cons
  have following := following_bounded deeper (enough (t :: left).length)
  have same := (following.programFrom []).same [] t left trivial ends ample
  simp only [EStateM.run, ← ofTokens_eq_between] at same
  rw [parse_eq_bounded, Rules.parse, same]
  rfl

end Parser

open Salita.Parser Cursor

/-- A cursor that any operations have moved from the start of tokens stands at one of them, behind
those that were consumed, and no operation moves it back. From there, a rule for statements, blocks
or expressions passes a token if it succeeds, and stands at the token that it reports if it fails.
So `parse` comes to an end: it calls no rules as deep as `enough` bounds them, since with any rules
at all in their place the result is the same. -/
theorem parse_progress (body : List Token) (stop : Token) (source : String)
    (last : stop.kind = .eof) (only : ∀ t ∈ body, t.kind ≠ .eof) :
    let tokens := (body ++ [stop]).toArray
    let start := ofTokens tokens
    (∀ ops, let c := start.run ops
      Stands body stop (start.consumed ops) c ∧
      (∀ more, c.position ≤ (start.run (ops ++ more)).position) ∧
      ∀ fuel, Advances (stmt fuel) c ∧ Advances (block fuel) c ∧ Advances (expr fuel) c ∧
        Advances (negation fuel) c ∧ Advances (signed fuel) c ∧ Advances (primary fuel) c) ∧
    ∀ deeper : Rules,
      (deeper.atDepth (enough tokens.size)).parse tokens source = parse tokens source := by
  intro tokens start
  have ends : Ends (body ++ [stop]) := ⟨body, stop, rfl, last, only⟩
  constructor
  · intro ops c
    refine ⟨stands_run ends ops, ?_, ?_⟩
    · intro more
      rw [run_append]
      exact position_le_run c more
    · intro fuel
      obtain ⟨rest, -, ends', ran⟩ := run_between [] ends ops
      have place : c = between ([] ++ start.consumed ops) rest := ran
      rw [place]
      exact advances_bounded ends' fuel
  · intro deeper
    exact parse_atDepth_enough ends deeper source

theorem parse_progress_no_operand :
    let tokens : Array Token := #[⟨.ident "x", ⟨0, 1⟩⟩, ⟨.symbol .equal, ⟨2, 3⟩⟩,
      ⟨.symbol .minus, ⟨4, 5⟩⟩, ⟨.symbol .semicolon, ⟨5, 6⟩⟩, ⟨.eof, ⟨6, 6⟩⟩]
    let c := (ofTokens tokens).run
      [.eat (.symbol .equal), .advance, .eat (.symbol .equal), .advance, .advance, .advance]
    (c.position = 4 ∧ c.previousSpan = ⟨5, 6⟩ ∧ Advances (signed 9) c) ∧
      ∀ deeper : Rules, (deeper.atDepth 120).parse tokens "x = -;" =
        .error ⟨.offendingToken ";" ⟨1, 6, "x = -;"⟩, ⟨5, 6⟩, .expression, none⟩ := by
  obtain ⟨cursors, ended⟩ := parse_progress
    [⟨.ident "x", ⟨0, 1⟩⟩, ⟨.symbol .equal, ⟨2, 3⟩⟩, ⟨.symbol .minus, ⟨4, 5⟩⟩,
      ⟨.symbol .semicolon, ⟨5, 6⟩⟩]
    ⟨.eof, ⟨6, 6⟩⟩ "x = -;" rfl (by decide)
  obtain ⟨stands, -, advances⟩ := cursors
    [.eat (.symbol .equal), .advance, .eat (.symbol .equal), .advance, .advance, .advance]
  exact ⟨⟨rfl, stands.previousSpan, (advances 9).2.2.2.2.1⟩, fun deeper => (ended deeper).trans rfl⟩

end Salita
