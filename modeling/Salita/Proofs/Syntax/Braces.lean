import Salita.Proofs.Syntax.Pairing
import Salita.Proofs.Syntax.Viability
import Salita.Token.Lexer

namespace Salita.Grammar

def AllClosed (ts : List Token) : Prop :=
  ∀ before first behind, ts = before ++ first :: behind → first.kind = .symbol .leftBrace →
    Closed .curly behind

def LastOpen (span : Span) (ts : List Token) : Prop :=
  ∃ before first behind, ts = before ++ first :: behind ∧ first.kind = .symbol .leftBrace ∧
    first.span = span ∧ ¬ Closed .curly behind ∧ AllClosed behind

/-- What is left of the braces of tokens when they have been paired: nothing, or opening ones, the
last of which has the span. -/
inductive Leaves : Option Span → List Token → Prop
  | nothing {ts : List Token} (paired : Paired .curly ts) : Leaves none ts
  | brace {found : Option Span} {ts us : List Token} {first : Token} (paired : Paired .curly ts)
      (opened : first.kind = .symbol .leftBrace) (more : Leaves found us) :
      Leaves (some (found.getD first.span)) (ts ++ first :: us)

variable {found : Option Span} {span : Span} {ts us : List Token}

theorem Leaves.append (paired : Paired .curly ts) (leaves : Leaves found us) :
    Leaves found (ts ++ us) := by
  cases leaves with
  | nothing more => exact .nothing (paired.append more)
  | brace before opened more =>
      rw [← List.append_assoc]
      exact .brace (paired.append before) opened more

theorem Paired.allClosed (paired : Paired .curly ts) : AllClosed ts := by
  rintro before first behind rfl opened
  exact paired.closed opened

theorem Leaves.paired (leaves : Leaves none ts) : Paired .curly ts := by
  cases leaves with
  | nothing paired => exact paired

theorem Leaves.lastOpen (leaves : Leaves (some span) ts) : LastOpen span ts := by
  generalize isSome : some span = found at leaves
  induction leaves generalizing span with
  | nothing paired => cases isSome
  | @brace inner ts us first paired opened more ih =>
      cases Option.some.inj isSome
      cases inner with
      | none =>
          have after := more.paired
          exact ⟨ts, first, us, rfl, opened, rfl, after.not_closed, after.allClosed⟩
      | some span =>
          obtain ⟨before, later, behind, rfl, rest⟩ := ih rfl
          exact ⟨ts ++ first :: before, later, behind, by simp, rest⟩

theorem LastOpen.not_allClosed (last : LastOpen span ts) : ¬ AllClosed ts := by
  obtain ⟨before, first, behind, rfl, opened, -, unclosed, -⟩ := last
  intro all
  exact unclosed (all before first behind rfl opened)

theorem LastOpen.unique {other : Span} (last : LastOpen span ts) (others : LastOpen other ts) :
    span = other := by
  obtain ⟨before, first, behind, rfl, opened, rfl, unclosed, all⟩ := last
  obtain ⟨before', first', behind', same, opened', rfl, unclosed', all'⟩ := others
  rcases List.append_eq_append_iff.1 same with ⟨tail, -, ends⟩ | ⟨tail, -, ends⟩
  · cases tail with
    | nil => rw [(List.cons.inj ends).1]
    | cons t tail => exact absurd (all tail first' behind' (List.cons.inj ends).2 opened') unclosed'
  · cases tail with
    | nil => rw [(List.cons.inj ends).1]
    | cons t tail => exact absurd (all' tail first behind (List.cons.inj ends).2 opened) unclosed

theorem Leaves.unclosed_iff (leaves : Leaves found ts) :
    (∀ span, found = some span ↔ LastOpen span ts) ∧ (found = none ↔ AllClosed ts) := by
  cases found with
  | none =>
      have all := leaves.paired.allClosed
      refine ⟨fun span => ⟨nofun, ?_⟩, fun _ => all, fun _ => rfl⟩
      intro last
      exact absurd all last.not_allClosed
  | some last =>
      have isLast := leaves.lastOpen
      refine ⟨fun span => ⟨?_, fun others => congrArg some (isLast.unique others)⟩, nofun, ?_⟩
      · intro same
        cases same
        exact isLast
      · intro all
        exact absurd all isLast.not_allClosed

end Salita.Grammar

namespace Salita.Parser
open Cursor Grammar

variable {α β : Type}

/-- What a failure records of the tokens that were left: at the end of the text the brace that they
leave open, and otherwise nothing. -/
def Records (failure : SyntaxFailure) (left : List Token) : Prop :=
  if failure.found.kind = .eof then Leaves failure.unclosed left else failure.unclosed = none

/-- In front of a token that `K` allows, the rule passes tokens with paired braces up to one that
`S` allows, or its failure records the open brace. -/
def Tracks (K S : TokenKind → Prop) (x : Rule α) : Prop :=
  ∀ passed t left, K t.kind → Ends (t :: left) →
    (∃ a ts u rest, t :: left = ts ++ u :: rest ∧ Ends (u :: rest) ∧ S u.kind ∧ Paired .curly ts ∧
      x.run (between passed (t :: left)) = .ok a (between (passed ++ ts) (u :: rest))) ∨
    ∃ failure c, x.run (between passed (t :: left)) = .error failure c ∧
      Records failure (t :: left)

variable {x : Rule α} {f : α → Rule β} {K S S' : TokenKind → Prop} {kind : TokenKind}

theorem Records.append {failure : SyntaxFailure} {ts us : List Token} (paired : Paired .curly ts)
    (records : Records failure us) : Records failure (ts ++ us) := by
  unfold Records at records ⊢
  split at records
  case isTrue eof =>
    rw [if_pos eof]
    exact records.append paired
  case isFalse inner =>
    rw [if_neg inner]
    exact records

theorem Tracks.here (tracks : Tracks anyKind S x) : Tracks K S x := by
  intro passed t left _ ends
  exact tracks passed t left trivial ends

theorem Tracks.pure (a : α) : Tracks K K (Pure.pure a : Rule α) := by
  intro passed t left start ends
  exact .inl ⟨a, [], t, left, rfl, ends, start, .nil, by simp⟩

theorem Tracks.stay (a : α) : Tracks K anyKind (Pure.pure a : Rule α) :=
  (Tracks.pure a).here

theorem Tracks.unexpected (expected : Expected) :
    Tracks K S (unexpected expected : Rule α) := by
  intro passed t left _ ends
  refine .inr ⟨_, _, run_unexpected expected _, ?_⟩
  rw [current_between]
  unfold Records
  split
  case isTrue eof =>
    have other : Bracket.curly.Other t := by
      have kind : t.kind = .eof := eof
      simp [Bracket.Other, Bracket.opening, Bracket.closing, kind]
    rw [ends.eq_of_eof eof]
    exact .nothing (.single other)
  case isFalse => rfl

theorem Tracks.bind (first : Tracks K S x) (next : ∀ a, Tracks S S' (f a)) :
    Tracks K S' (x >>= f) := by
  intro passed t left start ends
  rcases first passed t left start ends with
    ⟨a, ts, u, rest, split, ends₁, stop, paired, run⟩ | ⟨failure, c, run, records⟩
  · rw [run_bind_of_ok run, split]
    rcases next a (passed ++ ts) u rest stop ends₁ with
      ⟨b, us, v, rest', split', ends₂, stop', paired', run'⟩ | ⟨failure, c, run', records⟩
    · refine .inl ⟨b, ts ++ us, v, rest', ?_, ends₂, stop', paired.append paired', ?_⟩
      · rw [split', List.append_assoc]
      · rw [run', List.append_assoc]
    · exact .inr ⟨failure, c, run', records.append paired⟩
  · refine .inr ⟨failure, c, ?_, records⟩
    rw [EStateM.run_bind, run]

theorem Tracks.look {f : TokenKind → Rule β} (next : ∀ kind, Tracks (· = kind) S (f kind)) :
    Tracks K S (currentKind >>= f) := by
  intro passed t left _ ends
  rw [run_bind_of_ok currentKind_between]
  exact next t.kind passed t left rfl ends

theorem Tracks.get {f : Cursor → Rule β} (next : ∀ c, Tracks K S (f c)) :
    Tracks K S (get >>= f) := by
  intro passed t left start ends
  rw [run_bind_of_ok (EStateM.run_get _)]
  exact next _ passed t left start ends

/-! ## One token -/

def isPlain : TokenKind → Bool
  | .eof | .symbol .leftBrace | .symbol .rightBrace => false
  | _ => true

theorem ne_eof_of_isPlain (plain : isPlain kind = true) : kind ≠ .eof := by
  rintro rfl
  cases plain

theorem other_of_isPlain {t : Token} (plain : isPlain t.kind = true) : Bracket.curly.Other t := by
  constructor <;> intro same <;> rw [same] at plain <;> cases plain

theorem tracks_advance (plain : isPlain kind = true) :
    Tracks (· = kind) anyKind advance := by
  intro passed t left here ends
  obtain rfl := here
  have more := ne_eof_of_isPlain plain
  obtain ⟨u, rest, rfl⟩ := (ends.tail more).exists_cons
  exact .inl ⟨t.span, [t], u, rest, rfl, ends.tail more, trivial,
    .single (other_of_isPlain plain), advance_between more⟩

theorem tracks_token {expected : Expected} (plain : isPlain kind = true)
    (fixed : (∃ mark, kind = .symbol mark) ∨ ∃ word, kind = .keyword word) :
    Tracks K anyKind (token kind expected) := by
  refine Tracks.look fun current => ?_
  split
  case isTrue same =>
    rw [(sameKind_iff fixed).1 same]
    exact tracks_advance plain
  case isFalse => exact Tracks.unexpected expected

theorem tracks_symbol (mark : Symbol) (plain : isPlain (.symbol mark) = true) :
    Tracks K anyKind (symbol mark) :=
  tracks_token plain (.inl ⟨mark, rfl⟩)

theorem tracks_keyword (word : Keyword) : Tracks K anyKind (keyword word) :=
  tracks_token rfl (.inr ⟨word, rfl⟩)

theorem tracks_identifier : Tracks K anyKind identifier := by
  refine Tracks.look fun kind => ?_
  split
  case h_1 text =>
    exact (tracks_advance rfl).bind fun span => Tracks.pure _
  case h_2 => exact Tracks.unexpected _

/-! ## Expressions -/

structure TracksExprs (fuel : Nat) : Prop where
  level : ∀ l, Tracks anyKind anyKind (level fuel l)
  levelRest : ∀ l left, Tracks anyKind anyKind (levelRest fuel l left)
  operand : ∀ l, Tracks anyKind anyKind (operand fuel l)
  negation : Tracks anyKind anyKind (negation fuel)
  signed : Tracks anyKind anyKind (signed fuel)
  power : Tracks anyKind anyKind (power fuel)
  primary : Tracks anyKind anyKind (primary fuel)
  named : ∀ name, Tracks anyKind anyKind (named fuel name)
  arguments : Tracks anyKind anyKind (arguments fuel)
  exprs : ∀ closing, Tracks anyKind anyKind (exprs fuel closing)
  exprsFrom : ∀ before, Tracks anyKind anyKind (exprsFrom fuel before)

variable {fuel : Nat}

theorem tracks_level (ih : TracksExprs fuel) (l : Level) :
    Tracks anyKind anyKind (level (fuel + 1) l) :=
  (ih.operand l).bind fun left => ih.levelRest l left

theorem tracks_levelRest (ih : TracksExprs fuel) (l : Level) (left : Expr) :
    Tracks anyKind anyKind (levelRest (fuel + 1) l left) := by
  refine Tracks.look fun kind => ?_
  split
  case h_1 => exact Tracks.stay left
  case h_2 op found =>
    have plain : isPlain kind = true := by
      rw [(Level.operator?_eq_some.1 found).2.2]
      cases op <;> rfl
    refine (tracks_advance plain).bind fun _ => ?_
    exact (ih.operand l).bind fun right => ih.levelRest l (binary op left right)

theorem tracks_operand (ih : TracksExprs fuel) (l : Level) :
    Tracks anyKind anyKind (operand (fuel + 1) l) := by
  cases l with
  | or => exact ih.level .and
  | and => exact ih.negation
  | comparison => exact ih.level .sum
  | sum => exact ih.level .product
  | product => exact ih.signed

theorem tracks_negation (ih : TracksExprs fuel) :
    Tracks anyKind anyKind (negation (fuel + 1)) := by
  refine Tracks.look fun kind => ?_
  split
  case h_1 =>
    refine (tracks_advance rfl).bind fun start => ?_
    exact ih.negation.bind fun operand => Tracks.pure _
  case h_2 => exact (ih.level .comparison).here

theorem tracks_signed (ih : TracksExprs fuel) : Tracks anyKind anyKind (signed (fuel + 1)) := by
  refine Tracks.look fun kind => ?_
  split
  case h_1 =>
    refine (tracks_advance rfl).bind fun start => ?_
    exact ih.signed.bind fun operand => Tracks.pure _
  case h_2 => exact ih.power.here

theorem tracks_power (ih : TracksExprs fuel) : Tracks anyKind anyKind (power (fuel + 1)) := by
  refine ih.primary.bind fun base => Tracks.look fun kind => ?_
  split
  case h_1 =>
    refine (tracks_advance rfl).bind fun _ => ?_
    exact ih.signed.bind fun exponent => Tracks.pure _
  case h_2 => exact Tracks.stay base

theorem tracks_primary (ih : TracksExprs fuel) :
    Tracks anyKind anyKind (primary (fuel + 1)) := by
  refine Tracks.look fun kind => ?_
  split
  case h_1 value found =>
    have plain : isPlain kind = true := by
      rw [literal?_eq_some.1 found]
      cases value with
      | bool b => cases b <;> rfl
      | int | float | str => rfl
    exact (tracks_advance plain).bind fun span => Tracks.pure _
  case h_2 =>
    split
    case h_1 _ text _ =>
      refine (tracks_advance rfl).bind fun span => ?_
      exact ih.named ⟨text, span⟩
    case h_2 =>
      refine (tracks_advance rfl).bind fun _ => ?_
      refine (ih.level .or).bind fun inner => ?_
      exact (tracks_symbol .rightParen rfl).bind fun _ => Tracks.pure inner
    case h_3 =>
      refine (tracks_advance rfl).bind fun start => ?_
      refine (ih.exprs .rightBracket).bind fun items => ?_
      exact (tracks_symbol .rightBracket rfl).bind fun stop => Tracks.pure _
    case h_4 => exact Tracks.unexpected _

theorem tracks_named (ih : TracksExprs fuel) (name : Name) :
    Tracks anyKind anyKind (named (fuel + 1) name) := by
  refine Tracks.look fun kind => ?_
  split
  case h_1 => exact ih.arguments.here.bind fun result => Tracks.pure _
  case h_2 =>
    refine (tracks_advance rfl).bind fun _ => ?_
    refine (ih.level .or).bind fun position => ?_
    exact (tracks_symbol .rightBracket rfl).bind fun stop => Tracks.pure _
  case h_3 => exact Tracks.stay _

theorem tracks_arguments (ih : TracksExprs fuel) :
    Tracks anyKind anyKind (arguments (fuel + 1)) := by
  refine (tracks_symbol .leftParen rfl).bind fun _ => ?_
  refine (ih.exprs .rightParen).bind fun args => ?_
  exact (tracks_symbol .rightParen rfl).bind fun stop => Tracks.pure _

theorem tracks_exprs (ih : TracksExprs fuel) (closing : Symbol) :
    Tracks anyKind anyKind (exprs (fuel + 1) closing) := by
  refine Tracks.look fun kind => ?_
  split
  case isTrue => exact Tracks.stay []
  case isFalse => exact (ih.exprsFrom []).here

theorem tracks_exprsFrom (ih : TracksExprs fuel) (before : List Expr) :
    Tracks anyKind anyKind (exprsFrom (fuel + 1) before) := by
  refine (ih.level .or).bind fun item => Tracks.look fun kind => ?_
  split
  case h_1 =>
    refine (tracks_advance rfl).bind fun _ => ?_
    exact ih.exprsFrom (item :: before)
  case h_2 => exact Tracks.stay _

theorem tracksExprs (fuel : Nat) : TracksExprs fuel := by
  induction fuel with
  | zero => constructor <;> intros <;> exact Tracks.unexpected _
  | succ fuel ih =>
      exact ⟨tracks_level ih, tracks_levelRest ih, tracks_operand ih, tracks_negation ih,
        tracks_signed ih, tracks_power ih, tracks_primary ih, tracks_named ih, tracks_arguments ih,
        tracks_exprs ih, tracks_exprsFrom ih⟩

theorem tracks_expr (fuel : Nat) : Tracks anyKind anyKind (expr fuel) :=
  (tracksExprs fuel).level .or

theorem tracks_condition (fuel : Nat) : Tracks anyKind anyKind (condition fuel) := by
  refine (tracks_symbol .leftParen rfl).bind fun _ => ?_
  refine (tracks_expr fuel).bind fun cond => ?_
  exact (tracks_symbol .rightParen rfl).bind fun _ => Tracks.pure cond

/-! ## Statements -/

theorem tracks_ended (s : Span → Stmt) :
    Tracks anyKind anyKind (symbol .semicolon >>= fun stop => pure (s stop)) :=
  (tracks_symbol .semicolon rfl).bind fun stop => Tracks.pure (s stop)

theorem tracks_nameStmt (fuel : Nat) : Tracks anyKind anyKind (nameStmt fuel) := by
  refine tracks_identifier.bind fun name => Tracks.look fun kind => ?_
  split
  case isTrue =>
    exact (tracksExprs fuel).arguments.here.bind fun result => tracks_ended _
  case isFalse =>
    split
    case isTrue equals =>
      subst equals
      refine (tracks_advance rfl).bind fun _ => ?_
      exact (tracks_expr fuel).bind fun value => tracks_ended _
    case isFalse =>
      split
      case h_1 op found =>
        obtain ⟨mark, compound, rfl⟩ := updateOperator?_eq_some.1 found
        have plain : isPlain (.symbol mark) = true := by
          cases op <;> cases compound <;> rfl
        refine (tracks_advance plain).bind fun _ => ?_
        exact (tracks_expr fuel).bind fun value => tracks_ended _
      case h_2 => exact Tracks.unexpected _

theorem tracks_printStmt (fuel : Nat) :
    Tracks (· = .keyword .ilimbag) anyKind (printStmt fuel) := by
  refine (tracks_advance rfl).bind fun start => ?_
  exact (tracksExprs fuel).arguments.bind fun result => tracks_ended _

theorem tracks_leaveStmt : Tracks (· = .keyword .lumisan) anyKind leaveStmt :=
  (tracks_advance rfl).bind fun _ => tracks_ended _

theorem Records.within {failure : SyntaxFailure} {ts : List Token} {first : Token}
    (opened : first.kind = .symbol .leftBrace) (records : Records failure ts) :
    Records (failure.within first.span) (first :: ts) := by
  unfold Records at records ⊢
  rw [found_within]
  split at records
  case isTrue eof =>
    rw [if_pos eof, SyntaxFailure.within, if_pos eof]
    exact .brace .nil opened records
  case isFalse inner =>
    rw [if_neg inner, SyntaxFailure.within, if_neg inner]
    exact records

/-- Between the braces of a block its own brace is the one to record, unless an inner one is. -/
theorem tracks_braces {g : Span → α → Span → β}
    (tracks : Tracks anyKind (· = .symbol .rightBrace) x) :
    Tracks anyKind anyKind (do
      let brace ← symbol .leftBrace
      let a ← inside brace x
      let stop ← advance
      return g brace a stop) := by
  intro passed t left _ ends
  by_cases opened : t.kind = .symbol .leftBrace
  · have more : t.kind ≠ .eof := by simp [opened]
    obtain ⟨u, rest, rfl⟩ := (ends.tail more).exists_cons
    rw [run_bind_of_ok (symbol_between opened)]
    rcases tracks (passed ++ [t]) u rest trivial (ends.tail more) with
      ⟨a, ts, v, rest', split, ends', closed, paired, run⟩ | ⟨failure, c, run, records⟩
    · have inner : v.kind ≠ .eof := by simp [closed]
      obtain ⟨w, behind, rfl⟩ := (ends'.tail inner).exists_cons
      refine .inl ⟨g t.span a v.span, t :: (ts ++ [v]), w, behind, ?_, ends'.tail inner, trivial,
        .pair opened closed paired .nil, ?_⟩
      · simp [split]
      · rw [run_bind_of_ok (run_inside_of_ok t.span run), run_bind_of_ok (advance_between inner)]
        simp
    · refine .inr ⟨failure.within t.span, c, ?_, records.within opened⟩
      rw [EStateM.run_bind, run_inside_of_error t.span run]
  · have same : (symbol .leftBrace).run (between passed (t :: left)) =
        (Parser.unexpected (.symbol .leftBrace)).run (between passed (t :: left)) :=
      token_of_ne (.inl ⟨.leftBrace, rfl⟩) opened
    have stops : Tracks anyKind anyKind (Parser.unexpected (.symbol .leftBrace) >>= fun brace => do
        let a ← inside brace x
        let stop ← advance
        return g brace a stop) :=
      (Tracks.unexpected (S := fun _ => False) _).bind fun brace passed t left never => never.elim
    rw [EStateM.run_bind, same, ← EStateM.run_bind]
    exact stops passed t left trivial ends

structure TracksStmts (fuel : Nat) : Prop where
  stmt : Tracks anyKind anyKind (stmt fuel)
  choice : Tracks anyKind anyKind (choice fuel)
  block : Tracks anyKind anyKind (block fuel)
  blockStmts : ∀ before, Tracks anyKind (· = .symbol .rightBrace) (blockStmts fuel before)

theorem tracks_stmt (ih : TracksStmts fuel) : Tracks anyKind anyKind (stmt (fuel + 1)) := by
  refine Tracks.look fun kind => ?_
  split
  case h_1 => exact (tracks_nameStmt fuel).here
  case h_2 =>
    refine Tracks.get fun c => ?_
    exact ih.choice.here.bind fun choice => Tracks.get fun behind => Tracks.pure _
  case h_3 =>
    refine (tracks_advance rfl).bind fun start => ?_
    refine (tracks_condition fuel).bind fun cond => ?_
    exact ih.block.bind fun body => Tracks.pure _
  case h_4 =>
    refine (tracks_advance rfl).bind fun start => ?_
    refine (tracks_keyword .bawat).bind fun _ => tracks_identifier.bind fun name => ?_
    refine (tracks_keyword .sa).bind fun _ => (tracks_symbol .leftBracket rfl).bind fun _ => ?_
    refine (tracks_expr fuel).bind fun first => (tracks_symbol .colon rfl).bind fun _ => ?_
    refine (tracks_expr fuel).bind fun last => (tracks_symbol .rightBracket rfl).bind fun _ => ?_
    exact ih.block.bind fun body => Tracks.pure _
  case h_5 => exact tracks_printStmt fuel
  case h_6 => exact tracks_leaveStmt
  case h_7 => exact Tracks.unexpected _

theorem tracks_choice (ih : TracksStmts fuel) : Tracks anyKind anyKind (choice (fuel + 1)) := by
  refine (tracks_keyword .kapag).bind fun _ => (tracks_condition fuel).bind fun cond => ?_
  refine ih.block.bind fun body => Tracks.look fun kind => ?_
  split
  case h_1 =>
    refine (tracks_advance rfl).bind fun _ => ?_
    exact ih.block.bind fun otherwise => Tracks.pure _
  case h_2 =>
    refine (tracks_advance rfl).bind fun _ => ?_
    exact ih.choice.bind fun next => Tracks.pure _
  case h_3 => exact Tracks.stay _

theorem tracks_block (ih : TracksStmts fuel) : Tracks anyKind anyKind (block (fuel + 1)) :=
  tracks_braces (ih.blockStmts [])

theorem tracks_blockStmts (ih : TracksStmts fuel) (before : List Stmt) :
    Tracks anyKind (· = .symbol .rightBrace) (blockStmts (fuel + 1) before) := by
  refine Tracks.look fun kind => ?_
  split
  case h_1 => exact Tracks.pure _
  case h_2 => exact Tracks.unexpected _
  case h_3 => exact ih.stmt.here.bind fun next => ih.blockStmts (next :: before)

theorem tracksStmts (fuel : Nat) : TracksStmts fuel := by
  induction fuel with
  | zero => constructor <;> intros <;> exact Tracks.unexpected _
  | succ fuel ih =>
      exact ⟨tracks_stmt ih, tracks_choice ih, tracks_block ih, tracks_blockStmts ih⟩

theorem tracks_programFrom (fuel : Nat) (before : List Stmt) :
    Tracks anyKind anyKind (programFrom fuel before) := by
  induction fuel generalizing before with
  | zero => exact Tracks.unexpected _
  | succ fuel ih =>
      refine Tracks.look fun kind => ?_
      split
      case h_1 => exact Tracks.stay _
      case h_2 => exact (tracksStmts fuel).stmt.here.bind fun next => ih (next :: before)

end Salita.Parser

namespace Salita
open Salita.Parser Cursor Grammar

/-- Where `parse` runs into the end, it names the last brace that is not closed, and none if there
is none. Where it reports a token, it names no brace. -/
theorem parse_unclosed (body : List Token) (stop : Token) (source : String) (e : ParseError)
    (last : stop.kind = .eof) (only : ∀ t ∈ body, t.kind ≠ .eof)
    (failed : parse (body ++ [stop]).toArray source = .error e) :
    match e.cause with
    | .unexpectedEnd =>
        (∀ span, e.unclosed = some span ↔ LastOpen span (body ++ [stop])) ∧
          (e.unclosed = none ↔ AllClosed (body ++ [stop]))
    | .offendingToken _ _ => e.unclosed = none := by
  obtain ⟨failure, c, run, rfl⟩ := parse_eq_error_iff_run.1 failed
  have ends : Ends (body ++ [stop]) := ⟨body, stop, rfl, last, only⟩
  obtain ⟨t, left, split⟩ := ends.exists_cons
  have records : Records failure (body ++ [stop]) := by
    rw [split] at run ends ⊢
    rcases tracks_programFrom _ [] [] t left trivial ends with
      ⟨program, ts, u, rest, -, -, -, -, passed⟩ | ⟨failure', c', stopped, records⟩
    · rw [run] at passed
      cases passed
    · rw [run] at stopped
      cases stopped
      exact records
  have names : (failure.toError source).unclosed = failure.unclosed := rfl
  unfold Records at records
  split at records
  case isTrue eof =>
    have cause : (failure.toError source).cause = .unexpectedEnd := by
      simp [SyntaxFailure.toError, eof]
    rw [cause, names]
    exact records.unclosed_iff
  case isFalse inner =>
    have cause : ∃ lexeme location,
        (failure.toError source).cause = .offendingToken lexeme location := by
      simp [SyntaxFailure.toError, inner]
    obtain ⟨lexeme, location, cause⟩ := cause
    rw [cause, names]
    exact records

theorem parse_unclosed_kundiman :
    ∃ body : List Token, lex "kapag (a) \x7b\x7d kundiman \x7b hanggat (b) \x7b\x7d" =
        .ok (body ++ [Token.mk .eof ⟨38, 38⟩]).toArray ∧
      parse (body ++ [Token.mk .eof ⟨38, 38⟩]).toArray "" =
        .error ⟨.unexpectedEnd, ⟨38, 38⟩, .symbol .rightBrace, some ⟨22, 23⟩⟩ ∧
      LastOpen ⟨22, 23⟩ (body ++ [⟨.eof, ⟨38, 38⟩⟩]) := by
  have named (body : List Token) (inner : ∀ t ∈ body, t.kind ≠ .eof)
      (failed : parse (body ++ [Token.mk .eof ⟨38, 38⟩]).toArray "" =
        .error ⟨.unexpectedEnd, ⟨38, 38⟩, .symbol .rightBrace, some ⟨22, 23⟩⟩) :
      LastOpen ⟨22, 23⟩ (body ++ [⟨.eof, ⟨38, 38⟩⟩]) :=
    ((parse_unclosed body _ "" _ rfl inner failed).1 _).1 rfl
  exact ⟨[⟨.keyword .kapag, ⟨0, 5⟩⟩, ⟨.symbol .leftParen, ⟨6, 7⟩⟩, ⟨.ident "a", ⟨7, 8⟩⟩,
    ⟨.symbol .rightParen, ⟨8, 9⟩⟩, ⟨.symbol .leftBrace, ⟨10, 11⟩⟩,
    ⟨.symbol .rightBrace, ⟨11, 12⟩⟩, ⟨.keyword .kundiman, ⟨13, 21⟩⟩,
    ⟨.symbol .leftBrace, ⟨22, 23⟩⟩, ⟨.keyword .hanggat, ⟨24, 31⟩⟩,
    ⟨.symbol .leftParen, ⟨32, 33⟩⟩, ⟨.ident "b", ⟨33, 34⟩⟩, ⟨.symbol .rightParen, ⟨34, 35⟩⟩,
    ⟨.symbol .leftBrace, ⟨36, 37⟩⟩, ⟨.symbol .rightBrace, ⟨37, 38⟩⟩], rfl, rfl,
    named _ (by decide) rfl⟩

end Salita
