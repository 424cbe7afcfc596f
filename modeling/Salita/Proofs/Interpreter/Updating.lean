import Salita.Proofs.Interpreter.Location

namespace Salita

theorem EvalError.PlacedIn.orAt {P : Span → Prop} {e : EvalError} (placed : e.PlacedIn P)
    (span : Span) : e.orAt span = e := by
  obtain ⟨place, found, -⟩ := placed
  rw [EvalError.orAt, found, Option.getD_some, ← found]

namespace Environment

theorem orAt_eval (env : Environment) (e : Expr) (span : Span) :
    Eval.orAt span (env.eval e) = env.eval e := by
  have evaluation : Evaluation (fun _ => True) (env.eval e) := .eval fun _ _ => trivial
  funext s
  cases run : env.eval e s with
  | ok value next => simp only [Eval.orAt, Eval.mapError, run]
  | error failure next =>
      have placed := evaluation.fails s failure next run
      simp only [Eval.orAt, Eval.mapError, run, placed.orAt span]

theorem eval_binary (env : Environment) (op : BinaryOp) (left right : Expr) (span : Span) :
    env.eval (.binary op left right span) = (do
      let left ← env.eval left
      let right ← env.eval right
      Eval.orAt span (Operation.binary left right op)) := by
  simp only [eval, Eval.orAt_bind, orAt_eval]

end Environment

theorem Exec.ofEval_bind {α β : Type} (x : Environment → Eval α) (f : α → Environment → Eval β) :
    ofEval (fun env => x env >>= fun a => f a env) = ofEval x >>= fun a => ofEval (f a) := by
  funext m
  simp only [ofEval, Bind.bind, EStateM.bind]
  cases x m.env m.store <;> rfl

theorem Stmt.exec_assign_binary (rounds : Nat) (target : Name) (op : BinaryOp) (value : Expr)
    (place span : Span) :
    exec rounds (.assign target (.binary op (.var target) value place) span) =
      exec rounds (.update target op value place) := by
  simp only [exec, Exec.eval, Environment.eval_binary, Exec.ofEval_bind, bind_assoc]
  rfl

inductive Machine.Updates (m : Machine) (target : Name) (op : BinaryOp) (value : Expr) :
    (Span → EStateM.Result Stop Machine Outcome) → Prop
  | done {left right result : Value} {mid last : Store}
      (bound : m.env.valueOf target.text = .ok left)
      (evaluated : m.env.eval value m.store = .ok right mid)
      (applied : Operation.binary left right op mid = .ok result last) :
      m.Updates target op value fun _ => .ok .empty ⟨m.env.set target.text result, last⟩
  | unbound {e : EvalError} (failed : m.env.valueOf target.text = .error e) :
      m.Updates target op value fun _ => .error (.error (e.placed target.span)) m
  | operand {left : Value} {e : EvalError} {last : Store}
      (bound : m.env.valueOf target.text = .ok left)
      (failed : m.env.eval value m.store = .error e last) :
      m.Updates target op value fun _ => .error (.error e) ⟨m.env, last⟩
  | operator {left right : Value} {e : EvalError} {mid last : Store}
      (bound : m.env.valueOf target.text = .ok left)
      (evaluated : m.env.eval value m.store = .ok right mid)
      (failed : Operation.binary left right op mid = .error e last) :
      m.Updates target op value fun place => .error (.error (e.placed place)) ⟨m.env, last⟩

theorem Operation.orAt_binary_of_error {left right : Value} {op : BinaryOp} {s last : Store}
    {e : EvalError} (failed : binary left right op s = .error e last) (span : Span) :
    Eval.orAt span (binary left right op) s = .error (e.placed span) last := by
  have composed : Composed false (binary left right op) := .binary left right op
  have unplaced := (composed.fails_bare s e last failed).unplaced
  simp only [Eval.orAt, Eval.mapError, failed, EvalError.orAt, unplaced, Option.getD_none,
    EvalError.placed]

theorem Stmt.exec_assign (rounds : Nat) (target : Name) (e : Expr) (span : Span) (m : Machine) :
    exec rounds (.assign target e span) m =
      match m.env.eval e m.store with
      | .ok value last => .ok .empty ⟨m.env.set target.text value, last⟩
      | .error failure last => .error (.error failure) ⟨m.env, last⟩ := by
  simp only [exec, Exec.eval, Exec.ofEval, bind, EStateM.bind]
  cases m.env.eval e m.store <;> rfl

theorem Stmt.exec_update (rounds : Nat) (m : Machine) (target : Name) (op : BinaryOp)
    (value : Expr) :
    m.Updates target op value fun place => exec rounds (.update target op value place) m := by
  let whole (place : Span) : Expr := .binary op (.var target) value place
  have expands (place : Span) : exec rounds (.update target op value place) m =
      exec rounds (.assign target (whole place) place) m := by
    rw [exec_assign_binary]
  simp only [expands, exec_assign]
  cases bound : m.env.valueOf target.text with
  | error e =>
      have looked : m.env.eval (.var target) m.store = .error (e.placed target.span) m.store := by
        rw [Environment.eval, bound]
        rfl
      have failed (place : Span) :
          m.env.eval (whole place) m.store = .error (e.placed target.span) m.store := by
        rw [Environment.eval_binary]
        exact bind_eq_error.2 (.inl looked)
      simp only [failed]
      exact .unbound bound
  | ok left =>
      have looked : m.env.eval (.var target) m.store = .ok left m.store := by
        rw [Environment.eval, bound]
        rfl
      have run (place : Span) : m.env.eval (whole place) m.store =
          (do
            let right ← m.env.eval value
            Eval.orAt place (Operation.binary left right op)) m.store := by
        rw [Environment.eval_binary]
        exact run_bind_of_ok looked
      cases evaluated : m.env.eval value m.store with
      | error e last =>
          have failed (place : Span) : m.env.eval (whole place) m.store = .error e last :=
            (run place).trans (bind_eq_error.2 (.inl evaluated))
          simp only [failed]
          exact .operand bound evaluated
      | ok right mid =>
          have operate (place : Span) := (run place).trans (run_bind_of_ok evaluated)
          cases applied : Operation.binary left right op mid with
          | error e last =>
              have failed (place : Span) :
                  m.env.eval (whole place) m.store = .error (e.placed place) last :=
                (operate place).trans (Operation.orAt_binary_of_error applied place)
              simp only [failed]
              exact .operator bound evaluated applied
          | ok result last =>
              have done (place : Span) : m.env.eval (whole place) m.store = .ok result last := by
                refine (operate place).trans ?_
                simp only [EStateM.run, Eval.orAt, Eval.mapError, applied]
              simp only [done]
              exact .done bound evaluated applied

def BinaryOp.updating : List BinaryOp := [.add, .sub, .mul, .div, .floorDiv, .mod, .pow]

namespace Grammar

theorem updateMark?_of_text {op : BinaryOp} (member : op ∈ BinaryOp.updating) {symbol : Symbol}
    (spelled : symbol.text = op.text ++ "=") : updateMark? op = some symbol := by
  simp only [BinaryOp.updating, List.mem_cons, List.not_mem_nil, or_false] at member
  obtain rfl | rfl | rfl | rfl | rfl | rfl | rfl := member
  all_goals cases symbol <;> first | rfl | exact absurd spelled (by decide)

theorem stmtText_update_iff {name : String} {op : BinaryOp} {symbol : Symbol} {t mark : Token}
    {rest : List Token} {stmt : Stmt} (named : t.kind = .ident name)
    (compound : updateMark? op = some symbol) (spelled : mark.kind = .symbol symbol) :
    StmtText (t :: mark :: rest) stmt ↔
      ∃ ts e stop, rest = ts ++ [stop] ∧ stop.kind = .symbol .semicolon ∧ ExprText .or ts e ∧
        stmt = .update ⟨name, t.span⟩ op e (t.span.merge stop.span) := by
  constructor
  · intro derived
    have other : symbol ≠ .leftParen ∧ symbol ≠ .equal := by
      cases op <;> cases compound <;> decide
    generalize same : t :: mark :: rest = tokens at derived
    cases derived with
    | call named' opened =>
        cases same
        rw [spelled] at opened
        exact absurd (TokenKind.symbol.inj opened) other.1
    | assign named' equal =>
        cases same
        rw [spelled] at equal
        exact absurd (TokenKind.symbol.inj equal) other.2
    | update op' named' compound' spelled' ended value =>
        cases same
        rw [named] at named'
        cases named'
        have first := Parser.updateOperator?_eq_some.2 ⟨symbol, compound, spelled⟩
        rw [Parser.updateOperator?_eq_some.2 ⟨_, compound', spelled'⟩] at first
        cases first
        exact ⟨_, _, _, rfl, ended, value, rfl⟩
    | choose derived =>
        obtain ⟨first, us, last, split, spelled'⟩ := derived.exists_concat
        obtain ⟨rfl, -⟩ := List.cons.inj split
        obtain ⟨rfl, -⟩ := List.cons.inj same
        rw [named] at spelled'
        cases spelled'
    | repeatWhile spelled' | forEach spelled' | print spelled' | leave spelled' =>
        cases same
        rw [named] at spelled'
        cases spelled'
  · rintro ⟨ts, e, stop, rfl, ended, value, rfl⟩
    exact .update op named compound spelled ended value

theorem programText_single_iff {tokens : List Token} {stmt : Stmt} :
    ProgramText tokens [stmt] ↔ StmtText tokens stmt := by
  constructor
  · intro derived
    cases derived with
    | cons derived rest =>
        cases rest with
        | nil => rwa [List.append_nil]
  · intro derived
    have program := StmtsText.cons derived .nil
    rwa [List.append_nil] at program

end Grammar

open Grammar

/-- Updating a variable by an operator does what assigning the operator's expression to it does. The
results are the same, but for the place of an error of the operator: that is the place of the whole
statement or the one of the expression. The grammar and the parser take a text that begins with a name
and the symbol of an update for one by the operator that the symbol spells. -/
theorem Stmt.update_expands :
    (∀ (rounds : Nat) (m : Machine) (target : Name) (op : BinaryOp) (value : Expr)
      (span place whole : Span), ∃ result : Span → EStateM.Result Stop Machine Outcome,
        m.Updates target op value result ∧
        exec rounds (.update target op value span) m = result span ∧
        exec rounds (.assign target (.binary op (.var target) value place) whole) m = result place) ∧
    ∀ op ∈ BinaryOp.updating, ∀ symbol : Symbol, symbol.text = op.text ++ "=" →
      ∀ (t mark : Token) (name : String), t.kind = .ident name → mark.kind = .symbol symbol →
        ∀ (rest : List Token) (stmt : Stmt),
          (StmtText (t :: mark :: rest) stmt ↔
            ∃ ts e stop, rest = ts ++ [stop] ∧ stop.kind = .symbol .semicolon ∧
              ExprText .or ts e ∧ stmt = .update ⟨name, t.span⟩ op e (t.span.merge stop.span)) ∧
          ∀ (last : Token) (source : String), last.kind = .eof → (∀ u ∈ rest, u.kind ≠ .eof) →
            (parse (t :: mark :: rest ++ [last]).toArray source = .ok [stmt] ↔
              StmtText (t :: mark :: rest) stmt) := by
  constructor
  · intro rounds m target op value span place whole
    exact ⟨_, exec_update rounds m target op value, rfl, by rw [exec_assign_binary]⟩
  · intro op member symbol spelled t mark name named marked rest stmt
    refine ⟨stmtText_update_iff named (updateMark?_of_text member spelled) marked, ?_⟩
    intro last source eof only
    have inner : ∀ u ∈ t :: mark :: rest, u.kind ≠ .eof := by
      refine List.forall_mem_cons.2 ⟨?_, List.forall_mem_cons.2 ⟨?_, only⟩⟩
      · rw [named]
        exact nofun
      · rw [marked]
        exact nofun
    rw [parse_ok_iff eof inner, programText_single_iff]

/-- While the operand of `xs *= tanggalan(xs);` is evaluated, the list that is repeated loses its last
element. With another operator the statement fails, and the list has lost the element. -/
theorem Stmt.update_expands_shared :
    ∃ (xs : Name) (value : Expr) (place : Span) (m next last : Machine) (e : EvalError),
      parse #[⟨.ident "xs", ⟨0, 2⟩⟩, ⟨.symbol .starEqual, ⟨3, 5⟩⟩, ⟨.ident "tanggalan", ⟨6, 15⟩⟩,
        ⟨.symbol .leftParen, ⟨15, 16⟩⟩, ⟨.ident "xs", ⟨16, 18⟩⟩, ⟨.symbol .rightParen, ⟨18, 19⟩⟩,
        ⟨.symbol .semicolon, ⟨19, 20⟩⟩, ⟨.eof, ⟨20, 20⟩⟩] "" =
          .ok [.update xs .mul value ⟨0, 20⟩] ∧
      m.env.get? "xs" = some (.list ⟨0⟩) ∧ m.store.heap.lists = #[#[.int 7, .int 2]] ∧
      exec 0 (.update xs .mul value ⟨0, 20⟩) m = .ok .empty next ∧
      exec 0 (.assign xs (.binary .mul (.var xs) value place) ⟨0, 25⟩) m = .ok .empty next ∧
      next.env.get? "xs" = some (.list ⟨1⟩) ∧
      next.store.heap.lists = #[#[.int 7], #[.int 7, .int 7]] ∧
      exec 0 (.update xs .add value ⟨0, 20⟩) m = .error (.error (e.placed ⟨0, 20⟩)) last ∧
      exec 0 (.assign xs (.binary .add (.var xs) value place) ⟨0, 25⟩) m =
        .error (.error (e.placed place)) last ∧
      e.code = .typeMismatch ∧ last.store.heap.lists = #[#[.int 7]] := by
  let xs : Name := ⟨"xs", ⟨0, 2⟩⟩
  let value : Expr := .call ⟨"tanggalan", ⟨6, 15⟩⟩ [.var ⟨"xs", ⟨16, 18⟩⟩] ⟨6, 19⟩
  let m : Machine := ⟨⟨[("xs", .list ⟨0⟩)], .standard⟩, { heap := ⟨#[#[.int 7, .int 2]]⟩ }⟩
  let next : Machine :=
    ⟨⟨[("xs", .list ⟨1⟩)], .standard⟩, { heap := ⟨#[#[.int 7], #[.int 7, .int 7]]⟩ }⟩
  let last : Machine := ⟨m.env, { heap := ⟨#[#[.int 7]]⟩ }⟩
  let e : EvalError := { cause := .invalidBinary "[7]" .add "2" .list .int }
  have loosen {ts : List Token} {e : Expr} (primary : ExprText .primary ts e) : ExprText .or ts e :=
    .tighter rfl <| .tighter rfl <| .tighter rfl <| .tighter rfl <| .tighter rfl <| .tighter rfl <|
      .tighter rfl <| .tighter rfl primary
  have argument : ListText [⟨.ident "xs", ⟨16, 18⟩⟩] [.var ⟨"xs", ⟨16, 18⟩⟩] :=
    .some (.one (loosen (.var rfl)))
  have derived : ExprText .or
      [⟨.ident "tanggalan", ⟨6, 15⟩⟩, ⟨.symbol .leftParen, ⟨15, 16⟩⟩, ⟨.ident "xs", ⟨16, 18⟩⟩,
        ⟨.symbol .rightParen, ⟨18, 19⟩⟩] value :=
    loosen (@ExprText.call "tanggalan" ⟨.ident "tanggalan", ⟨6, 15⟩⟩ ⟨.symbol .leftParen, ⟨15, 16⟩⟩
      ⟨.symbol .rightParen, ⟨18, 19⟩⟩ _ _ rfl rfl rfl argument)
  obtain ⟨runs, texts⟩ := Stmt.update_expands
  obtain ⟨text, parses⟩ := texts .mul (by decide) .starEqual (by decide) ⟨.ident "xs", ⟨0, 2⟩⟩
    ⟨.symbol .starEqual, ⟨3, 5⟩⟩ "xs" rfl rfl
    [⟨.ident "tanggalan", ⟨6, 15⟩⟩, ⟨.symbol .leftParen, ⟨15, 16⟩⟩, ⟨.ident "xs", ⟨16, 18⟩⟩,
      ⟨.symbol .rightParen, ⟨18, 19⟩⟩, ⟨.symbol .semicolon, ⟨19, 20⟩⟩] (.update xs .mul value ⟨0, 20⟩)
  have parsed := (parses ⟨.eof, ⟨20, 20⟩⟩ "" rfl (by decide)).2
    (text.2 ⟨_, value, ⟨.symbol .semicolon, ⟨19, 20⟩⟩, rfl, rfl, derived, rfl⟩)
  have repeated : exec 0 (.update xs .mul value ⟨0, 20⟩) m = .ok .empty next := by
    with_unfolding_all rfl
  have refused : exec 0 (.update xs .add value ⟨0, 20⟩) m =
      .error (.error (e.placed ⟨0, 20⟩)) last := by
    with_unfolding_all rfl
  obtain ⟨result, updates, first, second⟩ := runs 0 m xs .mul value ⟨0, 20⟩ ⟨5, 24⟩ ⟨0, 25⟩
  rw [repeated] at first
  have expanded : exec 0 (.assign xs (.binary .mul (.var xs) value ⟨5, 24⟩) ⟨0, 25⟩) m =
      .ok .empty next := by
    cases updates with
    | done => exact second.trans first.symm
    | unbound | operand | operator => cases first
  refine ⟨xs, value, ⟨5, 24⟩, m, next, last, e, parsed, rfl, rfl, repeated, expanded, rfl, rfl, refused,
    ?_, rfl, rfl⟩
  with_unfolding_all rfl

end Salita
