import Salita.Interpreter.Statement
import Salita.Proofs.Builtin.Composition
import Salita.Proofs.Interpreter.Simulation

namespace Salita

section
variable (r : String → String)

/-! ## Programs with other names -/

def Name.rename (name : Name) : Name := ⟨r name.text, name.span⟩

mutual

def Expr.rename : Expr → Expr
  | .literal value span => .literal value span
  | .var name => .var (name.rename r)
  | .list items span => .list (Expr.renameAll items) span
  | .binary op left right span => .binary op left.rename right.rename span
  | .unary op operand span => .unary op operand.rename span
  | .index target position span => .index (target.rename r) position.rename span
  | .call target args span => .call target (Expr.renameAll args) span

def Expr.renameAll : List Expr → List Expr
  | [] => []
  | e :: rest => e.rename :: Expr.renameAll rest

end

mutual

def Stmt.rename : Stmt → Stmt
  | .assign target value span => .assign (target.rename r) (value.rename r) span
  | .update target op value span => .update (target.rename r) op (value.rename r) span
  | .choose choice span => .choose choice.rename span
  | .repeatWhile cond body span => .repeatWhile (cond.rename r) body.rename span
  | .forEach var first last body span =>
      .forEach (var.rename r) (first.rename r) (last.rename r) body.rename span
  | .print args span => .print (Expr.renameAll r args) span
  | .leave span => .leave span
  | .call target args span => .call target (Expr.renameAll r args) span

def Choice.rename : Choice → Choice
  | .mk cond block otherwise => .mk (cond.rename r) block.rename otherwise.rename

def Otherwise.rename : Otherwise → Otherwise
  | .nothing => .nothing
  | .block block => .block block.rename
  | .choice choice => .choice choice.rename

def Block.rename : Block → Block
  | .mk stmts span => .mk (Program.rename stmts) span

def Program.rename : Program → Program
  | [] => []
  | stmt :: rest => stmt.rename :: Program.rename rest

end

theorem Expr.span_rename (e : Expr) : (e.rename r).span = e.span := by
  cases e <;> rfl

/-! ## Machines with other names -/

def Environment.rename (env : Environment) : Environment :=
  { env with bindings := env.bindings.map fun binding => (r binding.1, binding.2) }

def Machine.rename (m : Machine) : Machine := ⟨m.env.rename r, m.store⟩

def Cause.rename : Cause → Cause
  | .undefinedName name .vars => .undefinedName (r name) .vars
  | .notSubscriptable name type => .notSubscriptable (r name) type
  | cause => cause

/-- The same error up to the name of a variable. The help for a variable that is not defined may
differ. -/
structure EvalError.Renamed (e e' : EvalError) : Prop where
  cause : e'.cause = e.cause.rename r
  span : e'.span = e.span
  help : (∀ name, e.cause ≠ .undefinedName name .vars) → e'.help = e.help

inductive Stop.Renamed : Stop → Stop → Prop
  | error {e e' : EvalError} (renamed : e.Renamed r e') : Renamed (.error e) (.error e')
  | outOfRounds : Renamed .outOfRounds .outOfRounds

end

section
variable {r : String → String}

theorem Cause.rename_eq_self {cause : Cause} (nameless : cause.variable? = none) :
    cause.rename r = cause := by
  unfold Cause.rename
  split
  · cases nameless
  · cases nameless
  · rfl

theorem EvalError.Renamed.refl {e : EvalError} (nameless : e.cause.variable? = none) :
    e.Renamed r e := ⟨(Cause.rename_eq_self nameless).symm, rfl, fun _ => rfl⟩

theorem EvalError.Renamed.orAt {e e' : EvalError} (renamed : e.Renamed r e') (span : Span) :
    (e.orAt span).Renamed r (e'.orAt span) := by
  refine ⟨renamed.cause, ?_, renamed.help⟩
  simp only [EvalError.orAt, renamed.span]

theorem EvalError.Renamed.placed {e e' : EvalError} (renamed : e.Renamed r e') (span : Span) :
    (e.placed span).Renamed r (e'.placed span) := ⟨renamed.cause, rfl, renamed.help⟩

namespace Environment

theorem get?_rename (injective : Function.Injective r) (env : Environment) (name : String) :
    (env.rename r).get? (r name) = env.get? name := by
  have same (key : String) : (r name == r key) = (name == key) := by
    rw [Bool.eq_iff_iff, beq_iff_eq, beq_iff_eq]
    exact ⟨@injective name key, congrArg r⟩
  simp only [get?, rename]
  induction env.bindings with
  | nil => rfl
  | cons binding rest ih =>
      obtain ⟨key, value⟩ := binding
      rw [List.map_cons, List.lookup_cons, List.lookup_cons, same, ih]

theorem set_rename (injective : Function.Injective r) (env : Environment) (name : String)
    (value : Value) : (env.rename r).set (r name) value = (env.set name value).rename r := by
  simp only [set, rename, mk.injEq, and_true]
  induction env.bindings with
  | nil => rfl
  | cons binding rest ih =>
      obtain ⟨key, old⟩ := binding
      by_cases same : key = name
      · subst same
        simp only [List.map_cons, bind, if_true]
      · have distinct : r key ≠ r name := fun equal => same (injective equal)
        simp only [List.map_cons, bind, if_neg same, if_neg distinct, ih]

theorem erase_rename (injective : Function.Injective r) (env : Environment) (name : String) :
    (env.rename r).erase (r name) = (env.erase name).rename r := by
  simp only [erase, rename, List.filter_map, mk.injEq, and_true]
  congr 2
  funext binding
  have same : r binding.1 = r name ↔ binding.1 = name := ⟨@injective _ _, congrArg r⟩
  simp [same]

end Environment

/-! ## Expressions -/

abbrev SameEval (r : String → String) {α : Type} (x y : Eval α) : Prop :=
  Simulates (· = ·) (EvalError.Renamed r) x y

theorem Composed.sameEval {changes : Bool} {α : Type} {x : Eval α} (composed : Composed changes x) :
    SameEval r x x := by
  rintro s _ rfl
  cases result : x s with
  | ok a s' => exact .ok a rfl
  | error e s' => exact .error (.refl (composed.fails_bare s e s' result).nameless) rfl

section
variable {env : Environment}

theorem sameEval_variable (injective : Function.Injective r) (name : Name) :
    SameEval r (Environment.found name.span (env.valueOf name.text))
      (Environment.found (name.rename r).span ((env.rename r).valueOf (name.rename r).text)) := by
  rintro s _ rfl
  simp only [Environment.valueOf, Name.rename, Environment.get?_rename injective]
  cases env.get? name.text with
  | some value => exact .ok value rfl
  | none => exact .error ⟨rfl, rfl, fun other => absurd rfl (other name.text)⟩ rfl

theorem sameEval_function (span : Span) (name : String) :
    SameEval r (Environment.found span (env.functionOf name))
      (Environment.found span ((env.rename r).functionOf name)) := by
  rintro s _ rfl
  simp only [Environment.functionOf, Environment.rename]
  cases env.functions.get? name with
  | some f => exact .ok f rfl
  | none => exact .error (.refl rfl) rfl

theorem sameEval_invoke {args args' : Eval (List Value)} (target : Name) (span : Span)
    (same : SameEval r args args') :
    SameEval r (env.invoke target span args) ((env.rename r).invoke target span args') := by
  refine .mapError (·.orAt span) (.bind (sameEval_function target.span target.text) fun f => ?_)
  exact .bind same fun values => (f.composed_call values).sameEval

mutual

theorem sameEval_eval (injective : Function.Injective r) :
    ∀ e : Expr, SameEval r (env.eval e) ((env.rename r).eval (e.rename r))
  | .literal value span => .pure _
  | .var name => sameEval_variable injective name
  | .list items span => by
      refine .mapError (·.orAt span) (.bind (sameEval_evalAll injective items) fun values => ?_)
      exact (@Composed.newList false values.toArray).sameEval
  | .binary op left right span => by
      refine .mapError (·.orAt span) (.bind (sameEval_eval injective left) fun left => ?_)
      refine .bind (sameEval_eval injective right) fun right => ?_
      exact (@Composed.binary false left right op).sameEval
  | .unary op operand span => by
      refine .mapError (·.orAt span) (.bind (sameEval_eval injective operand) fun operand => ?_)
      exact (@Composed.unary false operand op).sameEval
  | .index target position span => by
      refine .mapError (·.orAt span) (.bind (sameEval_variable injective target) fun value => ?_)
      cases value with
      | list id =>
          refine .bind (sameEval_eval injective position) fun value => ?_
          rw [Expr.span_rename]
          exact .mapError (·.placed position.span) (@Composed.get false id value).sameEval
      | _ =>
          rintro s _ rfl
          exact .error ⟨rfl, rfl, fun _ => rfl⟩ rfl
  | .call target args span => sameEval_invoke target span (sameEval_evalAll injective args)

theorem sameEval_evalAll (injective : Function.Injective r) :
    ∀ es : List Expr, SameEval r (env.evalAll es) ((env.rename r).evalAll (Expr.renameAll r es))
  | [] => .pure _
  | e :: rest => by
      refine .bind (sameEval_eval injective e) fun value => ?_
      exact .bind (sameEval_evalAll injective rest) fun values => .pure _

end

end

/-! ## Statements -/

abbrev SameExec (r : String → String) {α : Type} (x y : Exec α) : Prop :=
  Simulates (fun m n => n = m.rename r) (Stop.Renamed r) x y

section
variable {α : Type}

theorem sameExec_ofEval {x y : Environment → Eval α}
    (same : ∀ env, SameEval r (x env) (y (env.rename r))) :
    SameExec r (Exec.ofEval x) (Exec.ofEval y) := by
  rintro ⟨env, store⟩ _ rfl
  have alike := same env store store rfl
  simp only [Exec.ofEval, Machine.rename]
  generalize x env store = left at alike
  generalize y (env.rename r) store = right at alike
  cases alike with
  | ok a states =>
      subst states
      exact .ok a rfl
  | error renamed states =>
      subst states
      exact .error (.error renamed) rfl

theorem sameExec_eval (injective : Function.Injective r) (e : Expr) :
    SameExec r (Exec.eval e) (Exec.eval (e.rename r)) :=
  sameExec_ofEval fun _ => sameEval_eval injective e

theorem sameExec_holds (injective : Function.Injective r) (e : Expr) :
    SameExec r (Exec.holds e) (Exec.holds (e.rename r)) := by
  refine .bind (sameExec_eval injective e) fun value => ?_
  exact sameExec_ofEval fun _ => (@Composed.isTrue false value).sameEval

theorem sameExec_bound (injective : Function.Injective r) (e : Expr) :
    SameExec r (Exec.bound e) (Exec.bound (e.rename r)) := by
  refine .bind (sameExec_eval injective e) fun value => ?_
  rw [Expr.span_rename]
  cases value with
  | int n => exact .pure _
  | _ =>
      refine sameExec_ofEval fun _ => .mapError (·.placed e.span) ?_
      exact .bind (@Composed.textOf false _).sameEval fun text =>
        (@Composed.fail false _ _ rfl).sameEval

theorem sameExec_bind (injective : Function.Injective r) (name : String) (value : Value) :
    SameExec r (Exec.bind name value) (Exec.bind (r name) value) := by
  rintro m _ rfl
  apply Alike.ok
  simp only [Machine.rename, Environment.set_rename injective]

theorem sameExec_thenErase (injective : Function.Injective r) (name : String) {x y : Exec α}
    (same : SameExec r x y) :
    SameExec r (Exec.thenErase name x) (Exec.thenErase (r name) y) := by
  rintro m _ rfl
  have alike := same m _ rfl
  simp only [Exec.thenErase]
  generalize x m = left at alike
  generalize y (m.rename r) = right at alike
  cases alike with
  | ok a states =>
      subst states
      apply Alike.ok
      simp only [Machine.rename, Environment.erase_rename injective]
  | error renamed states =>
      subst states
      apply Alike.error renamed
      simp only [Machine.rename, Environment.erase_rename injective]

end

section
variable {rounds : Nat}

mutual

theorem Stmt.sameExec (injective : Function.Injective r) :
    ∀ stmt : Stmt, SameExec r (stmt.exec rounds) ((stmt.rename r).exec rounds)
  | .assign target value span => by
      refine .bind (sameExec_eval injective value) fun value => ?_
      exact .bind (sameExec_bind injective target.text value) fun _ => .pure _
  | .update target op value span => by
      refine .bind (sameExec_ofEval fun _ => sameEval_variable injective target) fun current => ?_
      refine .bind (sameExec_eval injective value) fun value => ?_
      refine .bind (sameExec_ofEval fun _ =>
        .mapError (·.orAt span) (@Composed.binary false current value op).sameEval) fun result => ?_
      exact .bind (sameExec_bind injective target.text result) fun _ => .pure _
  | .choose choice span => choice.sameExec injective
  | .repeatWhile cond body span => by
      refine .bind (.repeatWhile (.bind (sameExec_holds injective cond) fun holds => ?_)
        .outOfRounds rounds) fun _ => .pure _
      cases holds with
      | false => exact .pure _
      | true => exact .bind (body.sameExec injective) fun _ => .pure _
  | .forEach var first last body span => by
      refine .bind (sameExec_bound injective first) fun first => ?_
      refine .bind (sameExec_bound injective last) fun last => ?_
      refine .bind (sameExec_thenErase injective var.text (.forEach (fun i => ?_) _ _)) fun _ =>
        .pure _
      refine .bind (sameExec_bind injective var.text _) fun _ => ?_
      exact .bind (body.sameExec injective) fun _ => .pure _
  | .print args span => by
      refine .bind (sameExec_ofEval fun _ =>
        .bind (sameEval_evalAll injective args) fun values => ?_) fun _ => .pure _
      exact (@Composed.bind false _ _ _ _ .heap fun heap => .print _).sameEval
  | .leave span => .pure _
  | .call target args span => by
      refine .bind (sameExec_ofEval fun _ => ?_) fun value => .pure _
      exact sameEval_invoke target span (sameEval_evalAll injective args)

theorem Choice.sameExec (injective : Function.Injective r) :
    ∀ choice : Choice, SameExec r (choice.exec rounds) ((choice.rename r).exec rounds)
  | .mk cond block otherwise => by
      refine .bind (sameExec_holds injective cond) fun holds => ?_
      cases holds with
      | false => exact otherwise.sameExec injective
      | true => exact block.sameExec injective

theorem Otherwise.sameExec (injective : Function.Injective r) :
    ∀ otherwise : Otherwise, SameExec r (otherwise.exec rounds) ((otherwise.rename r).exec rounds)
  | .nothing => .pure _
  | .block block => block.sameExec injective
  | .choice choice => choice.sameExec injective

theorem Block.sameExec (injective : Function.Injective r) :
    ∀ block : Block, SameExec r (block.exec rounds) ((block.rename r).exec rounds)
  | .mk stmts _ => sameExec_execAll injective stmts

theorem sameExec_execAll (injective : Function.Injective r) :
    ∀ stmts : List Stmt, SameExec r (execAll rounds stmts) (execAll rounds (Program.rename r stmts))
  | [] => .pure _
  | stmt :: rest => by
      refine .bind (stmt.sameExec injective) fun outcome => ?_
      split
      · exact .pure _
      · exact sameExec_execAll injective rest

end

theorem Program.sameExec (injective : Function.Injective r) (program : Program) :
    SameExec r (program.run rounds) ((program.rename r).run rounds) := by
  induction program with
  | nil => exact .pure ()
  | cons stmt rest ih => exact .bind (stmt.sameExec injective) fun _ => ih

/-- A program with its variables renamed, on a machine with its variables renamed, does what the
program does: the variables at its end are renamed, all else is the same, and so is its error up to
the name of a variable. -/
theorem Program.run_rename (injective : Function.Injective r) (program : Program) (m : Machine) :
    Alike (fun last next => next = last.rename r) (Stop.Renamed r) (program.run rounds m)
      ((program.rename r).run rounds (m.rename r)) :=
  program.sameExec injective m (m.rename r) rfl

end

theorem Program.run_rename_haba :
    ∃ (r : String → String) (program : Program) (last : Machine) (e : EvalError),
      Function.Injective r ∧ r "x" = "haba" ∧
      program.rename r =
        [.assign ⟨"haba", ⟨0, 1⟩⟩ (.call ⟨"haba", ⟨4, 8⟩⟩ [.list [] ⟨9, 11⟩] ⟨4, 12⟩) ⟨0, 13⟩,
          .assign ⟨"y", ⟨13, 14⟩⟩
            (.index ⟨"haba", ⟨17, 18⟩⟩ (.literal (.int 0) ⟨19, 20⟩) ⟨17, 21⟩) ⟨13, 22⟩] ∧
      program.run 1 ⟨⟨[], .standard⟩, {}⟩ =
        .error (.error { cause := .notSubscriptable "x" .int, span := some ⟨17, 18⟩ }) last ∧
      last.env.bindings = [("x", .int 0)] ∧
      (program.rename r).run 1 ⟨⟨[], .standard⟩, {}⟩ = .error (.error e) (last.rename r) ∧
      e.cause = .notSubscriptable "haba" .int ∧ e.span = some ⟨17, 18⟩ := by
  let r (name : String) : String :=
    if name = "x" then "haba" else if name = "haba" then "x" else name
  have involutive (name : String) : r (r name) = name := by
    by_cases first : name = "x"
    · rw [first]
      rfl
    · by_cases second : name = "haba"
      · rw [second]
        rfl
      · simp only [r, if_neg first, if_neg second]
  have injective : Function.Injective r := by
    intro a b same
    rw [← involutive a, same, involutive b]
  let program : Program :=
    [.assign ⟨"x", ⟨0, 1⟩⟩ (.call ⟨"haba", ⟨4, 8⟩⟩ [.list [] ⟨9, 11⟩] ⟨4, 12⟩) ⟨0, 13⟩,
      .assign ⟨"y", ⟨13, 14⟩⟩
        (.index ⟨"x", ⟨17, 18⟩⟩ (.literal (.int 0) ⟨19, 20⟩) ⟨17, 21⟩) ⟨13, 22⟩]
  obtain ⟨last, failed, bindings⟩ : ∃ last : Machine, program.run 1 ⟨⟨[], .standard⟩, {}⟩ =
      .error (.error { cause := .notSubscriptable "x" .int, span := some ⟨17, 18⟩ }) last ∧
      last.env.bindings = [("x", .int 0)] := ⟨_, rfl, rfl⟩
  have alike := @Program.run_rename r 1 injective program ⟨⟨[], .standard⟩, {}⟩
  rw [failed] at alike
  generalize result : (program.rename r).run 1 _ = right at alike
  cases alike with
  | error renamed states =>
      subst states
      cases renamed with
      | error same =>
          exact ⟨r, program, last, _, injective, rfl, rfl, failed, bindings, result, same.cause,
            same.span⟩

end

end Salita
