import Salita.Interpreter.Statement
import Salita.Proofs.Builtin.Composition
import Salita.Proofs.Computation
import Salita.Proofs.Syntax.Relocation

namespace Salita

def EvalError.relocate (move : Span → Span) (e : EvalError) : EvalError :=
  { e with span := e.span.map move }

def Stop.relocate (move : Span → Span) : Stop → Stop
  | .error e => .error (e.relocate move)
  | .outOfRounds => .outOfRounds

section
variable {move : Span → Span} {α : Type}

theorem Composed.relocate_eq {changes : Bool} {x : Eval α} (composed : Composed changes x) :
    mapFailure (EvalError.relocate move) x = x := by
  apply mapFailure_eq_self
  intro s e s' failed
  have unplaced := (composed.fails_bare s e s' failed).unplaced
  rw [EvalError.relocate, unplaced, Option.map_none, ← unplaced]

@[simp] theorem relocate_newList (items : Array Value) :
    mapFailure (EvalError.relocate move) (Eval.newList items) = Eval.newList items :=
  (@Composed.newList false items).relocate_eq

@[simp] theorem relocate_isTrue (value : Value) :
    mapFailure (EvalError.relocate move) (Eval.isTrue value) = Eval.isTrue value :=
  (@Composed.isTrue false value).relocate_eq

@[simp] theorem relocate_binary (left right : Value) (op : BinaryOp) :
    mapFailure (EvalError.relocate move) (Operation.binary left right op) =
      Operation.binary left right op :=
  (@Composed.binary false left right op).relocate_eq

@[simp] theorem relocate_unary (operand : Value) (op : UnaryOp) :
    mapFailure (EvalError.relocate move) (Operation.unary operand op) =
      Operation.unary operand op :=
  (@Composed.unary false operand op).relocate_eq

@[simp] theorem relocate_call (f : Native) (args : List Value) :
    mapFailure (EvalError.relocate move) (f.call args) = f.call args :=
  (f.composed_call args).relocate_eq

@[simp] theorem relocate_orAt (span : Span) (x : Eval α) :
    mapFailure (EvalError.relocate move) (Eval.orAt span x) =
      Eval.orAt (move span) (mapFailure (EvalError.relocate move) x) := by
  funext s
  simp only [mapFailure, Eval.orAt, Eval.mapError]
  cases x s with
  | ok a s' => rfl
  | error e s' =>
      cases place : e.span <;> simp [EvalError.relocate, EvalError.orAt, place]

@[simp] theorem relocate_placed (span : Span) (x : Eval α) :
    mapFailure (EvalError.relocate move) (Eval.placed span x) = Eval.placed (move span) x := by
  funext s
  simp only [mapFailure, Eval.placed, Eval.mapError]
  cases x s <;> rfl

@[simp] theorem relocate_found (span : Span) (result : Except EvalError α) :
    mapFailure (EvalError.relocate move) (Environment.found span result) =
      Environment.found (move span) result := by
  funext s
  cases result <;> rfl

end

section
variable {move : Span → Span} {env : Environment}

@[simp] theorem relocate_invoke (target : Name) (span : Span) (args : Eval (List Value)) :
    mapFailure (EvalError.relocate move) (env.invoke target span args) =
      env.invoke (target.relocate move) (move span) (mapFailure (EvalError.relocate move) args) := by
  simp only [Environment.invoke, relocate_orAt, mapFailure_bind, relocate_found, relocate_call]
  rfl

mutual

theorem eval_relocate :
    ∀ e : Expr, env.eval (e.relocate move) = mapFailure (EvalError.relocate move) (env.eval e)
  | .literal value span => rfl
  | .var name => by
      simp only [Expr.relocate, Environment.eval, relocate_found]
      rfl
  | .list items span => by
      simp only [Expr.relocate, Environment.eval, relocate_orAt, mapFailure_bind,
        evalAll_relocate items, relocate_newList]
  | .binary op left right span => by
      simp only [Expr.relocate, Environment.eval, relocate_orAt, mapFailure_bind,
        eval_relocate left, eval_relocate right, relocate_binary]
  | .unary op operand span => by
      simp only [Expr.relocate, Environment.eval, relocate_orAt, mapFailure_bind,
        eval_relocate operand, relocate_unary]
  | .index target position span => by
      simp only [Expr.relocate, Environment.eval, relocate_orAt, mapFailure_bind, relocate_found,
        eval_relocate position, Expr.span_relocate]
      congr 2
      funext value
      cases value <;> simp [Name.relocate]
  | .call target args span => by
      simp only [Expr.relocate, Environment.eval, relocate_invoke, evalAll_relocate args]

theorem evalAll_relocate :
    ∀ es : List Expr, env.evalAll (Expr.relocateAll move es) =
      mapFailure (EvalError.relocate move) (env.evalAll es)
  | [] => rfl
  | e :: rest => by
      simp only [Expr.relocateAll, Environment.evalAll, mapFailure_bind, mapFailure_pure,
        eval_relocate e, evalAll_relocate rest]

end

end

section
variable {move : Span → Span} {α : Type}

@[simp] theorem relocate_ofEval (x : Environment → Eval α) :
    mapFailure (Stop.relocate move) (Exec.ofEval x) =
      Exec.ofEval fun env => mapFailure (EvalError.relocate move) (x env) := by
  funext m
  simp only [mapFailure, Exec.ofEval]
  cases x m.env m.store <;> rfl

@[simp] theorem relocate_eval (e : Expr) :
    mapFailure (Stop.relocate move) (Exec.eval e) = Exec.eval (e.relocate move) := by
  simp only [Exec.eval, relocate_ofEval, eval_relocate]

@[simp] theorem relocate_holds (e : Expr) :
    mapFailure (Stop.relocate move) (Exec.holds e) = Exec.holds (e.relocate move) := by
  simp only [Exec.holds, mapFailure_bind, relocate_eval, relocate_ofEval, relocate_isTrue]

@[simp] theorem relocate_bound (e : Expr) :
    mapFailure (Stop.relocate move) (Exec.bound e) = Exec.bound (e.relocate move) := by
  simp only [Exec.bound, mapFailure_bind, relocate_eval, Expr.span_relocate]
  congr 1
  funext value
  cases value <;> simp

@[simp] theorem relocate_bind (name : String) (value : Value) :
    mapFailure (Stop.relocate move) (Exec.bind name value) = Exec.bind name value := rfl

@[simp] theorem relocate_thenErase (name : String) (x : Exec α) :
    mapFailure (Stop.relocate move) (Exec.thenErase name x) =
      Exec.thenErase name (mapFailure (Stop.relocate move) x) := by
  funext m
  simp only [mapFailure, Exec.thenErase]
  cases x m <;> rfl

@[simp] theorem relocate_repeatWhile (step : Exec Bool) (rounds : Nat) :
    mapFailure (Stop.relocate move) (Exec.repeatWhile step rounds) =
      Exec.repeatWhile (mapFailure (Stop.relocate move) step) rounds := by
  induction rounds with
  | zero => rfl
  | succ rounds ih =>
      simp only [Exec.repeatWhile, mapFailure_bind]
      congr 1
      funext again
      cases again
      · rfl
      · exact ih

@[simp] theorem relocate_forEach (step : Int → Exec Bool) (count : Nat) (i : Int) :
    mapFailure (Stop.relocate move) (Exec.forEach step count i) =
      Exec.forEach (fun i => mapFailure (Stop.relocate move) (step i)) count i := by
  induction count generalizing i with
  | zero => rfl
  | succ count ih =>
      simp only [Exec.forEach, mapFailure_bind]
      congr 1
      funext again
      cases again
      · rfl
      · exact ih (i + 1)

variable {rounds : Nat}

mutual

theorem Stmt.exec_relocate : ∀ stmt : Stmt,
    (stmt.relocate move).exec rounds = mapFailure (Stop.relocate move) (stmt.exec rounds)
  | .assign target value span => by
      simp only [Stmt.relocate, Stmt.exec, mapFailure_bind, mapFailure_pure, relocate_eval,
        relocate_bind]
      rfl
  | .update target op value span => by
      simp only [Stmt.relocate, Stmt.exec, mapFailure_bind, mapFailure_pure, relocate_ofEval,
        relocate_found, relocate_eval, relocate_orAt, relocate_binary, relocate_bind]
      rfl
  | .choose choice span => choice.exec_relocate
  | .repeatWhile cond body span => by
      simp only [Stmt.relocate, Stmt.exec, mapFailure_bind, mapFailure_pure, relocate_repeatWhile,
        relocate_holds, body.exec_relocate]
      congr 3
      funext holds
      cases holds
      · rfl
      · simp only [if_true, mapFailure_bind, mapFailure_pure]
  | .forEach var first last body span => by
      simp only [Stmt.relocate, Stmt.exec, mapFailure_bind, mapFailure_pure, relocate_bound,
        relocate_thenErase, relocate_forEach, relocate_bind, body.exec_relocate]
      rfl
  | .print args span => by
      have print (values : List Value) :
          mapFailure (EvalError.relocate move) (do
            let heap ← Eval.heap
            Eval.print (" ".intercalate (values.map heap.text) ++ "\n")) = (do
            let heap ← Eval.heap
            Eval.print (" ".intercalate (values.map heap.text) ++ "\n")) :=
        (@Composed.bind false _ _ _ _ .heap fun heap => .print _).relocate_eq
      simp only [Stmt.relocate, Stmt.exec, mapFailure_bind, mapFailure_pure, relocate_ofEval,
        evalAll_relocate]
      simp only [mapFailure_bind] at print
      simp only [print]
  | .leave span => rfl
  | .call target args span => by
      simp only [Stmt.relocate, Stmt.exec, mapFailure_bind, mapFailure_pure, relocate_ofEval,
        relocate_invoke, evalAll_relocate]

theorem Choice.exec_relocate : ∀ choice : Choice,
    (choice.relocate move).exec rounds = mapFailure (Stop.relocate move) (choice.exec rounds)
  | .mk cond block otherwise => by
      simp only [Choice.relocate, Choice.exec, mapFailure_bind, relocate_holds]
      congr 1
      funext holds
      cases holds
      · exact otherwise.exec_relocate
      · exact block.exec_relocate

theorem Otherwise.exec_relocate : ∀ otherwise : Otherwise,
    (otherwise.relocate move).exec rounds = mapFailure (Stop.relocate move) (otherwise.exec rounds)
  | .nothing => rfl
  | .block block => block.exec_relocate
  | .choice choice => choice.exec_relocate

theorem Block.exec_relocate : ∀ block : Block,
    (block.relocate move).exec rounds = mapFailure (Stop.relocate move) (block.exec rounds)
  | .mk stmts _ => execAll_relocate stmts

theorem execAll_relocate : ∀ stmts : List Stmt,
    execAll rounds (Program.relocate move stmts) =
      mapFailure (Stop.relocate move) (execAll rounds stmts)
  | [] => rfl
  | stmt :: rest => by
      simp only [Program.relocate, execAll, mapFailure_bind, stmt.exec_relocate]
      congr 1
      funext outcome
      split
      · rfl
      · exact execAll_relocate rest

end

theorem Program.run_relocate (program : Program) :
    Program.run rounds (Program.relocate move program) =
      mapFailure (Stop.relocate move) (program.run rounds) := by
  induction program with
  | nil => rfl
  | cons stmt rest ih =>
      simp only [Program.relocate, Program.run, mapFailure_bind, stmt.exec_relocate, ih]

theorem Program.run_append (first second : Program) :
    Program.run rounds (first ++ second) =
      Program.run rounds first >>= fun _ => Program.run rounds second := by
  induction first with
  | nil => rfl
  | cons stmt rest ih =>
      simp only [List.cons_append, Program.run, bind_assoc, ih]

end

end Salita
