import Salita.Interpreter.Statement
import Salita.Proofs.Builtin.Composition
import Salita.Proofs.Computation
import Salita.Proofs.Syntax.Spans

namespace Salita

/-- A computation on the store that is composed of the steps of evaluations. Its errors are put at
spans that `P` allows. -/
inductive Evaluation (P : Span → Prop) : {α : Type} → Eval α → Prop
  | pure {α : Type} (a : α) : Evaluation P (Pure.pure a)
  | bind {α β : Type} {x : Eval α} {f : α → Eval β} (first : Evaluation P x)
      (next : ∀ a, Evaluation P (f a)) : Evaluation P (x >>= f)
  | heap : Evaluation P Eval.heap
  | print (text : String) : Evaluation P (Eval.print text)
  | found {α : Type} {span : Span} (allowed : P span) (result : Except EvalError α) :
      Evaluation P (Environment.found span result)
  | placed {changes : Bool} {α : Type} {span : Span} {x : Eval α} (allowed : P span)
      (composed : Composed changes x) : Evaluation P (Eval.placed span x)
  | fail {α : Type} {span : Span} (allowed : P span) (cause : Cause) :
      Evaluation P (Eval.placed span (Eval.fail cause : Eval α))
  | step {changes : Bool} {α : Type} {span : Span} {x : Eval α} (allowed : P span)
      (composed : Composed changes x) : Evaluation P (Eval.orAt span x)
  | orAt {α : Type} {x : Eval α} (span : Span) (evaluation : Evaluation P x) :
      Evaluation P (Eval.orAt span x)

theorem Eval.orAt_bind {α β : Type} (span : Span) (x : Eval α) (f : α → Eval β) :
    Eval.orAt span (x >>= f) = Eval.orAt span x >>= fun a => Eval.orAt span (f a) := by
  funext s
  simp only [Eval.orAt, Eval.mapError, Bind.bind, EStateM.bind]
  cases x s <;> rfl

section
variable {P : Span → Prop}

theorem Evaluation.invoke {env : Environment} {target : Name} {span : Span}
    {args : Eval (List Value)} (name : P target.span) (whole : P span)
    (evaluation : Evaluation P args) : Evaluation P (env.invoke target span args) := by
  simp only [Environment.invoke, Eval.orAt_bind]
  refine .bind (.orAt span (.found name _)) fun f => ?_
  exact .bind (.orAt span evaluation) fun values => .step whole (f.composed_call values)

mutual

theorem Evaluation.eval {env : Environment} :
    ∀ {e : Expr}, (∀ span ∈ e.spans, P span) → Evaluation P (env.eval e)
  | .literal value span, _ => .pure _
  | .var name, allowed => .found (allowed _ List.mem_cons_self) _
  | .list items span, allowed => by
      simp only [Expr.spans, List.forall_mem_cons] at allowed
      simp only [Environment.eval, Eval.orAt_bind]
      refine .bind (.orAt span (.evalAll allowed.2)) fun values => ?_
      exact .step allowed.1 (@Composed.newList false values.toArray)
  | .binary op left right span, allowed => by
      simp only [Expr.spans, List.forall_mem_cons, List.forall_mem_append] at allowed
      simp only [Environment.eval, Eval.orAt_bind]
      refine .bind (.orAt span (.eval allowed.2.1)) fun left => ?_
      refine .bind (.orAt span (.eval allowed.2.2)) fun right => ?_
      exact .step allowed.1 (@Composed.binary false left right op)
  | .unary op operand span, allowed => by
      simp only [Expr.spans, List.forall_mem_cons] at allowed
      simp only [Environment.eval, Eval.orAt_bind]
      refine .bind (.orAt span (.eval allowed.2)) fun operand => ?_
      exact .step allowed.1 (@Composed.unary false operand op)
  | .index target position span, allowed => by
      simp only [Expr.spans, List.forall_mem_cons] at allowed
      obtain ⟨whole, name, inner⟩ := allowed
      simp only [Environment.eval, Eval.orAt_bind]
      refine .bind (.orAt span (.found name _)) fun value => ?_
      cases value with
      | list id =>
          simp only [Eval.orAt_bind]
          refine .bind (.orAt span (.eval inner)) fun value => .orAt span ?_
          exact .placed (inner _ position.span_mem_spans) (@Composed.get false id value)
      | _ => exact .orAt span (.fail name _)
  | .call target args span, allowed => by
      simp only [Expr.spans, List.forall_mem_cons] at allowed
      exact .invoke allowed.2.1 allowed.1 (.evalAll allowed.2.2)

theorem Evaluation.evalAll {env : Environment} :
    ∀ {es : List Expr}, (∀ span ∈ Expr.spansAll es, P span) → Evaluation P (env.evalAll es)
  | [], _ => .pure _
  | e :: rest, allowed => by
      simp only [Expr.spansAll, List.forall_mem_append] at allowed
      refine .bind (.eval allowed.1) fun value => ?_
      exact .bind (.evalAll allowed.2) fun values => .pure _

end

end

mutual

def Stmt.targets : Stmt → List String
  | .assign target _ _ | .update target _ _ _ => [target.text]
  | .choose choice _ => choice.targets
  | .repeatWhile _ body _ => body.targets
  | .forEach var _ _ body _ => var.text :: body.targets
  | .print _ _ | .leave _ | .call _ _ _ => []

def Choice.targets : Choice → List String
  | .mk _ block otherwise => block.targets ++ otherwise.targets

def Otherwise.targets : Otherwise → List String
  | .nothing => []
  | .block block => block.targets
  | .choice choice => choice.targets

def Block.targets : Block → List String
  | .mk stmts _ => Program.targets stmts

def Program.targets : Program → List String
  | [] => []
  | stmt :: rest => stmt.targets ++ Program.targets rest

end

/-- A computation on a machine that is composed of evaluations, whose errors are put at spans that
`P` allows, and of changes of the variables that `V` allows. -/
inductive Execution (P : Span → Prop) (V : String → Prop) : {α : Type} → Exec α → Prop
  | pure {α : Type} (a : α) : Execution P V (Pure.pure a)
  | bind {α β : Type} {x : Exec α} {f : α → Exec β} (first : Execution P V x)
      (next : ∀ a, Execution P V (f a)) : Execution P V (x >>= f)
  | outOfRounds {α : Type} : Execution P V (throw .outOfRounds : Exec α)
  | ofEval {α : Type} {x : Environment → Eval α} (evaluation : ∀ env, Evaluation P (x env)) :
      Execution P V (Exec.ofEval x)
  | assign {name : String} (allowed : V name) (value : Value) : Execution P V (Exec.bind name value)
  | thenErase {α : Type} {name : String} {x : Exec α} (allowed : V name)
      (execution : Execution P V x) : Execution P V (Exec.thenErase name x)

namespace Execution

variable {P : Span → Prop} {V : String → Prop}

theorem eval {e : Expr} (allowed : ∀ span ∈ e.spans, P span) : Execution P V (Exec.eval e) :=
  .ofEval fun _ => .eval allowed

theorem holds {e : Expr} (allowed : ∀ span ∈ e.spans, P span) : Execution P V (Exec.holds e) :=
  .bind (.eval allowed) fun _ => .ofEval fun _ => .bind .heap fun _ => .pure _

theorem bound {e : Expr} (allowed : ∀ span ∈ e.spans, P span) : Execution P V (Exec.bound e) := by
  refine .bind (.eval allowed) fun value => ?_
  cases value with
  | int n => exact .pure _
  | _ =>
      exact .ofEval fun _ => .placed (allowed _ e.span_mem_spans)
        (@Composed.bind false _ _ _ _ (.textOf _) fun text => .fail rfl)

theorem repeatWhile {step : Exec Bool} (execution : Execution P V step) (rounds : Nat) :
    Execution P V (Exec.repeatWhile step rounds) := by
  induction rounds with
  | zero => exact .outOfRounds
  | succ rounds ih =>
      refine .bind execution fun again => ?_
      cases again with
      | false => exact .pure ()
      | true => exact ih

theorem forEach {step : Int → Exec Bool} (execution : ∀ i, Execution P V (step i)) (count : Nat)
    (i : Int) : Execution P V (Exec.forEach step count i) := by
  induction count generalizing i with
  | zero => exact .pure ()
  | succ count ih =>
      refine .bind (execution i) fun again => ?_
      cases again with
      | false => exact .pure ()
      | true => exact ih (i + 1)

end Execution

section
variable {P : Span → Prop} {V : String → Prop} {rounds : Nat}

mutual

theorem Stmt.execution : ∀ {stmt : Stmt}, (∀ span ∈ stmt.spans, P span) →
    (∀ name ∈ stmt.targets, V name) → Execution P V (stmt.exec rounds)
  | .assign target value span, places, names => by
      simp only [Stmt.spans, List.forall_mem_cons] at places
      refine .bind (.eval places.2.2) fun value => ?_
      exact .bind (.assign (names _ List.mem_cons_self) value) fun _ => .pure _
  | .update target op value span, places, names => by
      simp only [Stmt.spans, List.forall_mem_cons] at places
      refine .bind (.ofEval fun _ => .found places.2.1 _) fun current => ?_
      refine .bind (.eval places.2.2) fun value => ?_
      refine .bind (.ofEval fun _ => .step places.1 (@Composed.binary false current value op)) ?_
      exact fun result => .bind (.assign (names _ List.mem_cons_self) result) fun _ => .pure _
  | .choose choice span, places, names => by
      simp only [Stmt.spans, List.forall_mem_cons] at places
      exact choice.execution places.2 names
  | .repeatWhile cond body span, places, names => by
      simp only [Stmt.spans, List.forall_mem_cons, List.forall_mem_append] at places
      refine .bind (.repeatWhile (.bind (.holds places.2.1) fun holds => ?_) rounds) fun _ =>
        .pure _
      cases holds with
      | false => exact .pure _
      | true => exact .bind (body.execution places.2.2 names) fun _ => .pure _
  | .forEach var first last body span, places, names => by
      simp only [Stmt.spans, List.forall_mem_cons, List.forall_mem_append] at places
      simp only [Stmt.targets, List.forall_mem_cons] at names
      obtain ⟨-, -, ⟨low, high⟩, inner⟩ := places
      refine .bind (.bound low) fun first => .bind (.bound high) fun last => ?_
      refine .bind (.thenErase names.1 (.forEach (fun i => ?_) _ _)) fun _ => .pure _
      refine .bind (.assign names.1 _) fun _ => ?_
      exact .bind (body.execution inner names.2) fun _ => .pure _
  | .print args span, places, _ => by
      simp only [Stmt.spans, List.forall_mem_cons] at places
      refine .bind (.ofEval fun env => .bind (.evalAll places.2) fun values => ?_) fun _ => .pure _
      exact .bind .heap fun heap => .print _
  | .leave span, _, _ => .pure _
  | .call target args span, places, _ => by
      simp only [Stmt.spans, List.forall_mem_cons] at places
      refine .bind (.ofEval fun env => ?_) fun _ => .pure _
      exact .invoke places.2.1 places.1 (.evalAll places.2.2)

theorem Choice.execution : ∀ {choice : Choice}, (∀ span ∈ choice.spans, P span) →
    (∀ name ∈ choice.targets, V name) → Execution P V (choice.exec rounds)
  | .mk cond block otherwise, places, names => by
      simp only [Choice.spans, List.forall_mem_append] at places
      simp only [Choice.targets, List.forall_mem_append] at names
      refine .bind (.holds places.1.1) fun holds => ?_
      cases holds with
      | false => exact otherwise.execution places.2 names.2
      | true => exact block.execution places.1.2 names.1

theorem Otherwise.execution : ∀ {otherwise : Otherwise}, (∀ span ∈ otherwise.spans, P span) →
    (∀ name ∈ otherwise.targets, V name) → Execution P V (otherwise.exec rounds)
  | .nothing, _, _ => .pure _
  | .block block, places, names => block.execution places names
  | .choice choice, places, names => choice.execution places names

theorem Block.execution : ∀ {block : Block}, (∀ span ∈ block.spans, P span) →
    (∀ name ∈ block.targets, V name) → Execution P V (block.exec rounds)
  | .mk stmts span, places, names => by
      simp only [Block.spans, List.forall_mem_cons] at places
      exact execution_execAll places.2 names

theorem execution_execAll : ∀ {stmts : List Stmt}, (∀ span ∈ Program.spans stmts, P span) →
    (∀ name ∈ Program.targets stmts, V name) → Execution P V (execAll rounds stmts)
  | [], _, _ => .pure _
  | stmt :: rest, places, names => by
      simp only [Program.spans, List.forall_mem_append] at places
      simp only [Program.targets, List.forall_mem_append] at names
      refine .bind (stmt.execution places.1 names.1) fun outcome => ?_
      split
      · exact .pure _
      · exact execution_execAll places.2 names.2

end

theorem Program.execution {program : Program} (places : ∀ span ∈ program.spans, P span)
    (names : ∀ name ∈ program.targets, V name) : Execution P V (program.run rounds) := by
  induction program with
  | nil => exact .pure ()
  | cons stmt rest ih =>
      simp only [Program.spans, List.forall_mem_append] at places
      simp only [Program.targets, List.forall_mem_append] at names
      exact .bind (stmt.execution places.1 names.1) fun _ => ih places.2 names.2

end

end Salita
