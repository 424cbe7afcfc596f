import Salita.Proofs.Interpreter.Frame

namespace Salita

theorem Output.write_empty (output : Output) : output.write "" = output := by
  cases output with
  | captured text => rw [Output.write, String.append_empty]
  | silent => rfl

theorem Output.write_append (output : Output) (first second : String) :
    output.write (first ++ second) = (output.write first).write second := by
  cases output with
  | captured text => simp only [Output.write, String.append_assoc]
  | silent => rfl

def Store.withOutput (output : Output) (s : Store) : Store := { s with output := output }

def Machine.withOutput (output : Output) (m : Machine) : Machine :=
  ⟨m.env, m.store.withOutput output⟩

section
variable {ε σ α β : Type} {put : Output → σ → σ}

def resultOn (change : σ → σ) : EStateM.Result ε σ α → EStateM.Result ε σ α
  | .ok a s => .ok a (change s)
  | .error e s => .error e (change s)

/-- The computation does not depend on the output that `put` gives to its state, and adds a text
to it. -/
def Appends (put : Output → σ → σ) (x : EStateM ε σ α) : Prop :=
  ∀ s, ∃ result printed, ∀ output,
    x (put output s) = resultOn (put (output.write printed)) result

namespace Appends

theorem of_nothing {x : EStateM ε σ α}
    (same : ∀ output s, x (put output s) = resultOn (put output) (x s)) : Appends put x := by
  intro s
  refine ⟨x s, "", fun output => ?_⟩
  rw [Output.write_empty]
  exact same output s

theorem pure (a : α) : Appends put (Pure.pure a : EStateM ε σ α) := of_nothing fun _ _ => rfl

theorem bind {x : EStateM ε σ α} {f : α → EStateM ε σ β} (first : Appends put x)
    (next : ∀ a, Appends put (f a)) : Appends put (x >>= f) := by
  intro s
  obtain ⟨result, printed, run⟩ := first s
  cases result with
  | ok a mid =>
      obtain ⟨result, more, rest⟩ := next a mid
      refine ⟨result, printed ++ more, fun output => ?_⟩
      rw [Output.write_append, ← rest]
      simp only [Bind.bind, EStateM.bind, run, resultOn]
  | error e last =>
      refine ⟨.error e last, printed, fun output => ?_⟩
      simp only [Bind.bind, EStateM.bind, run, resultOn]

end Appends

end

section
variable {α : Type}

theorem Appends.mapError {x : Eval α} (change : EvalError → EvalError)
    (appends : Appends Store.withOutput x) : Appends Store.withOutput (x.mapError change) := by
  intro s
  obtain ⟨result, printed, run⟩ := appends s
  cases result with
  | ok a last =>
      refine ⟨.ok a last, printed, fun output => ?_⟩
      simp only [Eval.mapError, run, resultOn]
  | error e last =>
      refine ⟨.error (change e) last, printed, fun output => ?_⟩
      simp only [Eval.mapError, run, resultOn]

theorem appends_print (text : String) : Appends Store.withOutput (Eval.print text) :=
  fun s => ⟨.ok () s, text, fun _ => rfl⟩

theorem appends_onFiles (operation : FileTable → Except FileError α × FileTable) :
    Appends Store.withOutput (Eval.onFiles operation) := by
  apply Appends.of_nothing
  intro output s
  simp only [Eval.onFiles, Store.withOutput]
  generalize operation s.files = result
  obtain ⟨outcome, files⟩ := result
  cases outcome <;> rfl

theorem Composed.appends {changes : Bool} {x : Eval α} (composed : Composed changes x) :
    Appends Store.withOutput x := by
  induction composed with
  | pure a => exact .pure a
  | bind first next first_ih next_ih => exact .bind first_ih next_ih
  | print text => exact appends_print text
  | fail | heap | newList | modifyList => exact .of_nothing fun _ _ => rfl
  | readLine =>
      apply Appends.of_nothing
      rintro output ⟨heap, files, before, input⟩
      cases input <;> rfl
  | openFile path mode =>
      apply Appends.of_nothing
      intro output s
      simp only [Call.openFile, Store.withOutput]
      cases s.files.openFile path mode with
      | ok opened => rfl
      | error e => cases e <;> rfl
  | readRest | readFileLine | write | close => exact appends_onFiles _

theorem Evaluation.appends {P : Span → Prop} {x : Eval α} (evaluation : Evaluation P x) :
    Appends Store.withOutput x := by
  induction evaluation with
  | pure a => exact .pure a
  | bind first next first_ih next_ih => exact .bind first_ih next_ih
  | heap => exact .of_nothing fun _ _ => rfl
  | print text => exact appends_print text
  | found allowed result => exact .of_nothing fun _ _ => by cases result <;> rfl
  | placed allowed composed => exact .mapError _ composed.appends
  | fail allowed cause => exact .of_nothing fun _ _ => rfl
  | step allowed composed => exact .mapError _ composed.appends
  | orAt span evaluation ih => exact .mapError _ ih

theorem appends_ofEval {x : Environment → Eval α}
    (appends : ∀ env, Appends Store.withOutput (x env)) :
    Appends Machine.withOutput (Exec.ofEval x) := by
  intro m
  obtain ⟨result, printed, run⟩ := appends m.env m.store
  cases result with
  | ok a last =>
      refine ⟨.ok a ⟨m.env, last⟩, printed, fun output => ?_⟩
      simp only [Exec.ofEval, Machine.withOutput, run, resultOn]
  | error e last =>
      refine ⟨.error (.error e) ⟨m.env, last⟩, printed, fun output => ?_⟩
      simp only [Exec.ofEval, Machine.withOutput, run, resultOn]

theorem Appends.thenErase {x : Exec α} (name : String) (appends : Appends Machine.withOutput x) :
    Appends Machine.withOutput (Exec.thenErase name x) := by
  intro m
  obtain ⟨result, printed, run⟩ := appends m
  cases result with
  | ok a last =>
      refine ⟨.ok a ⟨last.env.erase name, last.store⟩, printed, fun output => ?_⟩
      simp only [Exec.thenErase, run, resultOn]
      rfl
  | error stop last =>
      refine ⟨.error stop ⟨last.env.erase name, last.store⟩, printed, fun output => ?_⟩
      simp only [Exec.thenErase, run, resultOn]
      rfl

theorem Execution.appends {P : Span → Prop} {V : String → Prop} {x : Exec α}
    (execution : Execution P V x) : Appends Machine.withOutput x := by
  induction execution with
  | pure a => exact .pure a
  | bind first next first_ih next_ih => exact .bind first_ih next_ih
  | outOfRounds => exact .of_nothing fun _ _ => rfl
  | ofEval evaluation => exact appends_ofEval fun env => (evaluation env).appends
  | assign allowed value => exact .of_nothing fun _ _ => rfl
  | thenErase allowed execution ih => exact ih.thenErase _

theorem Appends.finish {x : Exec α} (appends : Appends Machine.withOutput x) (m : Machine) :
    ∃ (finish : Finish) (last : Machine) (printed : String), ∀ output,
      (m.withOutput output).finish x = (finish, last.withOutput (output.write printed)) := by
  obtain ⟨result, printed, run⟩ := appends m
  rcases result with ⟨a, last⟩ | ⟨e | _, last⟩
  · exact ⟨.done, last, printed, fun output => by simp only [Machine.finish, run, resultOn]⟩
  · exact ⟨.failed (.eval e), last, printed, fun output => by
      simp only [Machine.finish, run, resultOn]⟩
  · exact ⟨.outOfRounds, last, printed, fun output => by simp only [Machine.finish, run, resultOn]⟩

end

/-- However a run ends, it adds to what was captured before it a text that does not depend on that.
With a silent output it ends in the same way and on the same machine but for the output. -/
theorem Machine.run_output (rounds : Nat) (program : Program) (m : Machine) :
    ∃ (finish : Finish) (last : Machine) (printed : String),
      (∀ before : String, (m.withOutput (.captured before)).finish (program.run rounds) =
        (finish, last.withOutput (.captured (before ++ printed)))) ∧
      (m.withOutput .silent).finish (program.run rounds) = (finish, last.withOutput .silent) := by
  have execution : Execution (fun _ => True) (fun _ => True) (program.run rounds) :=
    Program.execution (fun _ _ => trivial) (fun _ _ => trivial)
  obtain ⟨finish, last, printed, run⟩ := execution.appends.finish m
  exact ⟨finish, last, printed, fun before => run (.captured before), run .silent⟩

theorem Machine.run_output_prompt :
    ∃ (program : Program) (m last : Machine) (e : EvalError),
      program = [.print [.literal (.int 5) ⟨0, 1⟩] ⟨0, 1⟩,
        .call ⟨"pahingi", ⟨0, 1⟩⟩ [.literal (.str "n? ") ⟨0, 1⟩] ⟨0, 1⟩] ∧
      (m.withOutput (.captured "x")).finish (program.run 1) = (.failed (.eval e), last) ∧
      last.store.output = .captured "x5\nn? " ∧
      e.message = "(IOError) : EOF when reading a line" ∧
      (m.withOutput .silent).finish (program.run 1) =
        (.failed (.eval e), last.withOutput .silent) := by
  let program : Program := [.print [.literal (.int 5) ⟨0, 1⟩] ⟨0, 1⟩,
    .call ⟨"pahingi", ⟨0, 1⟩⟩ [.literal (.str "n? ") ⟨0, 1⟩] ⟨0, 1⟩]
  let m : Machine := ⟨⟨[], .standard⟩, {}⟩
  obtain ⟨finish, last, printed, captured, silent⟩ := Machine.run_output 1 program m
  have run : (m.withOutput (.captured "x")).finish (program.run 1) =
      (.failed (.eval { cause := .transfer .endOfInput, span := some ⟨0, 1⟩ }),
        m.withOutput (.captured "x5\nn? ")) := by
    unfold program m
    rfl
  have ends := captured "x"
  rw [run, Prod.mk.injEq] at ends
  obtain ⟨rfl, same⟩ := ends
  refine ⟨program, m, _, _, rfl, run, rfl, rfl, ?_⟩
  rw [same]
  exact silent

end Salita
