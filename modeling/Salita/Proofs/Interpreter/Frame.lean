import Salita.Interpreter.Source
import Salita.Proofs.Interpreter.Composition

namespace Salita

namespace Environment

theorem lookup_cons_of_ne {key other : String} (distinct : other ≠ key) (value : Value)
    (rest : List (String × Value)) : ((key, value) :: rest).lookup other = rest.lookup other := by
  rw [List.lookup_cons, beq_eq_false_iff_ne.2 distinct]

theorem lookup_bind_of_ne {name other : String} (distinct : other ≠ name) (value : Value)
    (bindings : List (String × Value)) :
    (bind name value bindings).lookup other = bindings.lookup other := by
  induction bindings with
  | nil => exact lookup_cons_of_ne distinct value []
  | cons binding rest ih =>
      obtain ⟨key, old⟩ := binding
      unfold bind
      split
      case isTrue same =>
        subst same
        rw [lookup_cons_of_ne distinct, lookup_cons_of_ne distinct]
      case isFalse => rw [List.lookup_cons, List.lookup_cons, ih]

theorem lookup_filter_of_ne {name other : String} (distinct : other ≠ name)
    (bindings : List (String × Value)) :
    (bindings.filter fun binding => binding.1 ≠ name).lookup other = bindings.lookup other := by
  induction bindings with
  | nil => rfl
  | cons binding rest ih =>
      obtain ⟨key, old⟩ := binding
      rw [List.filter_cons]
      split
      case isTrue => rw [List.lookup_cons, List.lookup_cons, ih]
      case isFalse dropped =>
        have same : key = name := by simpa using dropped
        subst same
        rw [ih, lookup_cons_of_ne distinct]

theorem get?_set_of_ne {name other : String} (distinct : other ≠ name) (env : Environment)
    (value : Value) : (env.set name value).get? other = env.get? other :=
  lookup_bind_of_ne distinct value env.bindings

theorem get?_erase_of_ne {name other : String} (distinct : other ≠ name) (env : Environment) :
    (env.erase name).get? other = env.get? other :=
  lookup_filter_of_ne distinct env.bindings

structure Framed (V : String → Prop) (env next : Environment) : Prop where
  functions : next.functions = env.functions
  others : ∀ name, ¬ V name → next.get? name = env.get? name

namespace Framed

variable {V : String → Prop} {env mid next : Environment} {name : String}

theorem refl (env : Environment) : Framed V env env := ⟨rfl, fun _ _ => rfl⟩

theorem trans (first : Framed V env mid) (second : Framed V mid next) : Framed V env next where
  functions := second.functions.trans first.functions
  others := fun name other => (second.others name other).trans (first.others name other)

theorem set (allowed : V name) (env : Environment) (value : Value) :
    Framed V env (env.set name value) where
  functions := rfl
  others := by
    intro other outside
    apply get?_set_of_ne
    rintro rfl
    exact outside allowed

theorem erase (allowed : V name) (env : Environment) : Framed V env (env.erase name) where
  functions := rfl
  others := by
    intro other outside
    apply get?_erase_of_ne
    rintro rfl
    exact outside allowed

end Framed

end Environment

section
variable {α β : Type}

theorem after_ofEval (x : Environment → Eval α) (m : Machine) :
    after (Exec.ofEval x) m = ⟨m.env, after (x m.env) m.store⟩ := by
  simp only [after, Exec.ofEval]
  cases x m.env m.store <;> rfl

theorem after_ofEval_env (x : Environment → Eval α) (m : Machine) :
    (after (Exec.ofEval x) m).env = m.env := by
  rw [after_ofEval]

theorem after_thenErase (name : String) (x : Exec α) (m : Machine) :
    after (Exec.thenErase name x) m = ⟨(after x m).env.erase name, (after x m).store⟩ := by
  simp only [after, Exec.thenErase]
  cases x m <;> rfl

theorem Execution.keeps {P : Span → Prop} {V : String → Prop} {x : Exec α}
    (execution : Execution P V x) : Keeps (fun m next => m.env.Framed V next.env) x := by
  induction execution with
  | pure a => exact .pure (fun m => .refl m.env) a
  | bind first next first_ih next_ih => exact .bind .trans first_ih next_ih
  | outOfRounds => exact fun m => .refl m.env
  | ofEval evaluation =>
      intro m
      rw [after_ofEval_env]
      exact .refl m.env
  | assign allowed value => exact fun m => .set allowed m.env value
  | @thenErase α name x allowed execution ih =>
      intro m
      rw [after_thenErase]
      exact (ih m).trans (.erase allowed (after x m).env)

def Exec.Atomic (x : Exec α) : Prop := ∀ m stop last, x m = .error stop last → last.env = m.env

theorem Exec.Atomic.bind {x : Exec α} {f : α → Exec β}
    (first : Keeps (fun m next => next.env = m.env) x) (next : ∀ a, Exec.Atomic (f a)) :
    Exec.Atomic (x >>= f) := by
  intro m stop last failed
  have kept := first m
  rcases bind_eq_error.1 failed with failed | ⟨a, mid, done, failed⟩
  · rw [after, failed] at kept
    exact kept
  · rw [after, done] at kept
    exact (next a mid stop last failed).trans kept

/-- Once its value is known, an assignment cannot fail. -/
theorem Exec.atomic_bind (name : String) (value : Value) :
    Exec.Atomic (do Exec.bind name value; return Outcome.empty) := by
  intro m stop last failed
  cases failed

theorem Exec.Atomic.finish {x : Exec α} (atomic : Exec.Atomic x) {m last : Machine}
    {error : RunError} (failed : m.finish x = (.failed error, last)) : last.env = m.env := by
  unfold Machine.finish at failed
  split at failed
  case h_1 => cases failed
  case h_2 e next stopped =>
    cases failed
    exact atomic m _ _ stopped
  case h_3 => cases failed

theorem Stmt.atomic_assign (rounds : Nat) (target : Name) (value : Expr) (span : Span) :
    Exec.Atomic ((Stmt.assign target value span).exec rounds) :=
  .bind (after_ofEval_env _) fun value => Exec.atomic_bind target.text value

theorem Stmt.atomic_update (rounds : Nat) (target : Name) (op : BinaryOp) (value : Expr)
    (span : Span) : Exec.Atomic ((Stmt.update target op value span).exec rounds) := by
  refine .bind (after_ofEval_env _) fun current => .bind (after_ofEval_env _) fun value => ?_
  exact .bind (after_ofEval_env _) fun result => Exec.atomic_bind target.text result

end

namespace Machine

theorem finish_snd {α : Type} (x : Exec α) (m : Machine) : (m.finish x).2 = after x m := by
  unfold finish after
  cases x m with
  | ok a next => rfl
  | error stop next => cases stop <;> rfl

/-- A run keeps all functions and all variables that are no targets of its program, whether it ends
with an error or not. Evaluating an expression keeps all variables, and so does an assignment or an
update that fails. -/
theorem run_frame (rounds : Nat) (m : Machine) :
    (∀ program : Program,
      (∀ name, (m.finish (program.run rounds)).2.env.functionOf name = m.env.functionOf name) ∧
      ∀ name ∉ program.targets,
        (m.finish (program.run rounds)).2.env.get? name = m.env.get? name) ∧
    (∀ e : Expr, (m.finish (Exec.eval e)).2.env = m.env) ∧
    (∀ (target : Name) (value : Expr) (span : Span) (error : RunError) (last : Machine),
      m.finish ((Stmt.assign target value span).exec rounds) = (.failed error, last) →
      last.env = m.env) ∧
    ∀ (target : Name) (op : BinaryOp) (value : Expr) (span : Span) (error : RunError)
      (last : Machine),
      m.finish ((Stmt.update target op value span).exec rounds) = (.failed error, last) →
      last.env = m.env := by
  refine ⟨?_, ?_, ?_, ?_⟩
  · intro program
    have execution : Execution (fun _ => True) (· ∈ program.targets) (program.run rounds) :=
      Program.execution (fun _ _ => trivial) (fun _ member => member)
    have framed := execution.keeps m
    rw [finish_snd]
    refine ⟨?_, framed.others⟩
    intro name
    rw [Environment.functionOf, framed.functions, Environment.functionOf]
  · intro e
    rw [finish_snd]
    exact after_ofEval_env _ m
  · intro target value span error last failed
    exact (Stmt.atomic_assign rounds target value span).finish failed
  · intro target op value span error last failed
    exact (Stmt.atomic_update rounds target op value span).finish failed

theorem run_frame_loop_error :
    ∃ (m : Machine) (target : Name) (value : Expr) (program : Program) (last : Machine),
      program.targets = ["i", "x", "x"] ∧ "y" ∉ program.targets ∧
      m.finish (program.run 1) =
        (.failed (.eval { cause := .undefinedName "z" .vars, span := some ⟨32, 33⟩ }), last) ∧
      last.env.get? "x" = some (.int 1) ∧ last.env.get? "y" = m.env.get? "y" ∧
      (∃ next, m.finish ((Stmt.assign target value ⟨27, 34⟩).exec 1) =
        (.failed (.eval { cause := .undefinedName "z" .vars, span := some ⟨32, 33⟩ }), next) ∧
        next.env = m.env) ∧
      ∃ next, m.finish ((Stmt.update target .add value ⟨27, 34⟩).exec 1) =
        (.failed (.eval { cause := .undefinedName "x" .vars, span := some ⟨27, 28⟩ }), next) ∧
        next.env = m.env := by
  let m : Machine := ⟨⟨[("y", .int 5)], .empty⟩, {}⟩
  let assign : Stmt := .assign ⟨"x", ⟨27, 28⟩⟩ (.var ⟨"z", ⟨32, 33⟩⟩) ⟨27, 34⟩
  let update : Stmt := .update ⟨"x", ⟨27, 28⟩⟩ .add (.var ⟨"z", ⟨32, 33⟩⟩) ⟨27, 34⟩
  let program : Program := [.forEach ⟨"i", ⟨9, 10⟩⟩ (.literal (.int 1) ⟨15, 16⟩)
    (.literal (.int 2) ⟨17, 18⟩)
    (.mk [.assign ⟨"x", ⟨20, 21⟩⟩ (.var ⟨"i", ⟨24, 25⟩⟩) ⟨20, 26⟩, update] ⟨19, 35⟩) ⟨0, 35⟩]
  have outside : "y" ∉ program.targets := by decide
  have assignFails : m.finish (assign.exec 1) =
      (.failed (.eval { cause := .undefinedName "z" .vars, span := some ⟨32, 33⟩ }), m) := rfl
  have updateFails : m.finish (update.exec 1) =
      (.failed (.eval { cause := .undefinedName "x" .vars, span := some ⟨27, 28⟩ }), m) := rfl
  obtain ⟨programs, -, assignments, updates⟩ := run_frame 1 m
  exact ⟨m, _, _, program, ⟨⟨[("y", .int 5), ("x", .int 1)], .empty⟩, {}⟩, rfl, outside,
    rfl, rfl, (programs program).2 "y" outside,
    ⟨m, assignFails, assignments _ _ _ _ _ assignFails⟩,
    ⟨m, updateFails, updates _ _ _ _ _ _ updateFails⟩⟩

end Machine

end Salita
