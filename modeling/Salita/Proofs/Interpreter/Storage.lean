import Salita.Proofs.Builtin.Storage
import Salita.Proofs.Interpreter.Frame

namespace Salita

/-! ## The functions that a program calls -/

mutual

def Expr.calls : Expr → List String
  | .literal _ _ | .var _ => []
  | .list items _ => Expr.callsAll items
  | .binary _ left right _ => left.calls ++ right.calls
  | .unary _ operand _ => operand.calls
  | .index _ position _ => position.calls
  | .call target args _ => target.text :: Expr.callsAll args

def Expr.callsAll : List Expr → List String
  | [] => []
  | e :: rest => e.calls ++ Expr.callsAll rest

end

mutual

def Stmt.calls : Stmt → List String
  | .assign _ value _ | .update _ _ value _ => value.calls
  | .choose choice _ => choice.calls
  | .repeatWhile cond body _ => cond.calls ++ body.calls
  | .forEach _ first last body _ => first.calls ++ last.calls ++ body.calls
  | .print args _ => Expr.callsAll args
  | .leave _ => []
  | .call target args _ => target.text :: Expr.callsAll args

def Choice.calls : Choice → List String
  | .mk cond block otherwise => cond.calls ++ block.calls ++ otherwise.calls

def Otherwise.calls : Otherwise → List String
  | .nothing => []
  | .block block => block.calls
  | .choice choice => choice.calls

def Block.calls : Block → List String
  | .mk stmts _ => Program.calls stmts

def Program.calls : Program → List String
  | [] => []
  | stmt :: rest => stmt.calls ++ Program.calls rest

end

def listChangers : List String := ["palitan", "idagdag", "tanggalan", "isaayos", "baligtarin"]

def Registry.Allows (registry : Registry) (changes : Bool) (name : String) : Prop :=
  ∀ f, registry.get? name = some f → f.builtin.changesLists = true → changes = true

theorem Registry.allows_standard {name : String} (other : name ∉ listChangers) :
    Registry.standard.Allows false name := by
  -- A function is found under its own name, so it is enough to look through the registry.
  have known : ∀ f ∈ Registry.standard.functions, f.builtin.changesLists = true →
      f.name ∈ listChangers := by
    decide +kernel
  intro f found changes
  have named : f.name = name := by simpa using List.find?_some found
  rw [← named] at other
  exact absurd (known f (List.mem_of_find?_eq_some found) changes) other

/-! ## Evaluations -/

section
variable {changes : Bool} {env : Environment}

theorem keepsLists_found {α : Type} (span : Span) (result : Except EvalError α) :
    KeepsLists changes (Environment.found span result) := by
  apply keepsLists_of_heap_eq
  intro s
  cases result <;> rfl

theorem Native.keepsLists_call {f : Native} (allowed : f.builtin.changesLists = true → changes = true)
    (args : List Value) : KeepsLists changes (f.call args) :=
  fun s => ((f.composed_call args).keepsLists s).mono allowed

theorem Environment.get?_of_functionOf {name : String} {f : Native}
    (found : env.functionOf name = .ok f) : env.functions.get? name = some f := by
  unfold Environment.functionOf at found
  split at found
  case h_1 g known =>
    cases found
    exact known
  case h_2 => cases found

theorem keepsLists_invoke {target : Name} {span : Span} {args : Eval (List Value)}
    (allowed : env.functions.Allows changes target.text) (keeps : KeepsLists changes args) :
    KeepsLists changes (env.invoke target span args) := by
  apply keepsLists_mapError
  -- Whether the call may change lists depends on the function that is found.
  cases known : env.functionOf target.text with
  | error e => exact keepsLists_of_heap_eq fun _ => rfl
  | ok f =>
      have allowed := allowed f (env.get?_of_functionOf known)
      have called : KeepsLists changes (args >>= fun values => f.call values) :=
        .bind .trans keeps fun values => f.keepsLists_call allowed values
      exact called

mutual

theorem keepsLists_eval : ∀ e : Expr, (∀ name ∈ e.calls, env.functions.Allows changes name) →
    KeepsLists changes (env.eval e)
  | .literal value _, _ => .pure (fun s => .refl s.heap) value.value
  | .var name, _ => keepsLists_found _ _
  | .list items span, allowed =>
      keepsLists_mapError _ (.bind .trans (keepsLists_evalAll items allowed) fun values =>
        (@Composed.newList changes values.toArray).keepsLists)
  | .binary op left right span, allowed => by
      simp only [Expr.calls, List.forall_mem_append] at allowed
      refine keepsLists_mapError _ (.bind .trans (keepsLists_eval left allowed.1) fun left => ?_)
      refine .bind .trans (keepsLists_eval right allowed.2) fun right => ?_
      exact (Composed.binary left right op).keepsLists
  | .unary op operand span, allowed =>
      keepsLists_mapError _ (.bind .trans (keepsLists_eval operand allowed) fun value =>
        (Composed.unary value op).keepsLists)
  | .index target position span, allowed => by
      refine keepsLists_mapError _ (.bind .trans (keepsLists_found _ _) fun value => ?_)
      cases value with
      | list id =>
          refine .bind .trans (keepsLists_eval position allowed) fun index => ?_
          exact keepsLists_mapError _ (Composed.get id index).keepsLists
      | _ => exact keepsLists_mapError _ (keepsLists_of_heap_eq fun _ => rfl)
  | .call target args span, allowed => by
      simp only [Expr.calls, List.forall_mem_cons] at allowed
      exact keepsLists_invoke allowed.1 (keepsLists_evalAll args allowed.2)

theorem keepsLists_evalAll :
    ∀ es : List Expr, (∀ name ∈ Expr.callsAll es, env.functions.Allows changes name) →
      KeepsLists changes (env.evalAll es)
  | [], _ => .pure (fun s => .refl s.heap) []
  | e :: rest, allowed => by
      simp only [Expr.callsAll, List.forall_mem_append] at allowed
      refine .bind .trans (keepsLists_eval e allowed.1) fun value => ?_
      exact .bind .trans (keepsLists_evalAll rest allowed.2) fun values =>
        .pure (fun s => .refl s.heap) _

end

end

/-! ## Runs -/

/-- If the functions are those of the registry they stay so, and the lists are kept. What a call keeps
depends on the functions, so that one is not known without the other. -/
def Machine.Kept (registry : Registry) (changes : Bool) (m next : Machine) : Prop :=
  m.env.functions = registry →
    next.env.functions = registry ∧ m.store.heap.Kept changes next.store.heap

namespace Exec

abbrev KeepsLists (registry : Registry) (changes : Bool) {α : Type} (x : Exec α) : Prop :=
  Keeps (Machine.Kept registry changes) x

variable {registry : Registry} {changes : Bool} {α β : Type}

namespace KeepsLists

theorem pure (a : α) : KeepsLists registry changes (Pure.pure a : Exec α) :=
  fun m same => ⟨same, .refl m.store.heap⟩

theorem bind {x : Exec α} {f : α → Exec β} (first : KeepsLists registry changes x)
    (next : ∀ a, KeepsLists registry changes (f a)) : KeepsLists registry changes (x >>= f) := by
  refine Keeps.bind ?_ first next
  intro m₁ m₂ m₃ first second same
  obtain ⟨same, kept⟩ := first same
  obtain ⟨same, after⟩ := second same
  exact ⟨same, kept.trans after⟩

theorem ofEval {x : Environment → Eval α}
    (keeps : ∀ env, env.functions = registry → Salita.KeepsLists changes (x env)) :
    KeepsLists registry changes (ofEval x) := by
  intro m same
  rw [after_ofEval]
  exact ⟨same, keeps m.env same m.store⟩

theorem eval {e : Expr} (allowed : ∀ name ∈ e.calls, registry.Allows changes name) :
    KeepsLists registry changes (Exec.eval e) := by
  apply ofEval
  rintro env rfl
  exact keepsLists_eval e allowed

theorem holds {e : Expr} (allowed : ∀ name ∈ e.calls, registry.Allows changes name) :
    KeepsLists registry changes (Exec.holds e) :=
  .bind (.eval allowed) fun _ => .ofEval fun _ _ => keepsLists_of_heap_eq fun _ => rfl

theorem bound {e : Expr} (allowed : ∀ name ∈ e.calls, registry.Allows changes name) :
    KeepsLists registry changes (Exec.bound e) := by
  refine .bind (.eval allowed) fun value => ?_
  cases value with
  | int n => exact .pure _
  | _ => exact .ofEval fun _ _ => keepsLists_of_heap_eq fun _ => rfl

theorem assign (name : String) (value : Value) :
    KeepsLists registry changes (Exec.bind name value) :=
  fun m same => ⟨same, .refl m.store.heap⟩

theorem thenErase {x : Exec α} (name : String) (keeps : KeepsLists registry changes x) :
    KeepsLists registry changes (Exec.thenErase name x) := by
  intro m same
  rw [after_thenErase]
  exact keeps m same

theorem repeatWhile {step : Exec Bool} (keeps : KeepsLists registry changes step) (rounds : Nat) :
    KeepsLists registry changes (Exec.repeatWhile step rounds) := by
  induction rounds with
  | zero => exact fun m same => ⟨same, .refl m.store.heap⟩
  | succ rounds ih =>
      refine .bind keeps fun again => ?_
      cases again with
      | false => exact .pure ()
      | true => exact ih

theorem forEach {step : Int → Exec Bool} (keeps : ∀ i, KeepsLists registry changes (step i))
    (count : Nat) (i : Int) : KeepsLists registry changes (Exec.forEach step count i) := by
  induction count generalizing i with
  | zero => exact .pure ()
  | succ count ih =>
      refine .bind (keeps i) fun again => ?_
      cases again with
      | false => exact .pure ()
      | true => exact ih (i + 1)

end KeepsLists

end Exec

section
variable {registry : Registry} {changes : Bool} {rounds : Nat}

mutual

theorem Stmt.keepsLists : ∀ stmt : Stmt, (∀ name ∈ stmt.calls, registry.Allows changes name) →
    Exec.KeepsLists registry changes (stmt.exec rounds)
  | .assign target value span, allowed =>
      .bind (.eval allowed) fun value => .bind (.assign target.text value) fun _ => .pure _
  | .update target op value span, allowed => by
      refine .bind (.ofEval fun env _ => keepsLists_found _ _) fun current => ?_
      refine .bind (.eval allowed) fun value => ?_
      refine .bind (.ofEval fun _ _ => ?_) fun result => .bind (.assign _ result) fun _ => .pure _
      exact keepsLists_mapError _ (Composed.binary current value op).keepsLists
  | .choose choice span, allowed => choice.keepsLists allowed
  | .repeatWhile cond body span, allowed => by
      simp only [Stmt.calls, List.forall_mem_append] at allowed
      refine .bind (.repeatWhile (.bind (.holds allowed.1) fun holds => ?_) rounds) fun _ => .pure _
      cases holds with
      | false => exact .pure _
      | true => exact .bind (body.keepsLists allowed.2) fun _ => .pure _
  | .forEach var first last body span, allowed => by
      simp only [Stmt.calls, List.forall_mem_append] at allowed
      obtain ⟨⟨low, high⟩, inner⟩ := allowed
      refine .bind (.bound low) fun first => .bind (.bound high) fun last => ?_
      refine .bind (.thenErase var.text (.forEach (fun i => ?_) _ _)) fun _ => .pure _
      exact .bind (.assign var.text _) fun _ => .bind (body.keepsLists inner) fun _ => .pure _
  | .print args span, allowed => by
      refine .bind (.ofEval ?_) fun _ => .pure _
      rintro env rfl
      exact .bind .trans (keepsLists_evalAll args allowed) fun values =>
        keepsLists_of_heap_eq fun _ => rfl
  | .leave span, _ => .pure _
  | .call target args span, allowed => by
      simp only [Stmt.calls, List.forall_mem_cons] at allowed
      refine .bind (.ofEval ?_) fun _ => .pure _
      rintro env rfl
      exact keepsLists_invoke allowed.1 (keepsLists_evalAll args allowed.2)

theorem Choice.keepsLists : ∀ choice : Choice,
    (∀ name ∈ choice.calls, registry.Allows changes name) →
      Exec.KeepsLists registry changes (choice.exec rounds)
  | .mk cond block otherwise, allowed => by
      simp only [Choice.calls, List.forall_mem_append] at allowed
      refine .bind (.holds allowed.1.1) fun holds => ?_
      cases holds with
      | false => exact otherwise.keepsLists allowed.2
      | true => exact block.keepsLists allowed.1.2

theorem Otherwise.keepsLists : ∀ otherwise : Otherwise,
    (∀ name ∈ otherwise.calls, registry.Allows changes name) →
      Exec.KeepsLists registry changes (otherwise.exec rounds)
  | .nothing, _ => .pure _
  | .block block, allowed => block.keepsLists allowed
  | .choice choice, allowed => choice.keepsLists allowed

theorem Block.keepsLists : ∀ block : Block, (∀ name ∈ block.calls, registry.Allows changes name) →
    Exec.KeepsLists registry changes (block.exec rounds)
  | .mk stmts _, allowed => keepsLists_execAll stmts allowed

theorem keepsLists_execAll : ∀ stmts : List Stmt,
    (∀ name ∈ Program.calls stmts, registry.Allows changes name) →
      Exec.KeepsLists registry changes (execAll rounds stmts)
  | [], _ => .pure _
  | stmt :: rest, allowed => by
      simp only [Program.calls, List.forall_mem_append] at allowed
      refine .bind (stmt.keepsLists allowed.1) fun outcome => ?_
      split
      · exact .pure _
      · exact keepsLists_execAll rest allowed.2

end

theorem Program.keepsLists {program : Program}
    (allowed : ∀ name ∈ program.calls, registry.Allows changes name) :
    Exec.KeepsLists registry changes (program.run rounds) := by
  induction program with
  | nil => exact .pure ()
  | cons stmt rest ih =>
      simp only [Program.calls, List.forall_mem_append] at allowed
      exact .bind (stmt.keepsLists allowed.1) fun _ => ih allowed.2

end

/-! ## New lists -/

theorem Eval.orAt_eq_ok {α : Type} {x : Eval α} {span : Span} {s next : Store} {a : α} :
    Eval.orAt span x s = .ok a next ↔ x s = .ok a next := by
  unfold Eval.orAt Eval.mapError
  cases x s <;> simp

theorem Exec.ofEval_eq_ok {α : Type} {x : Environment → Eval α} {env : Environment} {s : Store}
    {a : α} {m : Machine} :
    Exec.ofEval x ⟨env, s⟩ = .ok a m ↔ ∃ next, x env s = .ok a next ∧ ⟨env, next⟩ = m := by
  simp only [Exec.ofEval]
  cases x env s with
  | ok b next =>
      constructor
      · intro done
        cases done
        exact ⟨next, rfl, rfl⟩
      · rintro ⟨last, done, rfl⟩
        cases done
        rfl
  | error e next => simp

section
variable {env : Environment} {s mid last next : Store} {span : Span} {rounds : Nat}

theorem Environment.kept_eval {e : Expr} {value : Value} (done : env.eval e s = .ok value next) :
    s.heap.Kept true next.heap :=
  (keepsLists_eval e fun _ _ _ _ _ => rfl).of_ok done

theorem Environment.kept_evalAll {es : List Expr} {values : List Value}
    (done : env.evalAll es s = .ok values next) : s.heap.Kept true next.heap :=
  (keepsLists_evalAll es fun _ _ _ _ _ => rfl).of_ok done

theorem Environment.newList_list {items : List Expr} {values : List Value}
    (done : env.evalAll items s = .ok values mid) :
    ∃ value next, env.eval (.list items span) s = .ok value next ∧ s.NewList value next ∧
      mid.NewList value next := by
  obtain ⟨value, next, made, new⟩ := Eval.exists_newList mid values.toArray
  have run : env.eval (.list items span) s = .ok value next :=
    Eval.orAt_eq_ok.2 (bind_eq_ok.2 ⟨_, _, done, made⟩)
  exact ⟨value, next, run, new.of_kept (env.kept_evalAll done), new⟩

theorem Environment.newList_binary {op : BinaryOp} {left right : Expr} {l r : Value}
    (first : env.eval left s = .ok l mid) (second : env.eval right mid = .ok r last)
    (builds : Operation.Builds l op r) :
    ∃ value next, env.eval (.binary op left right span) s = .ok value next ∧
      s.NewList value next ∧ last.NewList value next := by
  obtain ⟨value, next, made, new⟩ := builds.exists_newList last
  have run : env.eval (.binary op left right span) s = .ok value next :=
    Eval.orAt_eq_ok.2 (bind_eq_ok.2 ⟨_, _, first, bind_eq_ok.2 ⟨_, _, second, made⟩⟩)
  have kept := (env.kept_eval first).trans (env.kept_eval second)
  exact ⟨value, next, run, new.of_kept kept, new⟩

theorem Stmt.newList_update {target : Name} {op : BinaryOp} {e : Expr} {l r : Value}
    (current : env.get? target.text = some l) (done : env.eval e s = .ok r last)
    (builds : Operation.Builds l op r) :
    ∃ value next, (Stmt.update target op e span).exec rounds ⟨env, s⟩ =
        .ok .empty ⟨env.set target.text value, next⟩ ∧
      s.NewList value next ∧ last.NewList value next := by
  obtain ⟨value, next, made, new⟩ := builds.exists_newList last
  have found : Environment.found target.span (env.valueOf target.text) s = .ok l s := by
    rw [Environment.valueOf, current]
    rfl
  refine ⟨value, next, ?_, new.of_kept (env.kept_eval done), new⟩
  refine bind_eq_ok.2 ⟨_, _, Exec.ofEval_eq_ok.2 ⟨_, found, rfl⟩, ?_⟩
  refine bind_eq_ok.2 ⟨_, _, Exec.ofEval_eq_ok.2 ⟨_, done, rfl⟩, ?_⟩
  exact bind_eq_ok.2 ⟨_, _, Exec.ofEval_eq_ok.2 ⟨_, Eval.orAt_eq_ok.2 made, rfl⟩, rfl⟩

def listMakers : List String := ["baligtad", "nakaayos"]

theorem Environment.functionOf_listMaker {name : String} (standard : env.functions = .standard)
    (makes : name ∈ listMakers) :
    ∃ f, env.functionOf name = .ok f ∧ f.builtin.makesList = true := by
  rw [Environment.functionOf, standard]
  simp only [listMakers, List.mem_cons, List.not_mem_nil, or_false] at makes
  obtain rfl | rfl := makes
  · exact ⟨⟨"baligtad", .exact 1, .baligtad⟩, rfl, rfl⟩
  · exact ⟨⟨"nakaayos", .exact 1, .nakaayos⟩, rfl, rfl⟩

theorem Environment.newList_call {target : Name} {args : List Expr} {value : Value}
    (standard : env.functions = .standard) (makes : target.text ∈ listMakers)
    (done : env.eval (.call target args span) s = .ok value next) :
    s.NewList value next ∧
      ∃ values mid, env.evalAll args s = .ok values mid ∧ mid.NewList value next := by
  obtain ⟨f, known, makes⟩ := env.functionOf_listMaker standard makes
  obtain ⟨g, start, found, done⟩ := bind_eq_ok.1 (Eval.orAt_eq_ok.1 done)
  rw [known] at found
  cases found
  obtain ⟨values, mid, first, done⟩ := bind_eq_ok.1 done
  have new := Native.makesList_call makes values mid value next done
  exact ⟨new.of_kept (env.kept_evalAll first), values, mid, first, new⟩

theorem Stmt.newList_call {target : Name} {args : List Expr} {outcome : Outcome} {m : Machine}
    (standard : env.functions = .standard) (makes : target.text ∈ listMakers)
    (done : (Stmt.call target args span).exec rounds ⟨env, s⟩ = .ok outcome m) :
    ∃ value, outcome = .value value ∧ s.NewList value m.store := by
  obtain ⟨value, last, first, done⟩ := bind_eq_ok.1 done
  obtain ⟨next, called, rfl⟩ := Exec.ofEval_eq_ok.1 first
  have new := env.newList_call standard makes called
  cases done
  exact ⟨value, rfl, new.1⟩

end

/-- A program that calls none of the functions that change lists leaves all lists as they are,
whether it ends with an error or not. What a written list, joining, repeating, `baligtad` and
`nakaayos` give is a list that did not exist before, not even when only the parts were evaluated. -/
theorem Machine.run_lists (rounds : Nat) :
    (∀ (program : Program) (m : Machine), m.env.functions = .standard →
      (∀ name ∈ program.calls, name ∉ listChangers) → ∀ id, m.store.heap.Contains id →
        (m.finish (program.run rounds)).2.store.heap.Contains id ∧
        (m.finish (program.run rounds)).2.store.heap.items id = m.store.heap.items id) ∧
    (∀ (env : Environment) (items : List Expr) (span : Span) (s mid : Store)
      (values : List Value), env.evalAll items s = .ok values mid →
        ∃ value next, env.eval (.list items span) s = .ok value next ∧ s.NewList value next ∧
          mid.NewList value next) ∧
    (∀ (env : Environment) (op : BinaryOp) (left right : Expr) (span : Span) (l r : Value)
      (s mid last : Store), env.eval left s = .ok l mid → env.eval right mid = .ok r last →
      Operation.Builds l op r →
        ∃ value next, env.eval (.binary op left right span) s = .ok value next ∧
          s.NewList value next ∧ last.NewList value next) ∧
    (∀ (env : Environment) (target : Name) (op : BinaryOp) (e : Expr) (span : Span) (l r : Value)
      (s last : Store), env.get? target.text = some l → env.eval e s = .ok r last →
      Operation.Builds l op r →
        ∃ value next, (Stmt.update target op e span).exec rounds ⟨env, s⟩ =
            .ok .empty ⟨env.set target.text value, next⟩ ∧
          s.NewList value next ∧ last.NewList value next) ∧
    (∀ (env : Environment) (target : Name) (args : List Expr) (span : Span) (s : Store),
      env.functions = .standard → target.text ∈ listMakers →
        (∀ value next, env.eval (.call target args span) s = .ok value next →
          s.NewList value next ∧
            ∃ values mid, env.evalAll args s = .ok values mid ∧ mid.NewList value next) ∧
        ∀ outcome m, (Stmt.call target args span).exec rounds ⟨env, s⟩ = .ok outcome m →
          ∃ value, outcome = .value value ∧ s.NewList value m.store) := by
  refine ⟨?_, ?_, ?_, ?_, ?_⟩
  · intro program m standard unchanging id present
    have allowed : ∀ name ∈ program.calls, Registry.standard.Allows false name :=
      fun name called => Registry.allows_standard (unchanging name called)
    obtain ⟨-, kept⟩ := program.keepsLists allowed m standard
    rw [Machine.finish_snd]
    exact ⟨kept.contains id present, kept.items rfl id present⟩
  · intro env items span s mid values done
    exact env.newList_list done
  · intro env op left right span l r s mid last first second builds
    exact env.newList_binary first second builds
  · intro env target op e span l r s last current done builds
    exact Stmt.newList_update current done builds
  · intro env target args span s standard makes
    refine ⟨fun value next done => env.newList_call standard makes done, ?_⟩
    exact fun outcome m done => Stmt.newList_call standard makes done

/-- The first list has two names and is in the second list, which is in itself. A program makes five
more lists out of the first one before it fails. -/
theorem Machine.run_lists_shared :
    ∃ (program : Program) (env : Environment) (s : Store) (x one two : Expr) (stop : Machine)
      (error : RunError),
      env.functions = .standard ∧
      env.bindings = [("x", .list ⟨0⟩), ("y", .list ⟨0⟩)] ∧
      s.heap.lists = #[#[.int 2, .int 1], #[.list ⟨0⟩, .list ⟨1⟩]] ∧
      (∀ name ∈ program.calls, name ∉ listChangers) ∧
      Machine.finish (program.run 1) ⟨env, s⟩ = (.failed error, stop) ∧
      stop.store.heap.lists.size = 7 ∧
      stop.store.heap.items ⟨0⟩ = s.heap.items ⟨0⟩ ∧
      stop.store.heap.items ⟨1⟩ = s.heap.items ⟨1⟩ ∧
      (∃ value next, env.eval (.list [x, x] ⟨0, 1⟩) s = .ok value next ∧ s.NewList value next) ∧
      (∃ value next, env.eval (.binary .mul two x ⟨0, 1⟩) s = .ok value next ∧
        s.NewList value next) ∧
      (∃ value next, (Stmt.update ⟨"y", ⟨0, 1⟩⟩ .add x ⟨0, 1⟩).exec 1 ⟨env, s⟩ =
        .ok .empty ⟨env.set "y" value, next⟩ ∧ s.NewList value next) ∧
      (∃ next, env.eval (.call ⟨"nakaayos", ⟨0, 1⟩⟩ [x] ⟨0, 1⟩) s = .ok (.list ⟨2⟩) next ∧
        s.NewList (.list ⟨2⟩) next) ∧
      ∃ next, (Stmt.call ⟨"baligtad", ⟨0, 1⟩⟩ [.list [x, one] ⟨0, 1⟩] ⟨0, 1⟩).exec 1 ⟨env, s⟩ =
        .ok (.value (.list ⟨3⟩)) ⟨env, next⟩ ∧ s.NewList (.list ⟨3⟩) next := by
  let x : Expr := .var ⟨"x", ⟨0, 1⟩⟩
  let one : Expr := .literal (.int 1) ⟨0, 1⟩
  let two : Expr := .literal (.int 2) ⟨0, 1⟩
  let env : Environment := ⟨[("x", .list ⟨0⟩), ("y", .list ⟨0⟩)], .standard⟩
  let s : Store := { heap := ⟨#[#[.int 2, .int 1], #[.list ⟨0⟩, .list ⟨1⟩]]⟩ }
  let program : Program := [
    .assign ⟨"z", ⟨0, 1⟩⟩ (.binary .add x (.list [one] ⟨0, 1⟩) ⟨0, 1⟩) ⟨0, 1⟩,
    .update ⟨"y", ⟨0, 1⟩⟩ .mul two ⟨0, 1⟩,
    .call ⟨"baligtad", ⟨0, 1⟩⟩ [x] ⟨0, 1⟩,
    .print [.call ⟨"nakaayos", ⟨0, 1⟩⟩ [x] ⟨0, 1⟩] ⟨0, 1⟩,
    .print [.binary .mul x x ⟨0, 1⟩] ⟨0, 1⟩]
  obtain ⟨kept, written, built, updated, called⟩ := Machine.run_lists 1
  have unchanging : ∀ name ∈ program.calls, name ∉ listChangers := by decide
  obtain ⟨error, stop, run, size⟩ : ∃ error stop,
      Machine.finish (program.run 1) ⟨env, s⟩ = (.failed error, stop) ∧
        stop.store.heap.lists.size = 7 := by
    unfold program env s x one two
    exact ⟨_, _, rfl, rfl⟩
  have same := kept program ⟨env, s⟩ rfl unchanging
  rw [run] at same
  obtain ⟨literal, literalStore, literalRun, literalNew, -⟩ := written env [x, x] ⟨0, 1⟩ s s _ rfl
  obtain ⟨product, productStore, productRun, productNew, -⟩ :=
    built env .mul two x ⟨0, 1⟩ _ _ s s s rfl rfl (.repeating 2 ⟨0⟩)
  obtain ⟨sum, sumStore, sumRun, sumNew, -⟩ :=
    updated env ⟨"y", ⟨0, 1⟩⟩ .add x ⟨0, 1⟩ _ _ s s rfl rfl (.join ⟨0⟩ ⟨0⟩)
  have sortRun : env.eval (.call ⟨"nakaayos", ⟨0, 1⟩⟩ [x] ⟨0, 1⟩) s =
      .ok (.list ⟨2⟩) { s with heap := ⟨s.heap.lists.push #[.int 1, .int 2]⟩ } := by
    unfold env s x
    rfl
  have sortNew := (called env ⟨"nakaayos", ⟨0, 1⟩⟩ [x] ⟨0, 1⟩ s rfl (by decide)).1 _ _ sortRun
  obtain ⟨back, reversed, backNew⟩ :=
    (called env ⟨"baligtad", ⟨0, 1⟩⟩ [.list [x, one] ⟨0, 1⟩] ⟨0, 1⟩ s rfl (by decide)).2 _ _ rfl
  cases reversed
  exact ⟨program, env, s, x, one, two, stop, error, rfl, rfl, rfl, unchanging, run, size,
    (same ⟨0⟩ (by decide)).2, (same ⟨1⟩ (by decide)).2, ⟨_, _, literalRun, literalNew⟩,
    ⟨_, _, productRun, productNew⟩, ⟨_, _, sumRun, sumNew⟩, ⟨_, sortRun, sortNew.1⟩, _, rfl, backNew⟩

end Salita
