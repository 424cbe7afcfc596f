import Salita.Proofs.Interpreter.Frame
import Salita.Proofs.Interpreter.Leaving
import Salita.Proofs.Number.Whole

namespace Salita

namespace Environment

theorem lookup_bind_self (name : String) (value : Value) (bindings : List (String × Value)) :
    (bind name value bindings).lookup name = some value := by
  induction bindings with
  | nil => exact List.lookup_cons_self
  | cons binding rest ih =>
      obtain ⟨key, old⟩ := binding
      unfold bind
      split
      case isTrue => exact List.lookup_cons_self
      case isFalse distinct => rw [lookup_cons_of_ne (Ne.symm distinct), ih]

theorem get?_set_self (env : Environment) (name : String) (value : Value) :
    (env.set name value).get? name = some value := lookup_bind_self name value env.bindings

theorem get?_erase_self (env : Environment) (name : String) : (env.erase name).get? name = none := by
  refine List.lookup_eq_none_iff.2 fun binding member => ?_
  have other : binding.1 ≠ name := by simpa using (List.mem_filter.1 member).2
  exact bne_iff_ne.2 other.symm

end Environment

namespace Exec

def Begins (name : String) (i : Int) (m start : Machine) : Prop :=
  ∃ value : Int64, value.toInt = i ∧ start = { m with env := m.env.set name (.int value) }

section
variable {name : String} {i : Int} {m start : Machine}

theorem begins_ofInt (name : String) (inRange : Whole.InRange i) (m : Machine) :
    Begins name i m { m with env := m.env.set name (.int (Int64.ofInt i)) } :=
  ⟨Int64.ofInt i, Whole.toInt_ofInt inRange, rfl⟩

theorem Begins.eq (begins : Begins name i m start) :
    start = { m with env := m.env.set name (.int (Int64.ofInt i)) } := by
  obtain ⟨value, rfl, rfl⟩ := begins
  rw [Int64.ofInt_toInt]

end

inductive Rounds (body : Exec Outcome) (name : String) : Nat → Int → Machine → Machine → Prop
  | none (i : Int) (m : Machine) : Rounds body name 0 i m m
  | again {count : Nat} {i : Int} {m start next last : Machine} {outcome : Outcome}
      (begins : Begins name i m start) (run : body start = .ok outcome next)
      (stays : outcome ≠ .leave) (more : Rounds body name count (i + 1) next last) :
      Rounds body name (count + 1) i m last

/-- How a loop ends that has so many rounds before it: it runs them all, or an earlier one leaves it
or fails. -/
inductive Iterates (body : Exec Outcome) (name : String) (count : Nat) (i : Int) (m : Machine) :
    EStateM.Result Stop Machine Unit → Prop
  | complete {last : Machine} (all : Rounds body name count i m last) :
      Iterates body name count i m (.ok () last)
  | left {before : Nat} {mid start last : Machine} (early : before < count)
      (rounds : Rounds body name before i m mid) (begins : Begins name (i + before) mid start)
      (run : body start = .ok .leave last) : Iterates body name count i m (.ok () last)
  | failed {before : Nat} {mid start last : Machine} {stop : Stop} (early : before < count)
      (rounds : Rounds body name before i m mid) (begins : Begins name (i + before) mid start)
      (run : body start = .error stop last) : Iterates body name count i m (.error stop last)

section
variable {rounds count : Nat} {name : String} {i : Int} {m start mid next last : Machine}

theorem Begins.zero (begins : Begins name i m start) : Begins name (i + (0 : Nat)) m start := by
  rwa [Int.natCast_zero, Int.add_zero]

theorem Iterates.again {body : Exec Outcome} {outcome : Outcome}
    {result : EStateM.Result Stop Machine Unit} (begins : Begins name i m start)
    (run : body start = .ok outcome next) (stays : outcome ≠ .leave)
    (more : Iterates body name count (i + 1) next result) :
    Iterates body name (count + 1) i m result := by
  have place (before : Nat) : i + 1 + before = i + (before + 1 : Nat) := by omega
  cases more with
  | complete all => exact .complete (.again begins run stays all)
  | left early runs ending leaves =>
      rw [place] at ending
      exact .left (Nat.succ_lt_succ early) (.again begins run stays runs) ending leaves
  | failed early runs ending fails =>
      rw [place] at ending
      exact .failed (Nat.succ_lt_succ early) (.again begins run stays runs) ending fails

variable {body : Block}

theorem Begins.roundFor_eq (begins : Begins name i m start) :
    roundFor rounds name body i m =
      (do return (← body.exec rounds) != .leave : Exec Bool) start := by
  rw [begins.eq]
  rfl

theorem Begins.roundFor_of_stays {outcome : Outcome} (begins : Begins name i m start)
    (run : body.exec rounds start = .ok outcome next) (stays : outcome ≠ .leave) :
    roundFor rounds name body i m = .ok true next := by
  have more : (outcome != .leave) = true := bne_iff_ne.2 stays
  rw [begins.roundFor_eq, ← more]
  exact run_bind_of_ok run

theorem Begins.roundFor_of_leave (begins : Begins name i m start)
    (run : body.exec rounds start = .ok .leave last) :
    roundFor rounds name body i m = .ok false last := by
  rw [begins.roundFor_eq]
  exact run_bind_of_ok run

theorem Begins.roundFor_of_error {stop : Stop} (begins : Begins name i m start)
    (run : body.exec rounds start = .error stop last) :
    roundFor rounds name body i m = .error stop last := by
  rw [begins.roundFor_eq]
  exact bind_eq_error.2 (.inl run)

theorem Rounds.repeats (runs : Rounds (body.exec rounds) name count i m mid) :
    Repeats (roundFor rounds name body) count i m mid := by
  induction runs with
  | none i m => exact .start i m
  | again begins run stays more ih => exact .again (begins.roundFor_of_stays run stays) ih

/-- Each number of the range has 64 bits, so no round is given another number than its own. -/
theorem iterates_forEach (rounds : Nat) (name : String) (body : Block) (low : -2 ^ 63 ≤ i)
    (high : i + count ≤ 2 ^ 63) (m : Machine) :
    Iterates (body.exec rounds) name count i m
      (forEach (roundFor rounds name body) count i m) := by
  induction count generalizing i m with
  | zero => exact .complete (.none i m)
  | succ count ih =>
      have begins := begins_ofInt name ⟨low, by omega⟩ m
      cases run : body.exec rounds { m with env := m.env.set name (.int (Int64.ofInt i)) } with
      | error stop last =>
          have fails : forEach (roundFor rounds name body) (count + 1) i m = .error stop last :=
            bind_eq_error.2 (.inl (begins.roundFor_of_error run))
          rw [fails]
          exact .failed (Nat.succ_pos count) (.none i m) begins.zero run
      | ok outcome next =>
          by_cases leaves : outcome = .leave
          · subst leaves
            have ends : forEach (roundFor rounds name body) (count + 1) i m = .ok () next :=
              run_bind_of_ok (begins.roundFor_of_leave run)
            rw [ends]
            exact .left (Nat.succ_pos count) (.none i m) begins.zero run
          · have goesOn : forEach (roundFor rounds name body) (count + 1) i m =
                forEach (roundFor rounds name body) count (i + 1) next :=
              run_bind_of_ok (begins.roundFor_of_stays run leaves)
            rw [goesOn]
            exact .again begins run leaves (ih (by omega) (by omega) next)

theorem Iterates.forEach_eq {result : EStateM.Result Stop Machine Unit}
    (iterates : Iterates (body.exec rounds) name count i m result) :
    forEach (roundFor rounds name body) count i m = result := by
  cases iterates with
  | complete all => exact all.repeats.forEach_eq 0
  | left early runs begins leaves =>
      exact runs.repeats.forEach_ends early (begins.roundFor_of_leave leaves)
  | failed early runs begins fails =>
      obtain ⟨more, rfl⟩ := Nat.exists_eq_add_of_lt early
      rw [Nat.add_assoc, runs.repeats.forEach_eq]
      exact bind_eq_error.2 (.inl (begins.roundFor_of_error fails))

end

inductive BoundFails (e : Expr) (m : Machine) : Stop → Machine → Prop
  | unknown {stop : Stop} {next : Machine} (failed : eval e m = .error stop next) :
      BoundFails e m stop next
  | notWhole {value : Value} {next : Machine} (evaluated : eval e m = .ok value next)
      (other : ∀ n, value ≠ .int n) :
      BoundFails e m (.error
        { cause := .invalidRangeBound (next.store.heap.text value) value.type
          span := some e.span }) next

section
variable {e : Expr} {m next : Machine}

theorem bound_of_int {n : Int64} (evaluated : eval e m = .ok (.int n) next) :
    bound e m = .ok n.toInt next := run_bind_of_ok evaluated

theorem BoundFails.bound_eq {stop : Stop} (fails : BoundFails e m stop next) :
    bound e m = .error stop next := by
  cases fails with
  | unknown failed => exact bind_eq_error.2 (.inl failed)
  | @notWhole value next evaluated other =>
      refine bind_eq_error.2 (.inr ⟨value, next, evaluated, ?_⟩)
      cases value with
      | int n => exact absurd rfl (other n)
      | _ => rfl

theorem env_of_eval {value : Value} (evaluated : eval e m = .ok value next) : next.env = m.env := by
  have kept := after_ofEval_env (·.eval e) m
  rwa [after, ← eval, evaluated] at kept

theorem BoundFails.env_eq {stop : Stop} (fails : BoundFails e m stop next) : next.env = m.env := by
  cases fails with
  | unknown failed =>
      have kept := after_ofEval_env (·.eval e) m
      rwa [after, ← eval, failed] at kept
  | notWhole evaluated _ => exact env_of_eval evaluated

end

end Exec

open Exec

def Exec.closed (name : String) :
    EStateM.Result Stop Machine Unit → EStateM.Result Stop Machine Outcome
  | .ok _ last => .ok .empty { last with env := last.env.erase name }
  | .error stop last => .error stop { last with env := last.env.erase name }

theorem Exec.run_thenErase (name : String) (x : Exec Unit) (m : Machine) :
    (do thenErase name x; return .empty : Exec Outcome) m = closed name (x m) := by
  simp only [Bind.bind, EStateM.bind, thenErase]
  cases x m <;> rfl

namespace Stmt

variable {rounds : Nat} {var : Name} {first last : Expr} {body : Block} {span : Span}
  {m m₁ m₂ : Machine} {a b : Int64}

theorem exec_forEach_of_bounds (start : eval first m = .ok (.int a) m₁)
    (finish : eval last m₁ = .ok (.int b) m₂) :
    (Stmt.forEach var first last body span).exec rounds m = closed var.text
      (Exec.forEach (roundFor rounds var.text body) (b.toInt - a.toInt + 1).toNat a.toInt m₂) := by
  refine (run_bind_of_ok (bound_of_int start)).trans ?_
  refine (run_bind_of_ok (bound_of_int finish)).trans ?_
  exact run_thenErase var.text _ m₂

theorem exec_forEach_eq_iff (start : eval first m = .ok (.int a) m₁)
    (finish : eval last m₁ = .ok (.int b) m₂) {result : EStateM.Result Stop Machine Outcome} :
    (Stmt.forEach var first last body span).exec rounds m = result ↔
      ∃ ended, Iterates (body.exec rounds) var.text (b.toInt - a.toInt + 1).toNat a.toInt m₂ ended ∧
        result = closed var.text ended := by
  have low := a.le_toInt
  have high : a.toInt + (b.toInt - a.toInt + 1).toNat ≤ 2 ^ 63 := by
    have := a.toInt_lt
    have := b.toInt_lt
    omega
  rw [exec_forEach_of_bounds start finish]
  constructor
  · rintro rfl
    exact ⟨_, iterates_forEach rounds var.text body low high m₂, rfl⟩
  · rintro ⟨ended, iterates, rfl⟩
    rw [iterates.forEach_eq]

theorem get?_after_forEach (start : eval first m = .ok (.int a) m₁)
    (finish : eval last m₁ = .ok (.int b) m₂) :
    (after ((Stmt.forEach var first last body span).exec rounds) m).env.get? var.text = none := by
  rw [after, exec_forEach_of_bounds start finish]
  cases Exec.forEach (roundFor rounds var.text body) (b.toInt - a.toInt + 1).toNat a.toInt m₂
  all_goals exact Environment.get?_erase_self _ var.text

theorem exec_forEach_of_boundFails {stop : Stop} {next : Machine}
    (fails : BoundFails first m stop next ∨
      ∃ a m₁, eval first m = .ok (.int a) m₁ ∧ BoundFails last m₁ stop next) :
    (Stmt.forEach var first last body span).exec rounds m = .error stop next ∧
      next.env = m.env := by
  rcases fails with fails | ⟨a, m₁, start, fails⟩
  · exact ⟨bind_eq_error.2 (.inl fails.bound_eq), fails.env_eq⟩
  · refine ⟨(run_bind_of_ok (bound_of_int start)).trans ?_, fails.env_eq.trans (env_of_eval start)⟩
    exact bind_eq_error.2 (.inl fails.bound_eq)

/-- The rounds of a loop are those for the numbers from its first bound to its second one, both of
them evaluated before. The loop runs them all, or ends with the first that leaves it or fails, and in
any case the variable is unbound afterwards. A round starts with the variable bound to its number,
whatever the rounds before did. If a bound cannot be had, then no round is run and all variables stay
as they are. -/
theorem exec_forEach_iterates (rounds : Nat) (var : Name) (first last : Expr) (body : Block)
    (span : Span) (m : Machine) :
    (∀ (a b : Int64) (m₁ m₂ : Machine), eval first m = .ok (.int a) m₁ →
      eval last m₁ = .ok (.int b) m₂ →
      (∀ result, (Stmt.forEach var first last body span).exec rounds m = result ↔
        ∃ ended,
          Iterates (body.exec rounds) var.text (b.toInt - a.toInt + 1).toNat a.toInt m₂ ended ∧
          result = closed var.text ended) ∧
      (after ((Stmt.forEach var first last body span).exec rounds) m).env.get? var.text = none) ∧
    (∀ (i : Int) (mid start : Machine), Begins var.text i mid start →
      (∃ value : Int64, value.toInt = i ∧ start.env.get? var.text = some (.int value)) ∧
      (∀ other, other ≠ var.text → start.env.get? other = mid.env.get? other) ∧
      start.store = mid.store) ∧
    ∀ (stop : Stop) (next : Machine),
      (BoundFails first m stop next ∨
        ∃ a m₁, eval first m = .ok (.int a) m₁ ∧ BoundFails last m₁ stop next) →
      (Stmt.forEach var first last body span).exec rounds m = .error stop next ∧
        next.env = m.env := by
  refine ⟨?_, ?_, ?_⟩
  · intro a b m₁ m₂ start finish
    exact ⟨fun _ => exec_forEach_eq_iff start finish, get?_after_forEach start finish⟩
  · rintro i mid start ⟨value, number, rfl⟩
    exact ⟨⟨value, number, Environment.get?_set_self _ _ _⟩,
      fun _ distinct => Environment.get?_set_of_ne distinct _ _, rfl⟩
  · intro stop next fails
    exact exec_forEach_of_boundFails fails

/-- A loop over `i` ends with the greatest number of all. Its body keeps `i` in `x` and has a loop
over `i` itself. With a text for a bound nothing is run. -/
theorem exec_forEach_iterates_greatest :
    ∃ (first last text : Expr) (body : Block) (a b : Int64) (m mid ended : Machine),
      a.toInt = 2 ^ 63 - 2 ∧ b.toInt = 2 ^ 63 - 1 ∧
      eval first m = .ok (.int a) m ∧ eval last m = .ok (.int b) m ∧
      m.env.bindings = [("i", .int 7), ("x", .int 0)] ∧ mid.env.bindings = [("x", .int a)] ∧
      Rounds (body.exec 0) "i" 1 (2 ^ 63 - 2) m mid ∧
      Rounds (body.exec 0) "i" 2 (2 ^ 63 - 2) m ended ∧
      (Stmt.forEach ⟨"i", ⟨9, 10⟩⟩ first last body ⟨0, 90⟩).exec 0 m =
        .ok .empty ⟨⟨[("x", .int b)], .empty⟩, {}⟩ ∧
      (Stmt.forEach ⟨"i", ⟨9, 10⟩⟩ first text body ⟨0, 90⟩).exec 0 m =
        .error (.error { cause := .invalidRangeBound "a" .str, span := some text.span }) m := by
  let a : Int64 := Int64.ofInt (2 ^ 63 - 2)
  let b : Int64 := Int64.ofInt (2 ^ 63 - 1)
  let first : Expr := .literal (.int a) ⟨15, 34⟩
  let last : Expr := .literal (.int b) ⟨35, 54⟩
  let text : Expr := .literal (.str "a") ⟨35, 38⟩
  let one : Expr := .literal (.int 1) ⟨80, 81⟩
  let i : Name := ⟨"i", ⟨9, 10⟩⟩
  let body : Block := .mk [.assign ⟨"x", ⟨57, 58⟩⟩ (.var i) ⟨57, 63⟩,
    .forEach i one one (.mk [] ⟨85, 87⟩) ⟨64, 87⟩] ⟨56, 90⟩
  let machine (bindings : List (String × Value)) : Machine := ⟨⟨bindings, .empty⟩, {}⟩
  let m : Machine := machine [("i", .int 7), ("x", .int 0)]
  have low : a.toInt = 2 ^ 63 - 2 := by decide
  have high : b.toInt = 2 ^ 63 - 1 := by decide
  have count : (b.toInt - a.toInt + 1).toNat = 2 := by decide
  have firstRun : body.exec 0 (machine [("i", .int a), ("x", .int 0)]) =
      .ok .empty (machine [("x", .int a)]) := rfl
  have secondRun : body.exec 0 (machine [("x", .int a), ("i", .int b)]) =
      .ok .empty (machine [("x", .int b)]) := rfl
  have second : Rounds (body.exec 0) "i" 1 (2 ^ 63 - 2 + 1) (machine [("x", .int a)])
      (machine [("x", .int b)]) := .again ⟨b, high, rfl⟩ secondRun (by decide) (.none _ _)
  have rounds : Rounds (body.exec 0) "i" 2 (2 ^ 63 - 2) m (machine [("x", .int b)]) :=
    .again ⟨a, low, rfl⟩ firstRun (by decide) second
  have iterates : Iterates (body.exec 0) "i" (b.toInt - a.toInt + 1).toNat a.toInt m
      (.ok () (machine [("x", .int b)])) := by
    rw [count, low]
    exact .complete rounds
  have evaluated : eval text m = .ok (.str "a") m := rfl
  obtain ⟨done, -, -⟩ := exec_forEach_iterates 0 i first last body ⟨0, 90⟩ m
  obtain ⟨-, -, refused⟩ := exec_forEach_iterates 0 i first text body ⟨0, 90⟩ m
  refine ⟨first, last, text, body, a, b, m, _, _, low, high, rfl, rfl, rfl, rfl,
    .again ⟨a, low, rfl⟩ firstRun (by decide) (.none _ _), rounds, ?_, ?_⟩
  · exact ((done a b m m rfl rfl).1 _).2 ⟨_, iterates, rfl⟩
  · exact (refused _ _ (.inr ⟨a, m, rfl, .notWhole evaluated (by simp)⟩)).1

end Stmt

end Salita
