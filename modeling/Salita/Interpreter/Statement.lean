import Salita.Interpreter.Expression

/-!
# Running statements

A statement changes the variables of a machine and its store. `lumisan` ends the innermost loop
around it: statements hand it outward as their outcome until a loop takes it. A `hanggat` loop may
never end, so a run is given a bound on the rounds of each such loop. A run that reaches it stops
without a result.
-/

namespace Salita

structure Machine where
  env : Environment
  store : Store

inductive Stop where
  | error (error : EvalError)
  | outOfRounds
deriving DecidableEq, Repr

abbrev Exec := EStateM Stop Machine

inductive Outcome where
  | value (value : Value)
  | leave
  | empty
deriving DecidableEq

namespace Exec

def ofEval {α : Type} (x : Environment → Eval α) : Exec α := fun m =>
  match m with
  | ⟨env, store⟩ =>
      match x env store with
      | .ok a store => .ok a ⟨env, store⟩
      | .error e store => .error (.error e) ⟨env, store⟩

def eval (e : Expr) : Exec Value := ofEval (·.eval e)

def holds (e : Expr) : Exec Bool := do
  let value ← eval e
  ofEval fun _ => Eval.isTrue value

def bind (name : String) (value : Value) : Exec Unit := fun m =>
  .ok () { m with env := m.env.set name value }

def thenErase {α : Type} (name : String) (x : Exec α) : Exec α := fun m =>
  match x m with
  | .ok a m => .ok a { m with env := m.env.erase name }
  | .error stop m => .error stop { m with env := m.env.erase name }

def bound (e : Expr) : Exec Int := do
  match ← eval e with
  | .int n => return n.toInt
  | other => ofEval fun _ => Eval.placed e.span do
      Eval.fail (.invalidRangeBound (← Eval.textOf other) other.type)

def repeatWhile (step : Exec Bool) : Nat → Exec Unit
  | 0 => throw .outOfRounds
  | rounds + 1 => do
      if ← step then repeatWhile step rounds else return ()

def forEach (step : Int → Exec Bool) : Nat → Int → Exec Unit
  | 0, _ => return ()
  | count + 1, i => do
      if ← step i then forEach step count (i + 1) else return ()

end Exec

mutual

def Stmt.exec (rounds : Nat) : Stmt → Exec Outcome
  | .assign target value _ => do
      let value ← Exec.eval value
      Exec.bind target.text value
      return .empty
  | .update target op value span => do
      let current ← Exec.ofEval fun env =>
        Environment.found target.span (env.valueOf target.text)
      let value ← Exec.eval value
      let result ← Exec.ofEval fun _ => Eval.orAt span (Operation.binary current value op)
      Exec.bind target.text result
      return .empty
  | .choose choice _ => choice.exec rounds
  | .repeatWhile cond body _ => do
      let step : Exec Bool := do
        if ← Exec.holds cond then return (← body.exec rounds) != .leave else return false
      Exec.repeatWhile step rounds
      return .empty
  | .forEach var first last body _ => do
      let first ← Exec.bound first
      let last ← Exec.bound last
      let step (i : Int) : Exec Bool := do
        Exec.bind var.text (.int (Int64.ofInt i))
        return (← body.exec rounds) != .leave
      Exec.thenErase var.text (Exec.forEach step (last - first + 1).toNat first)
      return .empty
  | .print args _ => do
      Exec.ofEval fun env => do
        let values ← env.evalAll args
        let heap ← Eval.heap
        Eval.print (" ".intercalate (values.map heap.text) ++ "\n")
      return .empty
  | .leave _ => return .leave
  | .call target args span => do
      let value ← Exec.ofEval fun env => env.invoke target span (env.evalAll args)
      return .value value

def Choice.exec (rounds : Nat) : Choice → Exec Outcome
  | .mk cond block otherwise => do
      if ← Exec.holds cond then block.exec rounds else otherwise.exec rounds

def Otherwise.exec (rounds : Nat) : Otherwise → Exec Outcome
  | .nothing => return .empty
  | .block block => block.exec rounds
  | .choice choice => choice.exec rounds

def Block.exec (rounds : Nat) : Block → Exec Outcome
  | .mk stmts _ => execAll rounds stmts

def execAll (rounds : Nat) : List Stmt → Exec Outcome
  | [] => return .empty
  | stmt :: rest => do
      if (← stmt.exec rounds) = .leave then return .leave else execAll rounds rest

end

/-- Runs a program statement by statement. A `lumisan` outside of all loops changes nothing. -/
def Program.run (rounds : Nat) : Program → Exec Unit
  | [] => return ()
  | stmt :: rest => do
      let _ ← stmt.exec rounds
      run rounds rest

end Salita
