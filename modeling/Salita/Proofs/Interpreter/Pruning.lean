import Salita.Proofs.Interpreter.Leaving

namespace Salita

mutual

def Stmt.prune : Stmt → Stmt
  | .choose choice span => .choose choice.prune span
  | .repeatWhile cond body span => .repeatWhile cond body.prune span
  | .forEach var first last body span => .forEach var first last body.prune span
  | stmt => stmt

def Choice.prune : Choice → Choice
  | .mk cond block otherwise => .mk cond block.prune otherwise.prune

def Otherwise.prune : Otherwise → Otherwise
  | .nothing => .nothing
  | .block block => .block block.prune
  | .choice choice => .choice choice.prune

def Block.prune : Block → Block
  | .mk stmts span => .mk (pruneAll stmts) span

def pruneAll : List Stmt → List Stmt
  | [] => []
  | stmt :: rest => if stmt.isLeave then [stmt] else stmt.prune :: pruneAll rest

end

/-- The program with its blocks pruned. Its own statements all stay, since outside of all blocks a
`lumisan` changes nothing. -/
def Program.prune (program : Program) : Program := program.map Stmt.prune

mutual

def Stmt.IsPruned : Stmt → Prop
  | .choose choice _ => choice.IsPruned
  | .repeatWhile _ body _ => body.IsPruned
  | .forEach _ _ _ body _ => body.IsPruned
  | _ => True

def Choice.IsPruned : Choice → Prop
  | .mk _ block otherwise => block.IsPruned ∧ otherwise.IsPruned

def Otherwise.IsPruned : Otherwise → Prop
  | .nothing => True
  | .block block => block.IsPruned
  | .choice choice => choice.IsPruned

def Block.IsPruned : Block → Prop
  | .mk stmts _ => AllPruned stmts

def AllPruned : List Stmt → Prop
  | [] => True
  | stmt :: rest => stmt.IsPruned ∧ (stmt.isLeave = true → rest = []) ∧ AllPruned rest

end

theorem Stmt.isPruned_of_isLeave {stmt : Stmt} (leaves : stmt.isLeave = true) : stmt.IsPruned := by
  cases stmt with
  | leave span => trivial
  | _ => cases leaves

theorem Stmt.isLeave_prune (stmt : Stmt) : stmt.prune.isLeave = stmt.isLeave := by
  cases stmt <;> rfl

mutual

theorem Stmt.isPruned_prune : ∀ stmt : Stmt, stmt.prune.IsPruned
  | .choose choice _ => choice.isPruned_prune
  | .repeatWhile _ body _ => body.isPruned_prune
  | .forEach _ _ _ body _ => body.isPruned_prune
  | .assign _ _ _ | .update _ _ _ _ | .print _ _ | .leave _ | .call _ _ _ => trivial

theorem Choice.isPruned_prune : ∀ choice : Choice, choice.prune.IsPruned
  | .mk _ block otherwise => ⟨block.isPruned_prune, otherwise.isPruned_prune⟩

theorem Otherwise.isPruned_prune : ∀ otherwise : Otherwise, otherwise.prune.IsPruned
  | .nothing => trivial
  | .block block => block.isPruned_prune
  | .choice choice => choice.isPruned_prune

theorem Block.isPruned_prune : ∀ block : Block, block.prune.IsPruned
  | .mk stmts _ => allPruned_pruneAll stmts

theorem allPruned_pruneAll : ∀ stmts : List Stmt, AllPruned (pruneAll stmts)
  | [] => trivial
  | stmt :: rest => by
      rw [pruneAll]
      split
      case isTrue leaves => exact ⟨stmt.isPruned_of_isLeave leaves, fun _ => rfl, trivial⟩
      case isFalse stays =>
        refine ⟨stmt.isPruned_prune, ?_, allPruned_pruneAll rest⟩
        intro leaves
        rw [stmt.isLeave_prune] at leaves
        exact absurd leaves stays

end

section
variable {rounds : Nat}

theorem execAll_of_isLeave {stmt : Stmt} (leaves : stmt.isLeave = true) (rest : List Stmt) :
    execAll rounds (stmt :: rest) = return .leave := by
  cases stmt with
  | leave span => rfl
  | _ => cases leaves

mutual

theorem Stmt.exec_prune : ∀ stmt : Stmt, stmt.prune.exec rounds = stmt.exec rounds
  | .choose choice _ => choice.exec_prune
  | .repeatWhile cond body _ => by
      rw [Stmt.prune, Stmt.exec, Stmt.exec, body.exec_prune]
  | .forEach var first last body _ => by
      rw [Stmt.prune, Stmt.exec, Stmt.exec, body.exec_prune]
  | .assign _ _ _ | .update _ _ _ _ | .print _ _ | .leave _ | .call _ _ _ => rfl

theorem Choice.exec_prune : ∀ choice : Choice, choice.prune.exec rounds = choice.exec rounds
  | .mk cond block otherwise => by
      rw [Choice.prune, Choice.exec, Choice.exec, block.exec_prune, otherwise.exec_prune]

theorem Otherwise.exec_prune :
    ∀ otherwise : Otherwise, otherwise.prune.exec rounds = otherwise.exec rounds
  | .nothing => rfl
  | .block block => block.exec_prune
  | .choice choice => choice.exec_prune

theorem Block.exec_prune : ∀ block : Block, block.prune.exec rounds = block.exec rounds
  | .mk stmts _ => execAll_pruneAll stmts

theorem execAll_pruneAll : ∀ stmts : List Stmt, execAll rounds (pruneAll stmts) = execAll rounds stmts
  | [] => rfl
  | stmt :: rest => by
      rw [pruneAll]
      split
      case isTrue leaves => rw [execAll_of_isLeave leaves, execAll_of_isLeave leaves]
      case isFalse => rw [execAll, execAll, stmt.exec_prune, execAll_pruneAll rest]

end

/-- In the blocks of a pruned program nothing follows a `lumisan`, and it runs as the program does:
it ends in the same state and with the same error, if there is one. -/
theorem Program.run_prune (rounds : Nat) (program : Program) :
    (∀ stmt ∈ program.prune, stmt.IsPruned) ∧ program.prune.run rounds = program.run rounds := by
  constructor
  · intro stmt member
    obtain ⟨original, -, rfl⟩ := List.mem_map.1 member
    exact original.isPruned_prune
  · induction program with
    | nil => rfl
    | cons stmt rest ih =>
        rw [prune, List.map_cons, ← prune, Program.run, Program.run, stmt.exec_prune, ih]

theorem Program.run_prune_loop :
    ∃ (cond one : Expr) (assign update loop : Stmt) (program : Program) (m last : Machine),
      program = [.repeatWhile cond
          (.mk [.choose (.mk cond (.mk [assign, .leave ⟨0, 1⟩, assign] ⟨0, 1⟩) .nothing) ⟨0, 1⟩,
            .leave ⟨0, 1⟩, .leave ⟨0, 1⟩, assign] ⟨0, 1⟩) ⟨0, 1⟩,
        .leave ⟨0, 1⟩, update] ∧
      loop = .repeatWhile cond
        (.mk [.choose (.mk cond (.mk [assign, .leave ⟨0, 1⟩] ⟨0, 1⟩) .nothing) ⟨0, 1⟩,
          .leave ⟨0, 1⟩] ⟨0, 1⟩) ⟨0, 1⟩ ∧
      assign = .assign ⟨"x", ⟨0, 1⟩⟩ one ⟨0, 1⟩ ∧
      update = .update ⟨"x", ⟨0, 1⟩⟩ .add one ⟨0, 1⟩ ∧
      program.prune = [loop, .leave ⟨0, 1⟩, update] ∧ loop.IsPruned ∧
      program.prune.run 1 = program.run 1 ∧ program.run 1 m = .ok () last ∧
      last.env.bindings = [("x", .int 2)] := by
  let one : Expr := .literal (.int 1) ⟨0, 1⟩
  let cond : Expr := .literal (.bool true) ⟨0, 1⟩
  let assign : Stmt := .assign ⟨"x", ⟨0, 1⟩⟩ one ⟨0, 1⟩
  let update : Stmt := .update ⟨"x", ⟨0, 1⟩⟩ .add one ⟨0, 1⟩
  let program : Program := [.repeatWhile cond
      (.mk [.choose (.mk cond (.mk [assign, .leave ⟨0, 1⟩, assign] ⟨0, 1⟩) .nothing) ⟨0, 1⟩,
        .leave ⟨0, 1⟩, .leave ⟨0, 1⟩, assign] ⟨0, 1⟩) ⟨0, 1⟩,
    .leave ⟨0, 1⟩, update]
  obtain ⟨isPruned, sameRun⟩ := Program.run_prune 1 program
  exact ⟨cond, one, assign, update, _, program, ⟨⟨[], .empty⟩, {}⟩, _, rfl, rfl, rfl, rfl, rfl,
    isPruned _ List.mem_cons_self, sameRun, rfl, rfl⟩

end

end Salita
