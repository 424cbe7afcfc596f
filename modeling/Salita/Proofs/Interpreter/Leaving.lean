import Salita.Interpreter.Statement
import Salita.Proofs.Computation

namespace Salita

def Stmt.isLeave : Stmt → Bool
  | .leave _ => true
  | _ => false

mutual

/-- Whether a `lumisan` in the statement lies outside of the loops in it. -/
def Stmt.leaves : Stmt → Bool
  | .leave _ => true
  | .choose choice _ => choice.leaves
  | _ => false

def Choice.leaves : Choice → Bool
  | .mk _ block otherwise => block.leaves || otherwise.leaves

def Otherwise.leaves : Otherwise → Bool
  | .nothing => false
  | .block block => block.leaves
  | .choice choice => choice.leaves

def Block.leaves : Block → Bool
  | .mk stmts _ => Program.leaves stmts

def Program.leaves : Program → Bool
  | [] => false
  | stmt :: rest => stmt.leaves || Program.leaves rest

end

variable {rounds : Nat}

theorem returns_execAll (stmts : List Stmt) :
    Returns (fun outcome => outcome = .empty ∨ outcome = .leave) (execAll rounds stmts) := by
  induction stmts with
  | nil => exact .pure (.inl rfl)
  | cons stmt rest ih =>
      refine .bind (.any _) fun outcome _ => ?_
      split
      · exact .pure (.inr rfl)
      · exact ih

theorem Block.returns (block : Block) :
    Returns (fun outcome => outcome = .empty ∨ outcome = .leave) (block.exec rounds) := by
  cases block with
  | mk stmts span => exact returns_execAll stmts

mutual

theorem Stmt.stays : ∀ stmt : Stmt, stmt.leaves = false → Returns (· ≠ .leave) (stmt.exec rounds)
  | .assign _ _ _, _ => .bind (.any _) fun _ _ => .bind (.any _) fun _ _ => .pure nofun
  | .update _ _ _ _, _ =>
      .bind (.any _) fun _ _ => .bind (.any _) fun _ _ => .bind (.any _) fun _ _ =>
        .bind (.any _) fun _ _ => .pure nofun
  | .choose choice _, inside => choice.stays inside
  | .repeatWhile _ _ _, _ => .bind (.any _) fun _ _ => .pure nofun
  | .forEach _ _ _ _ _, _ =>
      .bind (.any _) fun _ _ => .bind (.any _) fun _ _ => .bind (.any _) fun _ _ => .pure nofun
  | .print _ _, _ => .bind (.any _) fun _ _ => .pure nofun
  | .leave _, inside => by cases inside
  | .call _ _ _, _ => .bind (.any _) fun _ _ => .pure nofun

theorem Choice.stays :
    ∀ choice : Choice, choice.leaves = false → Returns (· ≠ .leave) (choice.exec rounds)
  | .mk cond block otherwise, inside => by
      simp only [Choice.leaves, Bool.or_eq_false_iff] at inside
      refine .bind (.any _) fun holds _ => ?_
      cases holds with
      | false => exact otherwise.stays inside.2
      | true => exact block.stays inside.1

theorem Otherwise.stays :
    ∀ otherwise : Otherwise, otherwise.leaves = false → Returns (· ≠ .leave) (otherwise.exec rounds)
  | .nothing, _ => .pure nofun
  | .block block, inside => block.stays inside
  | .choice choice, inside => choice.stays inside

theorem Block.stays :
    ∀ block : Block, block.leaves = false → Returns (· ≠ .leave) (block.exec rounds)
  | .mk stmts _, inside => stays_execAll stmts inside

theorem stays_execAll :
    ∀ stmts : List Stmt, Program.leaves stmts = false → Returns (· ≠ .leave) (execAll rounds stmts)
  | [], _ => .pure nofun
  | stmt :: rest, inside => by
      simp only [Program.leaves, Bool.or_eq_false_iff] at inside
      refine .bind (stmt.stays inside.1) fun outcome stays => ?_
      rw [if_neg stays]
      exact stays_execAll rest inside.2

end

namespace Exec

def round (rounds : Nat) (cond : Expr) (body : Block) : Exec Bool := do
  if ← holds cond then return (← body.exec rounds) != .leave else return false

def roundFor (rounds : Nat) (name : String) (body : Block) (i : Int) : Exec Bool := do
  bind name (.int (Int64.ofInt i))
  return (← body.exec rounds) != .leave

inductive Repeats (step : Int → Exec Bool) : Nat → Int → Machine → Machine → Prop
  | start (i : Int) (m : Machine) : Repeats step 0 i m m
  | again {count : Nat} {i : Int} {m next last : Machine} (first : step i m = .ok true next)
      (more : Repeats step count (i + 1) next last) : Repeats step (count + 1) i m last

variable {count fuel : Nat} {i : Int} {m mid last : Machine}

theorem Repeats.repeatWhile_eq {step : Exec Bool} (repeats : Repeats (fun _ => step) count i m mid)
    (more : Nat) : repeatWhile step (count + more) m = repeatWhile step more mid := by
  induction repeats with
  | start i m => rw [Nat.zero_add]
  | again first rest ih =>
      rw [Nat.succ_add, ← ih]
      exact run_bind_of_ok first

theorem Repeats.forEach_eq {step : Int → Exec Bool} (repeats : Repeats step count i m mid)
    (more : Nat) : forEach step (count + more) i m = forEach step more (i + count) mid := by
  induction repeats with
  | start i m => rw [Nat.zero_add, Int.natCast_zero, Int.add_zero]
  | @again count i m next mid first rest ih =>
      have place : i + (count + 1 : Nat) = i + 1 + count := by omega
      rw [Nat.succ_add, place, ← ih]
      exact run_bind_of_ok first

theorem Repeats.repeatWhile_ends {step : Exec Bool}
    (repeats : Repeats (fun _ => step) count i m mid) (enough : count < fuel)
    (stop : step mid = .ok false last) : repeatWhile step fuel m = .ok () last := by
  obtain ⟨more, rfl⟩ := Nat.exists_eq_add_of_lt enough
  rw [Nat.add_assoc, repeats.repeatWhile_eq]
  exact run_bind_of_ok stop

theorem Repeats.forEach_ends {step : Int → Exec Bool} (repeats : Repeats step count i m mid)
    (enough : count < fuel) (stop : step (i + count) mid = .ok false last) :
    forEach step fuel i m = .ok () last := by
  obtain ⟨more, rfl⟩ := Nat.exists_eq_add_of_lt enough
  rw [Nat.add_assoc, repeats.forEach_eq]
  exact run_bind_of_ok stop

theorem round_of_leave {cond : Expr} {body : Block} (held : holds cond m = .ok true mid)
    (left : body.exec rounds mid = .ok .leave last) : round rounds cond body m = .ok false last :=
  (run_bind_of_ok held).trans (run_bind_of_ok left)

theorem roundFor_of_leave {name : String} {body : Block}
    (left : body.exec rounds { m with env := m.env.set name (.int (Int64.ofInt i)) } =
      .ok .leave last) : roundFor rounds name body i m = .ok false last :=
  run_bind_of_ok left

theorem thenErase_of_ok {α : Type} {name : String} {x : Exec α} {a : α}
    (done : x m = .ok a last) :
    thenErase name x m = .ok a { last with env := last.env.erase name } := by
  rw [thenErase, done]

end Exec

open Exec

theorem Stmt.exec_repeatWhile_of_leave {cond : Expr} {body : Block} {span : Span} {count : Nat}
    {m next mid last : Machine} (enough : count < rounds)
    (repeats : Repeats (fun _ => round rounds cond body) count 0 m next)
    (held : holds cond next = .ok true mid) (left : body.exec rounds mid = .ok .leave last) :
    (Stmt.repeatWhile cond body span).exec rounds m = .ok .empty last :=
  run_bind_of_ok (repeats.repeatWhile_ends enough (round_of_leave held left))

theorem Stmt.exec_forEach_of_leave {var : Name} {first stop : Expr} {body : Block} {span : Span}
    {low high : Int} {count : Nat} {m₁ m₂ m next last : Machine}
    (start : bound first m₁ = .ok low m₂) (finish : bound stop m₂ = .ok high m)
    (enough : low + count ≤ high)
    (repeats : Repeats (roundFor rounds var.text body) count low m next)
    (left : body.exec rounds
      { next with env := next.env.set var.text (.int (Int64.ofInt (low + count))) } =
      .ok .leave last) :
    (Stmt.forEach var first stop body span).exec rounds m₁ =
      .ok .empty { last with env := last.env.erase var.text } := by
  -- The range has a number left for the round that leaves, so the rounds before it are not all.
  have ends : Exec.forEach (roundFor rounds var.text body) (high - low + 1).toNat low m =
      .ok () last := repeats.forEach_ends (by omega) (roundFor_of_leave left)
  refine (run_bind_of_ok start).trans ((run_bind_of_ok finish).trans ?_)
  exact run_bind_of_ok (thenErase_of_ok ends)

theorem Program.run_filter (program : Program) :
    Program.run rounds (program.filter fun stmt => !stmt.isLeave) = program.run rounds := by
  induction program with
  | nil => rfl
  | cons stmt rest ih =>
      rw [List.filter_cons]
      split
      case isTrue kept => rw [Program.run, ih, Program.run]
      case isFalse dropped =>
        cases stmt with
        | leave span => exact ih
        | _ => exact absurd rfl dropped

/-- A loop does not leave the loop around it, and no statement does that has its `lumisan`s in loops
only. A block has no value. A loop is over when its body leaves it, in whatever round, and a program
runs as if its own `lumisan`s, outside of all blocks, were not there. -/
theorem Program.leave_confined (rounds : Nat) :
    (∀ (cond : Expr) (body : Block) (span : Span),
      Returns (· ≠ .leave) ((Stmt.repeatWhile cond body span).exec rounds)) ∧
    (∀ (var : Name) (first last : Expr) (body : Block) (span : Span),
      Returns (· ≠ .leave) ((Stmt.forEach var first last body span).exec rounds)) ∧
    (∀ stmt : Stmt, stmt.leaves = false → Returns (· ≠ .leave) (stmt.exec rounds)) ∧
    (∀ block : Block,
      Returns (fun outcome => outcome = .empty ∨ outcome = .leave) (block.exec rounds)) ∧
    (∀ (cond : Expr) (body : Block) (span : Span) (count : Nat) (m next mid last : Machine),
      count < rounds → Repeats (fun _ => round rounds cond body) count 0 m next →
      holds cond next = .ok true mid → body.exec rounds mid = .ok .leave last →
      (Stmt.repeatWhile cond body span).exec rounds m = .ok .empty last) ∧
    (∀ (var : Name) (first stop : Expr) (body : Block) (span : Span) (low high : Int) (count : Nat)
      (m₁ m₂ m next last : Machine),
      bound first m₁ = .ok low m₂ → bound stop m₂ = .ok high m → low + count ≤ high →
      Repeats (roundFor rounds var.text body) count low m next →
      body.exec rounds
        { next with env := next.env.set var.text (.int (Int64.ofInt (low + count))) } =
        .ok .leave last →
      (Stmt.forEach var first stop body span).exec rounds m₁ =
        .ok .empty { last with env := last.env.erase var.text }) ∧
    ∀ program : Program,
      Program.run rounds (program.filter fun stmt => !stmt.isLeave) = program.run rounds := by
  refine ⟨?_, ?_, Stmt.stays, Block.returns, ?_, ?_, Program.run_filter⟩
  · intro cond body span
    exact Stmt.stays _ rfl
  · intro var first last body span
    exact Stmt.stays _ rfl
  · intro cond body span count m next mid last enough repeats held left
    exact Stmt.exec_repeatWhile_of_leave enough repeats held left
  · intro var first stop body span low high count m₁ m₂ m next last start finish enough repeats left
    exact Stmt.exec_forEach_of_leave start finish enough repeats left

/-- Both loops count in `x` and leave in their second round, from within a `kapag`. A `kapag` around
such a loop leaves nothing. -/
theorem Program.leave_confined_second_round :
    ∃ (cond one two : Expr) (body : Block) (m last : Machine),
      (∃ next, Repeats (fun _ => round 2 cond body) 1 0 m next ∧
        holds cond next = .ok true next ∧ body.exec 2 next = .ok .leave last) ∧
      (Stmt.repeatWhile cond body ⟨0, 9⟩).exec 2 m = .ok .empty last ∧
      (∃ next left, bound one m = .ok 1 m ∧ bound two m = .ok 2 m ∧
        Repeats (roundFor 2 "i" body) 1 1 m next ∧
        body.exec 2 { next with env := next.env.set "i" (.int (Int64.ofInt (1 + 1))) } =
          .ok .leave left ∧
        left.env.get? "i" = some (.int 2)) ∧
      (Stmt.forEach ⟨"i", ⟨9, 10⟩⟩ one two body ⟨0, 9⟩).exec 2 m = .ok .empty last ∧
      last.env.bindings = [("x", .int 2)] ∧
      ∃ around : Stmt, body.leaves = true ∧ around.leaves = false ∧
        around = .choose (.mk cond (.mk [.repeatWhile cond body ⟨0, 9⟩] ⟨0, 9⟩) .nothing) ⟨0, 9⟩ ∧
        Returns (· ≠ .leave) (around.exec 2) := by
  let one : Expr := .literal (.int 1) ⟨0, 1⟩
  let two : Expr := .literal (.int 2) ⟨0, 1⟩
  let cond : Expr := .literal (.bool true) ⟨0, 1⟩
  let body : Block := .mk [.update ⟨"x", ⟨0, 1⟩⟩ .add one ⟨0, 1⟩,
    .choose (.mk (.binary .eq (.var ⟨"x", ⟨0, 1⟩⟩) two ⟨0, 1⟩) (.mk [.leave ⟨0, 1⟩] ⟨0, 1⟩) .nothing)
      ⟨0, 1⟩] ⟨0, 1⟩
  let machine (bindings : List (String × Value)) : Machine := ⟨⟨bindings, .empty⟩, {}⟩
  obtain ⟨-, -, stays, -, whileEnds, forEnds, -⟩ := Program.leave_confined 2
  have rounds : Repeats (fun _ => round 2 cond body) 1 0 (machine [("x", .int 0)])
      (machine [("x", .int 1)]) := .again rfl (.start _ _)
  have left : body.exec 2 (machine [("x", .int 1)]) = .ok .leave (machine [("x", .int 2)]) := rfl
  have numbers : Repeats (roundFor 2 "i" body) 1 1 (machine [("x", .int 0)])
      (machine [("x", .int 1), ("i", .int 1)]) := .again rfl (.start _ _)
  have leftRange : body.exec 2 (machine [("x", .int 1), ("i", .int 2)]) =
      .ok .leave (machine [("x", .int 2), ("i", .int 2)]) := rfl
  refine ⟨cond, one, two, body, _, _, ⟨_, rounds, rfl, left⟩, ?_, ⟨_, _, rfl, rfl, numbers, leftRange,
    rfl⟩, ?_, rfl, _, rfl, rfl, rfl, stays _ rfl⟩
  · exact whileEnds cond body _ 1 _ _ _ _ (by decide) rounds rfl left
  · exact forEnds ⟨"i", ⟨9, 10⟩⟩ one two body ⟨0, 9⟩ 1 2 1 (machine [("x", .int 0)]) _ _ _ _ rfl rfl
      (by decide) numbers leftRange

end Salita
