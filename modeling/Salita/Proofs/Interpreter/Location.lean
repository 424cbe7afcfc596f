import Salita.Proofs.Interpreter.Composition
import Salita.Proofs.Interpreter.Joining

namespace Salita

def EvalError.PlacedIn (P : Span → Prop) (e : EvalError) : Prop :=
  ∃ span, e.span = some span ∧ P span

section
variable {P : Span → Prop} {α : Type}

theorem fails_mapError {C : EvalError → Prop} {change : EvalError → EvalError} {x : Eval α}
    (fails : Fails (fun e => C (change e)) x) : Fails C (x.mapError change) := by
  intro s e s' failed
  simp only [Eval.mapError] at failed
  cases result : x s with
  | ok a s₁ =>
      rw [result] at failed
      cases failed
  | error e₁ s₁ =>
      rw [result] at failed
      cases failed
      exact fails s _ _ result

theorem fails_placed {span : Span} (allowed : P span) (x : Eval α) :
    Fails (EvalError.PlacedIn P) (Eval.placed span x) :=
  fails_mapError fun _ _ _ _ => ⟨span, rfl, allowed⟩

theorem Evaluation.fails {x : Eval α} (evaluation : Evaluation P x) :
    Fails (EvalError.PlacedIn P) x := by
  induction evaluation with
  | pure a => exact .pure a
  | bind first next first_ih next_ih => exact .bind first_ih next_ih
  | heap | print text =>
      intro s e s' failed
      cases failed
  | @found α span allowed result =>
      intro s e s' failed
      cases result with
      | ok a => cases failed
      | error e =>
          cases failed
          exact ⟨span, rfl, allowed⟩
  | placed allowed composed => exact fails_placed allowed _
  | fail allowed cause => exact fails_placed allowed _
  | @step changes α span x allowed composed =>
      apply fails_mapError
      intro s e s' failed
      -- The errors of operators and functions have no place of their own to keep.
      have unplaced := (composed.fails_bare s e s' failed).unplaced
      refine ⟨span, ?_, allowed⟩
      rw [EvalError.orAt, unplaced, Option.getD_none]
  | orAt outer evaluation ih =>
      apply fails_mapError
      intro s e s' failed
      obtain ⟨span, place, allowed⟩ := ih s e s' failed
      refine ⟨span, ?_, allowed⟩
      rw [EvalError.orAt, place, Option.getD_some]

end

def Stop.PlacedIn (P : Span → Prop) : Stop → Prop
  | .error e => e.PlacedIn P
  | .outOfRounds => True

theorem Execution.fails {P : Span → Prop} {V : String → Prop} {α : Type} {x : Exec α}
    (execution : Execution P V x) : Fails (Stop.PlacedIn P) x := by
  induction execution with
  | pure a => exact .pure a
  | bind first next first_ih next_ih => exact .bind first_ih next_ih
  | outOfRounds =>
      intro m stop last failed
      cases failed
      trivial
  | @ofEval α x evaluation =>
      intro m stop last failed
      simp only [Exec.ofEval] at failed
      cases result : x m.env m.store with
      | ok a store =>
          rw [result] at failed
          cases failed
      | error e store =>
          rw [result] at failed
          cases failed
          exact (evaluation m.env).fails _ _ _ result
  | assign allowed value =>
      intro m stop last failed
      cases failed
  | @thenErase α name x allowed execution ih =>
      intro m stop last failed
      simp only [Exec.thenErase] at failed
      cases result : x m with
      | ok a next =>
          rw [result] at failed
          cases failed
      | error e next =>
          rw [result] at failed
          cases failed
          exact ih _ _ _ result

theorem Program.run_eq_error {rounds : Nat} {program : Program} {m last : Machine} {stop : Stop}
    (failed : program.run rounds m = .error stop last) :
    ∃ (before : Program) (stmt : Stmt) (after : Program) (next : Machine),
      program = before ++ stmt :: after ∧ before.run rounds m = .ok () next ∧
      stmt.exec rounds next = .error stop last := by
  induction program generalizing m with
  | nil => cases failed
  | cons stmt rest ih =>
      rcases bind_eq_error.1 failed with failed | ⟨outcome, next, done, failed⟩
      · exact ⟨[], stmt, rest, m, rfl, rfl, failed⟩
      · obtain ⟨before, stopped, after, reached, rfl, first, second⟩ := ih failed
        refine ⟨stmt :: before, stopped, after, reached, rfl, ?_, second⟩
        exact (run_bind_of_ok done).trans first

open Lexer Grammar Text

theorem Lexer.StandsAt.through {source before piece after before' piece' after' : List Char}
    {first last : Span} (start : StandsAt source first before piece after)
    (stop : StandsAt source last before' piece' after') (nonempty : first.start < last.stop) :
    ∃ whole, StandsAt source ⟨first.start, last.stop⟩ before whole after' := by
  have same : before ++ (piece ++ after) = (before' ++ piece') ++ after' := by
    rw [List.append_assoc, ← start.split, ← stop.split]
  rw [start.start, stop.stop] at nonempty
  rcases List.append_eq_append_iff.1 same with ⟨whole, front, back⟩ | ⟨more, front, back⟩
  · refine ⟨whole, ?_, start.start, ?_⟩
    · rw [start.split, back]
    · rw [stop.stop, front]
  · rw [front, byteCount_append (before' ++ piece')] at nonempty
    omega

theorem Grammar.StmtsText.exists_stmtText {before after : Program} {stmt : Stmt} {ts : List Token}
    (derived : StmtsText ts (before ++ stmt :: after)) :
    ∃ us, us.Sublist ts ∧ StmtText us stmt := by
  induction before generalizing ts with
  | nil =>
      cases derived with
      | cons text rest => exact ⟨_, List.sublist_append_left _ _, text⟩
  | cons first before ih =>
      cases derived with
      | cons text rest =>
          obtain ⟨us, sublist, inner⟩ := ih rest
          exact ⟨us, sublist.trans (List.sublist_append_right _ _), inner⟩

theorem Lexer.Covers.standsAt {source : List Char} {tokens : List Token}
    (covers : Covers 0 source tokens) {span : Span} (reaches : Reaches tokens span) :
    ∃ before piece after, StandsAt source span before piece after := by
  obtain ⟨⟨first, firstMember, start⟩, ⟨last, lastMember, stop⟩, nonempty⟩ := reaches
  have lexemes := @Covers.lexemes 0 source tokens covers source [] rfl rfl
  obtain ⟨before, _, _, stands, -⟩ := lexemes first firstMember
  obtain ⟨_, _, after, standsLast, -⟩ := lexemes last lastMember
  rw [← start, ← stop] at nonempty
  obtain ⟨piece, whole⟩ := stands.through standsLast nonempty
  rw [start, stop] at whole
  exact ⟨before, piece, after, whole⟩

namespace Machine

theorem finish_eq_failed {α : Type} {x : Exec α} {m last : Machine} {e : EvalError} :
    m.finish x = (.failed (.eval e), last) ↔ x m = .error (.error e) last := by
  unfold finish
  cases x m with
  | ok a next => simp
  | error stop next => cases stop <;> simp

theorem finish_of_ok {α : Type} {x : Exec α} {m next : Machine} {a : α} (run : x m = .ok a next) :
    m.finish x = (.done, next) := by
  rw [finish, run]

/-- An error of a program text is at a place in it that starts with a token and stops with one. The
place lies within a statement: all statements before that one have run to their ends, and the run
is over where it fails. -/
theorem runSource_error_place {rounds : Nat} {source : String} {program : Program}
    {m last : Machine} {e : EvalError} (small : byteCount source.toList < 0x100000000)
    (reads : readProgram source = .ok program)
    (failed : m.runSource rounds source = (.failed (.eval e), last)) :
    ∃ (span : Span) (body : List Token) (before : Program) (stmt : Stmt) (after : Program)
      (next : Machine),
      e.span = some span ∧ span.start < span.stop ∧ span.stop ≤ byteCount source.toList ∧
      (∃ front piece back, StandsAt source.toList span front piece back) ∧
      lex source = .ok (body ++ [Token.mk .eof (.point (byteCount source.toList))]).toArray ∧
      (∃ t ∈ body, t.span.start = span.start) ∧ (∃ t ∈ body, t.span.stop = span.stop) ∧
      program = before ++ stmt :: after ∧ span.Within stmt.span ∧
      m.finish (before.run rounds) = (.done, next) ∧
      next.finish (stmt.exec rounds) = (.failed (.eval e), last) := by
  obtain ⟨body, covers, derived⟩ := (readProgram_eq_ok_iff small).1 reads
  simp only [runSource, reads, finish_eq_failed] at failed
  obtain ⟨before, stmt, after, next, rfl, done, stopped⟩ := Program.run_eq_error failed
  obtain ⟨ts, sublist, text⟩ := derived.exists_stmtText
  have solid : Solid body := fun t member => (covers.span_bounds t member).2.1
  have inside : Solid ts := fun t member => solid t (sublist.subset member)
  have execution : Execution (· ∈ stmt.spans) (fun _ => True) (stmt.exec rounds) :=
    Stmt.execution (fun _ member => member) (fun _ _ => trivial)
  obtain ⟨span, place, member⟩ := execution.fails _ _ _ stopped
  have reaches := text.reaches solid sublist.subset span member
  obtain ⟨front, piece, back, stands⟩ := covers.standsAt reaches
  have bounded : span.stop ≤ byteCount source.toList := by
    rw [stands.stop, stands.split, byteCount_append, byteCount_append, byteCount_append]
    omega
  exact ⟨span, body, before, stmt, after, next, place, reaches.nonempty, bounded,
    ⟨front, piece, back, stands⟩, (lex_eq_ok_iff_of_small small).2 ⟨body, covers, rfl⟩,
    reaches.start, reaches.stop, rfl,
    text.spans_within inside (covers.ordered.sublist sublist) span member,
    finish_of_ok done, finish_eq_failed.2 stopped⟩

theorem runSource_error_place_index :
    byteCount "x = 1;y = [x[0]];".toList < 0x100000000 ∧
      ∃ (last next : Machine) (before : Program) (stmt : Stmt) (after : Program),
        readProgram "x = 1;y = [x[0]];" = .ok (before ++ stmt :: after) ∧
        (start .empty .empty [] .silent).runSource 1 "x = 1;y = [x[0]];" =
          (.failed (.eval { cause := .notSubscriptable "x" .int, span := some ⟨11, 12⟩ }), last) ∧
        Span.Within ⟨11, 12⟩ stmt.span ∧
        (start .empty .empty [] .silent).finish (before.run 1) = (.done, next) ∧
        next.finish (stmt.exec 1) =
          (.failed (.eval { cause := .notSubscriptable "x" .int, span := some ⟨11, 12⟩ }), last) := by
  have reads : readProgram "x = 1;y = [x[0]];" =
      .ok [.assign ⟨"x", ⟨0, 1⟩⟩ (.literal (.int 1) ⟨4, 5⟩) ⟨0, 6⟩,
        .assign ⟨"y", ⟨6, 7⟩⟩
          (.list [.index ⟨"x", ⟨11, 12⟩⟩ (.literal (.int 0) ⟨13, 14⟩) ⟨11, 15⟩] ⟨10, 16⟩) ⟨6, 17⟩] :=
    @readProgram_of_parse _ #[⟨.ident "x", ⟨0, 1⟩⟩, ⟨.symbol .equal, ⟨2, 3⟩⟩, ⟨.int 1, ⟨4, 5⟩⟩,
      ⟨.symbol .semicolon, ⟨5, 6⟩⟩, ⟨.ident "y", ⟨6, 7⟩⟩, ⟨.symbol .equal, ⟨8, 9⟩⟩,
      ⟨.symbol .leftBracket, ⟨10, 11⟩⟩, ⟨.ident "x", ⟨11, 12⟩⟩, ⟨.symbol .leftBracket, ⟨12, 13⟩⟩,
      ⟨.int 0, ⟨13, 14⟩⟩, ⟨.symbol .rightBracket, ⟨14, 15⟩⟩, ⟨.symbol .rightBracket, ⟨15, 16⟩⟩,
      ⟨.symbol .semicolon, ⟨16, 17⟩⟩, ⟨.eof, ⟨17, 17⟩⟩] _ rfl rfl
  have small : byteCount "x = 1;y = [x[0]];".toList < 0x100000000 := by decide
  have failed : (start .empty .empty [] .silent).runSource 1 "x = 1;y = [x[0]];" =
      (.failed (.eval { cause := .notSubscriptable "x" .int, span := some ⟨11, 12⟩ }),
        ⟨⟨[("x", .int 1)], .empty⟩, { output := .silent }⟩) := by
    rw [runSource, reads]
    rfl
  obtain ⟨span, body, before, stmt, after, next, place, -, -, -, -, -, -, split, within, done,
    stopped⟩ := runSource_error_place small reads failed
  cases place
  exact ⟨small, _, next, before, stmt, after, split ▸ reads, failed, within, done, stopped⟩

end Machine

end Salita
