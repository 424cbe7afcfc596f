import Salita.Proofs.Syntax.Exactness
import Salita.Proofs.Syntax.Kinds

namespace Salita
open Salita.Parser Cursor Grammar

variable {body : List Token} {stop : Token} {source : String} {failure : SyntaxFailure} {c : Cursor}

theorem parse_eq_error_iff_run {e : ParseError} :
    parse body.toArray source = .error e ↔
      ∃ failure c, (programFrom (enough body.length) []).run (between [] body) = .error failure c ∧
        failure.toError source = e := by
  rw [← ofTokens_eq_between]
  simp only [parse, EStateM.run, List.size_toArray]
  cases programFrom (enough body.length) [] (ofTokens body.toArray) with
  | ok program c => simp
  | error failure c => simp

/-- A run that fails stops at one token, and with more fuel it stops there as well, whatever stands
behind that token. -/
theorem stops_of_run_error {less : Nat} (last : stop.kind = .eof)
    (only : ∀ t ∈ body, t.kind ≠ .eof) (ample : Ample less 3 (body ++ [stop]))
    (run : (programFrom less []).run (between [] (body ++ [stop])) = .error failure c) :
    ∃ ts t rest, body ++ [stop] = ts ++ t :: rest ∧ Ends (t :: rest) ∧ failure.found = t ∧
      Viable ProgramText ts ∧
      ∀ more, less ≤ more → Gives (programFrom more []) [] ts t (.error failure) := by
  have stops (more : Nat) (enough : less ≤ more) :
      ∃ ts t rest, body ++ [stop] = ts ++ t :: rest ∧ Ends (t :: rest) ∧ failure.found = t ∧
        Viable ProgramText ts ∧ c = between ts (t :: rest) ∧
        Gives (programFrom more []) [] ts t (.error failure) := by
    obtain ⟨ts, t, rest, split, ends, outcome⟩ := settled_program last only ample enough
    rcases outcome with ⟨program, -, -, runs, -⟩ | ⟨failure', found, viable, runs, more_runs⟩
    · have same := runs rest
      rw [← split, run] at same
      cases same
    · have same := runs rest
      rw [← split, run, EStateM.Result.error.injEq] at same
      obtain ⟨rfl, rfl⟩ := same
      exact ⟨ts, t, rest, split, ends, found, viable, rfl, more_runs⟩
  obtain ⟨ts, t, rest, split, ends, found, viable, rfl, -⟩ := stops less (Nat.le_refl _)
  refine ⟨ts, t, rest, split, ends, found, viable, ?_⟩
  intro more enough
  obtain ⟨ts', t', rest', split', -, -, -, place, runs⟩ := stops more enough
  obtain ⟨rfl, rest_eq⟩ := List.append_inj (split.symm.trans split') (congrArg Cursor.position place)
  obtain rfl := (List.cons.inj rest_eq).1
  exact runs

theorem not_viable_of_stops {less : Nat} {ts : List Token} {t : Token}
    (runs : ∀ more, less ≤ more → Gives (programFrom more []) [] ts t (.error failure)) :
    ¬Viable ProgramText (ts ++ [t]) := by
  rintro ⟨rest, program, derived⟩
  have last : (Token.mk .eof .origin).kind = .eof := rfl
  -- Some fuel is ample for the whole program, and the run that fails may have as much.
  obtain ⟨more, enough, ample⟩ : ∃ more, less ≤ more ∧
      Ample more 3 (ts ++ [t] ++ rest ++ [⟨.eof, .origin⟩]) :=
    ⟨_, Nat.le_add_right less _, Nat.le_add_left _ less⟩
  have accepted := run_programFrom last derived more [] [] ample
  have refused := runs more enough (rest ++ [⟨.eof, .origin⟩])
  simp only [List.append_assoc, List.cons_append, List.nil_append] at accepted refused
  rw [accepted] at refused
  cases refused

/-- Behind a token that is not the end mark, the end mark still follows. -/
theorem split_before_stop {ts rest : List Token} {t : Token} (last : stop.kind = .eof)
    (inner : t.kind ≠ .eof) (split : body ++ [stop] = ts ++ t :: rest) :
    ∃ before, body = ts ++ t :: before := by
  rcases List.eq_nil_or_concat rest with rfl | ⟨before, u, rfl⟩
  · obtain ⟨-, equal⟩ := List.append_inj' split rfl
    rw [← List.head_eq_of_cons_eq equal] at inner
    exact absurd last inner
  · rw [List.concat_eq_append, ← List.cons_append, ← List.append_assoc] at split
    exact ⟨before, (List.append_inj' split rfl).1⟩

def Grammar.Valid (tokens : List Token) : Prop := ∃ program, ProgramText tokens program

theorem Grammar.valid_iff_of_sameKinds {ts us : List Token} (same : SameKinds ts us) :
    Valid ts ↔ Valid us :=
  ⟨fun ⟨_, derived⟩ => stmtsText_of_sameKinds derived same,
    fun ⟨_, derived⟩ => stmtsText_of_sameKinds derived same.symm⟩

/-- Where `parse` runs into the end, the tokens begin a program but are none. Where it reports a
token, those before it begin a program, and together with it they begin none. Which tokens are a
program depends on their kinds only. -/
theorem parse_earliest_error (body : List Token) (stop : Token) (source : String) (e : ParseError)
    (last : stop.kind = .eof) (only : ∀ t ∈ body, t.kind ≠ .eof)
    (failed : parse (body ++ [stop]).toArray source = .error e) :
    (match e.cause with
      | .unexpectedEnd => (∃ more, more ≠ [] ∧ Valid (body ++ more)) ∧ ¬Valid body
      | .offendingToken _ _ => ∃ k t, body[k]? = some t ∧ e.span = t.span ∧
          (∃ more, Valid (body.take k ++ more)) ∧ ¬∃ more, Valid (body.take (k + 1) ++ more)) ∧
    ∀ ts us, SameKinds ts us → (Valid ts ↔ Valid us) := by
  refine ⟨?_, fun ts us same => valid_iff_of_sameKinds same⟩
  obtain ⟨failure, c, run, rfl⟩ := parse_eq_error_iff_run.1 failed
  obtain ⟨ts, t, rest, split, ends, found, ⟨more, program, derived⟩, runs⟩ :=
    stops_of_run_error last only (ample_enough _) run
  by_cases eof : t.kind = .eof
  · have cause : (failure.toError source).cause = .unexpectedEnd := by
      simp [SyntaxFailure.toError, found, eof]
    obtain rfl := ends.eq_of_eof eof
    obtain ⟨rfl, -⟩ := List.append_inj' split rfl
    have invalid : ¬Valid body := by
      rintro ⟨program, derived⟩
      rw [parse_of_programText last derived] at failed
      cases failed
    rw [cause]
    refine ⟨⟨more, ?_, program, derived⟩, invalid⟩
    rintro rfl
    exact invalid ⟨program, by simpa using derived⟩
  · have cause : ∃ lexeme location,
        (failure.toError source).cause = .offendingToken lexeme location := by
      simp [SyntaxFailure.toError, found, eof]
    obtain ⟨lexeme, location, cause⟩ := cause
    obtain ⟨inner, rfl⟩ := split_before_stop last eof split
    rw [cause]
    refine ⟨ts.length, t, by simp, by simp [SyntaxFailure.toError, found], ⟨more, program, ?_⟩, ?_⟩
    · simpa using derived
    · have taken : (ts ++ t :: inner).take (ts.length + 1) = ts ++ [t] := by
        simp [List.take_append, List.take_of_length_le]
      rw [taken]
      exact not_viable_of_stops runs

theorem parse_earliest_error_hindi :
    parse #[⟨.ident "x", ⟨0, 1⟩⟩, ⟨.symbol .equal, ⟨2, 3⟩⟩, ⟨.int 1, ⟨4, 5⟩⟩,
        ⟨.symbol .plus, ⟨6, 7⟩⟩, ⟨.keyword .hindi, ⟨8, 13⟩⟩, ⟨.ident "y", ⟨14, 15⟩⟩,
        ⟨.symbol .semicolon, ⟨15, 16⟩⟩, ⟨.eof, ⟨16, 16⟩⟩] "x = 1 + hindi y;" =
      .error ⟨.offendingToken "hindi" ⟨1, 9, "x = 1 + hindi y;"⟩, ⟨8, 13⟩, .expression, none⟩ ∧
    (∃ more, Valid ([⟨.ident "x", ⟨0, 1⟩⟩, ⟨.symbol .equal, ⟨2, 3⟩⟩, ⟨.int 1, ⟨4, 5⟩⟩,
      ⟨.symbol .plus, ⟨6, 7⟩⟩] ++ more)) ∧
    ¬∃ more, Valid ([⟨.ident "x", ⟨0, 1⟩⟩, ⟨.symbol .equal, ⟨2, 3⟩⟩, ⟨.int 1, ⟨4, 5⟩⟩,
      ⟨.symbol .plus, ⟨6, 7⟩⟩, ⟨.keyword .hindi, ⟨8, 13⟩⟩] ++ more) := by
  have failed : parse #[⟨.ident "x", ⟨0, 1⟩⟩, ⟨.symbol .equal, ⟨2, 3⟩⟩, ⟨.int 1, ⟨4, 5⟩⟩,
        ⟨.symbol .plus, ⟨6, 7⟩⟩, ⟨.keyword .hindi, ⟨8, 13⟩⟩, ⟨.ident "y", ⟨14, 15⟩⟩,
        ⟨.symbol .semicolon, ⟨15, 16⟩⟩, ⟨.eof, ⟨16, 16⟩⟩] "x = 1 + hindi y;" =
      .error ⟨.offendingToken "hindi" ⟨1, 9, "x = 1 + hindi y;"⟩, ⟨8, 13⟩, .expression, none⟩ := rfl
  obtain ⟨⟨k, t, found, place, before, behind⟩, -⟩ :=
    parse_earliest_error [⟨.ident "x", ⟨0, 1⟩⟩, ⟨.symbol .equal, ⟨2, 3⟩⟩, ⟨.int 1, ⟨4, 5⟩⟩,
      ⟨.symbol .plus, ⟨6, 7⟩⟩, ⟨.keyword .hindi, ⟨8, 13⟩⟩, ⟨.ident "y", ⟨14, 15⟩⟩,
      ⟨.symbol .semicolon, ⟨15, 16⟩⟩] ⟨.eof, ⟨16, 16⟩⟩ _ _ rfl (by decide) failed
  -- Only the fifth token has the span that is reported.
  match k, found with
  | 4, _ => exact ⟨failed, before, behind⟩
  | 0, rfl | 1, rfl | 2, rfl | 3, rfl | 5, rfl | 6, rfl => cases place

end Salita
