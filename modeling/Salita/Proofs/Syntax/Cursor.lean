import Salita.Proofs.Computation
import Salita.Syntax.Parser

namespace Salita

def Ends (tokens : List Token) : Prop :=
  ∃ body stop, tokens = body ++ [stop] ∧ stop.kind = .eof ∧ ∀ t ∈ body, t.kind ≠ .eof

theorem Ends.exists_cons {tokens : List Token} (ends : Ends tokens) :
    ∃ t rest, tokens = t :: rest := by
  obtain ⟨body, stop, rfl, -, -⟩ := ends
  cases body with
  | nil => exact ⟨stop, [], rfl⟩
  | cons t body => exact ⟨t, body ++ [stop], rfl⟩

theorem Ends.tail {t : Token} {rest : List Token} (ends : Ends (t :: rest))
    (more : t.kind ≠ .eof) : Ends rest := by
  obtain ⟨body, stop, equal, marked, only⟩ := ends
  cases body with
  | nil =>
      simp only [List.nil_append, List.cons.injEq] at equal
      rw [equal.1] at more
      exact absurd marked more
  | cons u body =>
      simp only [List.cons_append, List.cons.injEq] at equal
      exact ⟨body, stop, equal.2, marked, fun v member => only v (by simp [member])⟩

theorem Ends.eq_of_eof {t : Token} {rest : List Token} (ends : Ends (t :: rest))
    (last : t.kind = .eof) : rest = [] := by
  obtain ⟨body, stop, equal, marked, only⟩ := ends
  cases body with
  | nil => simpa using congrArg List.tail equal
  | cons u body =>
      simp only [List.cons_append, List.cons.injEq] at equal
      rw [equal.1] at last
      exact absurd last (only u (by simp))

namespace Cursor

def between (passed left : List Token) : Cursor := ⟨(passed ++ left).toArray, passed.length⟩

theorem ofTokens_eq_between (tokens : List Token) :
    ofTokens tokens.toArray = between [] tokens := rfl

@[simp] theorem current_between (passed left : List Token) (t : Token) :
    (between passed (t :: left)).current = t := by
  simp [between, current]

@[simp] theorem kind_between (passed left : List Token) (t : Token) :
    (between passed (t :: left)).kind = t.kind := by
  simp [kind]

@[simp] theorem span_between (passed left : List Token) (t : Token) :
    (between passed (t :: left)).span = t.span := by
  simp [span]

theorem previousSpan_between (passed left : List Token) :
    (between passed left).previousSpan = (passed.getLast?.map (·.span)).getD .origin := by
  rcases List.eq_nil_or_concat passed with rfl | ⟨before, t, rfl⟩
  · rfl
  · simp [between, previousSpan]

theorem previousSpan_concat (passed left : List Token) (t : Token) :
    (between (passed ++ [t]) left).previousSpan = t.span := by
  simp [previousSpan_between]

theorem advance_between {passed left : List Token} {t : Token} (more : t.kind ≠ .eof) :
    (between passed (t :: left)).advance = between (passed ++ [t]) left := by
  have inner : (between passed (t :: left)).isAtEnd = false := by simp [isAtEnd, more]
  rw [advance, inner]
  simp [between]

end Cursor

namespace Parser
open Cursor

variable {α : Type} {passed left : List Token} {t : Token}

theorem run_unexpected (expected : Expected) (c : Cursor) :
    (unexpected expected : Rule α).run c = .error { found := c.current, expected := expected } c :=
  rfl

theorem currentKind_between :
    currentKind.run (between passed (t :: left)) = .ok t.kind (between passed (t :: left)) := by
  simp [currentKind, EStateM.run]

theorem advance_between (more : t.kind ≠ .eof) :
    advance.run (between passed (t :: left)) = .ok t.span (between (passed ++ [t]) left) := by
  simp [advance, EStateM.run, Cursor.advance_between more]

theorem sameKind_iff {k kind : TokenKind} (fixed : (∃ mark, kind = .symbol mark) ∨
    ∃ word, kind = .keyword word) : k.sameKind kind = true ↔ k = kind := by
  obtain ⟨mark, rfl⟩ | ⟨word, rfl⟩ := fixed
  · cases k <;> simp [TokenKind.sameKind]
  · cases k <;> simp [TokenKind.sameKind]

theorem token_between {kind : TokenKind} {expected : Expected}
    (fixed : (∃ mark, kind = .symbol mark) ∨ ∃ word, kind = .keyword word)
    (spelled : t.kind = kind) :
    (token kind expected).run (between passed (t :: left)) =
      .ok t.span (between (passed ++ [t]) left) := by
  have more : t.kind ≠ .eof := by
    rw [spelled]
    obtain ⟨mark, rfl⟩ | ⟨word, rfl⟩ := fixed <;> simp
  unfold token
  rw [run_bind_of_ok currentKind_between, if_pos ((sameKind_iff fixed).2 spelled)]
  exact advance_between more

theorem token_of_ne {kind : TokenKind} {expected : Expected}
    (fixed : (∃ mark, kind = .symbol mark) ∨ ∃ word, kind = .keyword word) (other : t.kind ≠ kind) :
    (token kind expected).run (between passed (t :: left)) =
      (unexpected expected).run (between passed (t :: left)) := by
  have different : ¬ t.kind.sameKind kind = true := fun same => other ((sameKind_iff fixed).1 same)
  unfold token
  rw [run_bind_of_ok currentKind_between, if_neg different]

theorem symbol_between {mark : Symbol} (spelled : t.kind = .symbol mark) :
    (symbol mark).run (between passed (t :: left)) =
      .ok t.span (between (passed ++ [t]) left) :=
  token_between (.inl ⟨mark, rfl⟩) spelled

theorem keyword_between {word : Keyword} (spelled : t.kind = .keyword word) :
    (keyword word).run (between passed (t :: left)) =
      .ok t.span (between (passed ++ [t]) left) :=
  token_between (.inr ⟨word, rfl⟩) spelled

theorem identifier_between {name : String} (named : t.kind = .ident name) :
    identifier.run (between passed (t :: left)) =
      .ok ⟨name, t.span⟩ (between (passed ++ [t]) left) := by
  unfold identifier
  rw [run_bind_of_ok currentKind_between, named]
  simp only
  rw [run_bind_of_ok (advance_between (by simp [named]))]
  rfl

end Parser

end Salita
