import Salita.Interpreter.Source
import Salita.Proofs.Interpreter.Relocation
import Salita.Proofs.Syntax.Exactness
import Salita.Proofs.Token.Tiling

namespace Salita.Lexer
open Text Grammar

theorem Covers.relocate {offset : Nat} {text : List Char} {tokens : List Token}
    (covers : Covers offset text tokens) (distance : Nat) :
    Covers (offset + distance) text (moved (Span.shift distance) tokens) := by
  induction covers with
  | nil => exact .nil
  | space blank more ih =>
      rw [Nat.add_right_comm] at ih
      exact .space blank ih
  | comment inLine ends more ih =>
      rw [Nat.add_right_comm] at ih
      exact .comment inLine ends ih
  | token denotes longest more ih =>
      rw [Nat.add_right_comm] at ih
      have covered := Covers.token denotes longest ih
      rw [Nat.add_right_comm] at covered
      exact covered

/-- No token and no comment reaches over the newline between two texts. -/
theorem Covers.join {offset : Nat} {text below : List Char} {tokens others : List Token}
    (covers : Covers offset text tokens)
    (behind : Covers (offset + (byteCount text + 1)) below others) :
    Covers offset (text ++ '\n' :: below) (tokens ++ others) := by
  induction covers with
  | nil => exact .space rfl behind
  | @space offset c rest tokens blank more ih =>
      rw [byteCount_cons, Nat.add_assoc, ← Nat.add_assoc] at behind
      exact .space blank (ih behind)
  | @comment offset body rest tokens inLine ends more ih =>
      rw [← List.cons_append, byteCount_append, Nat.add_assoc, ← Nat.add_assoc] at behind
      have ends : EndsLine (rest ++ '\n' :: below) := by
        cases rest with
        | nil =>
            intro c first
            exact (Option.some.inj first).symm
        | cons c rest => exact ends
      have covered := Covers.comment inLine ends (ih behind)
      rw [List.cons_append, List.append_assoc]
      exact covered
  | @token offset lexeme rest kind tokens denotes longest more ih =>
      rw [byteCount_append, Nat.add_assoc, ← Nat.add_assoc] at behind
      -- The newline breaks off what could go on, except in a string, and that is closed.
      have stillLongest : Longest lexeme ((lexeme ++ rest) ++ '\n' :: below) := by
        apply longest.append_break denotes.lexeme (List.prefix_append lexeme rest)
        intro c first
        rw [← Option.some.inj first]
        rfl
      rw [List.append_assoc] at stillLongest ⊢
      exact .token denotes stillLongest (ih behind)

end Salita.Lexer

namespace Salita
open Lexer Grammar Text

theorem readProgram_of_parse {source : String} {tokens : Array Token} {program : Program}
    (read : lex source = .ok tokens) (parsed : parse tokens source = .ok program) :
    readProgram source = .ok program := by
  rw [readProgram, read]
  dsimp only
  rw [parsed]

theorem readProgram_eq_ok_iff {source : String} {program : Program}
    (small : byteCount source.toList < 0x100000000) :
    readProgram source = .ok program ↔
      ∃ body, Covers 0 source.toList body ∧ ProgramText body program := by
  constructor
  · intro read
    unfold readProgram at read
    split at read
    case h_1 => cases read
    case h_2 tokens scanned =>
      obtain ⟨body, covers, rfl⟩ := (lex_eq_ok_iff_of_small small).1 scanned
      split at read
      case h_1 => cases read
      case h_2 parsed derived =>
        cases read
        exact ⟨body, covers, (parse_ok_iff rfl covers.ne_eof).1 derived⟩
  · intro found
    obtain ⟨body, covers, derived⟩ := found
    exact readProgram_of_parse ((lex_eq_ok_iff_of_small small).2 ⟨body, covers, rfl⟩)
      ((parse_ok_iff rfl covers.ne_eof).2 derived)

theorem toList_join (first second : String) :
    (first ++ "\n" ++ second).toList = first.toList ++ '\n' :: second.toList := by
  simp

theorem readProgram_join {first second : String} {above below : Program}
    (firstReads : readProgram first = .ok above) (secondReads : readProgram second = .ok below)
    (small : byteCount (first ++ "\n" ++ second).toList < 0x100000000) :
    readProgram (first ++ "\n" ++ second) =
      .ok (above ++ Program.relocate (Span.shift (byteCount first.toList + 1)) below) := by
  have sizes : byteCount (first ++ "\n" ++ second).toList =
      byteCount first.toList + (1 + byteCount second.toList) := by
    rw [toList_join, byteCount_append, byteCount_cons]
    rfl
  obtain ⟨tokens, covers, derived⟩ := (readProgram_eq_ok_iff (by omega)).1 firstReads
  obtain ⟨others, otherCovers, otherDerived⟩ := (readProgram_eq_ok_iff (by omega)).1 secondReads
  apply (readProgram_eq_ok_iff small).2
  rw [toList_join]
  refine ⟨_, covers.join (otherCovers.relocate (byteCount first.toList + 1)), ?_⟩
  exact (otherDerived.relocate (Span.rigid_shift _)).append derived

def Finish.relocate (move : Span → Span) : Finish → Finish
  | .failed (.eval e) => .failed (.eval (e.relocate move))
  | finish => finish

namespace Machine

theorem finish_mapFailure {α : Type} (move : Span → Span) (x : Exec α) (m : Machine) :
    m.finish (mapFailure (Stop.relocate move) x) =
      ((m.finish x).1.relocate move, (m.finish x).2) := by
  unfold finish mapFailure
  cases x m with
  | ok a last => rfl
  | error stop last => cases stop <;> rfl

theorem finish_bind {α β : Type} (x : Exec α) (y : Exec β) (m : Machine) :
    m.finish (x >>= fun _ => y) =
      match m.finish x with
      | (.done, next) => next.finish y
      | stopped => stopped := by
  simp only [finish, bind, EStateM.bind]
  cases x m with
  | ok a next => rfl
  | error stop last => cases stop <;> rfl

/-- Two texts that can be read run one below the other as the first and, if its run comes to its
end, then the second. The errors of the second are those that it has alone, shifted to where it
stands. -/
theorem runSource_join (rounds : Nat) (m : Machine) (first second : String)
    (firstReads : ∃ program, readProgram first = .ok program)
    (secondReads : ∃ program, readProgram second = .ok program)
    (small : byteCount (first ++ "\n" ++ second).toList < 0x100000000) :
    m.runSource rounds (first ++ "\n" ++ second) =
      match m.runSource rounds first with
      | (.done, next) =>
          ((next.runSource rounds second).1.relocate (Span.shift (byteCount first.toList + 1)),
            (next.runSource rounds second).2)
      | stopped => stopped := by
  obtain ⟨above, readsAbove⟩ := firstReads
  obtain ⟨below, readsBelow⟩ := secondReads
  simp only [runSource, readsAbove, readsBelow, readProgram_join readsAbove readsBelow small]
  rw [Program.run_append, finish_bind, Program.run_relocate]
  simp only [finish_mapFailure]

/-- A `kapag` that might go on and a comment end the first text, and an error ends the second. -/
theorem runSource_join_error :
    (∃ program, readProgram "kapag (Totoo) \x7bx = 1;\x7d # o" = .ok program) ∧
      (∃ program, readProgram "y = z;" = .ok program) ∧
      byteCount ("kapag (Totoo) \x7bx = 1;\x7d # o" ++ "\n" ++ "y = z;").toList < 0x100000000 ∧
      ((start .empty .empty [] .silent).runSource 1
        ("kapag (Totoo) \x7bx = 1;\x7d # o" ++ "\n" ++ "y = z;")).1 =
        .failed (.eval { cause := .undefinedName "z" .vars, span := some ⟨31, 32⟩ }) := by
  have readAbove : readProgram "kapag (Totoo) \x7bx = 1;\x7d # o" =
      .ok [.choose (.mk (.literal (.bool true) ⟨7, 12⟩)
        (.mk [.assign ⟨"x", ⟨15, 16⟩⟩ (.literal (.int 1) ⟨19, 20⟩) ⟨15, 21⟩] ⟨14, 22⟩) .nothing)
        ⟨0, 22⟩] :=
    @readProgram_of_parse _ #[⟨.keyword .kapag, ⟨0, 5⟩⟩, ⟨.symbol .leftParen, ⟨6, 7⟩⟩,
      ⟨.keyword .totoo, ⟨7, 12⟩⟩, ⟨.symbol .rightParen, ⟨12, 13⟩⟩, ⟨.symbol .leftBrace, ⟨14, 15⟩⟩,
      ⟨.ident "x", ⟨15, 16⟩⟩, ⟨.symbol .equal, ⟨17, 18⟩⟩, ⟨.int 1, ⟨19, 20⟩⟩,
      ⟨.symbol .semicolon, ⟨20, 21⟩⟩, ⟨.symbol .rightBrace, ⟨21, 22⟩⟩, ⟨.eof, ⟨26, 26⟩⟩] _ rfl rfl
  have readBelow : readProgram "y = z;" =
      .ok [.assign ⟨"y", ⟨0, 1⟩⟩ (.var ⟨"z", ⟨4, 5⟩⟩) ⟨0, 6⟩] :=
    @readProgram_of_parse _ #[⟨.ident "y", ⟨0, 1⟩⟩, ⟨.symbol .equal, ⟨2, 3⟩⟩,
      ⟨.ident "z", ⟨4, 5⟩⟩, ⟨.symbol .semicolon, ⟨5, 6⟩⟩, ⟨.eof, ⟨6, 6⟩⟩] _ rfl rfl
  have small : byteCount ("kapag (Totoo) \x7bx = 1;\x7d # o" ++ "\n" ++ "y = z;").toList <
      0x100000000 := by decide
  have joined := runSource_join 1 (start .empty .empty [] .silent) _ _ ⟨_, readAbove⟩
    ⟨_, readBelow⟩ small
  simp only [runSource, readAbove, readBelow] at joined
  refine ⟨⟨_, readAbove⟩, ⟨_, readBelow⟩, small, ?_⟩
  rw [runSource, joined]
  rfl

end Machine

end Salita
