import Salita.Proofs.Syntax.Relocation
import Salita.Proofs.Token.Tiling

namespace Salita

def Span.back (distance : Nat) (s : Span) : Span := ⟨s.start - distance, s.stop - distance⟩

theorem Span.rigid_back (distance : Nat) : Span.Rigid (Span.back distance) := by
  constructor
  intro a b
  simp only [Span.back, Span.merge, Span.mk.injEq]
  omega

structure Stretch (start stop : Nat) (tokens : List Token) : Prop where
  first : ∃ t rest, tokens = t :: rest ∧ t.span.start = start
  last : ∃ rest t, tokens = rest ++ [t] ∧ t.span.stop = stop

end Salita

namespace Salita.Lexer
open Text Grammar

theorem Covers.drop {offset : Nat} {text : List Char} {tokens front behind : List Token} {t : Token}
    (covers : Covers offset text tokens) (split : tokens = front ++ t :: behind) :
    ∃ before after, text = before ++ after ∧ t.span.start = offset + byteCount before ∧
      Covers t.span.start after (t :: behind) := by
  induction covers generalizing front with
  | nil => simp at split
  | @space offset c rest tokens blank more ih =>
      obtain ⟨before, after, rfl, start, covers⟩ := ih split
      refine ⟨c :: before, after, rfl, ?_, covers⟩
      rw [start, byteCount_cons, Nat.add_assoc]
  | @comment offset body rest tokens inLine ends more ih =>
      obtain ⟨before, after, rfl, start, covers⟩ := ih split
      refine ⟨'#' :: (body ++ before), after, by simp, ?_, covers⟩
      rw [start, ← List.cons_append, byteCount_append, Nat.add_assoc]
  | @token offset lexeme rest kind tokens denotes longest more ih =>
      cases front with
      | nil =>
          obtain ⟨rfl, rfl⟩ := List.cons.inj split
          exact ⟨[], _, rfl, rfl, .token denotes longest more⟩
      | cons u front =>
          obtain ⟨before, after, rfl, start, covers⟩ := ih (List.cons.inj split).2
          refine ⟨lexeme ++ before, after, by simp, ?_, covers⟩
          rw [start, byteCount_append, Nat.add_assoc]

theorem Covers.take {offset : Nat} {text : List Char} {tokens front behind : List Token} {t : Token}
    (covers : Covers offset text tokens) (split : tokens = front ++ t :: behind) :
    ∃ before after, text = before ++ after ∧ t.span.stop = offset + byteCount before ∧
      Covers offset before (front ++ [t]) := by
  induction covers generalizing front with
  | nil => simp at split
  | @space offset c rest tokens blank more ih =>
      obtain ⟨before, after, rfl, stop, covers⟩ := ih split
      refine ⟨c :: before, after, rfl, ?_, .space blank covers⟩
      rw [stop, byteCount_cons, Nat.add_assoc]
  | @comment offset body rest tokens inLine ends more ih =>
      obtain ⟨before, after, rfl, stop, covers⟩ := ih split
      refine ⟨'#' :: (body ++ before), after, by simp, ?_, .comment inLine ends.of_append covers⟩
      rw [stop, ← List.cons_append, byteCount_append, Nat.add_assoc]
  | @token offset lexeme rest kind tokens denotes longest more ih =>
      cases front with
      | nil =>
          obtain ⟨rfl, rfl⟩ := List.cons.inj split
          have alone : Longest lexeme (lexeme ++ []) := by
            rw [List.append_nil]
            exact longest.of_append
          have covered := Covers.token denotes alone (@Covers.nil (offset + byteCount lexeme))
          rw [List.append_nil] at covered
          exact ⟨lexeme, rest, rfl, rfl, covered⟩
      | cons u front =>
          obtain ⟨rfl, others⟩ := List.cons.inj split
          obtain ⟨before, after, rfl, stop, covers⟩ := ih others
          refine ⟨lexeme ++ before, after, by simp, ?_, .token denotes ?_ covers⟩
          · rw [stop, byteCount_append, Nat.add_assoc]
          · rw [← List.append_assoc] at longest
            exact longest.of_append

theorem Covers.back {offset : Nat} {text : List Char} {tokens : List Token}
    (covers : Covers offset text tokens) {distance : Nat} (enough : distance ≤ offset) :
    Covers (offset - distance) text (moved (Span.back distance) tokens) := by
  have earlier {n : Nat} : offset + n - distance = offset - distance + n := by omega
  induction covers with
  | nil => exact .nil
  | space blank more ih =>
      have moved := ih (by omega) (by omega)
      rw [earlier] at moved
      exact .space blank moved
  | comment inLine ends more ih =>
      have moved := ih (by omega) (by omega)
      rw [earlier] at moved
      exact .comment inLine ends moved
  | token denotes longest more ih =>
      have moved := ih (by omega) (by omega)
      rw [earlier] at moved
      have covered := Covers.token denotes longest moved
      rw [← earlier] at covered
      exact covered

theorem Covers.shift_back {offset : Nat} {text : List Char} {tokens : List Token}
    (covers : Covers offset text tokens) :
    moved (Span.shift offset) (moved (Span.back offset) tokens) = tokens := by
  have kept : ∀ t ∈ tokens, ((t.relocate (Span.back offset)).relocate (Span.shift offset)) = t := by
    intro t member
    have bounds := covers.span_bounds t member
    have start : t.span.start - offset + offset = t.span.start := by omega
    have stop : t.span.stop - offset + offset = t.span.stop := by omega
    simp only [Token.relocate, Span.shift, Span.back, start, stop]
  rw [moved, moved, List.map_map]
  exact (List.map_congr_left kept).trans (List.map_id tokens)

theorem Covers.cut {source : List Char} {tokens front inner behind : List Token} {start stop : Nat}
    (covers : Covers 0 source tokens) (split : tokens = front ++ (inner ++ behind))
    (stretch : Stretch start stop inner) :
    ∃ cut, slice? source start stop = some cut ∧ byteCount cut ≤ byteCount source ∧
      Covers 0 cut (moved (Span.back start) inner) ∧
      moved (Span.shift start) (moved (Span.back start) inner) = inner := by
  obtain ⟨⟨t, later, starts, rfl⟩, ⟨earlier, u, stops, rfl⟩⟩ := stretch
  rw [starts, List.cons_append] at split
  obtain ⟨before, rest, rfl, start, dropped⟩ := covers.drop split
  rw [← List.cons_append, ← starts, stops, List.append_assoc] at dropped
  obtain ⟨cut, after, rfl, stop, taken⟩ := dropped.take rfl
  rw [← stops] at taken
  have front := taken.back (Nat.le_refl _)
  rw [Nat.sub_self] at front
  refine ⟨cut, ?_, ?_, front, taken.shift_back⟩
  · rw [stop, start, Nat.zero_add]
    exact slice?_append before cut after
  · rw [byteCount_append, byteCount_append]
    omega

end Salita.Lexer
