import Salita.Proofs.Token.Tiling

namespace Salita.Lexer
open Text

inductive Escapes : List Char → List Char → Prop
  | nil : Escapes [] []
  | plain {c : Char} {content text : List Char} (ordinary : c ≠ '"' ∧ c ≠ '\\')
      (more : Escapes content text) : Escapes (c :: content) (c :: text)
  | quote {content text : List Char} (more : Escapes content text) :
      Escapes ('"' :: content) ('\\' :: '"' :: text)
  | backslash {content text : List Char} (more : Escapes content text) :
      Escapes ('\\' :: content) ('\\' :: '\\' :: text)
  | newline {content text : List Char} (more : Escapes content text) :
      Escapes ('\n' :: content) ('\\' :: 'n' :: text)
  | tab {content text : List Char} (more : Escapes content text) :
      Escapes ('\t' :: content) ('\\' :: 't' :: text)

theorem unescape_plain {c : Char} (ordinary : c ≠ '\\') (rest : List Char) :
    unescape (c :: rest) = c :: unescape rest := by
  rw [unescape.eq_def]
  split <;> simp_all

theorem Escapes.items {content text : List Char} (escapes : Escapes content text) :
    Items text := by
  induction escapes with
  | nil => exact .nil
  | plain ordinary more ih => exact .plain ordinary ih
  | quote more ih => exact .escape (by decide) ih
  | backslash more ih => exact .escape (by decide) ih
  | newline more ih => exact .escape (by decide) ih
  | tab more ih => exact .escape (by decide) ih

theorem Escapes.unescape_eq {content text : List Char} (escapes : Escapes content text) :
    unescape text = content := by
  induction escapes with
  | nil => rfl
  | plain ordinary more ih => rw [unescape_plain ordinary.2, ih]
  | quote more ih => rw [unescape, ih]
  | backslash more ih => rw [unescape, ih]
  | newline more ih => rw [unescape, ih]
  | tab more ih => rw [unescape, ih]

inductive Spells : TokenKind → List Char → Prop
  | int {value : Int64} (zeros : Nat) (nonnegative : 0 ≤ value.toInt) :
      Spells (.int value) (List.replicate zeros '0' ++ value.toInt.toNat.repr.toList)
  | float {value : Float} {text : List Char} (number : IsPointed text)
      (nearest : Decimal.readFloat? text = some value) : Spells (.float value) text
  | str {value : String} {text : List Char} (escapes : Escapes value.toList text) :
      Spells (.str value) ('"' :: (text ++ ['"']))
  | ident {name : String} (isName : IsName name.toList) (free : Keyword.ofText? name = none) :
      Spells (.ident name) name.toList
  | keyword (word : Keyword) : Spells (.keyword word) word.text.toList
  | symbol (mark : Symbol) : Spells (.symbol mark) mark.text.toList

theorem IsPointed.exists_spells {text : List Char} (number : IsPointed text) :
    ∃ value, Spells (.float value) text := by
  have same := number.readFloat?_eq
  obtain ⟨whole, fraction, rfl, before, behind, nonempty⟩ := id number
  rw [Decimal.readUnsigned?_pointed before behind nonempty] at same
  exact ⟨_, .float number same⟩

theorem isDigits_repr (zeros n : Nat) : IsDigits (List.replicate zeros '0' ++ n.repr.toList) := by
  rw [Nat.toList_repr]
  constructor
  · intro empty
    exact Nat.toDigits_ne_nil (List.append_eq_nil_iff.1 empty).2
  · intro c member
    rcases List.mem_append.1 member with zero | digit
    · rw [List.eq_of_mem_replicate zero]
      rfl
    · exact Nat.isDigit_of_mem_toDigits (by decide) (by decide) digit

theorem valueOf_repr (zeros n : Nat) :
    Decimal.valueOf (List.replicate zeros '0' ++ n.repr.toList) = n := by
  show Nat.ofDigitChars 10 (List.replicate zeros '0' ++ n.repr.toList) 0 = n
  rw [Nat.ofDigitChars_append, Nat.ofDigitChars_replicate_zero, Nat.toList_repr, Nat.mul_zero,
    Nat.ofDigitChars_ten_toDigits]

theorem Spells.denotes {kind : TokenKind} {text : List Char} (spells : Spells kind text) :
    Denotes text kind := by
  cases spells with
  | @int value zeros nonnegative =>
      apply Denotes.int (isDigits_repr zeros value.toInt.toNat)
      rw [valueOf_repr, Int.toNat_of_nonneg nonnegative]
  | float number nearest => exact .float number nearest
  | @str value text escapes =>
      have denotes := Denotes.str escapes.items
      rwa [escapes.unescape_eq, String.ofList_toList] at denotes
  | @ident name isName free =>
      have denotes := Denotes.ident isName (by rwa [String.ofList_toList])
      rwa [String.ofList_toList] at denotes
  | keyword word => exact .keyword word
  | symbol mark => exact .symbol mark

inductive Separator : List Char → Prop
  | space {c : Char} (blank : isSpace c = true) : Separator [c]
  | comment {body : List Char} (inLine : '\n' ∉ body) : Separator ('#' :: (body ++ ['\n']))
  | append {first second : List Char} (left : Separator first) (right : Separator second) :
      Separator (first ++ second)

inductive SpellsAll : List TokenKind → List Char → Prop
  | nil : SpellsAll [] []
  | single {kind : TokenKind} {text : List Char} (spells : Spells kind text) :
      SpellsAll [kind] text
  | cons {kind next : TokenKind} {kinds : List TokenKind} {text gap rest : List Char}
      (spells : Spells kind text) (separates : Separator gap)
      (more : SpellsAll (next :: kinds) rest) :
      SpellsAll (kind :: next :: kinds) (text ++ (gap ++ rest))

theorem Separator.head {gap : List Char} (separates : Separator gap) :
    ∃ c rest, gap = c :: rest ∧ isBreak c = true := by
  induction separates with
  | @space c blank => exact ⟨c, [], rfl, by simp [isBreak, blank]⟩
  | @comment body inLine => exact ⟨'#', body ++ ['\n'], rfl, rfl⟩
  | @append first second left right first_ih second_ih =>
      obtain ⟨c, rest, rfl, breaks⟩ := first_ih
      exact ⟨c, rest ++ second, rfl, breaks⟩

theorem Covers.of_separator {gap : List Char} (separates : Separator gap) {offset : Nat}
    {rest : List Char} {tokens : List Token} (covers : Covers (offset + byteCount gap) rest tokens) :
    Covers offset (gap ++ rest) tokens := by
  induction separates generalizing offset rest with
  | space blank =>
      rw [byteCount_cons, byteCount_nil, Nat.add_zero] at covers
      exact .space blank covers
  | @comment body inLine =>
      have ends : EndsLine ('\n' :: rest) := by
        intro c first
        exact (Option.some.inj first).symm
      rw [← List.cons_append, byteCount_append, ← Nat.add_assoc] at covers
      have covered := Covers.comment inLine ends (.space rfl covers)
      rw [List.cons_append, List.append_assoc]
      exact covered
  | append left right left_ih right_ih =>
      rw [byteCount_append, ← Nat.add_assoc] at covers
      rw [List.append_assoc]
      exact left_ih (right_ih covers)

theorem SpellsAll.exists_covers {kinds : List TokenKind} {text : List Char}
    (spells : SpellsAll kinds text) (offset : Nat) :
    ∃ tokens, Covers offset text tokens ∧ tokens.map Token.kind = kinds := by
  induction spells generalizing offset with
  | nil => exact ⟨[], .nil, rfl⟩
  | @single kind text spells =>
      have longest : Longest text (text ++ []) := by
        intro other begins lexeme
        rw [List.append_nil] at begins
        exact begins.length_le
      have covers := Covers.token spells.denotes longest (@Covers.nil (offset + byteCount text))
      rw [List.append_nil] at covers
      exact ⟨_, covers, rfl⟩
  | @cons kind next kinds text gap rest spells separates more ih =>
      obtain ⟨tokens, covers, same⟩ := ih (offset + byteCount text + byteCount gap)
      have longest : Longest text (text ++ (gap ++ rest)) := by
        have alone : Longest text text := fun other begins lexeme => begins.length_le
        apply alone.append_break spells.denotes.lexeme (List.prefix_refl text)
        intro c first
        obtain ⟨d, tail, rfl, breaks⟩ := separates.head
        rwa [← Option.some.inj first]
      refine ⟨_, .token spells.denotes longest (.of_separator separates covers), ?_⟩
      rw [List.map_cons, same]

end Salita.Lexer

namespace Salita
open Lexer

/-- Tokens that were written down are read back, and every number with a point can be written. -/
theorem lex_spelling :
    (∀ text, IsPointed text → ∃ value, Spells (.float value) text) ∧
      ∀ (kinds : List TokenKind) (source : String), SpellsAll kinds source.toList →
        ∃ tokens, lex source = .ok tokens ∧
          tokens.toList.map Token.kind = kinds ++ [.eof] := by
  constructor
  · intro text number
    exact number.exists_spells
  · intro kinds source spells
    obtain ⟨body, covers, same⟩ := spells.exists_covers 0
    refine ⟨_, lex_eq_ok_iff.2 ⟨body, covers, rfl⟩, ?_⟩
    have kept : (body.map recorded).map Token.kind = body.map Token.kind := by
      rw [List.map_map]
      rfl
    rw [Array.toList_push, List.map_append, kept, same]
    rfl

theorem lex_spelling_escapes :
    SpellsAll [.int 7, .str "\\n", .ident "sap"] "007#o\n\"\\\\n\"\tsap".toList ∧
      ∃ tokens, lex "007#o\n\"\\\\n\"\tsap" = .ok tokens ∧
        tokens.toList.map Token.kind = [.int 7, .str "\\n", .ident "sap", .eof] := by
  have number : Spells (.int 7) "007".toList := .int 2 (by decide)
  have escapes : Escapes "\\n".toList ['\\', '\\', 'n'] := .backslash (.plain (by decide) .nil)
  have string : Spells (.str "\\n") "\"\\\\n\"".toList := .str escapes
  have name : Spells (.ident "sap") "sap".toList :=
    .ident ⟨'s', ['a', 'p'], rfl, rfl, List.all_eq_true.1 rfl⟩ rfl
  have comment : Separator "#o\n".toList := @Separator.comment ['o'] (by decide)
  have spells : SpellsAll [.int 7, .str "\\n", .ident "sap"] "007#o\n\"\\\\n\"\tsap".toList :=
    .cons number comment (.cons string (@Separator.space '\t' rfl) (.single name))
  exact ⟨spells, lex_spelling.2 _ _ spells⟩

end Salita
