import Salita.Proofs.Syntax.Occurrence

/-!
# Expressions cut out of their text

What the span of an expression cuts out of the text of its program should be the expression, and
nothing else. Parentheses around an operand belong to no span, so an operator can lose one parenthesis
of a pair. Main statement: where the parentheses in the cut are paired it is read as the expression,
and otherwise as none.
-/

namespace Salita
open Lexer Grammar Text

def asValue (body : List Token) : List Token :=
  ⟨.ident "x", .origin⟩ :: ⟨.symbol .equal, .origin⟩ :: body ++ [⟨.symbol .semicolon, .origin⟩]

def ReadsAs (body : List Token) (e : Expr) : Prop :=
  ∃ target span, parse (asValue body ++ [Token.mk .eof .origin]).toArray "" =
    .ok [.assign target e span]

variable {body ts : List Token} {e other : Expr}

theorem ne_eof_asValue (inner : ∀ t ∈ body, t.kind ≠ .eof) : ∀ t ∈ asValue body, t.kind ≠ .eof := by
  simpa [asValue, or_imp, forall_and] using inner

theorem Grammar.Rank.exists_looser (r : Rank) :
    r = .or ∨ ∃ looser : Rank, looser.tighter? = some r := by
  cases r with
  | or => exact .inl rfl
  | and => exact .inr ⟨.or, rfl⟩
  | not => exact .inr ⟨.and, rfl⟩
  | comparison => exact .inr ⟨.not, rfl⟩
  | sum => exact .inr ⟨.comparison, rfl⟩
  | product => exact .inr ⟨.sum, rfl⟩
  | sign => exact .inr ⟨.product, rfl⟩
  | power => exact .inr ⟨.sign, rfl⟩
  | primary => exact .inr ⟨.power, rfl⟩

theorem Grammar.ExprText.atLoosest {r : Rank} (derived : ExprText r ts e) : ExprText .or ts e := by
  induction depth : r.depth using Nat.strongRecOn generalizing r with
  | ind n ih =>
      obtain rfl | ⟨looser, next⟩ := r.exists_looser
      · exact derived
      · have less := Parser.depth_lt_of_tighter? next
        rw [depth] at less
        exact ih looser.depth less (.tighter next derived) rfl

theorem readsAs_iff (inner : ∀ t ∈ body, t.kind ≠ .eof) :
    ReadsAs body e ↔ ExprText .or body e := by
  constructor
  · rintro ⟨target, span, parsed⟩
    have derived := (parse_ok_iff rfl (ne_eof_asValue inner)).1 parsed
    generalize same : asValue body = tokens at derived
    cases derived with
    | cons first rest =>
        cases rest
        cases first with
        | assign named spelled ended value =>
            simp only [asValue, List.append_nil, List.cons_append, List.cons.injEq] at same
            rwa [(List.append_inj' same.2.2 rfl).1]
  · intro derived
    have stmt := @StmtText.assign "x" ⟨.ident "x", .origin⟩ ⟨.symbol .equal, .origin⟩
      ⟨.symbol .semicolon, .origin⟩ body e rfl rfl rfl derived
    have program := StmtsText.cons stmt .nil
    rw [List.append_nil] at program
    exact ⟨_, _, (parse_ok_iff rfl (ne_eof_asValue inner)).2 program⟩

theorem ReadsAs.unique (reads : ReadsAs body e) (others : ReadsAs body other) : other = e := by
  obtain ⟨target, span, parsed⟩ := reads
  obtain ⟨target', span', parsed'⟩ := others
  rw [parsed] at parsed'
  cases parsed'
  rfl

/-- The span of an expression cuts a text out of the program that has tokens. They are read as an
expression if their parentheses are paired, and then as this one, shifted to the front. Only
operators may cut a pair of parentheses. -/
theorem parse_excerpt {source : String} {tokens : Array Token} {program : Program}
    (small : byteCount source.toList < 0x100000000) (read : lex source = .ok tokens)
    (parsed : parse tokens source = .ok program) :
    ∀ e ∈ Program.nodes program, ∃ cut body,
      slice? source.toList e.span.start e.span.stop = some cut ∧
      lex (String.ofList cut) = .ok (body ++ [⟨.eof, .point (byteCount cut)⟩]).toArray ∧
      ((∃ other, ReadsAs body other) ↔ Paired .round body) ∧
      (∀ other, ReadsAs body other → e = other.relocate (Span.shift e.span.start)) ∧
      (Paired .round body ∨ e.IsOperation) := by
  intro e member
  obtain ⟨all, covers, rfl⟩ := (lex_eq_ok_iff_of_small small).1 read
  have derived := (parse_ok_iff rfl covers.ne_eof).1 parsed
  obtain ⟨front, inner, back, ⟨before, behind, split⟩, spread⟩ :=
    derived.occurs covers.placed e member
  have cutAt : all = (before ++ front) ++ (inner ++ (back ++ behind)) := by simp [← split]
  obtain ⟨cut, sliced, shorter, body, returned⟩ := covers.cut cutAt spread.enclosed.stretch
  -- The tokens of the cut, where they stand in it.
  generalize same : moved (Span.back e.span.start) inner = ts at body returned
  have inCut := body.ne_eof
  have whole (paired : Paired .round inner) : ExprText .or inner e := by
    obtain ⟨r, derived⟩ := spread.derived
    obtain ⟨rfl, rfl⟩ := spread.tight paired
    rw [List.nil_append, List.append_nil] at derived
    exact derived.atLoosest
  have returns (paired : Paired .round ts) : Paired .round inner := by
    rw [← returned]
    exact paired.relocate _
  refine ⟨cut, ts, sliced, ?_, ⟨?_, ?_⟩, ?_, ?_⟩
  · refine (lex_eq_ok_iff_of_small ?_).2 ⟨ts, ?_, ?_⟩
    · rw [String.toList_ofList]
      omega
    · rwa [String.toList_ofList]
    · rw [String.toList_ofList]
  · rintro ⟨other, reads⟩
    exact ((readsAs_iff inCut).1 reads).paired
  · intro paired
    have moved := (whole (returns paired)).relocate (Span.rigid_back e.span.start)
    rw [same] at moved
    exact ⟨_, (readsAs_iff inCut).2 moved⟩
  · intro other reads
    have derived := (readsAs_iff inCut).1 reads
    have moved := derived.relocate (Span.rigid_shift e.span.start)
    rw [returned] at moved
    have inText : ∀ t ∈ inner, t.kind ≠ .eof := by
      intro t member
      refine covers.ne_eof t ?_
      simp [cutAt, member]
    exact ((readsAs_iff inText).2 moved).unique
      ((readsAs_iff inText).2 (whole (returns derived.paired)))
  · rw [← same]
    exact spread.paired.imp_left fun paired => paired.relocate _

/-- The cut of a product whose first operand is a sum in parentheses, which is no expression. -/
theorem parse_excerpt_product :
    ∃ tokens body, lex "x = (1 + 2) * 3;" = .ok tokens ∧
      parse tokens "x = (1 + 2) * 3;" =
        .ok [.assign ⟨"x", ⟨0, 1⟩⟩
          (.binary .mul
            (.binary .add (.literal (.int 1) ⟨5, 6⟩) (.literal (.int 2) ⟨9, 10⟩) ⟨5, 10⟩)
            (.literal (.int 3) ⟨14, 15⟩) ⟨5, 15⟩) ⟨0, 16⟩] ∧
      slice? "x = (1 + 2) * 3;".toList 5 15 = some "1 + 2) * 3".toList ∧
      lex "1 + 2) * 3" = .ok (body ++ [Token.mk .eof ⟨10, 10⟩]).toArray ∧
      ∀ other, ¬ ReadsAs body other := by
  refine ⟨#[⟨.ident "x", ⟨0, 1⟩⟩, ⟨.symbol .equal, ⟨2, 3⟩⟩, ⟨.symbol .leftParen, ⟨4, 5⟩⟩,
    ⟨.int 1, ⟨5, 6⟩⟩, ⟨.symbol .plus, ⟨7, 8⟩⟩, ⟨.int 2, ⟨9, 10⟩⟩, ⟨.symbol .rightParen, ⟨10, 11⟩⟩,
    ⟨.symbol .star, ⟨12, 13⟩⟩, ⟨.int 3, ⟨14, 15⟩⟩, ⟨.symbol .semicolon, ⟨15, 16⟩⟩,
    ⟨.eof, ⟨16, 16⟩⟩], [⟨.int 1, ⟨0, 1⟩⟩, ⟨.symbol .plus, ⟨2, 3⟩⟩, ⟨.int 2, ⟨4, 5⟩⟩,
    ⟨.symbol .rightParen, ⟨5, 6⟩⟩, ⟨.symbol .star, ⟨7, 8⟩⟩, ⟨.int 3, ⟨9, 10⟩⟩],
    rfl, rfl, rfl, rfl, ?_⟩
  rintro other ⟨target, span, parsed⟩
  cases parsed

theorem parse_excerpt_negation :
    byteCount "x = (-(a) * b);".toList < 0x100000000 ∧
      ∃ tokens body other, lex "x = (-(a) * b);" = .ok tokens ∧
        parse tokens "x = (-(a) * b);" =
          .ok [.assign ⟨"x", ⟨0, 1⟩⟩
            (.binary .mul (.unary .neg (.var ⟨"a", ⟨7, 8⟩⟩) ⟨5, 8⟩) (.var ⟨"b", ⟨12, 13⟩⟩) ⟨5, 13⟩)
            ⟨0, 15⟩] ∧
        lex "-(a) * b" = .ok (body ++ [Token.mk .eof ⟨8, 8⟩]).toArray ∧ ReadsAs body other ∧
        .binary .mul (.unary .neg (.var ⟨"a", ⟨7, 8⟩⟩) ⟨5, 8⟩) (.var ⟨"b", ⟨12, 13⟩⟩) ⟨5, 13⟩ =
          other.relocate (Span.shift 5) := by
  have small : byteCount "x = (-(a) * b);".toList < 0x100000000 := by decide
  have product {tokens : Array Token} (read : lex "x = (-(a) * b);" = .ok tokens)
      (parsed : parse tokens "x = (-(a) * b);" =
        .ok [.assign ⟨"x", ⟨0, 1⟩⟩
          (.binary .mul (.unary .neg (.var ⟨"a", ⟨7, 8⟩⟩) ⟨5, 8⟩) (.var ⟨"b", ⟨12, 13⟩⟩) ⟨5, 13⟩)
          ⟨0, 15⟩]) :
      ∃ body other, lex "-(a) * b" = .ok (body ++ [Token.mk .eof ⟨8, 8⟩]).toArray ∧
        ReadsAs body other ∧
        .binary .mul (.unary .neg (.var ⟨"a", ⟨7, 8⟩⟩) ⟨5, 8⟩) (.var ⟨"b", ⟨12, 13⟩⟩) ⟨5, 13⟩ =
          other.relocate (Span.shift 5) := by
    obtain ⟨cut, body, sliced, lexed, readable, shifted, -⟩ := parse_excerpt small read parsed
      (.binary .mul (.unary .neg (.var ⟨"a", ⟨7, 8⟩⟩) ⟨5, 8⟩) (.var ⟨"b", ⟨12, 13⟩⟩) ⟨5, 13⟩)
      List.mem_cons_self
    obtain rfl : "-(a) * b".toList = cut := Option.some.inj sliced
    have scanned : ∃ ts : List Token,
        lex "-(a) * b" = .ok (ts ++ [Token.mk .eof ⟨8, 8⟩]).toArray ∧ Paired .round ts :=
      ⟨[⟨.symbol .minus, ⟨0, 1⟩⟩, ⟨.symbol .leftParen, ⟨1, 2⟩⟩, ⟨.ident "a", ⟨2, 3⟩⟩,
        ⟨.symbol .rightParen, ⟨3, 4⟩⟩, ⟨.symbol .star, ⟨5, 6⟩⟩, ⟨.ident "b", ⟨7, 8⟩⟩], rfl,
        .other (by decide) (@Paired.pair .round _ _ [_] _ rfl rfl (.single (by decide))
          (.other (by decide) (.single (by decide))))⟩
    obtain ⟨ts, known, paired⟩ := scanned
    have same := List.toArray_inj (Except.ok.inj (known.symm.trans lexed))
    obtain ⟨rfl, -⟩ := List.append_inj' same rfl
    obtain ⟨other, reads⟩ := readable.2 paired
    exact ⟨_, other, known, reads, shifted other reads⟩
  have read : lex "x = (-(a) * b);" = .ok #[⟨.ident "x", ⟨0, 1⟩⟩, ⟨.symbol .equal, ⟨2, 3⟩⟩,
    ⟨.symbol .leftParen, ⟨4, 5⟩⟩, ⟨.symbol .minus, ⟨5, 6⟩⟩, ⟨.symbol .leftParen, ⟨6, 7⟩⟩,
    ⟨.ident "a", ⟨7, 8⟩⟩, ⟨.symbol .rightParen, ⟨8, 9⟩⟩, ⟨.symbol .star, ⟨10, 11⟩⟩,
    ⟨.ident "b", ⟨12, 13⟩⟩, ⟨.symbol .rightParen, ⟨13, 14⟩⟩, ⟨.symbol .semicolon, ⟨14, 15⟩⟩,
    ⟨.eof, ⟨15, 15⟩⟩] := rfl
  obtain ⟨body, other, holds⟩ := product read rfl
  exact ⟨small, _, body, other, read, rfl, holds⟩

end Salita
