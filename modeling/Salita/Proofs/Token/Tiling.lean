import Salita.Proofs.Source.Bytes
import Salita.Proofs.Token.Scanning

namespace Salita.Lexer
open Text

def EndsLine (text : List Char) : Prop := ∀ c ∈ text.head?, c = '\n'

inductive Trivia : List Char → List Char → Prop
  | nil {after : List Char} : Trivia [] after
  | space {c : Char} {gap after : List Char} (blank : isSpace c = true) (more : Trivia gap after) :
      Trivia (c :: gap) after
  | comment {body gap after : List Char} (inLine : '\n' ∉ body) (ends : EndsLine (gap ++ after))
      (more : Trivia gap after) : Trivia ('#' :: (body ++ gap)) after

inductive Covers : Nat → List Char → List Token → Prop
  | nil {offset : Nat} : Covers offset [] []
  | space {offset : Nat} {c : Char} {rest : List Char} {tokens : List Token}
      (blank : isSpace c = true) (more : Covers (offset + c.utf8Size) rest tokens) :
      Covers offset (c :: rest) tokens
  | comment {offset : Nat} {body rest : List Char} {tokens : List Token} (inLine : '\n' ∉ body)
      (ends : EndsLine rest) (more : Covers (offset + byteCount ('#' :: body)) rest tokens) :
      Covers offset ('#' :: (body ++ rest)) tokens
  | token {offset : Nat} {lexeme rest : List Char} {kind : TokenKind} {tokens : List Token}
      (denotes : Denotes lexeme kind) (longest : Longest lexeme (lexeme ++ rest))
      (more : Covers (offset + byteCount lexeme) rest tokens) :
      Covers offset (lexeme ++ rest) (⟨kind, ⟨offset, offset + byteCount lexeme⟩⟩ :: tokens)

inductive Passes (stop : List Char) : Nat → List Char → List Token → Prop
  | nil {offset : Nat} : Passes stop offset [] []
  | space {offset : Nat} {c : Char} {text : List Char} {tokens : List Token}
      (blank : isSpace c = true) (more : Passes stop (offset + c.utf8Size) text tokens) :
      Passes stop offset (c :: text) tokens
  | comment {offset : Nat} {body text : List Char} {tokens : List Token} (inLine : '\n' ∉ body)
      (ends : EndsLine (text ++ stop))
      (more : Passes stop (offset + byteCount ('#' :: body)) text tokens) :
      Passes stop offset ('#' :: (body ++ text)) tokens
  | token {offset : Nat} {lexeme text : List Char} {kind : TokenKind} {tokens : List Token}
      (denotes : Denotes lexeme kind) (longest : Longest lexeme (lexeme ++ (text ++ stop)))
      (more : Passes stop (offset + byteCount lexeme) text tokens) :
      Passes stop offset (lexeme ++ text) (⟨kind, ⟨offset, offset + byteCount lexeme⟩⟩ :: tokens)

theorem Longest.of_append {lexeme text stop : List Char} (longest : Longest lexeme (text ++ stop)) :
    Longest lexeme text := by
  intro other begins
  exact longest other (begins.trans (List.prefix_append text stop))

theorem EndsLine.of_append {text stop : List Char} (ends : EndsLine (text ++ stop)) :
    EndsLine text := by
  cases text with
  | nil => nofun
  | cons c text => exact ends

/-- What was read in front of something else can be read on its own. -/
theorem Passes.covers {stop : List Char} {offset : Nat} {text : List Char} {tokens : List Token}
    (passes : Passes stop offset text tokens) : Covers offset text tokens := by
  induction passes with
  | nil => exact .nil
  | space blank more ih => exact .space blank ih
  | comment inLine ends more ih => exact .comment inLine ends.of_append ih
  | token denotes longest more ih =>
      rw [← List.append_assoc] at longest
      exact .token denotes longest.of_append ih

theorem Covers.passes {offset : Nat} {text : List Char} {tokens : List Token}
    (covers : Covers offset text tokens) : Passes [] offset text tokens := by
  induction covers with
  | nil => exact .nil
  | space blank more ih => exact .space blank ih
  | comment inLine ends more ih => exact .comment inLine (by rwa [List.append_nil]) ih
  | token denotes longest more ih => exact .token denotes (by rwa [List.append_nil]) ih

/-! ## Reading the tokens that cover a text -/

def recorded (t : Token) : Token := ⟨t.kind, .ofRange t.span.start t.span.stop⟩

theorem Lexeme.isBreak_head {c : Char} {rest : List Char} (lexeme : Lexeme (c :: rest)) :
    isBreak c = false := by
  cases breaks : isBreak c with
  | false => rfl
  | true =>
      obtain ⟨items, -, equal⟩ := lexeme.isQuoted_of_isBreak (by simp) breaks
      rw [(List.cons.inj equal).1] at breaks
      exact breaks.symm

theorem takeWhile_line {body rest : List Char} (inLine : '\n' ∉ body) (ends : EndsLine rest) :
    (body ++ rest).takeWhile (· ≠ '\n') = body ∧ (body ++ rest).dropWhile (· ≠ '\n') = rest := by
  have plain : ∀ c ∈ body, decide (c ≠ '\n') = true := by
    intro c member
    rw [decide_eq_true_eq]
    intro newline
    exact inLine (newline ▸ member)
  refine takeWhile_run plain fun c first => ?_
  rw [ends c first]
  rfl

theorem takeWhile_inLine (text : List Char) : '\n' ∉ text.takeWhile (· ≠ '\n') := by
  intro member
  have plain := mem_takeWhile member
  simp at plain

theorem endsLine_dropWhile (text : List Char) : EndsLine (text.dropWhile (· ≠ '\n')) := by
  intro c first
  have stops := List.head?_dropWhile_not (· ≠ '\n') text
  rw [first] at stops
  simpa using stops

theorem exists_fuel {c : Char} {rest : List Char} {fuel : Nat}
    (enough : (c :: rest).length ≤ fuel) : ∃ less, fuel = less + 1 ∧ rest.length ≤ less := by
  cases fuel with
  | zero => cases enough
  | succ less => exact ⟨less, rfl, Nat.le_of_succ_le_succ enough⟩

theorem tokensFrom_of_passes {stop : List Char} {offset : Nat} {text : List Char}
    {tokens : List Token} (passes : Passes stop offset text tokens) {fuel : Nat}
    (enough : (text ++ stop).length ≤ fuel) (found : Array Token) :
    ∃ less, stop.length ≤ less ∧
      tokensFrom fuel offset (text ++ stop) found =
        tokensFrom less (offset + byteCount text) stop
          (found ++ (tokens.map recorded).toArray) := by
  induction passes generalizing fuel found with
  | nil => exact ⟨fuel, enough, by simp⟩
  | @space offset c text tokens blank more ih =>
      obtain ⟨fuel, rfl, remaining⟩ := exists_fuel enough
      rw [List.cons_append, tokensFrom, if_pos blank, byteCount_cons, ← Nat.add_assoc]
      exact ih remaining found
  | @comment offset body text tokens inLine ends more ih =>
      rw [List.cons_append, List.append_assoc] at enough ⊢
      obtain ⟨fuel, rfl, behind⟩ := exists_fuel enough
      obtain ⟨taken, dropped⟩ := takeWhile_line inLine ends
      have notBlank : ¬ isSpace '#' = true := by decide
      have remaining : (text ++ stop).length ≤ fuel := by
        rw [List.length_append] at behind
        omega
      obtain ⟨less, left, reads⟩ := ih remaining found
      refine ⟨less, left, ?_⟩
      simp only [byteCount_cons, byteCount_append, ← Nat.add_assoc] at reads ⊢
      rw [tokensFrom, if_neg notBlank, if_pos rfl]
      simp only [taken, dropped]
      exact reads
  | @token offset lexeme text kind tokens denotes longest more ih =>
      obtain ⟨c, tail, rfl⟩ := List.exists_cons_of_ne_nil denotes.lexeme.ne_nil
      rw [List.append_assoc, List.cons_append] at enough ⊢
      rw [List.cons_append] at longest
      obtain ⟨fuel, rfl, behind⟩ := exists_fuel enough
      have remaining : (text ++ stop).length ≤ fuel := by
        rw [List.length_append] at behind
        omega
      have solid := denotes.lexeme.isBreak_head
      simp only [isBreak, Bool.or_eq_false_iff, beq_eq_false_iff_ne] at solid
      have split : c :: tail ++ (text ++ stop) = c :: (tail ++ (text ++ stop)) := rfl
      obtain ⟨isKind, isLexeme, isRest⟩ := scan_eq_of_longest denotes split longest
      obtain ⟨less, left, reads⟩ := ih remaining (found.push (recorded ⟨kind, ⟨offset, _⟩⟩))
      refine ⟨less, left, ?_⟩
      rw [tokensFrom, if_neg (by simp [solid.1]), if_neg solid.2]
      simp only [isKind, isLexeme, isRest]
      rw [byteCount_append, ← Nat.add_assoc]
      refine reads.trans ?_
      simp [recorded]

def Halts (stop : List Char) : Prop :=
  ∀ c rest, stop = c :: rest →
    isBreak c = false ∧ ∃ cause, (scan c rest).kind = .error cause

theorem exists_passes (text : List Char) (offset : Nat) :
    ∃ before tokens stop, text = before ++ stop ∧ Passes stop offset before tokens ∧ Halts stop := by
  induction length : text.length using Nat.strongRecOn generalizing text offset with
  | ind n ih =>
    subst length
    cases text with
    | nil => exact ⟨[], [], [], rfl, .nil, nofun⟩
    | cons c rest =>
      by_cases blank : isSpace c = true
      · obtain ⟨before, tokens, stop, rfl, passes, halts⟩ :=
          ih rest.length (Nat.lt_succ_self _) rest (offset + c.utf8Size) rfl
        exact ⟨c :: before, tokens, stop, rfl, .space blank passes, halts⟩
      by_cases comment : c = '#'
      · subst comment
        have shorter := (List.dropWhile_sublist (l := rest) (· ≠ '\n')).length_le
        obtain ⟨before, tokens, stop, split, passes, halts⟩ :=
          ih (rest.dropWhile (· ≠ '\n')).length (Nat.lt_succ_of_le shorter) _
            (offset + byteCount ('#' :: rest.takeWhile (· ≠ '\n'))) rfl
        have ends := endsLine_dropWhile rest
        rw [split] at ends
        refine ⟨_, tokens, stop, ?_, .comment (takeWhile_inLine rest) ends passes, halts⟩
        rw [List.cons_append, List.append_assoc, ← split, List.takeWhile_append_dropWhile]
      · have finds := finds_scan c rest
        cases isKind : (scan c rest).kind with
        | error cause =>
            refine ⟨[], [], c :: rest, rfl, .nil, ?_⟩
            rintro d tail split
            cases split
            exact ⟨by simp [isBreak, blank, comment], cause, isKind⟩
        | ok kind =>
            obtain ⟨denotes, longest⟩ := scan_sound isKind
            have shorter : (scan c rest).rest.length < (c :: rest).length := by
              have nonempty := List.length_pos_iff.2 denotes.lexeme.ne_nil
              have length := congrArg List.length finds.split
              rw [List.length_append] at length
              omega
            obtain ⟨before, tokens, stop, split, passes, halts⟩ :=
              ih _ shorter (scan c rest).rest (offset + byteCount (scan c rest).lexeme) rfl
            rw [← finds.split, split] at longest
            refine ⟨_, _, stop, ?_, .token denotes longest passes, halts⟩
            rw [List.append_assoc, ← split, finds.split]

theorem tokensFrom_nil (fuel offset : Nat) (found : Array Token) :
    tokensFrom fuel offset [] found = .ok (found.push (recorded ⟨.eof, .point offset⟩)) := by
  cases fuel <;> rfl

theorem tokensFrom_of_error {c : Char} {rest : List Char} {cause : LexCause} {fuel : Nat}
    (solid : isBreak c = false) (failed : (scan c rest).kind = .error cause)
    (enough : (c :: rest).length ≤ fuel) (offset : Nat) (found : Array Token) :
    tokensFrom fuel offset (c :: rest) found = .error ⟨cause, offset, (scan c rest).lexeme⟩ := by
  obtain ⟨fuel, rfl, -⟩ := exists_fuel enough
  simp only [isBreak, Bool.or_eq_false_iff, beq_eq_false_iff_ne] at solid
  rw [tokensFrom, if_neg (by simp [solid.1]), if_neg solid.2]
  simp only [failed]

theorem tokensFrom_of_covers {offset : Nat} {text : List Char} {tokens : List Token}
    (covers : Covers offset text tokens) {fuel : Nat} (enough : text.length ≤ fuel)
    (found : Array Token) :
    tokensFrom fuel offset text found =
      .ok ((found ++ (tokens.map recorded).toArray).push
        (recorded ⟨.eof, .point (offset + byteCount text)⟩)) := by
  have enough : (text ++ []).length ≤ fuel := by rwa [List.append_nil]
  obtain ⟨less, -, reads⟩ := tokensFrom_of_passes covers.passes enough found
  rwa [List.append_nil, tokensFrom_nil] at reads

theorem covers_of_tokensFrom {fuel offset : Nat} {text : List Char} {found tokens : Array Token}
    (enough : text.length ≤ fuel) (read : tokensFrom fuel offset text found = .ok tokens) :
    ∃ body, Covers offset text body := by
  obtain ⟨before, body, stop, rfl, passes, halts⟩ := exists_passes text offset
  obtain ⟨less, left, reads⟩ := tokensFrom_of_passes passes enough found
  cases stop with
  | nil =>
      rw [List.append_nil]
      exact ⟨body, passes.covers⟩
  | cons c rest =>
      obtain ⟨solid, cause, failed⟩ := halts c rest rfl
      rw [reads, tokensFrom_of_error solid failed left] at read
      cases read

/-! ## Places -/

def gaps : Nat → List Token → Nat → List Span
  | start, [], stop => [⟨start, stop⟩]
  | start, t :: rest, stop => ⟨start, t.span.start⟩ :: gaps t.span.stop rest stop

structure StandsAt (source : List Char) (span : Span) (before piece after : List Char) : Prop where
  split : source = before ++ (piece ++ after)
  start : span.start = byteCount before
  stop : span.stop = byteCount (before ++ piece)

/-- Tokens that tile a text: they stand at increasing places, each of them with the longest lexeme
that starts there, and all the text between them is white space and comments. A name is the
reserved word of its text, if there is one. -/
structure Tiling (source : List Char) (tokens : List Token) : Prop where
  solid : ∀ t ∈ tokens, t.span.start < t.span.stop
  ordered : tokens.Pairwise fun a b => a.span.stop ≤ b.span.start
  between : ∀ span ∈ gaps 0 tokens (byteCount source),
    ∃ before gap after, StandsAt source span before gap after ∧ Trivia gap after
  lexemes : ∀ t ∈ tokens, ∃ before lexeme after, StandsAt source t.span before lexeme after ∧
    Denotes lexeme t.kind ∧ Longest lexeme (lexeme ++ after) ∧
    (IsName lexeme → t.kind =
      match Keyword.ofText? (String.ofList lexeme) with
      | some word => .keyword word
      | none => .ident (String.ofList lexeme))

theorem Covers.span_bounds {offset : Nat} {text : List Char} {tokens : List Token}
    (covers : Covers offset text tokens) :
    ∀ t ∈ tokens, offset ≤ t.span.start ∧ t.span.start < t.span.stop ∧
      t.span.stop ≤ offset + byteCount text := by
  induction covers with
  | nil =>
      intro t member
      cases member
  | space blank more ih =>
      intro t member
      have bounds := ih t member
      rw [byteCount_cons]
      omega
  | comment inLine ends more ih =>
      intro t member
      have bounds := ih t member
      rw [← List.cons_append, byteCount_append]
      omega
  | token denotes longest more ih =>
      intro t member
      have positive := byteCount_pos denotes.lexeme.ne_nil
      rw [byteCount_append]
      cases member with
      | head =>
          simp only
          omega
      | tail _ later =>
          have bounds := ih t later
          omega

theorem Covers.ordered {offset : Nat} {text : List Char} {tokens : List Token}
    (covers : Covers offset text tokens) :
    tokens.Pairwise fun a b => a.span.stop ≤ b.span.start := by
  induction covers with
  | nil => exact .nil
  | space blank more ih => exact ih
  | comment inLine ends more ih => exact ih
  | token denotes longest more ih =>
      refine .cons ?_ ih
      intro t member
      exact (more.span_bounds t member).1

theorem Covers.lexemes {offset : Nat} {text : List Char} {tokens : List Token}
    (covers : Covers offset text tokens) {source before : List Char}
    (split : source = before ++ text) (start : offset = byteCount before) :
    ∀ t ∈ tokens, ∃ before lexeme after, StandsAt source t.span before lexeme after ∧
      Denotes lexeme t.kind ∧ Longest lexeme (lexeme ++ after) := by
  induction covers generalizing before with
  | nil =>
      intro t member
      cases member
  | @space offset c rest tokens blank more ih =>
      exact @ih (before ++ [c]) (by simp [split]) (by simp [start])
  | @comment offset body rest tokens inLine ends more ih =>
      exact @ih (before ++ '#' :: body) (by simp [split]) (by simp [start])
  | @token offset lexeme rest kind tokens denotes longest more ih =>
      intro t member
      cases member with
      | head =>
          refine ⟨before, lexeme, rest, ⟨split, start, ?_⟩, denotes, longest⟩
          rw [byteCount_append, ← start]
      | tail _ later => exact @ih (before ++ lexeme) (by simp [split]) (by simp [start]) t later

theorem Covers.first_gap {offset : Nat} {text : List Char} {tokens : List Token}
    (covers : Covers offset text tokens) {source before : List Char}
    (split : source = before ++ text) (start : offset = byteCount before) :
    ∃ gap after later, text = gap ++ after ∧ Trivia gap after ∧
      (∀ first, gaps first tokens (byteCount source) = ⟨first, offset + byteCount gap⟩ :: later) ∧
      ∀ span ∈ later, ∃ before gap after, StandsAt source span before gap after ∧
        Trivia gap after := by
  -- White space and comments extend the first gap to the front, and a token starts a new one.
  induction covers generalizing before with
  | nil =>
      refine ⟨[], [], [], rfl, .nil, ?_, by simp⟩
      intro first
      simp [gaps, split, start]
  | @space offset c rest tokens blank more ih =>
      obtain ⟨gap, after, later, rfl, trivia, same, others⟩ :=
        @ih (before ++ [c]) (by simp [split]) (by simp [start])
      refine ⟨c :: gap, after, later, rfl, .space blank trivia, ?_, others⟩
      intro first
      rw [same, byteCount_cons, Nat.add_assoc]
  | @comment offset body rest tokens inLine ends more ih =>
      obtain ⟨gap, after, later, rfl, trivia, same, others⟩ :=
        @ih (before ++ '#' :: body) (by simp [split]) (by simp [start])
      refine ⟨'#' :: (body ++ gap), after, later, by simp, .comment inLine ends trivia, ?_, others⟩
      intro first
      rw [same, ← List.cons_append, byteCount_append, Nat.add_assoc]
  | @token offset lexeme rest kind tokens denotes longest more ih =>
      obtain ⟨gap, after, later, rfl, trivia, same, others⟩ :=
        @ih (before ++ lexeme) (by simp [split]) (by simp [start])
      refine ⟨[], lexeme ++ (gap ++ after), _, rfl, .nil, fun first => rfl, ?_⟩
      intro span member
      rw [same] at member
      cases member with
      | head =>
          refine ⟨before ++ lexeme, gap, after, ⟨by simp [split], ?_, ?_⟩, trivia⟩
          · simp [start]
          · simp [start, Nat.add_assoc]
      | tail _ inner => exact others span inner

theorem Covers.ne_eof {offset : Nat} {text : List Char} {tokens : List Token}
    (covers : Covers offset text tokens) : ∀ t ∈ tokens, t.kind ≠ .eof := by
  intro t member
  induction covers with
  | nil => cases member
  | space blank more ih => exact ih member
  | comment inLine ends more ih => exact ih member
  | token denotes longest more ih =>
      cases member with
      | head => exact denotes.ne_eof
      | tail _ later => exact ih later

theorem Covers.tiling {source : List Char} {tokens : List Token}
    (covers : Covers 0 source tokens) : Tiling source tokens := by
  constructor
  · intro t member
    exact (covers.span_bounds t member).2.1
  · exact covers.ordered
  · obtain ⟨gap, after, later, split, trivia, same, others⟩ :=
      @Covers.first_gap 0 source tokens covers source [] rfl rfl
    intro span member
    rw [same] at member
    cases member with
    | head => exact ⟨[], gap, after, ⟨split, rfl, by simp⟩, trivia⟩
    | tail _ inner => exact others span inner
  · intro t member
    obtain ⟨before, lexeme, after, stands, denotes, longest⟩ :=
      @Covers.lexemes 0 source tokens covers source [] rfl rfl t member
    exact ⟨before, lexeme, after, stands, denotes, longest,
      fun name => (name.denotes_iff.1 denotes).trans (nameKind_eq _)⟩

end Salita.Lexer

namespace Salita
open Lexer

theorem lex_eq_ok_iff {source : String} {tokens : Array Token} :
    lex source = .ok tokens ↔ ∃ body, Covers 0 source.toList body ∧
      tokens = (body.map recorded).toArray.push
        (recorded ⟨.eof, .point (Text.byteCount source.toList)⟩) := by
  have reads {body : List Token} (covers : Covers 0 source.toList body) :
      lex source = .ok ((body.map recorded).toArray.push
        (recorded ⟨.eof, .point (Text.byteCount source.toList)⟩)) := by
    rw [lex, tokensFrom_of_covers covers (Nat.le_refl _)]
    simp
  constructor
  · intro read
    have found : ∃ body, Covers 0 source.toList body := by
      rw [lex] at read
      split at read
      case h_1 tokens scanned => exact covers_of_tokensFrom (Nat.le_refl _) scanned
      case h_2 => cases read
    obtain ⟨body, covers⟩ := found
    refine ⟨body, covers, ?_⟩
    rw [reads covers] at read
    exact (Except.ok.inj read).symm
  · intro found
    obtain ⟨body, covers, rfl⟩ := found
    exact reads covers

/-- The offsets of a text of less than `2 ^ 32` bytes are recorded as they are. -/
theorem Span.ofRange_eq {start stop : Nat} (ordered : start ≤ stop) (small : stop < 0x100000000) :
    Span.ofRange start stop = ⟨start, stop⟩ := by
  have first : min start Span.maxOffset = start := by
    unfold Span.maxOffset
    omega
  have last : min stop Span.maxOffset = stop := by
    unfold Span.maxOffset
    omega
  rw [Span.ofRange, first, last]

theorem recorded_eq {t : Token} (ordered : t.span.start ≤ t.span.stop)
    (small : t.span.stop < 0x100000000) : recorded t = t := by
  rw [recorded, Span.ofRange_eq ordered small]

theorem lex_eq_ok_iff_of_small {source : String} {tokens : Array Token}
    (small : Text.byteCount source.toList < 0x100000000) :
    lex source = .ok tokens ↔ ∃ body, Covers 0 source.toList body ∧
      tokens = (body ++ [Token.mk .eof (.point (Text.byteCount source.toList))]).toArray := by
  have eof := @recorded_eq ⟨.eof, .point (Text.byteCount source.toList)⟩ (Nat.le_refl _) small
  have same {body : List Token} (covers : Covers 0 source.toList body) :
      body.map recorded = body := by
    have kept : body.map recorded = body.map id := by
      apply List.map_congr_left
      intro t member
      have bounds := covers.span_bounds t member
      exact recorded_eq (by omega) (by omega)
    rw [kept, List.map_id]
  rw [lex_eq_ok_iff]
  apply exists_congr
  intro body
  apply and_congr_right
  intro covers
  rw [same covers, eof, List.push_toArray]

/-- The tokens of a text that can be read tile it, up to the one that marks its end. -/
theorem lex_tiling {source : String} {tokens : Array Token}
    (small : Text.byteCount source.toList < 0x100000000) (read : lex source = .ok tokens) :
    ∃ body, tokens.toList = body ++ [⟨.eof, .point (Text.byteCount source.toList)⟩] ∧
      (∀ t ∈ body, t.kind ≠ .eof) ∧ Tiling source.toList body := by
  obtain ⟨body, covers, rfl⟩ := (lex_eq_ok_iff_of_small small).1 read
  refine ⟨body, rfl, ?_, covers.tiling⟩
  intro t member
  exact covers.ne_eof t member

theorem lex_tiling_update :
    Text.byteCount "sa sap//=07\"\\n\"# o".toList < 0x100000000 ∧
      ∃ tokens body, lex "sa sap//=07\"\\n\"# o" = .ok tokens ∧ body.length = 5 ∧
        tokens.toList = body ++ [⟨.eof, .point 18⟩] ∧ (∀ t ∈ body, t.kind ≠ .eof) ∧
        Tiling "sa sap//=07\"\\n\"# o".toList body := by
  have small : Text.byteCount "sa sap//=07\"\\n\"# o".toList < 0x100000000 := by decide
  have read : lex "sa sap//=07\"\\n\"# o" = .ok #[⟨.keyword .sa, ⟨0, 2⟩⟩,
      ⟨.ident "sap", ⟨3, 6⟩⟩, ⟨.symbol .slashSlashEqual, ⟨6, 9⟩⟩, ⟨.int 7, ⟨9, 11⟩⟩,
      ⟨.str "\n", ⟨11, 15⟩⟩, ⟨.eof, ⟨18, 18⟩⟩] := rfl
  obtain ⟨body, split, inner, tiling⟩ := lex_tiling small read
  have length : 6 = body.length + 1 := by simpa using congrArg List.length split
  exact ⟨small, _, body, read, by omega, split, inner, tiling⟩

end Salita
