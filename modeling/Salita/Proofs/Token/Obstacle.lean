import Salita.Proofs.Token.Spelling

namespace Salita.Lexer
open Text

inductive Obstacle where
  | overlong
  | unclosed
  | stray
deriving DecidableEq

namespace Obstacle

def cause : Obstacle → LexCause
  | .overlong => .integerTooLarge
  | .unclosed | .stray => .unrecognized

/-- What cuts a string off: the end of the text, or a backslash in front of it or of a newline. -/
def CutsOff (after : List Char) : Prop :=
  after = [] ∨ after = ['\\'] ∨ ∃ rest, after = '\\' :: '\n' :: rest

def Stands : Obstacle → List Char → List Char → Prop
  | .overlong, lexeme, after =>
      IsDigits lexeme ∧ (∀ c ∈ after.head?, c.isDigit = false ∧ c ≠ '.') ∧
        0x7fffffffffffffff < Decimal.valueOf lexeme
  | .unclosed, lexeme, after =>
      ∃ items, lexeme = '"' :: items ∧ Items items ∧ CutsOff after
  | .stray, lexeme, after =>
      ∃ c, lexeme = [c] ∧ c.isDigit = false ∧ c ≠ '"' ∧ isBreak c = false ∧
        ∀ other kind, other <+: c :: after → ¬ Denotes other kind

end Obstacle

theorem readWhole?_eq_none_iff {text : List Char} (run : IsDigits text) :
    Decimal.readWhole? text = none ↔ 0x7fffffffffffffff < Decimal.valueOf text := by
  constructor
  · intro unread
    refine Nat.lt_of_not_le fun small => ?_
    have inRange : (Int64.ofInt (Decimal.valueOf text)).toInt = Decimal.valueOf text :=
      Int64.toInt_ofInt_of_le (by omega) (by omega)
    rw [(Decimal.readWhole?_eq_some_iff run.1 run.2).2 inRange] at unread
    cases unread
  · intro large
    cases read : Decimal.readWhole? text with
    | none => rfl
    | some value =>
        have exact := (Decimal.readWhole?_eq_some_iff run.1 run.2).1 read
        have bound := value.toInt_lt
        omega

theorem scan_of_isDigit {c : Char} (digit : c.isDigit = true) (rest : List Char) :
    scan c rest = scanNumber (c :: rest) := by
  rw [scan, if_neg (not_isNameStart_of_isDigit digit), if_pos digit]

theorem scanNumber_overlong {lexeme after : List Char}
    (stands : Obstacle.overlong.Stands lexeme after) :
    scanNumber (lexeme ++ after) = ⟨.error .integerTooLarge, lexeme, after⟩ := by
  obtain ⟨run, ends, large⟩ := stands
  obtain ⟨taken, dropped⟩ := takeWhile_run run.2 fun c first => (ends c first).1
  unfold scanNumber
  simp only [taken, dropped, (readWhole?_eq_none_iff run).2 large]
  split
  case h_1 behind => exact absurd rfl (ends '.' rfl).2
  case h_2 => rfl

theorem Items.stringItems_cutsOff {items after : List Char} (valid : Items items)
    (incomplete : Obstacle.CutsOff after) :
    stringItems (items ++ after) = (items, after) := by
  induction valid with
  | nil =>
      obtain rfl | rfl | ⟨rest, rfl⟩ := incomplete
      · rfl
      · rfl
      · rw [List.nil_append, stringItems, if_pos rfl]
  | plain ordinary more ih => rw [List.cons_append, stringItems_plain ordinary, ih]
  | escape inLine more ih =>
      rw [List.cons_append, List.cons_append, stringItems_escape inLine, ih]

theorem stringItems_end (text : List Char) :
    (∃ rest, (stringItems text).2 = '"' :: rest) ∨ Obstacle.CutsOff (stringItems text).2 := by
  fun_induction stringItems text with
  | case1 => exact .inr (.inl rfl)
  | case2 rest => exact .inl ⟨rest, rfl⟩
  | case3 => exact .inr (.inr (.inl rfl))
  | case4 rest => exact .inr (.inr (.inr ⟨rest, rfl⟩))
  | case5 c rest inLine items more read ih
  | case6 c rest notQuote notLast notEscape items more read ih =>
      rw [read] at ih
      exact ih

theorem scanString_unclosed {items after : List Char} (valid : Items items)
    (incomplete : Obstacle.CutsOff after) :
    scanString (items ++ after) = ⟨.error .unrecognized, '"' :: items, after⟩ := by
  unfold scanString
  rw [valid.stringItems_cutsOff incomplete]
  obtain rfl | rfl | ⟨rest, rfl⟩ := incomplete <;> rfl

theorem IsPointed.exists_denotes {text : List Char} (number : IsPointed text) :
    ∃ kind, Denotes text kind := by
  obtain ⟨value, spells⟩ := number.exists_spells
  exact ⟨_, spells.denotes⟩

theorem scan_stray {c : Char} {after : List Char} (stands : Obstacle.stray.Stands [c] after) :
    scan c after = ⟨.error .unrecognized, [c], after⟩ := by
  obtain ⟨d, same, notDigit, notQuote, -, nothing⟩ := stands
  obtain rfl : c = d := (List.cons.inj same).1
  have notName : ¬ isNameStart c = true := by
    intro start
    have name : IsName [c] := ⟨c, [], rfl, start, by simp⟩
    exact nothing [c] _ ⟨after, rfl⟩ (name.denotes_iff.2 rfl)
  have notPoint : ¬ (c = '.' ∧ (after.head?.map Char.isDigit).getD false = true) := by
    rintro ⟨rfl, digit⟩
    cases after with
    | nil => cases digit
    | cons d after =>
        have number : IsPointed ['.', d] := ⟨[], [d], rfl, by simp, by simpa using digit, by simp⟩
        obtain ⟨kind, denotes⟩ := number.exists_denotes
        exact nothing ['.', d] kind ⟨after, rfl⟩ denotes
  rw [scan, if_neg notName, if_neg (by simp [notDigit]), if_neg notPoint, if_neg notQuote,
    scanSymbol]
  cases found : symbolAt (c :: after) with
  | none => rfl
  | some mark => exact absurd (.symbol mark) (nothing _ _ (prefix_of_symbolAt found))

theorem Obstacle.Stands.scan_eq {obstacle : Obstacle} {lexeme after : List Char}
    (stands : obstacle.Stands lexeme after) :
    ∃ c rest, lexeme ++ after = c :: rest ∧ isBreak c = false ∧
      scan c rest = ⟨.error obstacle.cause, lexeme, after⟩ := by
  cases obstacle with
  | overlong =>
      have scanned := scanNumber_overlong stands
      obtain ⟨run, -, -⟩ := stands
      obtain ⟨c, tail, rfl⟩ := List.exists_cons_of_ne_nil run.1
      refine ⟨c, tail ++ after, rfl, (Lexeme.digits run).isBreak_head, ?_⟩
      rw [scan_of_isDigit (run.2 c List.mem_cons_self)]
      exact scanned
  | unclosed =>
      obtain ⟨items, rfl, valid, incomplete⟩ := stands
      exact ⟨'"', items ++ after, rfl, rfl, scanString_unclosed valid incomplete⟩
  | stray =>
      obtain ⟨c, rfl, -, -, solid, -⟩ := id stands
      exact ⟨c, after, rfl, solid, scan_stray stands⟩

theorem Lexeme.isDigits_or_denotes {text : List Char} (lexeme : Lexeme text) :
    IsDigits text ∨ ∃ kind, Denotes text kind := by
  cases lexeme with
  | keyword word => exact .inr ⟨_, .keyword word⟩
  | symbol mark => exact .inr ⟨_, .symbol mark⟩
  | digits run => exact .inl run
  | pointed number => exact .inr number.exists_denotes
  | quoted string =>
      obtain ⟨items, valid, rfl⟩ := string
      exact .inr ⟨_, .str valid⟩
  | name name => exact .inr ⟨_, name.denotes_iff.2 rfl⟩

/-- Where a rule matches but nothing is a token, there are digits that spell none. -/
theorem isDigits_of_error {c : Char} {rest other : List Char} {cause : LexCause}
    (failed : (scan c rest).kind = .error cause) (begins : other <+: c :: rest)
    (lexeme : Lexeme other) :
    c.isDigit = true ∧ IsDigits (scan c rest).lexeme ∧
      Decimal.readWhole? (scan c rest).lexeme = none := by
  have finds := finds_scan c rest
  have nothing (kind : TokenKind) : ¬ Denotes (scan c rest).lexeme kind := by
    rw [← finds.kind, failed]
    nofun
  have run : IsDigits (scan c rest).lexeme := by
    rcases (finds.longest other begins lexeme).1.isDigits_or_denotes with run | ⟨kind, denotes⟩
    · exact run
    · exact absurd denotes (nothing kind)
  refine ⟨?_, run, ?_⟩
  · have split := finds.split
    obtain ⟨d, tail, equal⟩ := List.exists_cons_of_ne_nil run.1
    have digits := run.2
    rw [equal] at split digits
    exact (List.cons.inj split).1 ▸ digits d List.mem_cons_self
  · cases read : Decimal.readWhole? (scan c rest).lexeme with
    | none => rfl
    | some value => exact absurd (run.denotes_iff.2 ⟨value, read, rfl⟩) (nothing _)

theorem stands_overlong {c : Char} {rest : List Char} {cause : LexCause} (digit : c.isDigit = true)
    (failed : (scan c rest).kind = .error cause) :
    Obstacle.overlong.Stands (scan c rest).lexeme (scan c rest).rest := by
  have finds := finds_scan c rest
  have single : IsDigits [c] := ⟨by simp, by simpa using digit⟩
  obtain ⟨-, run, unread⟩ := isDigits_of_error failed ⟨rest, rfl⟩ (.digits single)
  refine ⟨run, ?_, (readWhole?_eq_none_iff run).1 unread⟩
  intro d first
  obtain ⟨tail, after⟩ := List.head?_eq_some_iff.1 first
  -- A digit or a point would make the lexeme longer.
  have ends (longer : Lexeme ((scan c rest).lexeme ++ [d])) : False := by
    have begins : (scan c rest).lexeme ++ [d] <+: c :: rest := by
      rw [← finds.split, after]
      exact ⟨tail, by simp⟩
    have length := (finds.longest _ begins longer).2
    rw [List.length_append, List.length_singleton] at length
    omega
  constructor
  · cases isDigit : d.isDigit with
    | false => rfl
    | true =>
        refine (ends (.digits ⟨by simp, ?_⟩)).elim
        simpa [or_imp, forall_and, isDigit] using run.2
  · rintro rfl
    exact ends (.pointed ⟨_, [], rfl, run.2, by simp, .inl run.1⟩)

theorem exists_stands {c : Char} {rest : List Char} {cause : LexCause} (solid : isBreak c = false)
    (failed : (scan c rest).kind = .error cause) :
    ∃ (obstacle : Obstacle) (lexeme after : List Char),
      lexeme ++ after = c :: rest ∧ obstacle.Stands lexeme after := by
  by_cases digit : c.isDigit = true
  · exact ⟨.overlong, _, _, (finds_scan c rest).split, stands_overlong digit failed⟩
  have nothing {other : List Char} {kind : TokenKind} (begins : other <+: c :: rest) :
      ¬ Denotes other kind := by
    intro denotes
    exact digit (isDigits_of_error failed begins denotes.lexeme).1
  by_cases quote : c = '"'
  · subst quote
    obtain ⟨valid, joined⟩ := stringItems_sound rest
    refine ⟨.unclosed, '"' :: (stringItems rest).1, (stringItems rest).2, ?_, _, rfl, valid, ?_⟩
    · rw [List.cons_append, joined]
    · rcases stringItems_end rest with ⟨after, closed⟩ | incomplete
      · refine absurd (.str valid) (nothing ⟨after, ?_⟩)
        rw [closed] at joined
        simpa using joined
      · exact incomplete
  · refine ⟨.stray, [c], rest, rfl, c, rfl, by simpa using digit, quote, solid, ?_⟩
    intro other kind begins
    exact nothing begins

theorem Obstacle.Stands.head {obstacle : Obstacle} {lexeme after : List Char}
    (stands : obstacle.Stands lexeme after) :
    ∃ c tail, lexeme ++ after = c :: tail ∧
      obstacle = if c.isDigit then .overlong else if c = '"' then .unclosed else .stray := by
  cases obstacle with
  | overlong =>
      obtain ⟨⟨nonempty, digits⟩, -⟩ := stands
      obtain ⟨c, tail, rfl⟩ := List.exists_cons_of_ne_nil nonempty
      exact ⟨c, tail ++ after, rfl, by rw [if_pos (digits c List.mem_cons_self)]⟩
  | unclosed =>
      obtain ⟨items, rfl, -⟩ := stands
      exact ⟨'"', items ++ after, rfl, rfl⟩
  | stray =>
      obtain ⟨c, rfl, notDigit, notQuote, -⟩ := stands
      exact ⟨c, after, rfl, by rw [if_neg (by simp [notDigit]), if_neg notQuote]⟩

theorem Obstacle.Stands.unique {obstacle other : Obstacle} {lexeme after piece rest : List Char}
    (stands : obstacle.Stands lexeme after) (others : other.Stands piece rest)
    (same : piece ++ rest = lexeme ++ after) : other = obstacle ∧ piece = lexeme := by
  constructor
  · obtain ⟨c, tail, split, equal⟩ := stands.head
    obtain ⟨d, more, otherSplit, otherEqual⟩ := others.head
    rw [otherSplit, split] at same
    rw [equal, otherEqual, (List.cons.inj same).1]
  · obtain ⟨c, tail, split, -, scanned⟩ := stands.scan_eq
    obtain ⟨d, more, otherSplit, -, otherScanned⟩ := others.scan_eq
    obtain ⟨rfl, rfl⟩ := List.cons.inj (otherSplit.symm.trans (same.trans split))
    exact congrArg Scan.lexeme (otherScanned.symm.trans scanned)

end Salita.Lexer

namespace Salita
open Lexer

/-- The reading of a text stops at an obstacle: what stands in front of it can be read up to there,
also on its own, and the failure tells the obstacle, the only one there, and its place. -/
structure StopsAt (source : String) (e : LexError) (before lexeme after : List Char)
    (obstacle : Obstacle) : Prop where
  place : StandsAt source.toList e.span before lexeme after
  passed : ∃ tokens, Passes (lexeme ++ after) 0 before tokens
  readable : ∃ tokens, lex (String.ofList before) = .ok tokens
  stands : obstacle.Stands lexeme after
  only : ∀ (other : Obstacle) (piece rest : List Char), piece ++ rest = lexeme ++ after →
    other.Stands piece rest → other = obstacle ∧ piece = lexeme
  isCause : e.cause = obstacle.cause
  isLexeme : e.lexeme = String.ofList lexeme

theorem lex_of_stands {source : String} {before lexeme after : List Char} {tokens : List Token}
    {obstacle : Obstacle} (small : Text.byteCount source.toList < 0x100000000)
    (split : source.toList = before ++ (lexeme ++ after))
    (passes : Passes (lexeme ++ after) 0 before tokens) (stands : obstacle.Stands lexeme after) :
    ∃ e, lex source = .error e ∧ StopsAt source e before lexeme after obstacle := by
  obtain ⟨c, rest, first, solid, scanned⟩ := stands.scan_eq
  obtain ⟨less, left, reads⟩ := tokensFrom_of_passes passes (Nat.le_refl _) #[]
  have failed : (scan c rest).kind = .error obstacle.cause := by rw [scanned]
  rw [first] at left
  have stops := tokensFrom_of_error solid failed left (0 + Text.byteCount before)
    (#[] ++ (tokens.map recorded).toArray)
  rw [← first, ← reads, ← split, scanned, Nat.zero_add] at stops
  refine ⟨_, by rw [lex, stops], ?_⟩
  have bound : Text.byteCount before + Text.byteCount lexeme < 0x100000000 := by
    rw [split, Text.byteCount_append, Text.byteCount_append] at small
    omega
  have unchanged := Span.ofRange_eq (Nat.le_add_right (Text.byteCount before) _) bound
  constructor
  · simp only [Failure.toError, unchanged]
    exact ⟨split, rfl, by rw [Text.byteCount_append]⟩
  · exact ⟨tokens, passes⟩
  · exact ⟨_, lex_eq_ok_iff.2 ⟨tokens, by rw [String.toList_ofList]; exact passes.covers, rfl⟩⟩
  · exact stands
  · intro other piece rest same others
    exact stands.unique others same
  · rfl
  · rfl

/-- Reading a text fails only at an obstacle, and at every obstacle that it comes to. -/
theorem lex_obstacle {source : String} (small : Text.byteCount source.toList < 0x100000000) :
    (∀ e, lex source = .error e → ∃ before lexeme after obstacle,
      StopsAt source e before lexeme after obstacle) ∧
    ∀ before lexeme after tokens obstacle, source.toList = before ++ (lexeme ++ after) →
      Passes (lexeme ++ after) 0 before tokens → obstacle.Stands lexeme after →
      ∃ e, lex source = .error e ∧ StopsAt source e before lexeme after obstacle := by
  constructor
  · intro e failed
    obtain ⟨before, tokens, stop, split, passes, halts⟩ := exists_passes source.toList 0
    cases stop with
    | nil =>
        rw [List.append_nil] at split
        rw [← split] at passes
        rw [lex_eq_ok_iff.2 ⟨tokens, passes.covers, rfl⟩] at failed
        cases failed
    | cons c rest =>
        obtain ⟨solid, cause, unread⟩ := halts c rest rfl
        obtain ⟨obstacle, lexeme, after, joined, stands⟩ := exists_stands solid unread
        rw [← joined] at split passes
        obtain ⟨error, read, stops⟩ := lex_of_stands small split passes stands
        rw [read] at failed
        cases failed
        exact ⟨before, lexeme, after, obstacle, stops⟩
  · intro before lexeme after tokens obstacle split passes stands
    exact lex_of_stands small split passes stands

theorem lex_obstacle_escape :
    Text.byteCount "#\"\n\"a\\b\\\n\"".toList < 0x100000000 ∧
      ∃ e, lex "#\"\n\"a\\b\\\n\"" = .error e ∧ e.span = ⟨3, 7⟩ ∧
        StopsAt "#\"\n\"a\\b\\\n\"" e "#\"\n".toList "\"a\\b".toList "\\\n\"".toList .unclosed := by
  have small : Text.byteCount "#\"\n\"a\\b\\\n\"".toList < 0x100000000 := by decide
  have comment : Passes "\"a\\b\\\n\"".toList 0 "#\"\n".toList [] :=
    @Passes.comment _ 0 ['"'] ['\n'] [] (by decide) (fun c first => (Option.some.inj first).symm)
      (.space rfl .nil)
  have items : Items ['a', '\\', 'b'] := .plain (by decide) (.escape (by decide) .nil)
  have stands : Obstacle.unclosed.Stands "\"a\\b".toList "\\\n\"".toList :=
    ⟨_, rfl, items, .inr (.inr ⟨_, rfl⟩)⟩
  obtain ⟨e, failed, stops⟩ := (lex_obstacle small).2 _ _ _ _ _ rfl comment stands
  refine ⟨small, e, failed, ?_, stops⟩
  have start := stops.place.start
  have stop := stops.place.stop
  calc e.span = ⟨e.span.start, e.span.stop⟩ := rfl
    _ = ⟨3, 7⟩ := by rw [start, stop]; rfl

end Salita
