import Salita.Token.Lexer

namespace Salita.Lexer

inductive Items : List Char → Prop
  | nil : Items []
  | plain {c : Char} {rest : List Char} (ordinary : c ≠ '"' ∧ c ≠ '\\') (more : Items rest) :
      Items (c :: rest)
  | escape {c : Char} {rest : List Char} (inLine : c ≠ '\n') (more : Items rest) :
      Items ('\\' :: c :: rest)

def IsDigits (text : List Char) : Prop := text ≠ [] ∧ ∀ c ∈ text, c.isDigit = true

def IsPointed (text : List Char) : Prop :=
  ∃ whole fraction, text = whole ++ '.' :: fraction ∧ (∀ c ∈ whole, c.isDigit = true) ∧
    (∀ c ∈ fraction, c.isDigit = true) ∧ (whole ≠ [] ∨ fraction ≠ [])

def IsQuoted (text : List Char) : Prop := ∃ items, Items items ∧ text = '"' :: (items ++ ['"'])

def IsName (text : List Char) : Prop :=
  ∃ c rest, text = c :: rest ∧ isNameStart c = true ∧ ∀ d ∈ rest, isNamePart d = true

inductive Lexeme : List Char → Prop
  | keyword (word : Keyword) : Lexeme word.text.toList
  | symbol (mark : Symbol) : Lexeme mark.text.toList
  | digits {text : List Char} (run : IsDigits text) : Lexeme text
  | pointed {text : List Char} (number : IsPointed text) : Lexeme text
  | quoted {text : List Char} (string : IsQuoted text) : Lexeme text
  | name {text : List Char} (name : IsName text) : Lexeme text

def Longest (lexeme text : List Char) : Prop :=
  ∀ other, other <+: text → Lexeme other → other.length ≤ lexeme.length

inductive Denotes : List Char → TokenKind → Prop
  | keyword (word : Keyword) : Denotes word.text.toList (.keyword word)
  | symbol (mark : Symbol) : Denotes mark.text.toList (.symbol mark)
  | int {text : List Char} {value : Int64} (run : IsDigits text)
      (exact : value.toInt = Decimal.valueOf text) : Denotes text (.int value)
  | float {text : List Char} {value : Float} (number : IsPointed text)
      (nearest : Decimal.readFloat? text = some value) : Denotes text (.float value)
  | str {items : List Char} (valid : Items items) :
      Denotes ('"' :: (items ++ ['"'])) (.str (String.ofList (unescape items)))
  | ident {text : List Char} (name : IsName text)
      (free : Keyword.ofText? (String.ofList text) = none) :
      Denotes text (.ident (String.ofList text))

theorem Denotes.lexeme {text : List Char} {kind : TokenKind} (denotes : Denotes text kind) :
    Lexeme text := by
  cases denotes with
  | keyword word => exact .keyword word
  | symbol mark => exact .symbol mark
  | int run exact => exact .digits run
  | float number nearest => exact .pointed number
  | str valid => exact .quoted ⟨_, valid, rfl⟩
  | ident name free => exact .name name

theorem Denotes.ne_eof {text : List Char} {kind : TokenKind} (denotes : Denotes text kind) :
    kind ≠ .eof := by
  cases denotes <;> simp

theorem isDigit_of_isNameStart {c : Char} (start : isNameStart c = true) : c.isDigit = false := by
  by_cases underscore : c = '_'
  · subst underscore
    rfl
  · delta isNameStart Char.isAlpha Char.isUpper Char.isLower at start
    simp only [Bool.or_eq_true, Bool.and_eq_true, decide_eq_true_eq, beq_iff_eq, underscore,
      or_false] at start
    simp only [Char.isDigit, Bool.and_eq_false_iff, decide_eq_false_iff_not]
    grind

theorem not_isNameStart_of_isDigit {c : Char} (digit : c.isDigit = true) :
    ¬ isNameStart c = true := by
  intro start
  rw [isDigit_of_isNameStart start] at digit
  cases digit

theorem isNamePart_of_isNameStart {c : Char} (start : isNameStart c = true) :
    isNamePart c = true := by
  simp only [isNameStart, isNamePart, Char.isAlphanum, Bool.or_eq_true] at start ⊢
  rcases start with letter | underscore
  · exact .inl (.inl letter)
  · exact .inr underscore

theorem isName_text (word : Keyword) : IsName word.text.toList := by
  cases word <;> exact ⟨_, _, rfl, rfl, List.all_eq_true.1 rfl⟩

theorem IsName.isNamePart {text : List Char} (name : IsName text) :
    ∀ c ∈ text, isNamePart c = true := by
  obtain ⟨c, rest, rfl, start, more⟩ := name
  intro d member
  cases member with
  | head => exact isNamePart_of_isNameStart start
  | tail _ later => exact more d later

inductive Head where
  | name
  | digit
  | point
  | quote
  | mark
deriving DecidableEq

def headOf (c : Char) : Head :=
  if isNameStart c then .name
  else if c.isDigit then .digit
  else if c = '.' then .point
  else if c = '"' then .quote
  else .mark

theorem headOf_name {c : Char} (start : isNameStart c = true) : headOf c = .name := if_pos start

theorem headOf_digit {c : Char} (digit : c.isDigit = true) : headOf c = .digit := by
  rw [headOf, if_neg (not_isNameStart_of_isDigit digit), if_pos digit]

theorem headOf_symbol {mark : Symbol} {c : Char} {rest : List Char}
    (spelled : mark.text.toList = c :: rest) : headOf c = .mark := by
  cases mark <;> cases spelled <;> rfl

def Head.Matches : Head → List Char → Prop
  | .name, text => IsName text
  | .digit, text => IsDigits text ∨ IsPointed text
  | .point, text => IsPointed text
  | .quote, text => IsQuoted text
  | .mark, text => ∃ mark : Symbol, mark.text.toList = text

theorem IsName.head {c : Char} {rest : List Char} (name : IsName (c :: rest)) :
    headOf c = .name := by
  obtain ⟨d, tail, split, start, -⟩ := name
  rw [(List.cons.inj split).1]
  exact headOf_name start

theorem IsPointed.head {c : Char} {rest : List Char} (number : IsPointed (c :: rest)) :
    headOf c = .digit ∨ headOf c = .point := by
  obtain ⟨whole, fraction, split, digits, -, -⟩ := number
  cases whole with
  | nil =>
      rw [(List.cons.inj split).1]
      exact .inr rfl
  | cons d whole =>
      rw [(List.cons.inj split).1]
      exact .inl (headOf_digit (digits d (by simp)))

theorem Lexeme.head_matches {c : Char} {rest : List Char} (lexeme : Lexeme (c :: rest)) :
    (headOf c).Matches (c :: rest) := by
  generalize split : c :: rest = text at lexeme ⊢
  cases lexeme with
  | keyword word =>
      have name := isName_text word
      rw [← split] at name ⊢
      rw [name.head]
      exact name
  | symbol mark =>
      rw [headOf_symbol split.symm]
      exact ⟨mark, rfl⟩
  | digits run =>
      subst split
      rw [headOf_digit (run.2 c (by simp))]
      exact .inl run
  | pointed number =>
      subst split
      rcases number.head with digit | point
      · rw [digit]
        exact .inr number
      · rw [point]
        exact number
  | quoted string =>
      obtain ⟨items, -, equal⟩ := id string
      rw [(List.cons.inj (split.trans equal)).1]
      exact string
  | name name =>
      subst split
      rw [name.head]
      exact name

theorem Lexeme.ne_nil {text : List Char} (lexeme : Lexeme text) : text ≠ [] := by
  cases lexeme with
  | keyword word => cases word <;> decide
  | symbol mark => cases mark <;> decide
  | digits run => exact run.1
  | pointed number =>
      obtain ⟨whole, fraction, rfl, -, -, -⟩ := number
      simp
  | quoted string =>
      obtain ⟨items, -, rfl⟩ := string
      simp
  | name name =>
      obtain ⟨c, rest, rfl, -, -⟩ := name
      simp

theorem Lexeme.head_matches_of_prefix {c : Char} {rest other : List Char} (lexeme : Lexeme other)
    (begins : other <+: c :: rest) : (headOf c).Matches other := by
  obtain ⟨tail, equal⟩ := begins
  cases other with
  | nil => exact absurd rfl lexeme.ne_nil
  | cons d other =>
      obtain rfl : d = c := (List.cons.inj equal).1
      exact lexeme.head_matches

theorem stringItems_plain {c : Char} (ordinary : c ≠ '"' ∧ c ≠ '\\') (rest : List Char) :
    stringItems (c :: rest) = (c :: (stringItems rest).1, (stringItems rest).2) := by
  rw [stringItems.eq_def]
  split <;> simp_all

theorem stringItems_escape {c : Char} (inLine : c ≠ '\n') (rest : List Char) :
    stringItems ('\\' :: c :: rest) =
      ('\\' :: c :: (stringItems rest).1, (stringItems rest).2) := by
  rw [stringItems, if_neg inLine]

theorem Items.stringItems_append {items : List Char} (valid : Items items) (rest : List Char) :
    stringItems (items ++ '"' :: rest) = (items, '"' :: rest) := by
  induction valid with
  | nil => rfl
  | plain ordinary more ih => rw [List.cons_append, stringItems_plain ordinary, ih]
  | escape inLine more ih =>
      rw [List.cons_append, List.cons_append, stringItems_escape inLine, ih]

theorem IsQuoted.eq_of_prefix {text longer : List Char} (first : IsQuoted text)
    (second : IsQuoted longer) (begins : text <+: longer) : text = longer := by
  obtain ⟨items, valid, rfl⟩ := first
  obtain ⟨others, othersValid, rfl⟩ := second
  obtain ⟨rest, equal⟩ := begins
  have behind : items ++ '"' :: rest = others ++ '"' :: [] := by simpa using equal
  have read := valid.stringItems_append rest
  rw [behind, othersValid.stringItems_append] at read
  rw [(Prod.mk.inj read).1]

theorem Lexeme.eq_of_prefix_quoted {text longer : List Char} (lexeme : Lexeme text)
    (string : IsQuoted longer) (begins : text <+: longer) : text = longer := by
  have quoted : IsQuoted text := by
    obtain ⟨items, -, rfl⟩ := id string
    exact lexeme.head_matches_of_prefix begins
  exact quoted.eq_of_prefix string begins

def isBreak (c : Char) : Bool := isSpace c || c == '#'

theorem isBreak_iff {c : Char} :
    isBreak c = true ↔ c = ' ' ∨ c = '\t' ∨ c = '\n' ∨ c = '\r' ∨ c = '\x0c' ∨ c = '#' := by
  simp [isBreak, isSpace, or_assoc]

theorem Lexeme.isQuoted_of_isBreak {text : List Char} {c : Char} (lexeme : Lexeme text)
    (member : c ∈ text) (breaks : isBreak c = true) : IsQuoted text := by
  have notName : isNamePart c = false := by
    obtain rfl | rfl | rfl | rfl | rfl | rfl := isBreak_iff.1 breaks <;> rfl
  have notDigit : c.isDigit = false := by
    obtain rfl | rfl | rfl | rfl | rfl | rfl := isBreak_iff.1 breaks <;> rfl
  have notPoint : c ≠ '.' := by
    intro point
    simp [point, isBreak, isSpace] at breaks
  cases lexeme with
  | keyword word =>
      have := (isName_text word).isNamePart c member
      simp [notName] at this
  | symbol mark =>
      have solid : mark.text.toList.all (!isBreak ·) = true := by cases mark <;> rfl
      have := List.all_eq_true.1 solid c member
      simp [breaks] at this
  | digits run =>
      have := run.2 c member
      simp [notDigit] at this
  | pointed number =>
      obtain ⟨whole, fraction, rfl, before, behind, -⟩ := number
      simp only [List.mem_append, List.mem_cons, notPoint, false_or] at member
      obtain inside | inside := member
      · simp [before c inside] at notDigit
      · simp [behind c inside] at notDigit
  | quoted string => exact string
  | name name =>
      have := name.isNamePart c member
      simp [notName] at this

/-- What is the longest token of a text remains so when a break follows the text. -/
theorem Longest.append_break {lexeme text rest : List Char} (longest : Longest lexeme text)
    (valid : Lexeme lexeme) (begins : lexeme <+: text)
    (breaks : ∀ c ∈ rest.head?, isBreak c = true) : Longest lexeme (text ++ rest) := by
  intro other otherBegins otherValid
  by_cases inside : other.length ≤ text.length
  · exact longest other
      (List.prefix_of_prefix_length_le otherBegins (List.prefix_append text rest) inside) otherValid
  · -- A longer one contains the break, so it is a string, and no string continues another lexeme.
    have beyond : text.length < other.length := Nat.lt_of_not_le inside
    have textBegins : text <+: other :=
      List.prefix_of_prefix_length_le (List.prefix_append text rest) otherBegins (by omega)
    obtain ⟨more, rfl⟩ := textBegins
    obtain ⟨c, more, rfl⟩ : ∃ c tail, more = c :: tail := by
      cases more with
      | nil => simp at beyond
      | cons c tail => exact ⟨c, tail, rfl⟩
    have moreBegins : c :: more <+: rest := (List.prefix_append_right_inj text).1 otherBegins
    have isBreak : isBreak c = true := by
      obtain ⟨tail, rfl⟩ := moreBegins
      exact breaks c rfl
    have string : IsQuoted (text ++ c :: more) := otherValid.isQuoted_of_isBreak (by simp) isBreak
    have same : lexeme = text ++ c :: more :=
      valid.eq_of_prefix_quoted string (begins.trans (List.prefix_append text (c :: more)))
    exact Nat.le_of_eq (congrArg List.length same.symm)

end Salita.Lexer
