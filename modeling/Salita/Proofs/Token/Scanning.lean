import Salita.Proofs.Number.Reading
import Salita.Proofs.Token.Lexeme

namespace Salita.Lexer

/-! ## Symbols -/

theorem symbolAt_text (mark : Symbol) : symbolAt mark.text.toList = some mark := by
  cases mark <;> rfl

theorem prefix_of_symbolAt {text : List Char} {mark : Symbol} (found : symbolAt text = some mark) :
    mark.text.toList <+: text := by
  unfold symbolAt at found
  split at found <;> cases found <;> exact ⟨_, rfl⟩

theorem not_prefix_of_symbolAt {text : List Char} (missing : symbolAt text = none) (mark : Symbol) :
    ¬ mark.text.toList <+: text := by
  rintro ⟨tail, rfl⟩
  unfold symbolAt at missing
  split at missing
  case h_31 => cases mark <;> solve_by_elim
  all_goals cases missing

theorem symbolAt_doubled {c : Char} (rest : List Char) (doubled : c = '*' ∨ c = '/') :
    ∃ longer, symbolAt (c :: c :: rest) = some longer ∧ 2 ≤ longer.text.length := by
  by_cases equal : ∃ tail, rest = '=' :: tail
  · obtain ⟨tail, rfl⟩ := equal
    obtain rfl | rfl := doubled <;> exact ⟨_, rfl, by decide⟩
  · have plain : ∀ tail, rest = '=' :: tail → False := fun tail split => equal ⟨tail, split⟩
    obtain rfl | rfl := doubled
    · refine ⟨.starStar, ?_, by decide⟩
      rw [symbolAt]
      exact plain
    · refine ⟨.slashSlash, ?_, by decide⟩
      rw [symbolAt]
      exact plain

theorem symbolAt_append (mark : Symbol) (rest : List Char) :
    ∃ longer, symbolAt (mark.text.toList ++ rest) = some longer ∧
      mark.text.length ≤ longer.text.length := by
  have single (short : mark.text.length = 1) :
      ∃ longer, symbolAt (mark.text.toList ++ rest) = some longer ∧
        mark.text.length ≤ longer.text.length := by
    cases found : symbolAt (mark.text.toList ++ rest) with
    | none => exact absurd (List.prefix_append _ _) (not_prefix_of_symbolAt found mark)
    | some longer =>
        refine ⟨longer, rfl, ?_⟩
        rw [short]
        cases longer <;> decide
  cases mark
  case starStar => exact symbolAt_doubled rest (.inl rfl)
  case slashSlash => exact symbolAt_doubled rest (.inr rfl)
  case equalEqual | notEqual | lessEqual | greaterEqual | plusEqual | minusEqual | starEqual |
      slashEqual | slashSlashEqual | starStarEqual | percentEqual =>
    exact ⟨_, rfl, Nat.le_refl _⟩
  all_goals exact single rfl

/-! ## Kinds -/

theorem ofText?_eq_some_iff {name : String} {word : Keyword} :
    Keyword.ofText? name = some word ↔ word.text = name := by
  constructor
  · unfold Keyword.ofText?
    split <;> intro found <;> cases found <;> rfl
  · rintro rfl
    cases word <;> rfl

theorem nameKind_eq (name : String) :
    nameKind name =
      match Keyword.ofText? name with
      | some word => .keyword word
      | none => .ident name := by
  unfold nameKind
  split
  case h_14 => simp only [Keyword.ofText?]
  all_goals rfl

theorem nameKind_text (word : Keyword) : nameKind word.text = .keyword word := by
  rw [nameKind_eq, ofText?_eq_some_iff.2 rfl]

theorem IsPointed.readFloat?_eq {text : List Char} (number : IsPointed text) :
    Decimal.readFloat? text = Decimal.readUnsigned? text := by
  obtain ⟨whole, fraction, rfl, before, -, -⟩ := number
  exact Decimal.readFloat?_pointed before

def Head.Denotes : Head → List Char → TokenKind → Prop
  | .name, text, kind => kind = nameKind (String.ofList text)
  | .digit, text, kind =>
      (IsDigits text ∧ ∃ value, Decimal.readWhole? text = some value ∧ kind = .int value) ∨
        (IsPointed text ∧ ∃ value, Decimal.readUnsigned? text = some value ∧ kind = .float value)
  | .point, text, kind => ∃ value, Decimal.readUnsigned? text = some value ∧ kind = .float value
  | .quote, text, kind =>
      ∃ items, text = '"' :: (items ++ ['"']) ∧ kind = .str (String.ofList (unescape items))
  | .mark, text, kind => ∃ mark : Symbol, mark.text.toList = text ∧ kind = .symbol mark

theorem Denotes.head_denotes {c : Char} {rest : List Char} {kind : TokenKind}
    (denotes : Denotes (c :: rest) kind) : (headOf c).Denotes (c :: rest) kind := by
  generalize split : c :: rest = text at denotes ⊢
  cases denotes with
  | keyword word =>
      have name := isName_text word
      rw [← split] at name
      rw [name.head]
      show TokenKind.keyword word = nameKind (String.ofList word.text.toList)
      rw [String.ofList_toList, nameKind_text]
  | symbol mark =>
      rw [headOf_symbol split.symm]
      exact ⟨mark, rfl, rfl⟩
  | int run exact =>
      have read := (Decimal.readWhole?_eq_some_iff run.1 run.2).2 exact
      subst split
      rw [headOf_digit (run.2 c (by simp))]
      exact .inl ⟨run, _, read, rfl⟩
  | float number nearest =>
      rw [number.readFloat?_eq] at nearest
      subst split
      rcases number.head with digit | point
      · rw [digit]
        exact .inr ⟨number, _, nearest, rfl⟩
      · rw [point]
        exact ⟨_, nearest, rfl⟩
  | @str items valid =>
      rw [(List.cons.inj split).1]
      exact ⟨items, rfl, rfl⟩
  | ident name free =>
      subst split
      rw [name.head]
      show TokenKind.ident _ = nameKind _
      rw [nameKind_eq, free]

theorem IsName.denotes_iff {text : List Char} {kind : TokenKind} (name : IsName text) :
    Denotes text kind ↔ kind = nameKind (String.ofList text) := by
  constructor
  · intro denotes
    obtain ⟨c, rest, rfl, -, -⟩ := id name
    have reads := denotes.head_denotes
    rw [name.head] at reads
    exact reads
  · intro equal
    subst equal
    rw [nameKind_eq]
    split
    case h_1 word found =>
      have spelled := congrArg String.toList (ofText?_eq_some_iff.1 found)
      rw [String.toList_ofList] at spelled
      exact spelled ▸ .keyword word
    case h_2 free => exact .ident name free

theorem IsDigits.not_isPointed {text : List Char} (run : IsDigits text) : ¬ IsPointed text := by
  intro number
  obtain ⟨whole, fraction, rfl, -, -, -⟩ := number
  exact absurd (run.2 '.' (by simp)) (by decide)

theorem IsDigits.denotes_iff {text : List Char} {kind : TokenKind} (run : IsDigits text) :
    Denotes text kind ↔ ∃ value, Decimal.readWhole? text = some value ∧ kind = .int value := by
  constructor
  · intro denotes
    obtain ⟨c, rest, rfl⟩ := List.exists_cons_of_ne_nil run.1
    have reads := denotes.head_denotes
    rw [headOf_digit (run.2 c (by simp))] at reads
    rcases reads with ⟨-, read⟩ | ⟨number, -⟩
    · exact read
    · exact absurd number run.not_isPointed
  · intro read
    obtain ⟨value, read, rfl⟩ := read
    exact .int run ((Decimal.readWhole?_eq_some_iff run.1 run.2).1 read)

theorem IsPointed.denotes_iff {text : List Char} {kind : TokenKind} (number : IsPointed text) :
    Denotes text kind ↔
      ∃ value, Decimal.readUnsigned? text = some value ∧ kind = .float value := by
  constructor
  · intro denotes
    obtain ⟨c, rest, rfl⟩ := List.exists_cons_of_ne_nil denotes.lexeme.ne_nil
    have reads := denotes.head_denotes
    rcases number.head with digit | point
    · rw [digit] at reads
      rcases reads with ⟨run, -⟩ | ⟨-, read⟩
      · exact absurd number run.not_isPointed
      · exact read
    · rw [point] at reads
      exact reads
  · intro read
    obtain ⟨value, read, rfl⟩ := read
    exact .float number (number.readFloat?_eq.trans read)

theorem Items.denotes_iff {items : List Char} {kind : TokenKind} (valid : Items items) :
    Denotes ('"' :: (items ++ ['"'])) kind ↔ kind = .str (String.ofList (unescape items)) := by
  constructor
  · intro denotes
    obtain ⟨others, same, equal⟩ := denotes.head_denotes
    rw [equal, List.append_cancel_right (List.cons.inj same).2]
  · intro equal
    subst equal
    exact .str valid

theorem symbol_denotes_iff {mark : Symbol} {kind : TokenKind} :
    Denotes mark.text.toList kind ↔ kind = .symbol mark := by
  constructor
  · intro denotes
    obtain ⟨c, rest, split⟩ := List.exists_cons_of_ne_nil denotes.lexeme.ne_nil
    rw [split] at denotes
    have reads := denotes.head_denotes
    rw [headOf_symbol split] at reads
    obtain ⟨other, same, equal⟩ := reads
    have found := symbolAt_text other
    rw [same, ← split, symbolAt_text mark] at found
    rw [equal, Option.some.inj found]
  · intro equal
    subst equal
    exact .symbol mark

/-! ## Finding the longest lexeme -/

/-- A scan of a text found the longest of its beginnings that a rule matches, if there is one, and
it is a token exactly if what was found denotes one. -/
structure Finds (text : List Char) (found : Scan) : Prop where
  split : found.lexeme ++ found.rest = text
  longest : ∀ other, other <+: text → Lexeme other →
    Lexeme found.lexeme ∧ other.length ≤ found.lexeme.length
  kind : ∀ kind, found.kind = .ok kind ↔ Denotes found.lexeme kind

theorem length_le_takeWhile {p : Char → Bool} {other text : List Char} (begins : other <+: text)
    (all : ∀ c ∈ other, p c = true) : other.length ≤ (text.takeWhile p).length := by
  obtain ⟨rest, rfl⟩ := begins
  rw [List.takeWhile_append_of_pos all, List.length_append]
  omega

theorem mem_takeWhile {p : Char → Bool} {text : List Char} {c : Char}
    (member : c ∈ text.takeWhile p) : p c = true :=
  List.all_eq_true.1 List.all_takeWhile c member

theorem Finds.of_none {text : List Char} {found : Scan} {cause : LexCause}
    (split : found.lexeme ++ found.rest = text) (failed : found.kind = .error cause)
    (none : ∀ other, other <+: text → ¬ Lexeme other) : Finds text found := by
  constructor
  · exact split
  · intro other begins lexeme
    exact absurd lexeme (none other begins)
  · intro kind
    rw [failed]
    constructor
    · intro found
      cases found
    · intro denotes
      exact absurd denotes.lexeme (none _ ⟨found.rest, split⟩)

theorem finds_name {c : Char} {rest : List Char} (start : isNameStart c = true) :
    Finds (c :: rest)
      ⟨.ok (nameKind (String.ofList ((c :: rest).takeWhile isNamePart))),
        (c :: rest).takeWhile isNamePart, (c :: rest).dropWhile isNamePart⟩ := by
  have name : IsName ((c :: rest).takeWhile isNamePart) := by
    rw [List.takeWhile_cons_of_pos (isNamePart_of_isNameStart start)]
    exact ⟨c, _, rfl, start, fun d member => mem_takeWhile member⟩
  constructor
  · exact List.takeWhile_append_dropWhile
  · intro other begins lexeme
    have otherName : IsName other := by
      have rule := lexeme.head_matches_of_prefix begins
      rwa [headOf_name start] at rule
    exact ⟨.name name, length_le_takeWhile begins otherName.isNamePart⟩
  · intro kind
    rw [name.denotes_iff, Except.ok.injEq]
    exact eq_comm

theorem takeWhile_run {p : Char → Bool} {run after : List Char} (inside : ∀ c ∈ run, p c = true)
    (ends : ∀ c ∈ after.head?, p c = false) :
    (run ++ after).takeWhile p = run ∧ (run ++ after).dropWhile p = after := by
  rw [List.takeWhile_append_of_pos inside, List.dropWhile_append_of_pos inside]
  cases after with
  | nil => simp
  | cons c after =>
      have stops := ends c rfl
      simp [stops]

theorem exists_fraction_of_pointed {text other : List Char} (begins : other <+: text)
    (number : IsPointed other) :
    ∃ fraction tail, other = text.takeWhile Char.isDigit ++ '.' :: fraction ∧
      text.dropWhile Char.isDigit = '.' :: (fraction ++ tail) ∧
      ∀ c ∈ fraction, c.isDigit = true := by
  obtain ⟨whole, fraction, rfl, before, behind, -⟩ := number
  obtain ⟨tail, rfl⟩ := begins
  rw [List.append_assoc, List.cons_append]
  obtain ⟨taken, dropped⟩ := @takeWhile_run _ whole ('.' :: (fraction ++ tail)) before (by simp)
  exact ⟨fraction, tail, by rw [taken], dropped, behind⟩

def StartsNumber (c : Char) (rest : List Char) : Prop :=
  c.isDigit = true ∨ (c = '.' ∧ ∃ d ∈ rest.head?, d.isDigit = true)

theorem Lexeme.isNumber {c : Char} {rest other : List Char} (lexeme : Lexeme other)
    (starts : StartsNumber c rest) (begins : other <+: c :: rest) :
    IsDigits other ∨ IsPointed other := by
  have rule := lexeme.head_matches_of_prefix begins
  rcases starts with digit | ⟨point, -⟩
  · rwa [headOf_digit digit] at rule
  · rw [point] at rule
    exact .inr rule

theorem isPointed_scanned {c : Char} {rest behind : List Char} (starts : StartsNumber c rest)
    (pointed : (c :: rest).dropWhile Char.isDigit = '.' :: behind) :
    IsPointed ((c :: rest).takeWhile Char.isDigit ++ '.' :: behind.takeWhile Char.isDigit) := by
  refine ⟨_, _, rfl, fun d member => mem_takeWhile member, fun d member => mem_takeWhile member, ?_⟩
  rcases starts with digit | ⟨rfl, d, next, digit⟩
  · rw [List.takeWhile_cons_of_pos digit]
    exact .inl (by simp)
  · obtain ⟨tail, rfl⟩ := List.head?_eq_some_iff.1 next
    obtain rfl : d :: tail = behind := (List.cons.inj pointed).2
    rw [List.takeWhile_cons_of_pos digit]
    exact .inr (by simp)

theorem isDigits_scanned {c : Char} {rest : List Char} (starts : StartsNumber c rest)
    (unpointed : ∀ behind, (c :: rest).dropWhile Char.isDigit ≠ '.' :: behind) :
    IsDigits ((c :: rest).takeWhile Char.isDigit) := by
  refine ⟨?_, fun d member => mem_takeWhile member⟩
  rcases starts with digit | ⟨rfl, -⟩
  · rw [List.takeWhile_cons_of_pos digit]
    simp
  · exact absurd rfl (unpointed rest)

theorem finds_scanNumber {c : Char} {rest : List Char} (starts : StartsNumber c rest) :
    Finds (c :: rest) (scanNumber (c :: rest)) := by
  have joined : (c :: rest).takeWhile Char.isDigit ++ (c :: rest).dropWhile Char.isDigit =
      c :: rest := List.takeWhile_append_dropWhile
  unfold scanNumber
  dsimp only
  split
  case h_1 behind pointed =>
    have isPointed := isPointed_scanned starts pointed
    constructor
    · rw [List.append_assoc, List.cons_append, List.takeWhile_append_dropWhile, ← pointed, joined]
    · intro other begins lexeme
      refine ⟨.pointed isPointed, ?_⟩
      rw [List.length_append, List.length_cons]
      rcases lexeme.isNumber starts begins with run | number
      · have shorter := length_le_takeWhile begins run.2
        omega
      · obtain ⟨fraction, tail, rfl, dropped, digits⟩ := exists_fraction_of_pointed begins number
        rw [dropped] at pointed
        have shorter := length_le_takeWhile ⟨tail, (List.cons.inj pointed).2⟩ digits
        rw [List.length_append, List.length_cons]
        omega
    · intro kind
      rw [isPointed.denotes_iff, floatKind]
      cases Decimal.readUnsigned?
          ((c :: rest).takeWhile Char.isDigit ++ '.' :: behind.takeWhile Char.isDigit) with
      | none => simp
      | some value => simp [eq_comm]
  case h_2 unpointed =>
    have isDigits := isDigits_scanned starts unpointed
    constructor
    · exact joined
    · intro other begins lexeme
      refine ⟨.digits isDigits, ?_⟩
      rcases lexeme.isNumber starts begins with run | number
      · exact length_le_takeWhile begins run.2
      · obtain ⟨fraction, tail, -, dropped, -⟩ := exists_fraction_of_pointed begins number
        exact absurd dropped (unpointed _)
    · intro kind
      rw [isDigits.denotes_iff]
      cases Decimal.readWhole? ((c :: rest).takeWhile Char.isDigit) with
      | none => simp
      | some value => simp [eq_comm]

theorem stringItems_sound (text : List Char) :
    Items (stringItems text).1 ∧ (stringItems text).1 ++ (stringItems text).2 = text := by
  fun_induction stringItems text with
  | case1 => exact ⟨.nil, rfl⟩
  | case2 rest => exact ⟨.nil, rfl⟩
  | case3 => exact ⟨.nil, rfl⟩
  | case4 rest => exact ⟨.nil, rfl⟩
  | case5 c rest inLine items more read ih =>
      rw [read] at ih
      exact ⟨.escape inLine ih.1, by simp [← ih.2]⟩
  | case6 c rest notQuote notLast notEscape items more read ih =>
      rw [read] at ih
      refine ⟨.plain ⟨?_, ?_⟩ ih.1, by simp [← ih.2]⟩
      · simpa using notQuote
      · intro backslash
        cases rest with
        | nil => exact notLast backslash rfl
        | cons d rest => exact notEscape d rest backslash rfl

theorem finds_scanString (behind : List Char) : Finds ('"' :: behind) (scanString behind) := by
  obtain ⟨valid, joined⟩ := stringItems_sound behind
  -- A string at the start of the text consists of the very items that were scanned.
  have others {other : List Char} (begins : other <+: '"' :: behind) (lexeme : Lexeme other) :
      ∃ rest, stringItems behind = ((stringItems behind).1, '"' :: rest) ∧
        other = '"' :: ((stringItems behind).1 ++ ['"']) := by
    obtain ⟨items, itemsValid, rfl⟩ := lexeme.head_matches_of_prefix begins
    obtain ⟨rest, equal⟩ := begins
    have split : items ++ '"' :: rest = behind := by simpa using equal
    have read := itemsValid.stringItems_append rest
    rw [split] at read
    rw [read]
    exact ⟨rest, rfl, rfl⟩
  unfold scanString
  split
  case h_1 items rest read =>
    rw [read] at valid joined others
    constructor
    · simpa using joined
    · intro other begins lexeme
      obtain ⟨-, -, equal⟩ := others begins lexeme
      rw [equal]
      exact ⟨.quoted ⟨items, valid, rfl⟩, Nat.le_refl _⟩
    · intro kind
      rw [List.cons_append, valid.denotes_iff, Except.ok.injEq]
      exact eq_comm
  case h_2 items rest unclosed read =>
    rw [read] at valid joined others
    apply Finds.of_none (by simpa using joined) rfl
    intro other begins lexeme
    obtain ⟨after, closed, -⟩ := others begins lexeme
    exact unclosed after (Prod.mk.inj closed).2

theorem Lexeme.exists_symbol {c : Char} {rest other : List Char} (lexeme : Lexeme other)
    (begins : other <+: c :: rest) (notName : ¬ isNameStart c = true)
    (notNumber : ¬ StartsNumber c rest) (notQuote : c ≠ '"') :
    ∃ mark : Symbol, mark.text.toList = other := by
  have notDigit : ¬ c.isDigit = true := fun digit => notNumber (.inl digit)
  have rule := lexeme.head_matches_of_prefix begins
  rw [headOf, if_neg notName, if_neg notDigit, if_neg notQuote] at rule
  split at rule
  case isTrue point =>
    -- A number that starts with the point has a digit behind it.
    obtain ⟨whole, fraction, rfl, before, after, nonempty⟩ := rule
    obtain ⟨tail, equal⟩ := begins
    cases whole with
    | nil =>
        cases fraction with
        | nil => simp at nonempty
        | cons d fraction =>
            have next : d :: (fraction ++ tail) = rest := (List.cons.inj equal).2
            have first : d ∈ rest.head? := by
              rw [← next]
              rfl
            exact absurd (.inr ⟨point, d, first, after d (by simp)⟩) notNumber
    | cons d whole =>
        rw [← (List.cons.inj equal).1] at notDigit
        exact absurd (before d (by simp)) notDigit
  case isFalse => exact rule

theorem finds_scanSymbol {c : Char} {rest : List Char} (notName : ¬ isNameStart c = true)
    (notNumber : ¬ StartsNumber c rest) (notQuote : c ≠ '"') :
    Finds (c :: rest) (scanSymbol c rest) := by
  unfold scanSymbol
  split
  case h_1 mark found =>
    have begins := prefix_of_symbolAt found
    have taken : (c :: rest).take mark.text.length = mark.text.toList := by
      rw [← String.length_toList]
      exact (List.prefix_iff_eq_take.1 begins).symm
    simp only
    constructor
    · exact List.take_append_drop _ _
    · intro other otherBegins lexeme
      obtain ⟨otherMark, rfl⟩ := lexeme.exists_symbol otherBegins notName notNumber notQuote
      obtain ⟨tail, equal⟩ := otherBegins
      obtain ⟨longer, read, length⟩ := symbolAt_append otherMark tail
      rw [equal, found] at read
      rw [taken, String.length_toList, String.length_toList, Option.some.inj read]
      exact ⟨.symbol _, length⟩
    · intro kind
      rw [taken, symbol_denotes_iff, Except.ok.injEq]
      exact eq_comm
  case h_2 missing =>
    refine Finds.of_none (by rfl) rfl ?_
    intro other begins lexeme
    obtain ⟨mark, rfl⟩ := lexeme.exists_symbol begins notName notNumber notQuote
    exact not_prefix_of_symbolAt missing mark begins

theorem finds_scan (c : Char) (rest : List Char) : Finds (c :: rest) (scan c rest) := by
  have next : (rest.head?.map Char.isDigit).getD false = true ↔
      ∃ d ∈ rest.head?, d.isDigit = true := by
    cases rest <;> simp
  unfold scan
  simp only [next]
  split
  case isTrue start => exact finds_name start
  case isFalse notName =>
    split
    case isTrue digit => exact finds_scanNumber (.inl digit)
    case isFalse notDigit =>
      split
      case isTrue point => exact finds_scanNumber (.inr point)
      case isFalse notPoint =>
        split
        case isTrue quote =>
          subst quote
          exact finds_scanString rest
        case isFalse notQuote =>
          exact finds_scanSymbol notName (fun starts => starts.elim notDigit notPoint) notQuote

/-! ## One token -/

theorem scan_sound {c : Char} {rest : List Char} {kind : TokenKind}
    (found : (scan c rest).kind = .ok kind) :
    Denotes (scan c rest).lexeme kind ∧ Longest (scan c rest).lexeme (c :: rest) := by
  have finds := finds_scan c rest
  refine ⟨(finds.kind kind).1 found, ?_⟩
  intro other begins lexeme
  exact (finds.longest other begins lexeme).2

theorem scan_eq_of_longest {c : Char} {rest lexeme after : List Char} {kind : TokenKind}
    (denotes : Denotes lexeme kind) (split : lexeme ++ after = c :: rest)
    (longest : Longest lexeme (c :: rest)) :
    (scan c rest).kind = .ok kind ∧ (scan c rest).lexeme = lexeme ∧ (scan c rest).rest = after := by
  have finds := finds_scan c rest
  have begins : lexeme <+: c :: rest := ⟨after, split⟩
  have foundBegins : (scan c rest).lexeme <+: c :: rest := ⟨_, finds.split⟩
  obtain ⟨foundValid, atLeast⟩ := finds.longest lexeme begins denotes.lexeme
  have atMost := longest _ foundBegins foundValid
  have same : (scan c rest).lexeme = lexeme :=
    (List.prefix_of_prefix_length_le foundBegins begins atMost).eq_of_length_le atLeast
  refine ⟨(finds.kind kind).2 (same ▸ denotes), same, ?_⟩
  have joined := finds.split
  rw [same, ← split] at joined
  exact List.append_cancel_left joined

end Salita.Lexer
