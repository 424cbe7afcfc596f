import Salita.Number.Reading
import Salita.Token.Basic
import Salita.Token.Error

namespace Salita.Lexer

def isSpace (c : Char) : Bool :=
  c == ' ' || c == '\t' || c == '\n' || c == '\r' || c == '\x0c'

def isNameStart (c : Char) : Bool := c.isAlpha || c == '_'

def isNamePart (c : Char) : Bool := c.isAlphanum || c == '_'

/-- The items of a string behind its opening quote: characters other than quotes and backslashes,
and backslashes with any character but a newline. The rest starts with the closing quote, unless
the string is not closed. -/
def stringItems : List Char → List Char × List Char
  | [] => ([], [])
  | '"' :: rest => ([], '"' :: rest)
  | ['\\'] => ([], ['\\'])
  | '\\' :: c :: rest =>
      if c = '\n' then ([], '\\' :: c :: rest)
      else
        let (items, rest) := stringItems rest
        ('\\' :: c :: items, rest)
  | c :: rest =>
      let (items, rest) := stringItems rest
      (c :: items, rest)

/-- The content that the items of a string denote: `\n`, `\t`, `\\` and `\"` are one character, and
any other backslash stands for itself. -/
def unescape : List Char → List Char
  | [] => []
  | '\\' :: 'n' :: rest => '\n' :: unescape rest
  | '\\' :: 't' :: rest => '\t' :: unescape rest
  | '\\' :: '\\' :: rest => '\\' :: unescape rest
  | '\\' :: '"' :: rest => '"' :: unescape rest
  | '\\' :: c :: rest => '\\' :: c :: unescape rest
  | c :: rest => c :: unescape rest

def symbolAt : List Char → Option Symbol
  | '*' :: '*' :: '=' :: _ => some .starStarEqual
  | '/' :: '/' :: '=' :: _ => some .slashSlashEqual
  | '*' :: '*' :: _ => some .starStar
  | '/' :: '/' :: _ => some .slashSlash
  | '=' :: '=' :: _ => some .equalEqual
  | '!' :: '=' :: _ => some .notEqual
  | '<' :: '=' :: _ => some .lessEqual
  | '>' :: '=' :: _ => some .greaterEqual
  | '+' :: '=' :: _ => some .plusEqual
  | '-' :: '=' :: _ => some .minusEqual
  | '*' :: '=' :: _ => some .starEqual
  | '/' :: '=' :: _ => some .slashEqual
  | '%' :: '=' :: _ => some .percentEqual
  | '(' :: _ => some .leftParen
  | ')' :: _ => some .rightParen
  | '[' :: _ => some .leftBracket
  | ']' :: _ => some .rightBracket
  | '\x7b' :: _ => some .leftBrace
  | '\x7d' :: _ => some .rightBrace
  | ',' :: _ => some .comma
  | ':' :: _ => some .colon
  | ';' :: _ => some .semicolon
  | '+' :: _ => some .plus
  | '-' :: _ => some .minus
  | '*' :: _ => some .star
  | '/' :: _ => some .slash
  | '%' :: _ => some .percent
  | '<' :: _ => some .less
  | '>' :: _ => some .greater
  | '=' :: _ => some .equal
  | _ => none

/-- What stands at the start of a text: a token, or a text that is none. `lexeme` is the text that
was read and `rest` what follows it. -/
structure Scan where
  kind : Except LexCause TokenKind
  lexeme : List Char
  rest : List Char

def nameKind : String → TokenKind
  | "kapag" => .keyword .kapag
  | "ngunit" => .keyword .ngunit
  | "kundiman" => .keyword .kundiman
  | "hanggat" => .keyword .hanggat
  | "bawat" => .keyword .bawat
  | "sa" => .keyword .sa
  | "lumisan" => .keyword .lumisan
  | "ilimbag" => .keyword .ilimbag
  | "Totoo" => .keyword .totoo
  | "Huwad" => .keyword .huwad
  | "at" => .keyword .at
  | "o" => .keyword .o
  | "hindi" => .keyword .hindi
  | name => .ident name

def floatKind (lexeme : List Char) : Except LexCause TokenKind :=
  match Decimal.readUnsigned? lexeme with
  | some value => .ok (.float value)
  | none => .error .unrecognized

def scanNumber (text : List Char) : Scan :=
  let whole := text.takeWhile Char.isDigit
  match text.dropWhile Char.isDigit with
  | '.' :: behind =>
      let lexeme := whole ++ '.' :: behind.takeWhile Char.isDigit
      ⟨floatKind lexeme, lexeme, behind.dropWhile Char.isDigit⟩
  | rest =>
      let kind := match Decimal.readWhole? whole with
        | some value => .ok (.int value)
        | none => .error .integerTooLarge
      ⟨kind, whole, rest⟩

def scanString (behind : List Char) : Scan :=
  match stringItems behind with
  | (items, '"' :: rest) =>
      ⟨.ok (.str (String.ofList (unescape items))), '"' :: items ++ ['"'], rest⟩
  | (items, rest) => ⟨.error .unrecognized, '"' :: items, rest⟩

def scanSymbol (c : Char) (rest : List Char) : Scan :=
  match symbolAt (c :: rest) with
  | some symbol =>
      let length := symbol.text.length
      ⟨.ok (.symbol symbol), (c :: rest).take length, (c :: rest).drop length⟩
  | none => ⟨.error .unrecognized, [c], rest⟩

def scan (c : Char) (rest : List Char) : Scan :=
  if isNameStart c then
    let name := (c :: rest).takeWhile isNamePart
    ⟨.ok (nameKind (String.ofList name)), name, (c :: rest).dropWhile isNamePart⟩
  else if c.isDigit then scanNumber (c :: rest)
  else if c = '.' ∧ (rest.head?.map Char.isDigit).getD false then scanNumber (c :: rest)
  else if c = '"' then scanString rest
  else scanSymbol c rest

structure Failure where
  cause : LexCause
  offset : Nat
  lexeme : List Char

/-- The tokens of a text that starts at a byte offset. `fuel` is at least the number of
characters. -/
def tokensFrom : Nat → Nat → List Char → Array Token → Except Failure (Array Token)
  | 0, offset, _, tokens => .ok (tokens.push ⟨.eof, .ofRange offset offset⟩)
  | _ + 1, offset, [], tokens => .ok (tokens.push ⟨.eof, .ofRange offset offset⟩)
  | fuel + 1, offset, c :: rest, tokens =>
      if isSpace c then tokensFrom fuel (offset + c.utf8Size) rest tokens
      else if c = '#' then
        let comment := rest.takeWhile (· ≠ '\n')
        tokensFrom fuel (offset + c.utf8Size + Text.byteCount comment)
          (rest.dropWhile (· ≠ '\n')) tokens
      else
        let found := scan c rest
        let stop := offset + Text.byteCount found.lexeme
        match found.kind with
        | .ok kind => tokensFrom fuel stop found.rest (tokens.push ⟨kind, .ofRange offset stop⟩)
        | .error cause => .error ⟨cause, offset, found.lexeme⟩

def Failure.toError (failure : Failure) (text : List Char) : LexError :=
  let span := Span.ofRange failure.offset (failure.offset + Text.byteCount failure.lexeme)
  { cause := failure.cause
    span := span
    lexeme := String.ofList failure.lexeme
    location := (Lines.ofText text).locate span }

end Salita.Lexer

namespace Salita

def lex (source : String) : Except LexError (Array Token) :=
  let text := source.toList
  match Lexer.tokensFrom text.length 0 text #[] with
  | .ok tokens => .ok tokens
  | .error failure => .error (failure.toError text)

end Salita
