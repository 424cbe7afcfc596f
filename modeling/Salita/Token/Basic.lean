import Salita.Number.Layout
import Salita.Source.Span
import Salita.Text.Quoted

namespace Salita

inductive Keyword where
  | kapag
  | ngunit
  | kundiman
  | hanggat
  | bawat
  | sa
  | lumisan
  | ilimbag
  | totoo
  | huwad
  | at
  | o
  | hindi
deriving DecidableEq, Repr

namespace Keyword

def text : Keyword → String
  | .kapag => "kapag"
  | .ngunit => "ngunit"
  | .kundiman => "kundiman"
  | .hanggat => "hanggat"
  | .bawat => "bawat"
  | .sa => "sa"
  | .lumisan => "lumisan"
  | .ilimbag => "ilimbag"
  | .totoo => "Totoo"
  | .huwad => "Huwad"
  | .at => "at"
  | .o => "o"
  | .hindi => "hindi"

def ofText? : String → Option Keyword
  | "kapag" => some .kapag
  | "ngunit" => some .ngunit
  | "kundiman" => some .kundiman
  | "hanggat" => some .hanggat
  | "bawat" => some .bawat
  | "sa" => some .sa
  | "lumisan" => some .lumisan
  | "ilimbag" => some .ilimbag
  | "Totoo" => some .totoo
  | "Huwad" => some .huwad
  | "at" => some .at
  | "o" => some .o
  | "hindi" => some .hindi
  | _ => none

end Keyword

inductive Symbol where
  | leftParen
  | rightParen
  | leftBracket
  | rightBracket
  | leftBrace
  | rightBrace
  | comma
  | colon
  | semicolon
  | plus
  | minus
  | star
  | slash
  | slashSlash
  | starStar
  | percent
  | equalEqual
  | notEqual
  | less
  | lessEqual
  | greater
  | greaterEqual
  | equal
  | plusEqual
  | minusEqual
  | starEqual
  | slashEqual
  | slashSlashEqual
  | starStarEqual
  | percentEqual
deriving DecidableEq, Repr

def Symbol.text : Symbol → String
  | .leftParen => "("
  | .rightParen => ")"
  | .leftBracket => "["
  | .rightBracket => "]"
  | .leftBrace => "\x7b"
  | .rightBrace => "\x7d"
  | .comma => ","
  | .colon => ":"
  | .semicolon => ";"
  | .plus => "+"
  | .minus => "-"
  | .star => "*"
  | .slash => "/"
  | .slashSlash => "//"
  | .starStar => "**"
  | .percent => "%"
  | .equalEqual => "=="
  | .notEqual => "!="
  | .less => "<"
  | .lessEqual => "<="
  | .greater => ">"
  | .greaterEqual => ">="
  | .equal => "="
  | .plusEqual => "+="
  | .minusEqual => "-="
  | .starEqual => "*="
  | .slashEqual => "/="
  | .slashSlashEqual => "//="
  | .starStarEqual => "**="
  | .percentEqual => "%="

inductive TokenKind where
  | int (value : Int64)
  | float (value : Float)
  | str (value : String)
  | ident (name : String)
  | keyword (word : Keyword)
  | symbol (mark : Symbol)
  | eof
deriving DecidableEq

instance : Inhabited TokenKind := ⟨.eof⟩

structure Token where
  kind : TokenKind
  span : Span
deriving DecidableEq, Inhabited

namespace TokenKind

def floatLayout : Decimal.Layout :=
  { Decimal.Layout.listing with positional := none, wholeSuffix := "" }

def lexeme : TokenKind → String
  | .int value => value.toInt.repr
  | .float value => floatLayout.write value
  | .str value => value
  | .ident name => name
  | .keyword word => word.text
  | .symbol mark => mark.text
  | .eof => ""

def className : TokenKind → String
  | .int _ => "integer"
  | .float _ => "float"
  | .str _ => "string"
  | .ident _ => "identifier"
  | .keyword _ => "keyword"
  | .symbol _ => "symbol"
  | .eof => "end of file"

def listing : TokenKind → String
  | .int value => "Int(" ++ value.toInt.repr ++ ")"
  | .float value => "Float(" ++ floatLayout.write value ++ ")"
  | .str value => "Str(" ++ Text.quoted value ++ ")"
  | .ident name => "Ident(" ++ name ++ ")"
  | .eof => "Eof"
  | fixed => Text.quoted fixed.lexeme

def sameKind : TokenKind → TokenKind → Bool
  | .int _, .int _ | .float _, .float _ | .str _, .str _ | .ident _, .ident _ => true
  | a, b => a == b

end TokenKind

end Salita
