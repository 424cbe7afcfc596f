import Salita.Report.Basic
import Salita.Source.Lines

namespace Salita

inductive LexCause where
  | unrecognized
  | integerTooLarge
deriving DecidableEq, Repr

structure LexError where
  cause : LexCause
  span : Span
  lexeme : String
  location : Location
deriving DecidableEq, Repr

namespace LexCause

def text : LexCause → String
  | .unrecognized => "Unrecognized token"
  | .integerTooLarge => "Integer literal too large"

def label : LexCause → String
  | .unrecognized => "unrecognized token"
  | .integerTooLarge => "does not fit in a 64-bit integer"

end LexCause

namespace LexError

def headline (e : LexError) : String :=
  "(LexicalError) : Line " ++ e.location.line.repr ++ ": Column " ++ e.location.column.repr ++ ": "
    ++ e.cause.text ++ " \"" ++ e.lexeme ++ "\""

def message (e : LexError) : String :=
  e.headline ++ "\n    in \"" ++ e.location.lineText ++ "\""

def report (e : LexError) : Report :=
  ({ code := .unreadableText, message := e.headline } : Report).withLabel e.span e.cause.label

end LexError

end Salita
