import Salita.Report.Basic
import Salita.Source.Lines
import Salita.Token.Basic

namespace Salita

inductive Expected where
  | statement
  | expression
  | identifier
  | assignmentOrCall
  | keyword (word : Keyword)
  | symbol (mark : Symbol)
deriving DecidableEq, Repr

def Expected.text : Expected → String
  | .statement => "a statement"
  | .expression => "an expression"
  | .identifier => "an identifier"
  | .assignmentOrCall => "`=`, a compound assignment or `(`"
  | .keyword word => "`" ++ word.text ++ "`"
  | .symbol mark => "`" ++ mark.text ++ "`"

/-- The first token that no rule allows, with what was expected there. When the tokens have ended,
`unclosed` is the innermost brace that is still open. -/
structure SyntaxFailure where
  found : Token
  expected : Expected
  unclosed : Option Span := none
deriving DecidableEq

namespace SyntaxFailure

/-- The failure inside a block that starts with the brace at `brace`. An inner open block stays
recorded. -/
def within (brace : Span) (failure : SyntaxFailure) : SyntaxFailure :=
  if failure.found.kind = .eof then
    { failure with unclosed := some (failure.unclosed.getD brace) }
  else failure

end SyntaxFailure

inductive ParseCause where
  | offendingToken (lexeme : String) (location : Location)
  | unexpectedEnd
deriving DecidableEq, Repr

structure ParseError where
  cause : ParseCause
  span : Span
  expected : Expected
  unclosed : Option Span
deriving DecidableEq, Repr

def SyntaxFailure.toError (failure : SyntaxFailure) (source : String) : ParseError :=
  let ⟨kind, span⟩ := failure.found
  let text := source.toList
  { cause :=
      if kind = .eof then .unexpectedEnd
      else .offendingToken
        (((Text.slice? text span.start span.stop).map String.ofList).getD kind.lexeme)
        ((Lines.ofText text).locate span)
    span := span
    expected := failure.expected
    unclosed := failure.unclosed }

namespace ParseError

def code (e : ParseError) : Code :=
  match e.cause with
  | .offendingToken .. => .offendingToken
  | .unexpectedEnd => .unexpectedEnd

def headline (e : ParseError) : String :=
  match e.cause with
  | .offendingToken lexeme location =>
      "(SyntaxError) : Line " ++ location.line.repr ++ ": Column " ++ location.column.repr
        ++ ": offending token \"" ++ lexeme ++ "\", no matching grammar rule"
  | .unexpectedEnd => "(SyntaxError) : Reached unexpected end of input"

def message (e : ParseError) : String :=
  match e.cause with
  | .offendingToken _ location => e.headline ++ "\n    in \"" ++ location.lineText ++ "\""
  | .unexpectedEnd => e.headline

def report (e : ParseError) : Report :=
  let report := ({ code := e.code, message := e.headline } : Report).withLabel e.span
    ("expected " ++ e.expected.text)
  match e.unclosed with
  | some brace => report.withSecondary brace "this block is never closed"
  | none => report

end ParseError

end Salita
