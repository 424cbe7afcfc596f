import Salita.Source.Span

namespace Salita

inductive Code where
  | unreadableText
  | offendingToken
  | unexpectedEnd
  | undefinedName
  | typeMismatch
  | arithmetic
  | index
  | missingFile
  | inputOutput
deriving DecidableEq, Repr

namespace Code

def all : List Code :=
  [.unreadableText, .offendingToken, .unexpectedEnd, .undefinedName, .typeMismatch, .arithmetic,
    .index, .missingFile, .inputOutput]

def text : Code → String
  | .unreadableText => "E0001"
  | .offendingToken => "E1001"
  | .unexpectedEnd => "E1002"
  | .undefinedName => "E6001"
  | .typeMismatch => "E6002"
  | .arithmetic => "E6003"
  | .index => "E6004"
  | .missingFile => "E6005"
  | .inputOutput => "E6006"

def className : Code → String
  | .unreadableText => "LexicalError"
  | .offendingToken | .unexpectedEnd => "SyntaxError"
  | .undefinedName => "NameError"
  | .typeMismatch => "TypeError"
  | .arithmetic => "ArithmeticError"
  | .index => "IndexError"
  | .missingFile => "InexistentFileError"
  | .inputOutput => "IOError"

def isRuntime : Code → Bool
  | .unreadableText | .offendingToken | .unexpectedEnd => false
  | _ => true

end Code

structure Label where
  span : Span
  message : String
  isPrimary : Bool
deriving DecidableEq, Repr

inductive Remark where
  | note (text : String)
  | help (text : String)
deriving DecidableEq, Repr

namespace Remark

def keyword : Remark → String
  | .note _ => "note"
  | .help _ => "help"

def text : Remark → String
  | .note text | .help text => text

end Remark

structure Report where
  code : Code
  message : String
  labels : List Label := []
  remarks : List Remark := []
deriving DecidableEq, Repr

namespace Report

def withLabel (report : Report) (span : Span) (message : String) : Report :=
  { report with labels := report.labels ++ [⟨span, message, true⟩] }

def withSecondary (report : Report) (span : Span) (message : String) : Report :=
  { report with labels := report.labels ++ [⟨span, message, false⟩] }

def withRemark (report : Report) (remark : Remark) : Report :=
  { report with remarks := report.remarks ++ [remark] }

def primarySpan? (report : Report) : Option Span :=
  (report.labels.find? (·.isPrimary)).map (·.span)

def plain (report : Report) : String :=
  let labels := report.labels.map fun label =>
    "\n  " ++ (if label.isPrimary then "-->" else "...") ++ " " ++ label.span.text ++ ": "
      ++ label.message
  let remarks := report.remarks.map fun remark =>
    "\n  = " ++ remark.keyword ++ ": " ++ remark.text
  "error[" ++ report.code.text ++ "]: " ++ report.message ++ String.join labels
    ++ String.join remarks

end Report

end Salita
