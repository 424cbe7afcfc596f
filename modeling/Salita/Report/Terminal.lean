import Salita.Report.Basic
import Salita.Source.Lines

namespace Salita.Terminal

inductive ColorMode where
  | auto
  | always
  | never
deriving DecidableEq, Repr

namespace ColorMode

def ofText? : String → Option ColorMode
  | "auto" => some .auto
  | "always" => some .always
  | "never" => some .never
  | _ => none

def usesColor (mode : ColorMode) (isTerminal : Bool) : Bool :=
  match mode with
  | .auto => isTerminal
  | .always => true
  | .never => false

end ColorMode

inductive Style where
  | error
  | gutter
  | bold
  | help
deriving DecidableEq, Repr

def Style.start : Style → String
  | .error => "\x1b[1;31m"
  | .gutter => "\x1b[1;34m"
  | .bold => "\x1b[1m"
  | .help => "\x1b[1;32m"

def reset : String := "\x1b[0m"

def paint (colored : Bool) (style : Style) (text : String) : String :=
  if colored then style.start ++ text ++ reset else text

structure Origin where
  path : String
  lines : Lines

structure Snippet where
  line : Nat
  column : Nat
  lineText : List Char
  width : Nat
deriving Repr

/-- The line a span starts on. The underline ends with the span or with the line, and has at least
one character. -/
def Snippet.of (lines : Lines) (span : Span) : Snippet :=
  let (line, column) := lines.position span.start
  let lineText := (lines.textOf? line).getD []
  let covered := ((Text.slice? lines.text span.start span.stop).getD []).takeWhile (· ≠ '\n')
  let room := lineText.length - (column - 1)
  { line, column, lineText, width := max (min covered.length room) 1 }

def blanks (n : Nat) : String := String.ofList (List.replicate n ' ')

def labelStyle (label : Label) : Style := if label.isPrimary then .error else .gutter

def snippetText (colored : Bool) (origin : Origin) (label : Label) : String :=
  let snippet := Snippet.of origin.lines label.span
  let number := snippet.line.repr
  let pad := blanks number.length
  let marker := if label.isPrimary then '^' else '-'
  let underline := String.ofList (List.replicate snippet.width marker)
  pad ++ paint colored .gutter "-->" ++ " " ++ origin.path ++ ":" ++ number ++ ":"
    ++ snippet.column.repr ++ "\n"
    ++ paint colored .gutter (pad ++ " |") ++ "\n"
    ++ paint colored .gutter (number ++ " |") ++ " " ++ String.ofList snippet.lineText ++ "\n"
    ++ paint colored .gutter (pad ++ " |") ++ " " ++ blanks (snippet.column - 1)
    ++ paint colored (labelStyle label) underline
    ++ (if label.message.isEmpty then ""
        else " " ++ paint colored (labelStyle label) label.message)
    ++ "\n"

def labelText (colored : Bool) (origin : Option Origin) (label : Label) : String :=
  match origin with
  | some origin => snippetText colored origin label
  | none => "  --> " ++ label.span.text ++ ": " ++ paint colored (labelStyle label) label.message
      ++ "\n"

def remarkText (colored : Bool) (remark : Remark) : String :=
  let style := match remark with
    | .note _ => Style.bold
    | .help _ => Style.help
  "  = " ++ paint colored style remark.keyword ++ ": " ++ remark.text ++ "\n"

def render (colored : Bool) (origin : Option Origin) (report : Report) : String :=
  paint colored .error "error" ++ paint colored .bold ("[" ++ report.code.text ++ "]") ++ ": "
    ++ report.message ++ "\n"
    ++ String.join (report.labels.map (labelText colored origin))
    ++ String.join (report.remarks.map (remarkText colored))
    ++ "\n"

end Salita.Terminal
