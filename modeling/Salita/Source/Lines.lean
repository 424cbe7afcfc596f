import Salita.Source.Bytes
import Salita.Source.Span

namespace Salita

structure Lines where
  text : List Char
  starts : List Nat
deriving Repr

structure Location where
  line : Nat
  column : Nat
  lineText : String
deriving DecidableEq, Repr

namespace Lines

def startsBehind : Nat → List Char → List Nat
  | _, [] => []
  | offset, c :: text =>
      if c = '\n' then (offset + c.utf8Size) :: startsBehind (offset + c.utf8Size) text
      else startsBehind (offset + c.utf8Size) text

def ofText (text : List Char) : Lines := ⟨text, 0 :: startsBehind 0 text⟩

def count (lines : Lines) : Nat := lines.starts.length

def lineAt (lines : Lines) (offset : Nat) : Nat := lines.starts.countP (· ≤ offset)

def startOf? (lines : Lines) (line : Nat) : Option Nat :=
  if line = 0 then none else lines.starts[line - 1]?

def textOf? (lines : Lines) (line : Nat) : Option (List Char) := do
  let start ← lines.startOf? line
  let rest ← Text.dropBytes? start lines.text
  let text := rest.takeWhile (· ≠ '\n')
  return if text.getLast? = some '\r' then text.dropLast else text

/-- Line and column of an offset. An offset behind the end counts as the end, and one inside a
character stands in column one. -/
def position (lines : Lines) (offset : Nat) : Nat × Nat :=
  let line := lines.lineAt offset
  let start := (lines.startOf? line).getD 0
  let stop := min offset (Text.byteCount lines.text)
  (line, ((Text.slice? lines.text start stop).getD []).length + 1)

def locate (lines : Lines) (span : Span) : Location :=
  let (line, column) := lines.position span.start
  ⟨line, column, String.ofList ((lines.textOf? line).getD [])⟩

end Lines

end Salita
