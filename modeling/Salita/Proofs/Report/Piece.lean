import Salita.Report.Terminal

namespace Salita.Terminal

inductive Piece where
  | plain (text : String)
  | styled (style : Style) (text : String)

def Piece.draw (colored : Bool) : Piece → String
  | plain text => text
  | styled style text => paint colored style text

def draw (colored : Bool) : List Piece → String
  | [] => ""
  | piece :: rest => piece.draw colored ++ draw colored rest

theorem draw_append (colored : Bool) (first second : List Piece) :
    draw colored (first ++ second) = draw colored first ++ draw colored second := by
  induction first with
  | nil => rw [List.nil_append, draw, String.empty_append]
  | cons piece first ih => rw [List.cons_append, draw, draw, ih, String.append_assoc]

def Colored (colored text : String) : Prop :=
  ∃ pieces, colored = draw true pieces ∧ text = draw false pieces

def markOf (label : Label) : Char := if label.isPrimary then '^' else '-'

def messagePieces (label : Label) : List Piece :=
  if label.message.isEmpty then [] else [.plain " ", .styled (labelStyle label) label.message]

def Snippet.pieces (snippet : Snippet) (path : String) (label : Label) : List Piece :=
  let number := snippet.line.repr
  let pad := blanks number.length
  let place := path ++ ":" ++ number ++ ":" ++ snippet.column.repr
  [.plain pad, .styled .gutter "-->", .plain (" " ++ place ++ "\n"),
    .styled .gutter (pad ++ " |"), .plain "\n",
    .styled .gutter (number ++ " |"), .plain (" " ++ String.ofList snippet.lineText ++ "\n"),
    .styled .gutter (pad ++ " |"), .plain (" " ++ blanks (snippet.column - 1)),
    .styled (labelStyle label) (String.ofList (List.replicate snippet.width (markOf label)))] ++
  messagePieces label ++ [.plain "\n"]

theorem snippetText_eq_draw (colored : Bool) (origin : Origin) (label : Label) :
    snippetText colored origin label =
      draw colored ((Snippet.of origin.lines label.span).pieces origin.path label) := by
  unfold snippetText Snippet.pieces messagePieces markOf
  generalize Snippet.of origin.lines label.span = snippet
  by_cases silent : label.message.isEmpty
  · rw [if_pos silent, if_pos silent]
    simp [draw, Piece.draw, String.append_assoc]
  · rw [if_neg silent, if_neg silent]
    simp [draw, Piece.draw, String.append_assoc]

theorem colored_snippetText (origin : Origin) (label : Label) :
    Colored (snippetText true origin label) (snippetText false origin label) :=
  ⟨_, snippetText_eq_draw true origin label, snippetText_eq_draw false origin label⟩

theorem notMem_toDigits {c : Char} (other : c.isDigit = false) (n : Nat) :
    c ∉ Nat.toDigits 10 n := by
  intro member
  have digit := Nat.isDigit_of_mem_toDigits (by decide) (by decide) member
  exact absurd (other.symm.trans digit) (by decide)

end Salita.Terminal
