import Salita.Proofs.Report.Piece
import Salita.Proofs.Source.Lines
import Salita.Proofs.Token.Tiling

namespace Salita.Terminal

open Text Lexer

def marks (mark : Char) (lower : List Char) : List Char :=
  (lower.dropWhile (· ≠ mark)).takeWhile (· = mark)

def leftOf (mark : Char) (upper lower : List Char) : List Char :=
  upper.take (lower.takeWhile (· ≠ mark)).length

def above (mark : Char) (upper lower : List Char) : List Char :=
  (upper.drop (lower.takeWhile (· ≠ mark)).length).take (marks mark lower).length

section
variable {mark : Char} {front rest : List Char}

theorem takeWhile_ne_mark (free : mark ∉ front) (width : Nat) :
    (front ++ (List.replicate (width + 1) mark ++ rest)).takeWhile (· ≠ mark) = front := by
  rw [List.takeWhile_append_of_pos, List.replicate_succ, List.cons_append,
    List.takeWhile_cons_of_neg (by simp), List.append_nil]
  intro c member
  exact decide_eq_true fun same => free (same ▸ member)

theorem marks_append (free : mark ∉ front) (ends : rest.head? ≠ some mark) (width : Nat) :
    marks mark (front ++ (List.replicate (width + 1) mark ++ rest)) =
      List.replicate (width + 1) mark := by
  have none : rest.takeWhile (· = mark) = [] := by
    cases rest with
    | nil => rfl
    | cons c rest => exact List.takeWhile_cons_of_neg (by simpa using ends)
  have drop : (front ++ (List.replicate (width + 1) mark ++ rest)).dropWhile (· ≠ mark) =
      List.replicate (width + 1) mark ++ rest := by
    rw [List.dropWhile_append_of_pos, List.replicate_succ, List.cons_append,
      List.dropWhile_cons_of_neg (by simp)]
    intro c member
    exact decide_eq_true fun same => free (same ▸ member)
  rw [marks, drop, List.takeWhile_append_of_pos, none, List.append_nil]
  intro c member
  exact decide_eq_true (List.eq_of_mem_replicate member)

end

def locator (path : String) (line column : Nat) : List Char :=
  (blanks line.repr.length ++ "--> " ++ path ++ ":" ++ line.repr ++ ":" ++ column.repr).toList

def gutter (number : String) : List Char := number.toList ++ [' ', '|']

def numbered (line : Nat) (text : List Char) : List Char := gutter line.repr ++ ' ' :: text

/-- Without colours, a label shows its place, an empty line, a line of program text behind its
number, and the line that has the marks. -/
def DrawnOn (rendering : String) (path : String) (line column : Nat)
    (lineText lower : List Char) : Prop :=
  ∃ below others, rendering.toList = locator path line column ++ '\n' :: below ∧
    below.splitOn '\n' =
      gutter (blanks line.repr.length) :: numbered line lineText :: lower :: others

def Snippet.indent (snippet : Snippet) : List Char :=
  gutter (blanks snippet.line.repr.length) ++ ' ' :: List.replicate (snippet.column - 1) ' '

def behindMarks (label : Label) : List Char :=
  firstLine ((draw false (messagePieces label)).toList ++ ['\n'])

def Snippet.lower (snippet : Snippet) (label : Label) : List Char :=
  snippet.indent ++ (List.replicate snippet.width (markOf label) ++ behindMarks label)

theorem newline_notMem_gutter (line : Nat) : '\n' ∉ gutter line.repr := by
  have digits : '\n' ∉ line.repr.toList := by
    rw [Nat.toList_repr]
    exact notMem_toDigits rfl line
  simpa [gutter] using digits

theorem eq_blank_of_mem_indent {snippet : Snippet} {c : Char} (member : c ∈ snippet.indent) :
    c = ' ' ∨ c = '|' := by
  simp only [Snippet.indent, gutter, blanks, String.toList_ofList, List.mem_append, List.mem_cons,
    List.mem_replicate, List.not_mem_nil] at member
  tauto

theorem markOf_notMem_indent (label : Label) (snippet : Snippet) :
    markOf label ∉ snippet.indent := by
  intro member
  have := eq_blank_of_mem_indent member
  unfold markOf at this
  split at this <;> simp at this

theorem newline_notMem_lineText (lines : Lines) (span : Span) :
    '\n' ∉ (Snippet.of lines span).lineText := by
  have free (line : Nat) : '\n' ∉ (lines.textOf? line).getD [] := by
    cases found : lines.textOf? line with
    | none => exact List.not_mem_nil
    | some text => exact Lines.newline_notMem_of_textOf? found
  exact free _

theorem Snippet.one_le_width (lines : Lines) (span : Span) : 1 ≤ (of lines span).width :=
  Nat.le_max_right _ _

theorem head?_behindMarks (label : Label) : (behindMarks label).head? ≠ some (markOf label) := by
  unfold behindMarks messagePieces markOf
  split
  · simp [draw, firstLine]
  · split <;> simp [draw, Piece.draw, firstLine]

theorem length_indent (snippet : Snippet) (front : List Char)
    (column : snippet.column = front.length + 1) :
    snippet.indent.length = (numbered snippet.line front).length := by
  simp [Snippet.indent, numbered, gutter, blanks, column, ← String.length_toList]

theorem marks_lower {snippet : Snippet} (wide : 1 ≤ snippet.width) (label : Label) :
    (snippet.lower label).takeWhile (· ≠ markOf label) = snippet.indent ∧
      marks (markOf label) (snippet.lower label) =
        List.replicate snippet.width (markOf label) := by
  have free := markOf_notMem_indent label snippet
  obtain ⟨width, positive⟩ := Nat.exists_eq_add_of_le' wide
  rw [Snippet.lower, positive]
  exact ⟨takeWhile_ne_mark free width, marks_append free (head?_behindMarks label) width⟩

theorem toList_snippetText (path : String) (lines : Lines) (label : Label) :
    let snippet := Snippet.of lines label.span
    (snippetText false ⟨path, lines⟩ label).toList =
      locator path snippet.line snippet.column ++ '\n' ::
        (gutter (blanks snippet.line.repr.length) ++ '\n' ::
          (numbered snippet.line snippet.lineText ++ '\n' ::
            ((snippet.indent ++ List.replicate snippet.width (markOf label)) ++
              ((draw false (messagePieces label)).toList ++ ['\n'])))) := by
  intro snippet
  rw [snippetText_eq_draw, Snippet.pieces, draw_append, draw_append]
  simp [draw, Piece.draw, paint, locator, numbered, gutter, Snippet.indent, blanks, snippet]

theorem drawnOn_snippetText (path : String) (lines : Lines) (label : Label) :
    let snippet := Snippet.of lines label.span
    DrawnOn (snippetText false ⟨path, lines⟩ label) path snippet.line snippet.column
      snippet.lineText (snippet.lower label) := by
  intro snippet
  have emptyFree : '\n' ∉ gutter (blanks snippet.line.repr.length) := by simp [gutter, blanks]
  have upperFree : '\n' ∉ numbered snippet.line snippet.lineText := by
    have text := newline_notMem_lineText lines label.span
    simpa [numbered] using ⟨newline_notMem_gutter snippet.line, text⟩
  have lowerFree : '\n' ∉ snippet.indent ++ List.replicate snippet.width (markOf label) := by
    intro member
    rcases List.mem_append.1 member with member | member
    · simpa using eq_blank_of_mem_indent member
    · have := List.eq_of_mem_replicate member
      unfold markOf at this
      split at this <;> simp at this
  obtain ⟨others, last⟩ := exists_splitOn
    ((snippet.indent ++ List.replicate snippet.width (markOf label)) ++
      ((draw false (messagePieces label)).toList ++ ['\n']))
  refine ⟨_, others, toList_snippetText path lines label, ?_⟩
  rw [List.splitOn_append_cons_self_of_not_mem emptyFree,
    List.splitOn_append_cons_self_of_not_mem upperFree, last, firstLine_append lowerFree,
    List.append_assoc]
  rfl

section
variable {text before covered after tail : List Char}

theorem firstLine_eq_self (free : '\n' ∉ text) : firstLine text = text := by
  simpa [firstLine] using @firstLine_append _ [] free

theorem take_length_firstLine (inside : tail <+: firstLine (covered ++ after)) :
    tail.take (firstLine covered).length = covered.take tail.length := by
  have start : tail <+: covered ++ after := inside.trans (List.takeWhile_prefix _)
  have both : covered.take tail.length = tail.take covered.length := by
    have whole := List.prefix_iff_eq_take.1 start
    calc covered.take tail.length
        = ((covered ++ after).take covered.length).take tail.length := by rw [List.take_left]
      _ = ((covered ++ after).take tail.length).take covered.length := by
          rw [List.take_take, List.take_take, min_comm]
      _ = tail.take covered.length := by rw [← whole]
  rw [both]
  by_cases newline : '\n' ∈ covered
  · -- The line ends within the piece, and so does what is shown of it.
    obtain ⟨line, behind, rfl, free⟩ := List.eq_append_cons_of_mem newline
    have ends (more : List Char) : firstLine (line ++ '\n' :: more) = line := by
      rw [firstLine_append free]
      simp [firstLine]
    rw [List.append_assoc, List.cons_append, ends] at inside
    have short := inside.length_le
    rw [ends, List.take_of_length_le short, List.take_of_length_le]
    rw [List.length_append]
    omega
  · rw [firstLine_eq_self newline]

theorem firstLine_ne_nil (nonempty : covered ≠ []) (shows : firstLine (covered ++ after) ≠ []) :
    firstLine covered ≠ [] := by
  cases covered with
  | nil => exact absurd rfl nonempty
  | cons c covered =>
      by_cases newline : c = '\n'
      · simp [firstLine, newline] at shows
      · simp [firstLine, newline]

theorem shown_prefix (line : List Char) : shown line <+: line := by
  unfold shown
  split
  · exact List.dropLast_prefix line
  · exact List.prefix_rfl

theorem exists_shown_eq {front back : List Char}
    (inside : front.length < (shown (front ++ back)).length) :
    ∃ tail, shown (front ++ back) = front ++ tail ∧ tail ≠ [] ∧ tail <+: back := by
  have kept := shown_prefix (front ++ back)
  obtain ⟨tail, split⟩ :=
    List.prefix_of_prefix_length_le (List.prefix_append front back) kept inside.le
  rw [← split, List.length_append] at inside
  rw [← split] at kept
  refine ⟨tail, split.symm, ?_, (List.prefix_append_right_inj front).1 kept⟩
  exact List.ne_nil_of_length_pos (by omega)

theorem snippet_of_standsAt {span : Span} (stands : StandsAt text span before covered after)
    {line : List Char} (shows : shown (lastLine before ++ firstLine (covered ++ after)) = line) :
    Snippet.of (.ofText text) span =
      { line := before.count '\n' + 1, column := (lastLine before).length + 1, lineText := line
        width :=
          max (min (firstLine covered).length (line.length - (lastLine before).length)) 1 } := by
  have place := Lines.position_byteCount before (covered ++ after)
  have lineText := Lines.textOf?_count before (covered ++ after)
  have cut := slice?_append before covered after
  rw [← byteCount_append, ← stands.split, ← stands.start, ← stands.stop] at cut
  rw [← stands.split, ← stands.start] at place
  rw [← stands.split, shows] at lineText
  rw [Snippet.of, place]
  simp only [lineText, Lines.ofText_text, cut, Option.getD_some, Nat.add_sub_cancel]
  rfl

end

section
variable {text before covered after : List Char} {label : Label}

/-- The line of a label that starts where it is shown: as much of its tail is marked as the span
covers. -/
theorem exists_tail (stands : StandsAt text label.span before covered after)
    (nonempty : covered ≠ [])
    (inside : (lastLine before).length <
      (shown (lastLine before ++ firstLine (covered ++ after))).length) :
    ∃ tail, shown (lastLine before ++ firstLine (covered ++ after)) = lastLine before ++ tail ∧
      Snippet.of (.ofText text) label.span =
        { line := before.count '\n' + 1, column := (lastLine before).length + 1,
          lineText := lastLine before ++ tail, width := (covered.take tail.length).length } ∧
      tail.take (covered.take tail.length).length = covered.take tail.length := by
  obtain ⟨tail, shows, more, within⟩ := exists_shown_eq inside
  have filled : firstLine covered ≠ [] := by
    refine @firstLine_ne_nil covered after nonempty fun none => more ?_
    rw [none] at within
    exact List.prefix_nil.1 within
  have exact := snippet_of_standsAt stands shows
  have part := take_length_firstLine within
  have width : min (firstLine covered).length tail.length = (covered.take tail.length).length := by
    rw [← part, List.length_take]
  have positive : 1 ≤ min (firstLine covered).length tail.length :=
    le_min (List.length_pos_of_ne_nil filled) (List.length_pos_of_ne_nil more)
  refine ⟨tail, shows, ?_, ?_⟩
  · rw [exact, List.length_append, Nat.add_sub_cancel_left, width, max_eq_left (width ▸ positive)]
  · rw [← width, ← part, List.take_eq_take_iff]
    omega

end

/-- The marks below a label's line of program text stand under the characters of its span, as far
as these are on the line, and the characters to their left are those in front of the span. Every
label has a mark, whatever its span, and the number of its line stands both in its place and in
front of the line. Colours change none of it. -/
theorem labelText_underlines (path : String) (text : List Char) (label : Label) :
    let rendering (colored : Bool) := labelText colored (some ⟨path, .ofText text⟩) label
    Colored (rendering true) (rendering false) ∧
    ∃ line column lineText lower,
      DrawnOn (rendering false) path line column lineText lower ∧
      marks (markOf label) lower ≠ [] ∧
      ∀ {before covered after sourceLine : List Char},
        StandsAt text label.span before covered after → covered ≠ [] →
        (text.splitOn '\n')[before.count '\n']? = some sourceLine →
        (lastLine before).length < (shown sourceLine).length →
          line = before.count '\n' + 1 ∧ column = (lastLine before).length + 1 ∧
          lineText = shown sourceLine ∧
          leftOf (markOf label) (numbered line lineText) lower = numbered line (lastLine before) ∧
          above (markOf label) (numbered line lineText) lower =
            covered.take ((shown sourceLine).length - (lastLine before).length) ∧
          (marks (markOf label) lower).length =
            (covered.take ((shown sourceLine).length - (lastLine before).length)).length := by
  intro rendering
  have drawn := drawnOn_snippetText path (.ofText text) label
  have wide := Snippet.one_le_width (.ofText text) label.span
  obtain ⟨indent, found⟩ := marks_lower wide label
  refine ⟨colored_snippetText _ label, _, _, _, _, drawn, ?_, ?_⟩
  · rw [found]
    exact List.ne_nil_of_length_pos (by rw [List.length_replicate]; omega)
  · intro before covered after sourceLine stands nonempty row inside
    rw [stands.split, getElem?_splitOn, Option.some.injEq] at row
    rw [← row] at inside ⊢
    obtain ⟨tail, shows, exact, part⟩ := exists_tail stands nonempty inside
    rw [exact] at indent found ⊢
    have length := length_indent (Snippet.of (.ofText text) label.span) (lastLine before)
      (by rw [exact])
    rw [exact] at length
    have upper : numbered (before.count '\n' + 1) (lastLine before ++ tail) =
        numbered (before.count '\n' + 1) (lastLine before) ++ tail := by
      simp [numbered]
    rw [leftOf, above, indent, found, shows, upper, length, List.take_left, List.drop_left,
      List.length_replicate, List.length_append, Nat.add_sub_cancel_left]
    exact ⟨rfl, rfl, rfl, rfl, part, rfl⟩

theorem labelText_underlines_crlf :
    let text := "x = 1;\nilimbag(\"añb\r\nc\");".toList
    let label : Label := ⟨⟨15, 24⟩, "dito", true⟩
    StandsAt text label.span "x = 1;\nilimbag(".toList "\"añb\r\nc\"".toList ");".toList ∧
    (text.splitOn '\n')[1]? = some "ilimbag(\"añb\r".toList ∧
    ∃ lower,
      DrawnOn (labelText false (some ⟨"prog.asin", .ofText text⟩) label) "prog.asin" 2 9
        "ilimbag(\"añb".toList lower ∧
      marks '^' lower ≠ [] ∧
      leftOf '^' (numbered 2 "ilimbag(\"añb".toList) lower = "2 | ilimbag(".toList ∧
      above '^' (numbered 2 "ilimbag(\"añb".toList) lower = "\"añb".toList := by
  intro text label
  have stands : StandsAt text label.span "x = 1;\nilimbag(".toList "\"añb\r\nc\"".toList
      ");".toList := ⟨by decide, by decide, by decide⟩
  have row : (text.splitOn '\n')[1]? = some "ilimbag(\"añb\r".toList := by decide +kernel
  obtain ⟨-, line, column, lineText, lower, drawn, marked, underlines⟩ :=
    labelText_underlines "prog.asin" text label
  obtain ⟨rfl, rfl, rfl, leftwards, covered, -⟩ :=
    underlines stands (by decide) row (by decide +kernel)
  exact ⟨stands, row, lower, drawn, marked, leftwards, covered⟩

end Salita.Terminal
