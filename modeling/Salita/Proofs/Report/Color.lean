import Salita.Proofs.Report.Piece
import Salita.Proofs.Source.Lines

/-!
# What colours add

A terminal shows some of the characters that it gets and takes others for escape sequences: the
escape character, an opening bracket and what follows up to the letter `m`. Main statement: a report
with colours shows what it shows without them, and no style reaches beyond its line.
-/

namespace Salita.Terminal

def escape : Char := '\x1b'

inductive Signal where
  | shown (c : Char)
  | control (parameters : List Char)
deriving DecidableEq

def sequence? : List Char → Option (List Char × List Char)
  | c :: '[' :: text =>
      if c = escape then
        match text.dropWhile (· ≠ 'm') with
        | [] => none
        | _ :: rest => some (text.takeWhile (· ≠ 'm'), rest)
      else none
  | _ => none

theorem length_of_sequence? {text parameters rest : List Char}
    (found : sequence? text = some (parameters, rest)) : rest.length < text.length := by
  unfold sequence? at found
  split at found
  case h_2 => cases found
  case h_1 c text =>
    have shorter := (List.dropWhile_suffix (· ≠ 'm') (l := text)).length_le
    split at found
    case isFalse => cases found
    case isTrue =>
      split at found
      case h_1 => cases found
      case h_2 m behind dropped =>
        rw [dropped, List.length_cons] at shorter
        cases found
        simp only [List.length_cons]
        omega

def signals : List Char → List Signal
  | [] => []
  | c :: text =>
      match _ : sequence? (c :: text) with
      | some (parameters, rest) => .control parameters :: signals rest
      | none => .shown c :: signals text
termination_by text => text.length
decreasing_by
  · exact length_of_sequence? ‹_›
  · exact Nat.lt_succ_self _

def Signal.shown? : Signal → Option Char
  | .shown c => some c
  | .control _ => none

def stripped (text : List Char) : List Char := (signals text).filterMap Signal.shown?

def noStyle : List Char := ['0']

/-- Behind each sequence that starts a style comes the one that ends it, with no sequence and no end
of a line between them. -/
def StylesEnd (received : List Signal) : Prop :=
  ∀ before parameters after, received = before ++ .control parameters :: after →
    parameters ≠ noStyle →
    ∃ (within : List Char) (rest : List Signal),
      after = within.map .shown ++ .control noStyle :: rest ∧ '\n' ∉ within

/-! ## Reading signals -/

section
variable {text parameters : List Char}

theorem signals_nil : signals [] = [] := by rw [signals]

theorem sequence?_of_ne {c : Char} (plain : c ≠ escape) (text : List Char) :
    sequence? (c :: text) = none := by
  unfold sequence?
  split
  case h_1 c behind same =>
    cases same
    rw [if_neg plain]
  case h_2 => rfl

theorem signals_append (plain : escape ∉ text) (rest : List Char) :
    signals (text ++ rest) = text.map .shown ++ signals rest := by
  induction text with
  | nil => rfl
  | cons c text ih =>
      obtain ⟨head, tail⟩ := List.ne_and_not_mem_of_not_mem_cons plain
      have none := sequence?_of_ne head.symm (text ++ rest)
      rw [List.cons_append, signals]
      split
      case h_1 found => rw [none] at found; cases found
      case h_2 => rw [ih tail, List.map_cons, List.cons_append]

theorem sequence?_control (free : 'm' ∉ parameters) (rest : List Char) :
    sequence? (escape :: '[' :: (parameters ++ 'm' :: rest)) = some (parameters, rest) := by
  have inside : ∀ c ∈ parameters, decide (c ≠ 'm') = true := fun c member =>
    decide_eq_true fun same => free (same ▸ member)
  have behind : (parameters ++ 'm' :: rest).dropWhile (· ≠ 'm') = 'm' :: rest := by
    rw [List.dropWhile_append_of_pos inside, List.dropWhile_cons_of_neg (by simp)]
  have front : (parameters ++ 'm' :: rest).takeWhile (· ≠ 'm') = parameters := by
    rw [List.takeWhile_append_of_pos inside, List.takeWhile_cons_of_neg (by simp),
      List.append_nil]
  unfold sequence?
  simp only [behind, front, if_true]

theorem signals_control (free : 'm' ∉ parameters) (rest : List Char) :
    signals (escape :: '[' :: (parameters ++ 'm' :: rest)) = .control parameters :: signals rest := by
  have found := sequence?_control free rest
  rw [signals]
  split
  case h_1 found' =>
    rw [found] at found'
    cases found'
    rfl
  case h_2 found' => rw [found] at found'; cases found'

end

/-! ## Styles that end -/

section
variable {received : List Signal}

theorem StylesEnd.nil : StylesEnd [] := by
  intro before parameters after split
  simp at split

theorem StylesEnd.shown (ends : StylesEnd received) (text : List Char) :
    StylesEnd (text.map .shown ++ received) := by
  induction text with
  | nil => exact ends
  | cons c text ih =>
      intro before parameters after split started
      cases before with
      | nil => exact Signal.noConfusion (List.cons.inj split).1
      | cons first before => exact ih before parameters after (List.cons.inj split).2 started

theorem StylesEnd.ended (ends : StylesEnd received) : StylesEnd (.control noStyle :: received) := by
  intro before parameters after split started
  cases before with
  | nil =>
      cases split
      exact absurd rfl started
  | cons first before => exact ends before parameters after (List.cons.inj split).2 started

theorem StylesEnd.styled (ends : StylesEnd received) (parameters : List Char) {text : List Char}
    (line : '\n' ∉ text) :
    StylesEnd (.control parameters :: (text.map .shown ++ .control noStyle :: received)) := by
  intro before others after split started
  cases before with
  | nil =>
      obtain ⟨-, rfl⟩ := List.cons.inj split
      exact ⟨text, received, rfl, line⟩
  | cons first before =>
      exact ends.ended.shown text before others after (List.cons.inj split).2 started

end

/-! ## Pieces as signals -/

def Style.parameters : Style → List Char
  | .error => ['1', ';', '3', '1']
  | .gutter => ['1', ';', '3', '4']
  | .bold => ['1']
  | .help => ['1', ';', '3', '2']

theorem Style.toList_start (style : Style) :
    style.start.toList = escape :: '[' :: (style.parameters ++ ['m']) := by
  cases style <;> rfl

theorem toList_reset : reset.toList = escape :: '[' :: (noStyle ++ ['m']) := rfl

def Piece.text : Piece → List Char
  | .plain text | .styled _ text => text.toList

def Piece.signals : Piece → List Signal
  | .plain text => text.toList.map .shown
  | .styled style text =>
      .control style.parameters :: (text.toList.map .shown ++ [.control noStyle])

def Piece.IsPlain (piece : Piece) : Prop := escape ∉ piece.text

def Piece.OnLine : Piece → Prop
  | .plain _ => True
  | .styled _ text => '\n' ∉ text.toList

section
variable {pieces : List Piece}

theorem signals_draw_piece {piece : Piece} (plain : piece.IsPlain) (rest : List Char) :
    signals ((piece.draw true).toList ++ rest) = piece.signals ++ signals rest := by
  cases piece with
  | plain text => exact signals_append plain rest
  | styled style text =>
      have plain : escape ∉ text.toList := plain
      have free : 'm' ∉ style.parameters := by cases style <;> decide
      have pieces : ((Piece.styled style text).draw true).toList ++ rest =
          escape :: '[' :: (style.parameters ++ 'm' :: (text.toList ++
            escape :: '[' :: (noStyle ++ 'm' :: rest))) := by
        simp [Piece.draw, paint, Style.toList_start, toList_reset]
      rw [pieces, signals_control free, signals_append plain, signals_control (by decide)]
      simp [Piece.signals]

theorem signals_draw (plain : ∀ piece ∈ pieces, piece.IsPlain) :
    signals (draw true pieces).toList = pieces.flatMap Piece.signals := by
  induction pieces with
  | nil => exact signals_nil
  | cons piece pieces ih =>
      obtain ⟨head, tail⟩ := List.forall_mem_cons.1 plain
      rw [draw, String.toList_append, signals_draw_piece head, ih tail, List.flatMap_cons]

theorem toList_draw_false (pieces : List Piece) :
    (draw false pieces).toList = pieces.flatMap Piece.text := by
  induction pieces with
  | nil => rfl
  | cons piece pieces ih =>
      rw [draw, String.toList_append, ih, List.flatMap_cons]
      cases piece <;> rfl

theorem filterMap_shown (text : List Char) :
    (text.map Signal.shown).filterMap Signal.shown? = text := by
  rw [List.filterMap_map]
  exact List.filterMap_some

theorem Piece.shown_signals (piece : Piece) :
    piece.signals.filterMap Signal.shown? = piece.text := by
  cases piece with
  | plain text => exact filterMap_shown _
  | styled style text =>
      rw [Piece.signals, List.filterMap_cons, List.filterMap_append, filterMap_shown]
      exact List.append_nil _

theorem stripped_draw (plain : ∀ piece ∈ pieces, piece.IsPlain) :
    stripped (draw true pieces).toList = (draw false pieces).toList := by
  rw [stripped, signals_draw plain, toList_draw_false, List.filterMap_flatMap]
  exact congrArg pieces.flatMap (funext Piece.shown_signals)

theorem escape_notMem_draw (plain : ∀ piece ∈ pieces, piece.IsPlain) :
    escape ∉ (draw false pieces).toList := by
  rw [toList_draw_false]
  intro member
  obtain ⟨piece, inside, member⟩ := List.mem_flatMap.1 member
  exact plain piece inside member

theorem stylesEnd_draw (plain : ∀ piece ∈ pieces, piece.IsPlain)
    (lines : ∀ piece ∈ pieces, piece.OnLine) : StylesEnd (signals (draw true pieces).toList) := by
  rw [signals_draw plain]
  clear plain
  induction pieces with
  | nil => exact .nil
  | cons piece pieces ih =>
      obtain ⟨head, tail⟩ := List.forall_mem_cons.1 lines
      have ends := ih tail
      cases piece with
      | plain text => exact ends.shown text.toList
      | styled style text =>
          rw [List.flatMap_cons, Piece.signals, List.cons_append, List.append_assoc]
          exact ends.styled style.parameters head

end

/-! ## The pieces of a report -/

def labelPieces (origin : Option Origin) (label : Label) : List Piece :=
  match origin with
  | some origin => (Snippet.of origin.lines label.span).pieces origin.path label
  | none =>
      [.plain ("  --> " ++ label.span.text ++ ": "), .styled (labelStyle label) label.message,
        .plain "\n"]

def remarkStyle : Remark → Style
  | .note _ => .bold
  | .help _ => .help

def remarkPieces (remark : Remark) : List Piece :=
  [.plain "  = ", .styled (remarkStyle remark) remark.keyword, .plain (": " ++ remark.text ++ "\n")]

def reportPieces (origin : Option Origin) (report : Report) : List Piece :=
  [.styled .error "error", .styled .bold ("[" ++ report.code.text ++ "]"),
    .plain (": " ++ report.message ++ "\n")] ++
  report.labels.flatMap (labelPieces origin) ++ report.remarks.flatMap remarkPieces ++
  [.plain "\n"]

theorem labelText_eq_draw (colored : Bool) (origin : Option Origin) (label : Label) :
    labelText colored origin label = draw colored (labelPieces origin label) := by
  cases origin with
  | some origin => exact snippetText_eq_draw colored origin label
  | none => simp [labelText, labelPieces, draw, Piece.draw, String.append_assoc]

theorem remarkText_eq_draw (colored : Bool) (remark : Remark) :
    remarkText colored remark = draw colored (remarkPieces remark) := by
  cases remark <;>
    simp [remarkText, remarkPieces, remarkStyle, draw, Piece.draw, String.append_assoc]

theorem draw_flatMap {α : Type} (colored : Bool) (pieces : α → List Piece) (parts : List α) :
    draw colored (parts.flatMap pieces) =
      String.join (parts.map fun part => draw colored (pieces part)) := by
  induction parts with
  | nil => rfl
  | cons part parts ih => rw [List.flatMap_cons, draw_append, ih, List.map_cons, String.join_cons]

theorem render_eq_draw (colored : Bool) (origin : Option Origin) (report : Report) :
    render colored origin report = draw colored (reportPieces origin report) := by
  have labels : report.labels.map (labelText colored origin) =
      report.labels.map fun label => draw colored (labelPieces origin label) :=
    List.map_congr_left fun label _ => labelText_eq_draw colored origin label
  have remarks : report.remarks.map (remarkText colored) =
      report.remarks.map fun remark => draw colored (remarkPieces remark) :=
    List.map_congr_left fun remark _ => remarkText_eq_draw colored remark
  rw [render, labels, remarks, reportPieces, draw_append, draw_append, draw_append, draw_flatMap,
    draw_flatMap]
  simp [draw, Piece.draw, String.append_assoc]

/-! ## Texts without escape characters -/

structure Uncolored (origin : Option Origin) (report : Report) : Prop where
  message : escape ∉ report.message.toList
  labels : ∀ label ∈ report.labels, escape ∉ label.message.toList
  remarks : ∀ remark ∈ report.remarks, escape ∉ remark.text.toList
  path : ∀ known ∈ origin, escape ∉ known.path.toList
  source : ∀ known ∈ origin, escape ∉ known.lines.text

theorem notMem_blanks {c : Char} (other : c ≠ ' ') (n : Nat) : c ∉ (blanks n).toList := by
  rw [blanks, String.toList_ofList]
  exact fun member => other (List.eq_of_mem_replicate member)

theorem lineText_subset (lines : Lines) (span : Span) :
    (Snippet.of lines span).lineText ⊆ lines.text := by
  have part (line : Nat) : (lines.textOf? line).getD [] ⊆ lines.text := by
    cases found : lines.textOf? line with
    | none => exact List.nil_subset _
    | some text => exact Lines.subset_of_textOf? found
  exact part _

theorem isPlain_messagePieces {label : Label} (message : escape ∉ label.message.toList) :
    ∀ piece ∈ messagePieces label, piece.IsPlain := by
  unfold messagePieces
  split
  · simp
  · simpa [Piece.IsPlain, Piece.text] using ⟨by decide, message⟩

theorem onLine_messagePieces {label : Label} (message : '\n' ∉ label.message.toList) :
    ∀ piece ∈ messagePieces label, piece.OnLine := by
  unfold messagePieces
  split
  · simp
  · simpa [Piece.OnLine] using message

theorem notMem_marks {c : Char} (first : c ≠ '^') (second : c ≠ '-') (label : Label)
    (width : Nat) : c ∉ List.replicate width (markOf label) := by
  intro member
  have same := List.eq_of_mem_replicate member
  unfold markOf at same
  split at same
  · exact first same
  · exact second same

theorem isPlain_snippet {origin : Origin} {label : Label}
    (message : escape ∉ label.message.toList) (path : escape ∉ origin.path.toList)
    (source : escape ∉ origin.lines.text) :
    ∀ piece ∈ (Snippet.of origin.lines label.span).pieces origin.path label, piece.IsPlain := by
  have number := notMem_toDigits (c := escape) rfl
  have blank := notMem_blanks (c := escape) (by decide)
  have line : escape ∉ (Snippet.of origin.lines label.span).lineText := fun member =>
    source (lineText_subset _ _ member)
  have marks := notMem_marks (c := escape) (by decide) (by decide) label
  rw [Snippet.pieces, List.forall_mem_append, List.forall_mem_append]
  refine ⟨⟨?_, isPlain_messagePieces message⟩, ?_⟩
  · simp +decide [Piece.IsPlain, Piece.text, number, blank, line, marks, path]
  · simp +decide [Piece.IsPlain, Piece.text]

theorem onLine_snippet (snippet : Snippet) (path : String) {label : Label}
    (message : '\n' ∉ label.message.toList) :
    ∀ piece ∈ snippet.pieces path label, piece.OnLine := by
  have number := notMem_toDigits (c := '\n') rfl
  have blank := notMem_blanks (c := '\n') (by decide)
  have marks := notMem_marks (c := '\n') (by decide) (by decide) label
  rw [Snippet.pieces, List.forall_mem_append, List.forall_mem_append]
  refine ⟨⟨?_, onLine_messagePieces message⟩, ?_⟩
  · simp +decide [Piece.OnLine, number, blank, marks]
  · simp [Piece.OnLine]

theorem isPlain_labelPieces {origin : Option Origin} {label : Label}
    (message : escape ∉ label.message.toList) (path : ∀ known ∈ origin, escape ∉ known.path.toList)
    (source : ∀ known ∈ origin, escape ∉ known.lines.text) :
    ∀ piece ∈ labelPieces origin label, piece.IsPlain := by
  cases origin with
  | some known => exact isPlain_snippet message (path known rfl) (source known rfl)
  | none =>
      have number := notMem_toDigits (c := escape) rfl
      simp +decide [labelPieces, Piece.IsPlain, Piece.text, Span.text, number, message]

theorem onLine_labelPieces (origin : Option Origin) {label : Label}
    (message : '\n' ∉ label.message.toList) :
    ∀ piece ∈ labelPieces origin label, piece.OnLine := by
  cases origin with
  | some known => exact onLine_snippet _ known.path message
  | none => simp [labelPieces, Piece.OnLine, message]

theorem isPlain_remarkPieces {remark : Remark} (text : escape ∉ remark.text.toList) :
    ∀ piece ∈ remarkPieces remark, piece.IsPlain := by
  have keyword : escape ∉ remark.keyword.toList := by
    cases remark <;> simp +decide [Remark.keyword]
  simp +decide [remarkPieces, Piece.IsPlain, Piece.text, keyword, text]

theorem onLine_remarkPieces (remark : Remark) : ∀ piece ∈ remarkPieces remark, piece.OnLine := by
  have keyword : '\n' ∉ remark.keyword.toList := by
    cases remark <;> simp +decide [Remark.keyword]
  simp [remarkPieces, Piece.OnLine, keyword]

theorem isPlain_reportPieces {origin : Option Origin} {report : Report}
    (plain : Uncolored origin report) : ∀ piece ∈ reportPieces origin report, piece.IsPlain := by
  have code : escape ∉ report.code.text.toList := by cases report.code <;> decide
  simp only [reportPieces, List.forall_mem_append, List.forall_mem_flatMap]
  refine ⟨⟨⟨?_, fun label known => ?_⟩, fun remark known => ?_⟩, ?_⟩
  · simp +decide [Piece.IsPlain, Piece.text, code, plain.message]
  · exact isPlain_labelPieces (plain.labels label known) plain.path plain.source
  · exact isPlain_remarkPieces (plain.remarks remark known)
  · simp +decide [Piece.IsPlain, Piece.text]

theorem onLine_reportPieces (origin : Option Origin) {report : Report}
    (messages : ∀ label ∈ report.labels, '\n' ∉ label.message.toList) :
    ∀ piece ∈ reportPieces origin report, piece.OnLine := by
  have code : '\n' ∉ report.code.text.toList := by cases report.code <;> decide
  simp only [reportPieces, List.forall_mem_append, List.forall_mem_flatMap]
  refine ⟨⟨⟨?_, fun label known => ?_⟩, fun remark _ => onLine_remarkPieces remark⟩, ?_⟩
  · simp +decide [Piece.OnLine, code]
  · exact onLine_labelPieces origin (messages label known)
  · simp [Piece.OnLine]

theorem escape_mem_render (origin : Option Origin) (report : Report) :
    escape ∈ (render true origin report).toList := by
  rw [render_eq_draw, reportPieces]
  simp [draw, Piece.draw, paint, Style.toList_start]

/-- A report whose texts have no escape characters shows the same characters with colours as without
them once the escape sequences are taken away, and it has such sequences only with colours. Unless a
label's message runs over a line, each style ends before the next one starts and on the line that it
starts on. -/
theorem render_colors (origin : Option Origin) (report : Report)
    (plain : Uncolored origin report) :
    stripped (render true origin report).toList = (render false origin report).toList ∧
    escape ∈ (render true origin report).toList ∧ escape ∉ (render false origin report).toList ∧
    ((∀ label ∈ report.labels, '\n' ∉ label.message.toList) →
      StylesEnd (signals (render true origin report).toList)) := by
  have pieces := isPlain_reportPieces plain
  refine ⟨?_, escape_mem_render origin report, ?_, fun messages => ?_⟩
  · rw [render_eq_draw, render_eq_draw]
    exact stripped_draw pieces
  · rw [render_eq_draw]
    exact escape_notMem_draw pieces
  · rw [render_eq_draw]
    exact stylesEnd_draw pieces (onLine_reportPieces origin messages)

theorem render_colors_unclosed :
    let origin : Option Origin := some ⟨"p.asin", .ofText "kapag (x) \x7b\x0d\n  ñ = 1;\x0d\n".toList⟩
    let report : Report :=
      { code := .unexpectedEnd
        message := "[0m"
        labels := [⟨⟨25, 25⟩, "expected \x7d", true⟩, ⟨⟨10, 11⟩, "", false⟩]
        remarks := [.note "m\n"] }
    Uncolored origin report ∧ (∀ label ∈ report.labels, '\n' ∉ label.message.toList) ∧
    stripped (render true origin report).toList = (render false origin report).toList ∧
    StylesEnd (signals (render true origin report).toList) := by
  intro origin report
  have plain : Uncolored origin report :=
    { message := by decide
      labels := by decide
      remarks := by decide
      path := by decide
      source := by decide }
  have lines : ∀ label ∈ report.labels, '\n' ∉ label.message.toList := by decide
  obtain ⟨same, -, -, ends⟩ := render_colors origin report plain
  exact ⟨plain, lines, same, ends lines⟩

end Salita.Terminal
