import Mathlib.Data.List.DropRight
import Mathlib.Data.Prod.Lex
import Salita.Proofs.Source.Bytes
import Salita.Source.Lines

namespace Salita

namespace Text

def firstLine (text : List Char) : List Char := text.takeWhile (· ≠ '\n')

def lastLine (text : List Char) : List Char := text.rtakeWhile (· ≠ '\n')

def wholeLines (text : List Char) : List Char := text.rdropWhile (· ≠ '\n')

def shown (line : List Char) : List Char := if ['\r'] <:+ line then line.dropLast else line

structure CutAt (text : List Char) (offset : Nat) (before after : List Char) : Prop where
  split : text = before ++ after
  offset_eq : offset = byteCount before

variable {text before after : List Char} {c : Char}

/-! ## Lines of a text -/

theorem wholeLines_append_lastLine (text : List Char) : wholeLines text ++ lastLine text = text :=
  List.rdropWhile_append_rtakeWhile

theorem append_eq_wholeLines_append (before after : List Char) :
    before ++ after = wholeLines before ++ (lastLine before ++ after) := by
  rw [← List.append_assoc, wholeLines_append_lastLine]

theorem wholeLines_concat (text : List Char) (c : Char) :
    wholeLines (text ++ [c]) = if c = '\n' then text ++ [c] else wholeLines text := by
  simp [wholeLines, List.rdropWhile_concat, ite_not]

theorem lastLine_concat (text : List Char) (c : Char) :
    lastLine (text ++ [c]) = if c = '\n' then [] else lastLine text ++ [c] := by
  simp [lastLine, List.rtakeWhile_concat, ite_not]

theorem lastLine_append (free : '\n' ∉ after) :
    lastLine (before ++ after) = lastLine before ++ after := by
  induction after using List.reverseRecOn with
  | nil => simp
  | append_singleton after c ih =>
      rw [List.mem_append, List.mem_singleton, not_or] at free
      rw [← List.append_assoc, lastLine_concat, if_neg (Ne.symm free.2), ih free.1,
        List.append_assoc]

theorem firstLine_append (free : '\n' ∉ before) :
    firstLine (before ++ after) = before ++ firstLine after := by
  refine List.takeWhile_append_of_pos fun c member => decide_eq_true ?_
  rintro rfl
  exact free member

theorem newline_notMem_firstLine (text : List Char) : '\n' ∉ firstLine text := fun member => by
  simpa using List.mem_takeWhile_imp member

theorem newline_notMem_lastLine (text : List Char) : '\n' ∉ lastLine text := fun member => by
  simpa using List.mem_rtakeWhile_imp member

theorem getElem?_splitOn_zero (text : List Char) :
    (text.splitOn '\n')[0]? = some (firstLine text) := by
  induction text with
  | nil => simp [firstLine]
  | cons c text ih =>
      rw [List.splitOn_cons_eq_if_modifyHead, firstLine, List.takeWhile_cons]
      by_cases newline : c = '\n'
      · simp [newline]
      · simp [newline, ih, firstLine]

theorem exists_splitOn (text : List Char) :
    ∃ others, text.splitOn '\n' = firstLine text :: others := by
  have first := getElem?_splitOn_zero text
  cases pieces : text.splitOn '\n' with
  | nil => simp [pieces] at first
  | cons line others =>
      rw [pieces, List.getElem?_cons_zero, Option.some.injEq] at first
      exact ⟨others, by rw [first]⟩

theorem length_splitOn (text : List Char) : (text.splitOn '\n').length = text.count '\n' + 1 := by
  induction text with
  | nil => simp
  | cons c text ih =>
      rw [List.splitOn_cons_eq_if_modifyHead, List.count_cons]
      by_cases newline : c = '\n'
      · simp [newline, ih]
      · simp [newline, ih]

theorem getElem?_splitOn (before after : List Char) :
    ((before ++ after).splitOn '\n')[before.count '\n']? =
      some (lastLine before ++ firstLine after) := by
  induction before using List.reverseRecOn generalizing after with
  | nil => exact getElem?_splitOn_zero after
  | append_singleton before c ih =>
      rw [lastLine_concat, List.append_assoc, List.singleton_append, List.count_append]
      by_cases newline : c = '\n'
      · have behind := getElem?_splitOn_zero after
        rw [newline, List.splitOn_append_cons_self, List.count_singleton_self, if_pos rfl,
          ← length_splitOn, List.getElem?_append_right (Nat.le_refl _), Nat.sub_self, behind,
          List.nil_append]
      · have inside := ih (c :: after)
        have free : '\n' ∉ [c] := by simpa using Ne.symm newline
        rw [← List.singleton_append, firstLine_append free] at inside
        rw [if_neg newline, List.count_eq_zero.2 free, Nat.add_zero, List.append_assoc]
        exact inside

theorem exists_cut {n : Nat} (few : n ≤ text.count '\n') :
    ∃ before after, text = before ++ after ∧ before.count '\n' = n := by
  induction text generalizing n with
  | nil => exact ⟨[], [], rfl, (Nat.le_zero.1 few).symm⟩
  | cons c text ih =>
      cases n with
      | zero => exact ⟨[], c :: text, rfl, rfl⟩
      | succ n =>
          rw [List.count_cons] at few
          by_cases newline : c = '\n'
          · obtain ⟨before, after, rfl, count⟩ := ih (n := n) (by simpa [newline] using few)
            exact ⟨c :: before, after, rfl, by simp [newline, count]⟩
          · obtain ⟨before, after, rfl, count⟩ := ih (n := n + 1) (by simpa [newline] using few)
            exact ⟨c :: before, after, rfl, by simp [newline, count]⟩

theorem ite_getLast?_eq_shown (line : List Char) :
    (if line.getLast? = some '\r' then line.dropLast else line) = shown line := by
  have ends : ['\r'] <:+ line ↔ line.getLast? = some '\r' := by
    rw [List.getLast?_eq_some_iff]
    exact exists_congr fun _ => eq_comm
  simp only [shown, ends]

end Text

namespace Lines

open Text

variable {text before after : List Char} {offset : Nat}

/-! ## Starts of lines -/

theorem startsBehind_append (offset : Nat) (before after : List Char) :
    startsBehind offset (before ++ after) =
      startsBehind offset before ++ startsBehind (offset + byteCount before) after := by
  induction before generalizing offset with
  | nil => simp [startsBehind]
  | cons c before ih =>
      rw [List.cons_append, startsBehind, startsBehind, ih, byteCount_cons, Nat.add_assoc]
      split <;> rfl

theorem length_startsBehind (offset : Nat) (text : List Char) :
    (startsBehind offset text).length = text.count '\n' := by
  induction text generalizing offset with
  | nil => rfl
  | cons c text ih =>
      rw [startsBehind, List.count_cons]
      split <;> simp_all

theorem startsBehind_bounds {start : Nat} (member : start ∈ startsBehind offset text) :
    offset < start ∧ start ≤ offset + byteCount text := by
  induction text generalizing offset with
  | nil => cases member
  | cons c text ih =>
      have := c.utf8Size_pos
      rw [byteCount_cons]
      rw [startsBehind] at member
      split at member
      case isTrue =>
        rcases List.mem_cons.1 member with rfl | behind
        · omega
        · have := ih behind
          omega
      case isFalse =>
        have := ih member
        omega

theorem ofText_starts (before after : List Char) :
    (ofText (before ++ after)).starts =
      (0 :: startsBehind 0 before) ++ startsBehind (byteCount before) after := by
  rw [ofText, startsBehind_append, Nat.zero_add, List.cons_append]

theorem startOf?_count (before after : List Char) :
    (ofText (before ++ after)).startOf? (before.count '\n' + 1) =
      some (byteCount (wholeLines before)) := by
  rw [startOf?, if_neg (Nat.succ_ne_zero _), Nat.add_sub_cancel, ofText_starts,
    List.getElem?_append_left (by simp [length_startsBehind])]
  induction before using List.reverseRecOn with
  | nil => rfl
  | append_singleton before c ih =>
      rw [startsBehind_append, wholeLines_concat, List.count_append, Nat.zero_add, startsBehind,
        startsBehind]
      by_cases newline : c = '\n'
      · simp [newline, ← length_startsBehind 0 before]
      · simpa [newline] using ih

theorem countP_le_append {front back : List Nat} (below : ∀ start ∈ front, start ≤ offset)
    (beyond : ∀ start ∈ back, offset < start) :
    (front ++ back).countP (· ≤ offset) = front.length := by
  rw [List.countP_append, List.countP_eq_length.2 (by simpa using below),
    List.countP_eq_zero.2 (by simpa using beyond), Nat.add_zero]

theorem lineAt_byteCount (before after : List Char) :
    (ofText (before ++ after)).lineAt (byteCount before) = before.count '\n' + 1 := by
  rw [lineAt, ofText_starts, countP_le_append, List.length_cons, length_startsBehind]
  · intro start member
    rcases List.mem_cons.1 member with rfl | behind
    · exact Nat.zero_le _
    · have := startsBehind_bounds behind
      omega
  · exact fun start member => (startsBehind_bounds member).1

theorem ofText_text (text : List Char) : (ofText text).text = text := rfl

theorem position_byteCount (before after : List Char) :
    (ofText (before ++ after)).position (byteCount before) =
      (before.count '\n' + 1, (lastLine before).length + 1) := by
  have stop : byteCount before = byteCount (wholeLines before) + byteCount (lastLine before) := by
    rw [← byteCount_append, wholeLines_append_lastLine]
  have inside : byteCount before ≤ byteCount (before ++ after) := by
    rw [byteCount_append]
    omega
  have cut : slice? (before ++ after) (byteCount (wholeLines before)) (byteCount before) =
      some (lastLine before) := by
    rw [append_eq_wholeLines_append, stop, slice?_append]
  rw [position, lineAt_byteCount, startOf?_count]
  simp only [ofText_text, Option.getD_some, min_eq_left inside, cut]

theorem textOf?_count (before after : List Char) :
    (ofText (before ++ after)).textOf? (before.count '\n' + 1) =
      some (shown (lastLine before ++ firstLine after)) := by
  have rest : dropBytes? (byteCount (wholeLines before)) (before ++ after) =
      some (lastLine before ++ after) := by
    rw [append_eq_wholeLines_append, dropBytes?_append]
  have line := @firstLine_append _ after (newline_notMem_lastLine before)
  rw [firstLine] at line
  simp only [textOf?, startOf?_count, ofText_text, Option.bind_eq_bind, Option.bind_some, rest, line,
    ite_getLast?_eq_shown]
  rfl

theorem newline_notMem_of_textOf? {lines : Lines} {line : Nat} {text : List Char}
    (found : lines.textOf? line = some text) : '\n' ∉ text := by
  simp only [textOf?, Option.bind_eq_bind, Option.bind_eq_some_iff] at found
  obtain ⟨start, -, rest, -, same⟩ := found
  have free := newline_notMem_firstLine rest
  cases same
  split
  · exact fun member => free (List.dropLast_subset _ member)
  · exact free

theorem subset_of_textOf? {lines : Lines} {line : Nat} {text : List Char}
    (found : lines.textOf? line = some text) : text ⊆ lines.text := by
  simp only [textOf?, Option.bind_eq_bind, Option.bind_eq_some_iff] at found
  obtain ⟨start, -, rest, dropped, same⟩ := found
  have whole : rest.takeWhile (· ≠ '\n') ⊆ lines.text :=
    List.Subset.trans (List.takeWhile_subset _) (dropBytes?_suffix dropped).subset
  cases same
  split
  · exact List.Subset.trans (List.dropLast_subset _) whole
  · exact whole

theorem count_ofText (text : List Char) : (ofText text).count = text.count '\n' + 1 := by
  rw [count, ofText, List.length_cons, length_startsBehind]

theorem textOf?_succ (text : List Char) (n : Nat) :
    (ofText text).textOf? (n + 1) = ((text.splitOn '\n')[n]?).map shown := by
  by_cases few : n ≤ text.count '\n'
  · obtain ⟨before, after, rfl, rfl⟩ := exists_cut few
    rw [textOf?_count, getElem?_splitOn, Option.map_some]
  · have lines := count_ofText text
    rw [count] at lines
    have noStart : (ofText text).startOf? (n + 1) = none := by
      rw [startOf?, if_neg (Nat.succ_ne_zero n), Nat.add_sub_cancel]
      exact List.getElem?_eq_none (by omega)
    have noLine : (text.splitOn '\n')[n]? = none := by
      refine List.getElem?_eq_none ?_
      rw [length_splitOn]
      omega
    rw [textOf?, noStart, noLine]
    rfl

/-! ## The table of starts -/

def behindNewlines (offset : Nat) (bytes : List UInt8) : List Nat :=
  (bytes.zipIdx offset).filterMap fun (byte, i) => if byte = newlineByte then some (i + 1) else none

/-- What a search for a number among sorted ones results in: a place of the number, or else the place
at which it belongs. -/
inductive Searches (numbers : List Nat) (wanted : Nat) : Except Nat Nat → Prop
  | found {front back : List Nat} (split : numbers = front ++ wanted :: back) :
      Searches numbers wanted (.ok front.length)
  | missing {front back : List Nat} (split : numbers = front ++ back)
      (below : ∀ number ∈ front, number < wanted) (beyond : ∀ number ∈ back, wanted < number) :
      Searches numbers wanted (.error front.length)

def lineFound : Except Nat Nat → Nat
  | .ok place => place + 1
  | .error place => place - 1 + 1

theorem behindNewlines_append (offset : Nat) (front back : List UInt8) :
    behindNewlines offset (front ++ back) =
      behindNewlines offset front ++ behindNewlines (offset + front.length) back := by
  rw [behindNewlines, List.zipIdx_append, List.filterMap_append, Nat.add_comm]
  rfl

theorem behindNewlines_eq_nil {bytes : List UInt8} (free : newlineByte ∉ bytes) :
    behindNewlines offset bytes = [] := by
  refine List.filterMap_eq_nil_iff.2 fun (byte, i) member => if_neg ?_
  rintro rfl
  exact free (List.fst_mem_of_mem_zipIdx member)

theorem startsBehind_eq_behindNewlines (offset : Nat) (text : List Char) :
    startsBehind offset text = behindNewlines offset (utf8 text) := by
  induction text generalizing offset with
  | nil => rfl
  | cons c text ih =>
      rw [startsBehind, utf8_cons, behindNewlines_append, String.length_utf8EncodeChar, ← ih]
      by_cases newline : c = '\n'
      · rw [if_pos newline, newline, utf8EncodeChar_newline]
        rfl
      · rw [if_neg newline, behindNewlines_eq_nil (newlineByte_notMem_utf8EncodeChar newline),
          List.nil_append]

theorem pairwise_startsBehind (offset : Nat) (text : List Char) :
    (startsBehind offset text).Pairwise (· < ·) := by
  induction text generalizing offset with
  | nil => exact .nil
  | cons c text ih =>
      rw [startsBehind]
      split
      · exact .cons (fun _ member => (startsBehind_bounds member).1) (ih _)
      · exact ih _

theorem pairwise_starts (text : List Char) : (ofText text).starts.Pairwise (· < ·) :=
  .cons (fun _ member => (startsBehind_bounds member).1) (pairwise_startsBehind 0 text)

/-- Wherever a search among the starts ends, it gives the line that holds the offset. -/
theorem lineAt_eq_lineFound {result : Except Nat Nat}
    (searched : Searches (ofText text).starts offset result) :
    (ofText text).lineAt offset = lineFound result := by
  have sorted := pairwise_starts text
  rw [lineAt]
  cases searched with
  | @found front back split =>
      rw [split] at sorted ⊢
      obtain ⟨-, behind, before⟩ := List.pairwise_append.1 sorted
      rw [List.append_cons, countP_le_append, List.length_append]
      · rfl
      · intro start member
        rcases List.mem_append.1 member with member | member
        · exact (before start member offset List.mem_cons_self).le
        · exact (List.mem_singleton.1 member).le
      · exact fun start member => List.rel_of_pairwise_cons behind member
  | @missing front back split below beyond =>
      rw [split, countP_le_append (fun start member => (below start member).le) beyond, lineFound]
      cases front with
      | nil =>
          -- The first line starts at zero, so that no offset stands in front of it.
          have first : 0 ∈ back := by
            rw [← List.nil_append back, ← split]
            exact List.mem_cons_self
          exact absurd (beyond 0 first) (Nat.not_lt_zero offset)
      | cons start front => rfl

/-! ## Places -/

theorem locate_byteCount (before after : List Char) (stop : Nat) :
    (ofText (before ++ after)).locate ⟨byteCount before, stop⟩ =
      ⟨before.count '\n' + 1, (lastLine before).length + 1,
        String.ofList (shown (lastLine before ++ firstLine after))⟩ := by
  rw [locate, position_byteCount]
  simp only [textOf?_count, Option.getD_some]

theorem position_append_lt {more : List Char} (nonempty : more ≠ []) :
    toLex (before.count '\n' + 1, (lastLine before).length + 1) <
      toLex ((before ++ more).count '\n' + 1, (lastLine (before ++ more)).length + 1) := by
  rw [Prod.Lex.toLex_lt_toLex, List.count_append]
  by_cases newline : '\n' ∈ more
  · have := List.count_pos_iff.2 newline
    left
    omega
  · have := List.length_pos_of_ne_nil nonempty
    rw [List.count_eq_zero.2 newline, lastLine_append newline, List.length_append]
    right
    omega

theorem exists_append_of_cutAt {first second : Nat} {before' after' : List Char}
    (cut : CutAt text first before after) (cut' : CutAt text second before' after')
    (less : first < second) : ∃ more, more ≠ [] ∧ before' = before ++ more := by
  have whole : before ++ after = before' ++ after' := cut.split.symm.trans cut'.split
  rw [cut.offset_eq, cut'.offset_eq] at less
  rcases List.append_eq_append_iff.1 whole with ⟨more, rfl, -⟩ | ⟨more, rfl, -⟩
  · refine ⟨more, ?_, rfl⟩
    rintro rfl
    simp at less
  · rw [byteCount_append] at less
    omega

theorem toLex_position_lt {first second : Nat} {before' after' : List Char}
    (cut : CutAt text first before after) (cut' : CutAt text second before' after')
    (less : first < second) :
    toLex ((ofText text).position first) < toLex ((ofText text).position second) := by
  obtain ⟨more, nonempty, rfl⟩ := exists_append_of_cutAt cut cut' less
  have place := position_byteCount before after
  have place' := position_byteCount (before ++ more) after'
  rw [← cut.split, ← cut.offset_eq] at place
  rw [← cut'.split, ← cut'.offset_eq] at place'
  rw [place, place']
  exact position_append_lt nonempty

theorem position_le (cut : CutAt text offset before after) :
    ((ofText text).position offset).1 ≤ byteCount text + 1 ∧
      ((ofText text).position offset).2 ≤ byteCount text + 1 := by
  obtain ⟨rfl, rfl⟩ := cut
  have newlines := @List.count_le_length _ _ '\n' before
  have column : (lastLine before).length ≤ before.length :=
    (List.rtakeWhile_suffix _ before).length_le
  have characters := length_le_byteCount before
  rw [position_byteCount, byteCount_append]
  exact ⟨by omega, by omega⟩

theorem le_byteCount_of_mem_starts {start : Nat} (member : start ∈ (ofText text).starts) :
    start ≤ byteCount text := by
  rcases List.mem_cons.1 member with rfl | behind
  · exact Nat.zero_le _
  · have := startsBehind_bounds behind
    omega

/-- An offset between two characters stands on the line that the newline bytes in front of it count,
in the column that the characters behind the last of them count, and later offsets have later places.
The lines are the pieces of the text between its newlines, each shown without one carriage return at
its end. Their starts are found among the bytes, and an offset's line by any search among the starts.
All of these numbers have 32 bits if the text is shorter than the greatest such number. -/
theorem position_counts (text : List Char) :
    ((ofText text).starts = 0 :: behindNewlines 0 (utf8 text) ∧
      ∀ offset result, Searches (ofText text).starts offset result →
        (ofText text).lineAt offset = lineFound result) ∧
    (∀ {offset : Nat} {before after : List Char}, CutAt text offset before after →
      let newlines := ((utf8 text).take offset).count newlineByte
      (ofText text).position offset = (newlines + 1, (lastLine before).length + 1) ∧
      (text.splitOn '\n')[newlines]? = some (lastLine before ++ firstLine after) ∧
      ∀ stop, (ofText text).locate ⟨offset, stop⟩ =
        ⟨newlines + 1, (lastLine before).length + 1,
          String.ofList (shown (lastLine before ++ firstLine after))⟩) ∧
    (∀ n, (ofText text).textOf? (n + 1) = ((text.splitOn '\n')[n]?).map shown) ∧
    (ofText text).count = (utf8 text).count newlineByte + 1 ∧
    (∀ {first second : Nat} {before after before' after' : List Char},
      CutAt text first before after → CutAt text second before' after' → first < second →
        toLex ((ofText text).position first) < toLex ((ofText text).position second)) ∧
    ((utf8 text).length < UInt32.size - 1 →
      (∀ start ∈ (ofText text).starts, start < UInt32.size) ∧
      ∀ {offset : Nat} {before after : List Char}, CutAt text offset before after →
        ((ofText text).position offset).1 < UInt32.size ∧
          ((ofText text).position offset).2 < UInt32.size) := by
  refine ⟨⟨?_, fun _ _ => lineAt_eq_lineFound⟩, ?_, textOf?_succ text, ?_, ?_, fun short => ?_⟩
  · rw [← startsBehind_eq_behindNewlines, ofText]
  · rintro offset before after ⟨rfl, rfl⟩ newlines
    have counted : newlines = before.count '\n' := by
      rw [← count_utf8, ← take_utf8 before after]
    rw [counted]
    exact ⟨position_byteCount before after, getElem?_splitOn before after,
      locate_byteCount before after⟩
  · rw [count_ofText, count_utf8]
  · exact fun cut cut' => toLex_position_lt cut cut'
  · rw [length_utf8] at short
    refine ⟨fun start member => ?_, fun cut => ?_⟩
    · have := le_byteCount_of_mem_starts member
      omega
    · have := position_le cut
      omega

theorem position_counts_crlf :
    let text := "ñ\r\n = 1;".toList
    CutAt text 3 "ñ\r".toList "\n = 1;".toList ∧ CutAt text 4 "ñ\r\n".toList " = 1;".toList ∧
      Searches (ofText text).starts 3 (.error 1) ∧ (ofText text).lineAt 3 = 1 ∧
      Searches (ofText text).starts 4 (.ok 1) ∧ (ofText text).lineAt 4 = 2 ∧
      (ofText text).position 3 = (1, 3) ∧ (ofText text).position 4 = (2, 1) ∧
      (ofText text).locate ⟨3, 4⟩ = ⟨1, 3, "ñ"⟩ ∧
      toLex ((ofText text).position 3) < toLex ((ofText text).position 4) ∧
      (utf8 text).length = 9 ∧ ((ofText text).position 4).1 < UInt32.size := by
  intro text
  have first : CutAt text 3 "ñ\r".toList "\n = 1;".toList := ⟨by decide, by decide⟩
  have second : CutAt text 4 "ñ\r\n".toList " = 1;".toList := ⟨by decide, by decide⟩
  have behind : Searches (ofText text).starts 3 (.error 1) :=
    @Searches.missing _ _ [0] [4] (by decide) (by decide) (by decide)
  have there : Searches (ofText text).starts 4 (.ok 1) :=
    @Searches.found _ _ [0] [] (by decide)
  have length : (utf8 text).length = 9 := by decide
  obtain ⟨⟨-, found⟩, places, -, -, later, fits⟩ := position_counts text
  obtain ⟨place, -, located⟩ := places first
  exact ⟨first, second, behind, found 3 _ behind, there, found 4 _ there, place, (places second).1,
    located 4, later first second (by decide), length, ((fits (by rw [length]; decide)).2 second).1⟩

end Lines

end Salita
