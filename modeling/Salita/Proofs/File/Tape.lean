import Salita.Proofs.File.Handle

/-!
# Open files as bytes with a cursor

A stream holds bytes that it has read ahead, and gives them back before a write. Main statements: a
file that is open reads and writes as the bytes of the file with a single cursor do.
-/

namespace Salita

structure Tape where
  content : List UInt8
  cursor : Nat

namespace Tape

def behind (tape : Tape) : List UInt8 := tape.content.drop tape.cursor

def lineOf (bytes : List UInt8) : List UInt8 :=
  bytes.take ((bytes.takeWhile (· ≠ 10)).length + 1)

def readLine (tape : Tape) : List UInt8 × Tape :=
  let line := lineOf tape.behind
  (line, { tape with cursor := tape.cursor + line.length })

def readRest (tape : Tape) : List UInt8 × Tape :=
  (tape.behind, { tape with cursor := tape.content.length })

def write (append : Bool) (written : List UInt8) (tape : Tape) : Tape :=
  if written = [] then tape
  else
    let start := if append then tape.content.length else tape.cursor
    ⟨tape.content.take start ++ written ++ tape.content.drop (start + written.length),
      start + written.length⟩

end Tape

/-- The stream has read ahead what stands behind the cursor, and nothing else. -/
structure Stream.Follows (s : Stream) (tape : Tape) : Prop where
  position : s.position = tape.cursor + s.ahead.length
  ahead : s.ahead <+: tape.behind
  bounded : tape.cursor ≤ tape.content.length

namespace Tape

section
variable {front : List UInt8}

theorem lineOf_cons (b : UInt8) (bytes : List UInt8) :
    lineOf (b :: bytes) = if b = 10 then [b] else b :: lineOf bytes := by
  by_cases newline : b = 10
  · simp [lineOf, newline]
  · simp [lineOf, newline]

theorem lineOf_append_of_mem (newline : 10 ∈ front) (bytes : List UInt8) :
    lineOf (front ++ bytes) = lineOf front := by
  induction front with
  | nil => cases newline
  | cons b front ih =>
      rw [List.cons_append, lineOf_cons, lineOf_cons]
      split
      case isTrue => rfl
      case isFalse other =>
        have later := (List.mem_cons.1 newline).resolve_left (Ne.symm other)
        rw [ih later]

theorem lineOf_append_of_notMem (free : 10 ∉ front) (bytes : List UInt8) :
    lineOf (front ++ bytes) = front ++ lineOf bytes := by
  induction front with
  | nil => rfl
  | cons b front ih =>
      obtain ⟨other, later⟩ := List.ne_and_not_mem_of_not_mem_cons free
      rw [List.cons_append, lineOf_cons, if_neg other.symm, ih later, List.cons_append]

end

theorem lineOf_isPrefix (bytes : List UInt8) : lineOf bytes <+: bytes := List.take_prefix _ _

theorem readLine_append_behind (tape : Tape) :
    tape.readLine.1 ++ tape.readLine.2.behind = tape.behind := by
  have moved : tape.readLine.2.behind = tape.behind.drop (lineOf tape.behind).length :=
    List.drop_drop.symm
  rw [moved]
  exact List.prefix_iff_eq_append.1 (lineOf_isPrefix tape.behind)

end Tape

namespace Stream

theorem cutLine_eq_none {bytes : List UInt8} (none : cutLine bytes = none) : 10 ∉ bytes := by
  induction bytes with
  | nil => exact List.not_mem_nil
  | cons b bytes ih =>
      rw [cutLine] at none
      split at none
      case isTrue => cases none
      case isFalse other =>
        rw [Option.map_eq_none_iff] at none
        exact List.not_mem_cons_of_ne_of_not_mem (Ne.symm other) (ih none)

theorem cutLine_eq_some {bytes line rest : List UInt8} (cut : cutLine bytes = some (line, rest)) :
    bytes = line ++ rest ∧ line = Tape.lineOf bytes ∧ 10 ∈ bytes := by
  induction bytes generalizing line with
  | nil => cases cut
  | cons b bytes ih =>
      rw [cutLine] at cut
      rw [Tape.lineOf_cons]
      split at cut
      case isTrue newline =>
        cases cut
        rw [if_pos newline, newline]
        exact ⟨rfl, rfl, List.mem_cons_self⟩
      case isFalse other =>
        obtain ⟨⟨found, behind⟩, cut, same⟩ := Option.map_eq_some_iff.1 cut
        cases same
        obtain ⟨split, exact, newline⟩ := ih cut
        rw [if_neg other, ← exact, List.cons_append, ← split]
        exact ⟨rfl, rfl, List.mem_cons_of_mem b newline⟩

theorem toList_extract_size (content : Bytes) (start : Nat) :
    (content.extract start content.size).toList = content.toList.drop start := by
  rw [Array.toList_extract, List.extract_eq_take_drop, ← Array.length_toList,
    List.take_of_length_le (Nat.le_of_eq List.length_drop)]

/-! ## Reading -/

section
variable {content : Bytes} {s : Stream} {tape : Tape}

theorem Follows.fill (same : tape.content = content.toList) (follows : s.Follows tape) :
    (s.fill content).Follows tape ∧ ((s.fill content).ahead = [] → tape.behind = []) := by
  unfold Stream.fill
  split
  case isFalse nonempty =>
    refine ⟨follows, fun none => ?_⟩
    rw [none] at nonempty
    exact absurd rfl nonempty
  case isTrue empty =>
    have none : s.ahead = [] := List.isEmpty_iff.1 empty
    have position : s.position = tape.cursor := by rw [follows.position, none]; rfl
    have block : (content.extract s.position (s.position + blockSize)).toList =
        tape.behind.take blockSize := by
      rw [Array.toList_extract, List.extract_eq_take_drop, ← same, position,
        Nat.add_sub_cancel_left]
      rfl
    refine ⟨⟨?_, ?_, follows.bounded⟩, fun nothing => ?_⟩
    · dsimp only
      rw [Array.length_toList, position]
    · dsimp only
      rw [block]
      exact List.take_prefix _ _
    · dsimp only at nothing
      rw [block] at nothing
      exact (List.take_eq_nil_iff.1 nothing).resolve_left (by decide)

theorem Follows.past {line rest : List UInt8} (follows : s.Follows tape)
    (split : s.ahead = line ++ rest) :
    Follows ⟨s.position, rest⟩ { tape with cursor := tape.cursor + line.length } := by
  obtain ⟨more, whole⟩ := follows.ahead
  have position := follows.position
  rw [split, List.length_append] at position
  have length := congrArg List.length whole
  rw [split, Tape.behind, List.length_append, List.length_append, List.length_drop] at length
  refine ⟨?_, ⟨more, ?_⟩, ?_⟩
  · dsimp only
    omega
  · rw [split, Tape.behind] at whole
    rw [Tape.behind, ← List.drop_drop, ← whole, List.append_assoc, List.drop_left]
  · have := follows.bounded
    dsimp only
    omega

/-- Blocks are read until one has a newline, and there are enough of them as each but the last one
moves the cursor. -/
theorem Follows.readLine (same : tape.content = content.toList) {blocks : Nat}
    (enough : tape.content.length - tape.cursor < blocks) (follows : s.Follows tape) :
    (s.readLine content blocks).1 = tape.readLine.1 ∧
      (s.readLine content blocks).2.Follows tape.readLine.2 := by
  induction blocks generalizing s tape with
  | zero => exact absurd enough (Nat.not_lt_zero _)
  | succ blocks ih =>
      obtain ⟨follows, ends⟩ := follows.fill same
      rw [Stream.readLine]
      dsimp only
      generalize s.fill content = s at follows ends
      split
      case isTrue empty =>
        have none := List.isEmpty_iff.1 empty
        rw [Tape.readLine, ends none]
        exact ⟨rfl, follows⟩
      case isFalse nonempty =>
        obtain ⟨more, whole⟩ := follows.ahead
        cases cut : cutLine s.ahead with
        | some found =>
            obtain ⟨line, rest⟩ := found
            obtain ⟨split, exact, newline⟩ := cutLine_eq_some cut
            have read : line = Tape.lineOf tape.behind := by
              rw [← whole, Tape.lineOf_append_of_mem newline, exact]
            rw [Tape.readLine, ← read]
            exact ⟨rfl, follows.past split⟩
        | none =>
            have free := cutLine_eq_none cut
            have moved := follows.past (List.append_nil s.ahead).symm
            have length : 0 < s.ahead.length :=
              List.length_pos_iff.2 fun none => nonempty (by rw [none]; rfl)
            let past : Tape := { tape with cursor := tape.cursor + s.ahead.length }
            have next : past.behind = more := by
              rw [Tape.behind, ← List.drop_drop, ← Tape.behind, ← whole, List.drop_left]
            have read : Tape.lineOf tape.behind = s.ahead ++ Tape.lineOf more := by
              rw [← whole, Tape.lineOf_append_of_notMem free]
            have reached : tape.cursor + s.ahead.length ≤ tape.content.length := moved.bounded
            have fewer : past.content.length - past.cursor < blocks := by
              show tape.content.length - (tape.cursor + s.ahead.length) < blocks
              omega
            have kept : past.content = content.toList := same
            obtain ⟨line, after⟩ := ih kept fewer moved
            rw [Tape.readLine, next] at line after
            rw [Tape.readLine, read, line, List.length_append, ← Nat.add_assoc]
            exact ⟨rfl, after⟩

theorem Follows.readRest (same : tape.content = content.toList) (follows : s.Follows tape) :
    (s.readRest content).1 = tape.readRest.1 ∧ (s.readRest content).2.Follows tape.readRest.2 := by
  obtain ⟨more, whole⟩ := follows.ahead
  have size : content.size = tape.content.length := by rw [same, Array.length_toList]
  have length := congrArg List.length whole
  rw [Tape.behind, List.length_append, List.length_drop] at length
  have position := follows.position
  have bounded := follows.bounded
  refine ⟨?_, ⟨?_, List.nil_prefix, Nat.le_refl _⟩⟩
  · have rest : (content.extract s.position content.size).toList = more := by
      rw [toList_extract_size, ← same, position, ← List.drop_drop, ← Tape.behind, ← whole,
        List.drop_left]
    rw [Stream.readRest, rest, whole]
    rfl
  · rw [Stream.readRest, Tape.readRest]
    dsimp only
    rw [List.length_nil]
    omega

/-! ## Writing -/

theorem Follows.write (same : tape.content = content.toList) (append : Bool) (written : Bytes)
    (follows : s.Follows tape) :
    (s.write append written content).1.toList = (tape.write append written.toList).content ∧
      (s.write append written content).2.Follows (tape.write append written.toList) := by
  have position : s.position - s.ahead.length = tape.cursor := by
    rw [follows.position, Nat.add_sub_cancel]
  have bounded := follows.bounded
  have size : content.size = tape.content.length := by rw [same, Array.length_toList]
  rw [Stream.write, Tape.write, position]
  dsimp only
  by_cases none : written.toList = []
  · rw [if_pos none, if_pos (by simpa using none)]
    exact ⟨same.symm, ⟨rfl, List.nil_prefix, bounded⟩⟩
  · rw [if_neg none, if_neg (by simpa using none), size, Array.length_toList]
    generalize start : (if append then tape.content.length else tape.cursor) = place
    have inside : place ≤ tape.content.length := by
      rw [← start]
      split <;> omega
    refine ⟨?_, ⟨rfl, List.nil_prefix, ?_⟩⟩
    · have gap : place - content.size = 0 := by omega
      have behind : (content.extract (place + written.size) content.size).toList =
          tape.content.drop (place + written.size) := by
        rw [toList_extract_size, same]
      rw [overwrite, gap]
      simp only [Array.toList_append, Array.toList_shrink, Array.toList_replicate,
        List.replicate_zero, List.append_nil, behind, ← same]
    · simp only [List.length_append, List.length_take, Array.length_toList]
      omega

end

end Stream

/-! ## Bytes of texts -/

namespace Bytes

theorem toText?_eq_some_iff {bytes : Bytes} {text : String} :
    toText? bytes = some text ↔ ofText text = bytes := by
  unfold toText? ofText String.fromUTF8?
  constructor
  · intro found
    split at found
    · cases found
      rfl
    · cases found
  · rintro rfl
    have valid : ByteArray.IsValidUTF8 ⟨text.toUTF8.data⟩ := text.isValidUTF8
    rw [dif_pos valid]
    rfl

theorem ofText_append (first second : String) :
    ofText (first ++ second) = ofText first ++ ofText second := by
  unfold ofText String.toUTF8
  rw [String.toByteArray_append, ByteArray.data_append]

end Bytes

/-! ## Files of a table -/

namespace Disk

variable {α : Type} {disk : Disk} {place : Place} {content : Bytes}

theorem bytes_of_file (there : disk.node? place = some (.file content)) :
    disk.bytes place = content := by
  rw [bytes, there]
  rfl

theorem not_isDirectory_of_file (there : disk.node? place = some (.file content)) :
    disk.isDirectory place = false := by
  rw [isDirectory, there]
  rfl

theorem lookup_updateNode (step : Bytes → Bytes × α) {nodes : List (Place × Node)}
    (there : nodes.lookup place = some (.file content)) :
    (updateNode place step nodes).1.lookup place = some (.file (step content).1) ∧
      (updateNode place step nodes).2 = (step content).2 := by
  induction nodes with
  | nil => cases there
  | cons entry nodes ih =>
      obtain ⟨other, node⟩ := entry
      rw [List.lookup_cons] at there
      rw [updateNode]
      split
      case isTrue same =>
        subst same
        rw [beq_self_eq_true] at there
        cases there
        exact ⟨by simp [Node.bytes], rfl⟩
      case isFalse distinct =>
        rw [beq_eq_false_iff_ne.2 (Ne.symm distinct)] at there
        obtain ⟨found, result⟩ := ih there
        refine ⟨?_, result⟩
        dsimp only
        rw [List.lookup_cons, beq_eq_false_iff_ne.2 (Ne.symm distinct)]
        exact found

theorem update_of_file (step : Bytes → Bytes × α)
    (there : disk.node? place = some (.file content)) :
    (disk.update place step).1.node? place = some (.file (step content).1) ∧
      (disk.update place step).2 = (step content).2 := by
  rw [node?] at there ⊢
  split at there
  case isTrue => cases there
  case isFalse apart =>
    rw [if_neg apart]
    exact lookup_updateNode step there

end Disk

namespace FileTable

/-- The file at the place is open in the mode, and it is such bytes with such a cursor. -/
structure Holds (table : FileTable) (file : FileRef) (place : Place) (mode : FileMode)
    (tape : Tape) : Prop where
  handle : ∃ s, table.handle? file.index = some ⟨place, mode, some s⟩ ∧ s.Follows tape
  node : table.disk.node? place = some (.file tape.content.toArray)

variable {table : FileTable} {file : FileRef} {place : Place} {mode : FileMode} {tape : Tape}

def textOf (bytes : List UInt8) : Except FileError String :=
  match Bytes.toText? bytes.toArray with
  | some text => .ok text
  | none => .error (.system .notUtf8)

theorem textOf_ofText (text : String) : textOf (Bytes.ofText text).toList = .ok text := by
  rw [textOf, Array.toArray_toList, Bytes.toText?_eq_some_iff.2 rfl]

theorem readBy_of_handle {s : Stream} {content : Bytes}
    (there : table.handle? file.index = some ⟨place, mode, some s⟩)
    (node : table.disk.node? place = some (.file content)) (readable : mode.isReadable = true)
    (step : Bytes → Stream → List UInt8 × Stream) :
    table.readBy step file =
      (textOf (step content s).1, table.setStream file (some (step content s).2)) := by
  rw [readBy, stream_of_handle there rfl]
  simp only [readable, Bool.not_true, Bool.false_eq_true, if_false,
    Disk.not_isDirectory_of_file node, Disk.bytes_of_file node, textOf]
  cases Bytes.toText? (step content s).1.toArray <;> rfl

theorem Holds.readBy (holds : table.Holds file place mode tape) (readable : mode.isReadable = true)
    {step : Bytes → Stream → List UInt8 × Stream} {read : List UInt8 × Tape}
    (reads : ∀ s : Stream, s.Follows tape → (step tape.content.toArray s).1 = read.1 ∧
      (step tape.content.toArray s).2.Follows read.2)
    (unchanged : read.2.content = tape.content) :
    ∃ next, table.readBy step file = (textOf read.1, next) ∧ next.Holds file place mode read.2 := by
  obtain ⟨⟨s, there, follows⟩, node⟩ := holds
  obtain ⟨bytes, after⟩ := reads s follows
  refine ⟨table.setStream file (some (step tape.content.toArray s).2), ?_, ?_, ?_⟩
  · rw [readBy_of_handle there node readable, bytes]
  · refine ⟨_, ?_, after⟩
    rw [handle?_setStream, if_pos rfl, there]
    rfl
  · rw [unchanged]
    exact node

theorem Holds.readLine (holds : table.Holds file place mode tape)
    (readable : mode.isReadable = true) :
    ∃ next, table.readLine file = (textOf tape.readLine.1, next) ∧
      next.Holds file place mode tape.readLine.2 := by
  refine holds.readBy readable (fun s follows => ?_) rfl
  refine follows.readLine rfl ?_
  rw [List.size_toArray]
  omega

theorem Holds.readRest (holds : table.Holds file place mode tape)
    (readable : mode.isReadable = true) :
    ∃ next, table.readRest file = (textOf tape.readRest.1, next) ∧
      next.Holds file place mode tape.readRest.2 :=
  holds.readBy readable (fun _ follows => follows.readRest rfl) rfl

theorem Holds.write (holds : table.Holds file place mode tape)
    (writable : mode.isWritable = true) (text : String) :
    ∃ next, table.write file text = (.ok (), next) ∧
      next.Holds file place mode
        (tape.write (mode.access == .append) (Bytes.ofText text).toList) := by
  obtain ⟨⟨s, there, follows⟩, node⟩ := holds
  let step := s.write (mode.access == .append) (Bytes.ofText text)
  have same : tape.content = tape.content.toArray.toList := rfl
  obtain ⟨content, after⟩ := follows.write same (mode.access == .append) (Bytes.ofText text)
  obtain ⟨found, result⟩ := Disk.update_of_file step node
  obtain ⟨disk, handles⟩ := table
  let changed : FileTable := ⟨(disk.update place step).1, handles⟩
  refine ⟨changed.setStream file (some (disk.update place step).2), ?_, ?_, ?_⟩
  · rw [FileTable.write, stream_of_handle there rfl]
    simp only [writable, Bool.not_true, Bool.false_eq_true, if_false]
    rfl
  · refine ⟨_, ?_, result ▸ after⟩
    rw [handle?_setStream, if_pos rfl, show changed.handle? file.index = _ from there, result]
    rfl
  · rw [← content, Array.toArray_toList]
    exact found

theorem holds_openFile {path : String} {opened : FileRef} {next : FileTable}
    (done : table.openFile path mode = .ok (opened, next)) :
    ∃ place, (∃ handle, next.handle? opened.index = some handle ∧ handle.place = place) ∧
      ∀ content, next.disk.node? place = some (.file content) →
        next.Holds opened place mode ⟨content.toList, 0⟩ := by
  unfold openFile at done
  cases target : table.disk.opened path mode with
  | error e =>
      rw [target] at done
      cases done
  | ok found =>
      obtain ⟨place, disk⟩ := found
      rw [target] at done
      cases done
      let handle : Handle := ⟨place, mode, some ⟨0, []⟩⟩
      have there : (table.handles.push handle)[table.handles.size]? = some handle :=
        Array.getElem?_push_size
      refine ⟨place, ⟨_, there, rfl⟩, fun content node => ⟨⟨_, there, ?_⟩, node⟩⟩
      exact ⟨rfl, List.nil_prefix, Nat.zero_le _⟩

end FileTable

end Salita
