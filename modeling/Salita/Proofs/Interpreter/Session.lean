import Salita.Proofs.File.Tape
import Salita.Proofs.Interpreter.Closing

namespace Salita

inductive Transfer where
  | line
  | rest
  | write (text : String)

namespace Transfer

def name : Transfer → String
  | .line => "linya"
  | .rest => "basahin"
  | .write _ => "isulat"

def args (file : FileRef) : Transfer → List Value
  | .line | .rest => [.file file]
  | .write text => [.file file, .str text]

def modes : Transfer → List String
  | .line | .rest => ["r", "r+", "w+", "a+"]
  | .write _ => ["r+", "w", "w+", "a", "a+"]

def Gives (read : List UInt8) : Transfer → Value → Prop
  | .line, value | .rest, value => ∃ text, value = .str text ∧ (Bytes.ofText text).toList = read
  | .write _, value => value = .void

end Transfer

namespace Tape

def next (append : Bool) : Transfer → Tape → List UInt8 × Tape
  | .line, tape => tape.readLine
  | .rest, tape => tape.readRest
  | .write text, tape => ([], tape.write append (Bytes.ofText text).toList)

/-- The values are given one after the other, and leave such bytes with such a cursor. -/
inductive Runs (append : Bool) : Tape → List (Transfer × Value) → Tape → Prop
  | nil (tape : Tape) : Runs append tape [] tape
  | cons {tape last : Tape} {transfer : Transfer} {value : Value}
      {others : List (Transfer × Value)} (gives : transfer.Gives (tape.next append transfer).1 value)
      (rest : Runs append (tape.next append transfer).2 others last) :
      Runs append tape ((transfer, value) :: others) last

end Tape

namespace Machine

def Answers (m : Machine) (file : FileRef) (transfer : Transfer) (value : Value) (n : Machine) :
    Prop :=
  ∃ f, Registry.standard.get? transfer.name = some f ∧
    Exec.call f (transfer.args file) m = .ok value n

structure Untouched (file : FileRef) (place : Place) (m n : Machine) : Prop where
  handle : n.store.files.handle? file.index = m.store.files.handle? file.index
  node : n.store.files.disk.node? place = m.store.files.disk.node? place

inductive Session (file : FileRef) (place : Place) :
    Machine → List (Transfer × Value) → Machine → Prop
  | nil (m : Machine) : Session file place m [] m
  | call {m mid n : Machine} {transfer : Transfer} {value : Value}
      {others : List (Transfer × Value)} (answers : m.Answers file transfer value mid)
      (rest : Session file place mid others n) : Session file place m ((transfer, value) :: others) n
  | elsewhere {m mid n : Machine} {others : List (Transfer × Value)}
      (untouched : m.Untouched file place mid) (rest : Session file place mid others n) :
      Session file place m others n

end Machine

theorem FileMode.isReadable_iff (mode : FileMode) :
    mode.isReadable = true ↔ mode.text ∈ ["r", "r+", "w+", "a+"] := by
  obtain ⟨access, update⟩ := mode
  cases access <;> cases update <;> decide

theorem FileMode.isWritable_iff (mode : FileMode) :
    mode.isWritable = true ↔ mode.text ∈ ["r+", "w", "w+", "a", "a+"] := by
  obtain ⟨access, update⟩ := mode
  cases access <;> cases update <;> decide

theorem FileMode.append_iff (mode : FileMode) :
    (mode.access == .append) = decide (mode.text ∈ ["a", "a+"]) := by
  obtain ⟨access, update⟩ := mode
  cases access <;> cases update <;> decide

namespace Machine

section
variable {α : Type} {m n : Machine} {f : Native} {args : List Value} {files : FileTable}
  {operation : FileTable → Except FileError α × FileTable} {value : α → Value}

def withFiles (m : Machine) (files : FileTable) : Machine :=
  ⟨m.env, { m.store with files := files }⟩

theorem call_of_operation {a : α}
    (runs : f.call args m.store = (Eval.onFiles operation >>= fun a => pure (value a)) m.store)
    (done : operation m.store.files = (.ok a, files)) :
    Exec.call f args m = .ok (value a) (m.withFiles files) := by
  have called : f.call args m.store = .ok (value a) { m.store with files := files } := by
    rw [runs]
    exact bind_eq_ok.2 ⟨a, { m.store with files := files }, Eval.onFiles_of_done done, rfl⟩
  simp only [Exec.call, Exec.ofEval, called]
  rfl

theorem call_of_refused {error : FileError}
    (runs : f.call args m.store = (Eval.onFiles operation >>= fun a => pure (value a)) m.store)
    (refused : operation m.store.files = (.error error, files)) :
    ∃ stop n, Exec.call f args m = .error stop n := by
  have called : f.call args m.store =
      .error { cause := .transfer (.file error) } { m.store with files := files } := by
    rw [runs]
    exact bind_eq_error.2 (.inl (Eval.onFiles_of_refused refused))
  refine ⟨.error { cause := .transfer (.file error) }, m.withFiles files, ?_⟩
  simp only [Exec.call, Exec.ofEval, called]
  rfl

end

def IsText (read : List UInt8) : Prop := ∃ text, (Bytes.ofText text).toList = read

theorem textOf_cases (read : List UInt8) :
    (∃ text, FileTable.textOf read = .ok text ∧ (Bytes.ofText text).toList = read) ∨
      ¬ IsText read ∧ FileTable.textOf read = .error (.system .notUtf8) := by
  unfold FileTable.textOf
  cases found : Bytes.toText? read.toArray with
  | some text =>
      rw [Bytes.toText?_eq_some_iff] at found
      exact .inl ⟨text, rfl, by rw [found, List.toList_toArray]⟩
  | none =>
      refine .inr ⟨fun ⟨text, same⟩ => ?_, rfl⟩
      rw [← same, Array.toArray_toList, Bytes.toText?_eq_some_iff.2 rfl] at found
      cases found

section
variable {m n : Machine} {file : FileRef} {place : Place} {mode : FileMode} {tape : Tape}

def Meets (m : Machine) (file : FileRef) (place : Place) (mode : FileMode) (tape : Tape)
    (transfer : Transfer) (f : Native) : Prop :=
  let next := tape.next (mode.access == .append) transfer
  (mode.text ∈ transfer.modes ∧ ∃ value n, Exec.call f (transfer.args file) m = .ok value n ∧
    transfer.Gives next.1 value ∧ n.store.files.Holds file place mode next.2) ∨
  ¬ (mode.text ∈ transfer.modes ∧ IsText next.1) ∧
    ∃ stop n, Exec.call f (transfer.args file) m = .error stop n

theorem meets_reading {transfer : Transfer} {f : Native}
    (operation : FileTable → Except FileError String × FileTable)
    (modes : transfer.modes = Transfer.line.modes)
    (gives : ∀ read text, (Bytes.ofText text).toList = read → transfer.Gives read (.str text))
    (runs : f.call (transfer.args file) m.store =
      (Eval.onFiles operation >>= fun text => pure (.str text)) m.store)
    (reads : mode.isReadable = true → ∃ files, operation m.store.files =
      (FileTable.textOf (tape.next (mode.access == .append) transfer).1, files) ∧
        files.Holds file place mode (tape.next (mode.access == .append) transfer).2)
    (refuses : mode.isReadable = false →
      operation m.store.files = (.error .notReadable, m.store.files)) :
    Meets m file place mode tape transfer f := by
  have allowed := mode.isReadable_iff
  unfold Meets
  rw [modes]
  cases readable : mode.isReadable with
  | false =>
      rw [readable] at allowed
      exact .inr ⟨fun both => Bool.false_ne_true (allowed.2 both.1),
        call_of_refused runs (refuses readable)⟩
  | true =>
      obtain ⟨files, read, after⟩ := reads readable
      rcases textOf_cases (tape.next (mode.access == .append) transfer).1 with
        ⟨text, found, bytes⟩ | ⟨noText, failed⟩
      · rw [found] at read
        exact .inl ⟨allowed.1 readable, _, _, call_of_operation runs read, gives _ _ bytes, after⟩
      · rw [failed] at read
        exact .inr ⟨fun both => noText both.2, call_of_refused runs read⟩

theorem meets_write (holds : m.store.files.Holds file place mode tape) (text : String) :
    Meets m file place mode tape (.write text) ⟨"isulat", .exact 2, .isulat⟩ := by
  have runs : Native.call ⟨"isulat", .exact 2, .isulat⟩ [.file file, .str text] m.store =
      (Eval.onFiles (·.write file text) >>= fun _ => pure .void) m.store := rfl
  have allowed := mode.isWritable_iff
  obtain ⟨s, there, -⟩ := holds.handle
  cases writable : mode.isWritable with
  | false =>
      rw [writable] at allowed
      exact .inr ⟨fun both => Bool.false_ne_true (allowed.2 both.1),
        call_of_refused runs (FileTable.write_of_not_writable text there rfl writable)⟩
  | true =>
      obtain ⟨files, written, after⟩ := holds.write writable text
      exact .inl ⟨allowed.1 writable, .void, _, call_of_operation runs written, rfl, after⟩

theorem exists_meets (holds : m.store.files.Holds file place mode tape) (transfer : Transfer) :
    ∃ f, Registry.standard.get? transfer.name = some f ∧
      Meets m file place mode tape transfer f := by
  have refused step : mode.isReadable = false →
      m.store.files.readBy step file = (.error .notReadable, m.store.files) := by
    obtain ⟨⟨s, there, -⟩, -⟩ := holds
    exact FileTable.readBy_of_not_readable step there rfl
  cases transfer with
  | line =>
      refine ⟨⟨"linya", .exact 1, .linya⟩, rfl, meets_reading (·.readLine file) rfl ?_ rfl
        holds.readLine (refused _)⟩
      exact fun read text bytes => ⟨text, rfl, bytes⟩
  | rest =>
      refine ⟨⟨"basahin", .exact 1, .basahin⟩, rfl, meets_reading (·.readRest file) rfl ?_ rfl
        holds.readRest (refused _)⟩
      exact fun read text bytes => ⟨text, rfl, bytes⟩
  | write text => exact ⟨⟨"isulat", .exact 2, .isulat⟩, rfl, meets_write holds text⟩

theorem answers_of_holds (holds : m.store.files.Holds file place mode tape) {transfer : Transfer}
    (allowed : mode.text ∈ transfer.modes)
    (reads : IsText (tape.next (mode.access == .append) transfer).1) :
    ∃ value n, m.Answers file transfer value n := by
  obtain ⟨f, known, ⟨-, value, n, called, -⟩ | ⟨fails, -⟩⟩ := exists_meets holds transfer
  · exact ⟨value, n, f, known, called⟩
  · exact absurd ⟨allowed, reads⟩ fails

theorem holds_of_answers (holds : m.store.files.Holds file place mode tape) {transfer : Transfer}
    {value : Value} (answers : m.Answers file transfer value n) :
    transfer.Gives (tape.next (mode.access == .append) transfer).1 value ∧
      n.store.files.Holds file place mode (tape.next (mode.access == .append) transfer).2 := by
  obtain ⟨f, known, ends⟩ := answers
  obtain ⟨g, same, ⟨-, value, n, called, gives, after⟩ | ⟨-, stop, n, failed⟩⟩ :=
    exists_meets holds transfer
  · cases known.symm.trans same
    cases ends.symm.trans called
    exact ⟨gives, after⟩
  · cases known.symm.trans same
    cases ends.symm.trans failed

theorem Untouched.holds (untouched : m.Untouched file place n)
    (holds : m.store.files.Holds file place mode tape) :
    n.store.files.Holds file place mode tape := by
  obtain ⟨handle, node⟩ := holds
  refine ⟨?_, ?_⟩
  · rw [untouched.handle]
    exact handle
  · rw [untouched.node]
    exact node

theorem Session.exists_runs {others : List (Transfer × Value)}
    (session : Session file place m others n) (holds : m.store.files.Holds file place mode tape) :
    ∃ last, tape.Runs (mode.access == .append) others last ∧
      n.store.files.Holds file place mode last := by
  induction session generalizing tape with
  | nil m => exact ⟨tape, .nil tape, holds⟩
  | call answers session ih =>
      obtain ⟨gives, after⟩ := holds_of_answers holds answers
      obtain ⟨last, runs, holds⟩ := ih after
      exact ⟨last, .cons gives runs, holds⟩
  | elsewhere untouched session ih => exact ih (untouched.holds holds)

end

end Machine

theorem Tape.Runs.join {append : Bool} {tape last : Tape} {lines : List String} {rest : String}
    (runs : tape.Runs append
      (lines.map (fun line => (.line, .str line)) ++ [(.rest, .str rest)]) last) :
    (Bytes.ofText (String.join lines ++ rest)).toList = tape.behind := by
  induction lines generalizing tape with
  | nil =>
      cases runs with
      | cons gives _ =>
          obtain ⟨text, same, bytes⟩ := gives
          cases same
          rw [String.join_nil, String.empty_append]
          exact bytes
  | cons line lines ih =>
      cases runs with
      | cons gives others =>
          obtain ⟨text, same, bytes⟩ := gives
          cases same
          have read : (Bytes.ofText line).toList = tape.readLine.1 := bytes
          rw [String.join_cons, String.append_assoc, Bytes.ofText_append, Array.toList_append, read,
            ih others]
          exact tape.readLine_append_behind

/-- A regular file that is opened is the bytes that it has then, with a cursor at their start.
Whatever is called on it, so long as nothing else touches it, gives what these bytes give and leaves
them with the cursor behind what was read or written; a call that the mode allows succeeds unless
what it reads is no text. Any lines that are read one after the other, and then the rest, are
together what stood behind the cursor. -/
theorem Machine.open_file_as_tape {buksan : Native} {path spelling : String} {m opened : Machine}
    {value : Value} (known : Registry.standard.get? "buksan" = some buksan)
    (opens : Exec.call buksan [.str path, .str spelling] m = .ok value opened) :
    let append := decide (spelling ∈ ["a", "a+"])
    ∃ file place, value = .file file ∧
      (∃ handle, opened.store.files.handle? file.index = some handle ∧ handle.place = place) ∧
      ∀ content, opened.store.files.disk.node? place = some (.file content) →
        ∀ calls n, Session file place opened calls n →
          ∃ tape, Tape.Runs append ⟨content.toList, 0⟩ calls tape ∧
            n.store.files.disk.node? place = some (.file tape.content.toArray) ∧
            (∀ transfer : Transfer, spelling ∈ transfer.modes →
              IsText (tape.next append transfer).1 →
                ∃ value next, n.Answers file transfer value next) ∧
            ∀ lines rest last,
              Session file place n
                (lines.map (fun line => (.line, .str line)) ++ [(.rest, .str rest)]) last →
              (Bytes.ofText (String.join lines ++ rest)).toList = tape.behind := by
  intro append
  obtain ⟨mode, file, files, spelled, done, rfl, rfl⟩ := call_buksan_eq_ok known opens
  obtain ⟨place, there, starts⟩ := FileTable.holds_openFile done
  have appends : (mode.access == .append) = append := by rw [mode.append_iff, spelled]
  refine ⟨file, place, rfl, there, fun content node calls n session => ?_⟩
  obtain ⟨tape, runs, holds⟩ := session.exists_runs (starts content node)
  rw [appends] at runs
  refine ⟨tape, runs, holds.node, fun transfer allowed reads => ?_, fun lines rest last reading => ?_⟩
  · rw [← appends] at reads
    exact answers_of_holds holds (spelled ▸ allowed) reads
  · obtain ⟨behind, runs, -⟩ := reading.exists_runs holds
    exact runs.join

theorem Machine.open_file_as_tape_update :
    ∃ (m opened n last : Machine) (buksan : Native) (file : FileRef) (tape : Tape),
      Registry.standard.get? "buksan" = some buksan ∧
      Exec.call buksan [.str "f", .str "r+"] m = .ok (.file file) opened ∧
      Session file ["f"] opened [(.line, .str "ñ\n"), (.write "XY", .void)] n ∧
      n.store.files.disk.node? ["f"] = some (.file tape.content.toArray) ∧
      Tape.Runs false ⟨(Bytes.ofText "ñ\nab\ncd\nef").toList, 0⟩
        [(.line, .str "ñ\n"), (.write "XY", .void)] tape ∧
      Session file ["f"] n [(.line, .str "\n"), (.rest, .str "cd\nef")] last ∧
      (Bytes.ofText "\ncd\nef").toList = tape.behind := by
  let buksan : Native := ⟨"buksan", .exact 2, .buksan⟩
  let file : FileRef := ⟨1, "f", ⟨.read, true⟩⟩
  let other (stream : Option Stream) : Handle := ⟨["g"], ⟨.write, false⟩, stream⟩
  let disk (content : String) : Disk := ⟨[(["g"], .file #[]), (["f"], .file (.ofText content))]⟩
  let start : Machine :=
    ⟨⟨[], .empty⟩, { files := ⟨disk "ñ\nab\ncd\nef", #[other (some ⟨0, []⟩)]⟩ }⟩
  -- The machine with the file at a position behind bytes that are read ahead.
  let fileAt (content : String) (stream : Option Stream) (position : Nat) (ahead : String) :
      Machine :=
    start.withFiles ⟨disk content,
      #[other stream, ⟨["f"], ⟨.read, true⟩, some ⟨position, (Bytes.ofText ahead).toList⟩⟩]⟩
  let opened := fileAt "ñ\nab\ncd\nef" (some ⟨0, []⟩) 0 ""
  let n := fileAt "ñ\nXY\ncd\nef" none 5 ""
  have opens : Exec.call buksan [.str "f", .str "r+"] start = .ok (.file file) opened := by
    with_unfolding_all rfl
  have reads {m : Machine} {s after : Stream} {content : Bytes} {text : String}
      {transfer : Transfer} {f : Native} {step : Bytes → Stream → List UInt8 × Stream}
      (known : Registry.standard.get? transfer.name = some f)
      (runs : ∀ m : Machine, f.call (transfer.args file) m.store =
        (Eval.onFiles (·.readBy step file) >>= fun text => pure (.str text)) m.store)
      (there : m.store.files.handle? 1 = some ⟨["f"], ⟨.read, true⟩, some s⟩)
      (node : m.store.files.disk.node? ["f"] = some (.file content))
      (read : step content s = ((Bytes.ofText text).toList, after)) :
      m.Answers file transfer (.str text)
        (m.withFiles (m.store.files.setStream file (some after))) := by
    refine ⟨f, known, call_of_operation (runs m) ?_⟩
    rw [FileTable.readBy_of_handle there node rfl, read, FileTable.textOf_ofText]
  let ahead := fileAt "ñ\nab\ncd\nef" (some ⟨0, []⟩) 11 "ab\ncd\nef"
  let overwritten := fileAt "ñ\nXY\ncd\nef" (some ⟨0, []⟩) 5 ""
  have line : opened.Answers file .line (.str "ñ\n") ahead :=
    reads rfl (fun _ => rfl) rfl rfl (by decide +kernel)
  have write : ahead.Answers file (.write "XY") .void overwritten := ⟨_, rfl, rfl⟩
  have closes : overwritten.Untouched file ["f"] n := ⟨rfl, rfl⟩
  have session : Session file ["f"] opened [(.line, .str "ñ\n"), (.write "XY", .void)] n :=
    .call line (.call write (.elsewhere closes (.nil n)))
  obtain ⟨found, place, same, ⟨handle, there, rfl⟩, holds⟩ :=
    open_file_as_tape rfl opens
  cases same
  cases there
  obtain ⟨tape, runs, node, -, joined⟩ := holds _ rfl _ n session
  let behind := fileAt "ñ\nXY\ncd\nef" none 11 "cd\nef"
  let last := fileAt "ñ\nXY\ncd\nef" none 11 ""
  have next : n.Answers file .line (.str "\n") behind :=
    reads rfl (fun _ => rfl) rfl rfl (by decide +kernel)
  have rest : behind.Answers file .rest (.str "cd\nef") last :=
    reads rfl (fun _ => rfl) rfl rfl (by decide +kernel)
  have reading : Session file ["f"] n [(.line, .str "\n"), (.rest, .str "cd\nef")] last :=
    .call next (.call rest (.nil last))
  exact ⟨start, opened, n, _, buksan, file, tape, rfl, opens, session, node, runs, reading,
    joined ["\n"] "cd\nef" _ reading⟩

end Salita
