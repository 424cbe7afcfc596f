import Mathlib.Logic.Relation
import Salita.Proofs.File.Handle
import Salita.Proofs.Interpreter.Storage

namespace Salita

inductive Store.Step : Store → Store → Prop
  | newList (items : Array Value) (s : Store) : Step s (after (Eval.newList items) s)
  | modifyList (id : ListId) (change : Array Value → Array Value) (s : Store) :
      Step s (after (Eval.modifyList id change) s)
  | print (text : String) (s : Store) : Step s (after (Eval.print text) s)
  | readLine (s : Store) : Step s (after Eval.readLine s)
  | openFile (path : String) (mode : FileMode) (s : Store) :
      Step s (after (Call.openFile path mode) s)
  | readRest (file : FileRef) (s : Store) : Step s (after (Eval.onFiles (·.readRest file)) s)
  | readFileLine (file : FileRef) (s : Store) : Step s (after (Eval.onFiles (·.readLine file)) s)
  | write (file : FileRef) (text : String) (s : Store) :
      Step s (after (Eval.onFiles (·.write file text)) s)
  | close (file : FileRef) (s : Store) :
      Step s (after (Eval.onFiles fun table => (.ok (), table.close file)) s)

inductive Machine.Step : Machine → Machine → Prop
  | onStore (env : Environment) {s next : Store} (step : s.Step next) : Step ⟨env, s⟩ ⟨env, next⟩
  | bind (name : String) (value : Value) (m : Machine) : Step m ⟨m.env.set name value, m.store⟩
  | erase (name : String) (m : Machine) : Step m ⟨m.env.erase name, m.store⟩

abbrev Machine.Later : Machine → Machine → Prop := Relation.ReflTransGen Machine.Step

section
variable {α : Type}

abbrev KeepsSteps (x : Eval α) : Prop := Keeps (Relation.ReflTransGen Store.Step) x

theorem Composed.keepsSteps {changes : Bool} {x : Eval α} (composed : Composed changes x) :
    KeepsSteps x := by
  induction composed with
  | pure a => exact .pure (fun _ => .refl) a
  | bind first next first_ih next_ih => exact .bind .trans first_ih next_ih
  | fail | heap => exact fun _ => .refl
  | newList items => exact fun s => .single (.newList items s)
  | modifyList allowed id change => exact fun s => .single (.modifyList id change s)
  | print text => exact fun s => .single (.print text s)
  | readLine => exact fun s => .single (.readLine s)
  | openFile path mode => exact fun s => .single (.openFile path mode s)
  | readRest file => exact fun s => .single (.readRest file s)
  | readFileLine file => exact fun s => .single (.readFileLine file s)
  | write file text => exact fun s => .single (.write file text s)
  | close file => exact fun s => .single (.close file s)

theorem KeepsSteps.mapError {x : Eval α} (change : EvalError → EvalError) (keeps : KeepsSteps x) :
    KeepsSteps (x.mapError change) := by
  intro s
  rw [after_mapError]
  exact keeps s

theorem Evaluation.keepsSteps {P : Span → Prop} {x : Eval α} (evaluation : Evaluation P x) :
    KeepsSteps x := by
  induction evaluation with
  | pure a => exact .pure (fun _ => .refl) a
  | bind first next first_ih next_ih => exact .bind .trans first_ih next_ih
  | heap | fail => exact fun _ => .refl
  | print text => exact fun s => .single (.print text s)
  | found allowed result =>
      intro s
      cases result <;> exact .refl
  | placed allowed composed => exact composed.keepsSteps.mapError _
  | step allowed composed => exact composed.keepsSteps.mapError _
  | orAt span evaluation ih => exact ih.mapError _

theorem later_ofEval {x : Environment → Eval α} (keeps : ∀ env, KeepsSteps (x env)) :
    Keeps Machine.Later (Exec.ofEval x) := by
  intro m
  rw [after_ofEval]
  exact (keeps m.env m.store).lift (Machine.mk m.env) fun _ _ step => .onStore m.env step

theorem Execution.later {P : Span → Prop} {V : String → Prop} {x : Exec α}
    (execution : Execution P V x) : Keeps Machine.Later x := by
  induction execution with
  | pure a => exact .pure (fun _ => .refl) a
  | bind first next first_ih next_ih => exact .bind .trans first_ih next_ih
  | outOfRounds => exact fun _ => .refl
  | ofEval evaluation => exact later_ofEval fun env => (evaluation env).keepsSteps
  | @assign name allowed value => exact fun m => .single (.bind name value m)
  | @thenErase α name x allowed execution ih =>
      intro m
      rw [after_thenErase]
      exact (ih m).tail (.erase name (after x m))

end

theorem after_onFiles_files {α : Type} (operation : FileTable → Except FileError α × FileTable)
    (s : Store) : (after (Eval.onFiles operation) s).files = (operation s.files).2 := by
  simp only [after, Eval.onFiles]
  generalize operation s.files = result
  obtain ⟨outcome, files⟩ := result
  cases outcome <;> rfl

theorem Store.Step.kept {s next : Store} (step : s.Step next) : s.files.Kept next.files := by
  cases step with
  | newList | modifyList | print => exact .refl s.files
  | readLine =>
      simp only [after, Eval.readLine]
      cases s.input <;> exact .refl s.files
  | openFile path mode =>
      simp only [after, Call.openFile]
      cases opened : s.files.openFile path mode with
      | ok result => exact (FileTable.openFile_eq_ok opened).1
      | error e => cases e <;> exact .refl s.files
  | readRest file | readFileLine file =>
      rw [after_onFiles_files]
      exact FileTable.kept_readBy _ s.files file
  | write file text =>
      rw [after_onFiles_files]
      exact FileTable.kept_write s.files file text
  | close file =>
      rw [after_onFiles_files]
      exact FileTable.kept_close s.files file

theorem Machine.Later.kept {m n : Machine} (later : m.Later n) :
    m.store.files.Kept n.store.files := by
  induction later with
  | refl => exact .refl m.store.files
  | tail first step ih =>
      cases step with
      | onStore env step => exact ih.trans step.kept
      | bind | erase => exact ih

def Exec.call (f : Native) (args : List Value) : Exec Value := Exec.ofEval fun _ => f.call args

/-- The function that every program has under the name fails with an input or output error, and
changes nothing. -/
def Machine.Refuses (m : Machine) (name : String) (args : List Value) (detail : String) : Prop :=
  ∃ (f : Native) (e : EvalError), Registry.standard.get? name = some f ∧
    Exec.call f args m = .error (.error e) m ∧ e.code.className = "IOError" ∧
    e.message = "(IOError) : " ++ detail

section
variable {α : Type} {s : Store} {files : FileTable}
  {operation : FileTable → Except FileError α × FileTable}

theorem Eval.onFiles_of_done {a : α} (done : operation s.files = (.ok a, files)) :
    Eval.onFiles operation s = .ok a { s with files := files } := by
  unfold Eval.onFiles
  dsimp only
  rw [done]

theorem Eval.onFiles_of_refused {error : FileError}
    (refused : operation s.files = (.error error, files)) :
    Eval.onFiles operation s =
      .error { cause := .transfer (.file error) } { s with files := files } := by
  unfold Eval.onFiles
  dsimp only
  rw [refused]

end

namespace Machine

variable {m n : Machine} {file : FileRef} {error : FileError}

theorem refuses_of_operation {α : Type} {name : String} {f : Native} {args : List Value}
    {operation : FileTable → Except FileError α × FileTable} {next : α → Eval Value}
    (known : Registry.standard.get? name = some f)
    (runs : f.call args m.store = (Eval.onFiles operation >>= next) m.store)
    (refused : operation m.store.files = (.error error, m.store.files)) :
    m.Refuses name args error.text := by
  have failed : f.call args m.store = .error { cause := .transfer (.file error) } m.store := by
    rw [runs]
    exact bind_eq_error.2 (.inl (Eval.onFiles_of_refused refused))
  refine ⟨f, { cause := .transfer (.file error) }, known, ?_, rfl, rfl⟩
  simp only [Exec.call, Exec.ofEval, failed]

theorem refuses_reading {name : String} (reads : name ∈ ["basahin", "linya"])
    (refused : ∀ step, m.store.files.readBy step file = (.error error, m.store.files)) :
    m.Refuses name [.file file] error.text := by
  simp only [List.mem_cons, List.not_mem_nil, or_false] at reads
  obtain rfl | rfl := reads
  · exact refuses_of_operation (f := ⟨"basahin", .exact 1, .basahin⟩) rfl rfl (refused _)
  · exact refuses_of_operation (f := ⟨"linya", .exact 1, .linya⟩) rfl rfl (refused _)

theorem refuses_writing {text : String}
    (refused : m.store.files.write file text = (.error error, m.store.files)) :
    m.Refuses "isulat" [.file file, .str text] error.text :=
  refuses_of_operation (f := ⟨"isulat", .exact 2, .isulat⟩) rfl rfl refused

def closing (m : Machine) (file : FileRef) : Machine :=
  ⟨m.env, { m.store with files := m.store.files.close file }⟩

theorem call_isara {f : Native} (known : Registry.standard.get? "isara" = some f) (m : Machine)
    (file : FileRef) : Exec.call f [.file file] m = .ok .void (m.closing file) := by
  cases known
  rfl

theorem call_buksan_eq_ok {f : Native} {path spelling : String} {value : Value}
    (known : Registry.standard.get? "buksan" = some f)
    (done : Exec.call f [.str path, .str spelling] m = .ok value n) :
    ∃ mode file files, mode.text = spelling ∧ m.store.files.openFile path mode = .ok (file, files) ∧
      value = .file file ∧ n = ⟨m.env, { m.store with files := files }⟩ := by
  cases known
  obtain ⟨next, called, rfl⟩ := Exec.ofEval_eq_ok.1 done
  obtain ⟨_, mid, checked, called⟩ := bind_eq_ok.1 called
  cases checked
  obtain ⟨path, mid, taken, called⟩ := bind_eq_ok.1 called
  cases taken
  obtain ⟨spelling, mid, taken, opened⟩ := bind_eq_ok.1 called
  cases taken
  cases spelled : FileMode.ofText? spelling with
  | none =>
      rw [spelled] at opened
      cases opened
  | some mode =>
      have text : mode.text = spelling := FileMode.ofText?_eq_some_iff.1 spelled
      rw [spelled] at opened
      simp only [Call.openFile] at opened
      split at opened
      case h_1 file files found =>
        cases opened
        exact ⟨mode, file, files, text, found, rfl, rfl⟩
      all_goals cases opened

theorem call_buksan {f : Native} {path spelling : String} {value : Value}
    (known : Registry.standard.get? "buksan" = some f)
    (done : Exec.call f [.str path, .str spelling] m = .ok value n) :
    ∃ file handle, value = .file file ∧ n.store.files.handle? file.index = some handle ∧
      handle.mode.text = spelling := by
  obtain ⟨mode, file, files, spelled, opened, rfl, rfl⟩ := call_buksan_eq_ok known done
  obtain ⟨-, handle, there, rfl⟩ := FileTable.openFile_eq_ok opened
  exact ⟨file, handle, rfl, there, spelled⟩

end Machine

theorem FileMode.isReadable_of_text {mode : FileMode} (spelled : mode.text ∈ ["w", "a"]) :
    mode.isReadable = false := by
  obtain ⟨access, update⟩ := mode
  revert spelled
  cases access <;> cases update <;> decide

theorem FileMode.isWritable_of_text {mode : FileMode} (spelled : mode.text = "r") :
    mode.isWritable = false := by
  obtain ⟨access, update⟩ := mode
  revert spelled
  cases access <;> cases update <;> decide

/-- Whatever a run does leads to a later machine. A file that was opened goes on to have the mode of
its opening. Once it is closed, reading and writing it are refused on every later machine and
through every reference to it, without a change, and closing it again changes nothing. A file that is
not closed refuses to be read or written where its mode does not allow that, without a change. -/
theorem Machine.closed_forever :
    (∀ m : Machine,
      (∀ (f : Native) (args : List Value), m.Later (after (Exec.call f args) m)) ∧
      (∀ e : Expr, m.Later (after (Exec.eval e) m)) ∧
      (∀ (rounds : Nat) (stmt : Stmt), m.Later (after (stmt.exec rounds) m)) ∧
      ∀ (rounds : Nat) (program : Program), m.Later (m.finish (program.run rounds)).2) ∧
    (∀ (buksan : Native) (path spelling : String) (m opened : Machine) (value : Value),
      Registry.standard.get? "buksan" = some buksan →
      Exec.call buksan [.str path, .str spelling] m = .ok value opened →
        ∃ file, value = .file file ∧ ∀ n, opened.Later n →
          ∃ handle, n.store.files.handle? file.index = some handle ∧
            handle.mode.text = spelling) ∧
    (∀ (isara : Native) (m : Machine) (file : FileRef),
      Registry.standard.get? "isara" = some isara → m.store.files.Contains file →
        ∃ closed, Exec.call isara [.file file] m = .ok .void closed ∧
          ∀ n, closed.Later n → ∀ ref : FileRef, ref.index = file.index →
            n.Refuses "basahin" [.file ref] "I/O operation on closed file" ∧
            n.Refuses "linya" [.file ref] "I/O operation on closed file" ∧
            (∀ text, n.Refuses "isulat" [.file ref, .str text] "I/O operation on closed file") ∧
            Exec.call isara [.file ref] n = .ok .void n) ∧
    ∀ (n : Machine) (file : FileRef) (handle : Handle) (stream : Stream),
      n.store.files.handle? file.index = some handle → handle.stream = some stream →
        (handle.mode.text ∈ ["w", "a"] →
          n.Refuses "basahin" [.file file] "File not open for reading" ∧
          n.Refuses "linya" [.file file] "File not open for reading") ∧
        (handle.mode.text = "r" → ∀ text,
          n.Refuses "isulat" [.file file, .str text] "File not open for writing") := by
  refine ⟨?_, ?_, ?_, ?_⟩
  · intro m
    refine ⟨fun f args => ?_, fun e => ?_, fun rounds stmt => ?_, fun rounds program => ?_⟩
    · exact later_ofEval (fun _ => (f.composed_call args).keepsSteps) m
    · exact later_ofEval (fun _ => (Evaluation.eval fun _ _ => trivial).keepsSteps) m
    · exact (stmt.execution (fun _ _ => trivial) (fun _ _ => trivial)).later m
    · rw [finish_snd]
      exact (program.execution (fun _ _ => trivial) (fun _ _ => trivial)).later m
  · intro buksan path spelling m opened value known done
    obtain ⟨file, handle, same, there, mode⟩ := call_buksan known done
    refine ⟨file, same, fun n later => ?_⟩
    obtain ⟨last, there, continues⟩ := Later.kept later file.index handle there
    exact ⟨last, there, by rw [continues.mode, mode]⟩
  · intro isara m file known contains
    refine ⟨m.closing file, call_isara known m file, fun n later ref same => ?_⟩
    have closed : (m.closing file).store.files.Closed file := FileTable.closed_close contains
    have closed : n.store.files.Closed ref := by
      rw [FileTable.Closed, same]
      exact (Later.kept later).closed closed
    have refused step := FileTable.readBy_of_closed step closed
    refine ⟨refuses_reading (by decide) refused, refuses_reading (by decide) refused, ?_, ?_⟩
    · exact fun text => refuses_writing (FileTable.write_of_closed text closed)
    · rw [call_isara known, closing, FileTable.close_of_closed closed]
  · intro n file handle stream there given
    constructor
    · intro spelled
      have unreadable := FileMode.isReadable_of_text spelled
      have refused step := FileTable.readBy_of_not_readable step there given unreadable
      exact ⟨refuses_reading (by decide) refused, refuses_reading (by decide) refused⟩
    · intro spelled text
      have unwritable := FileMode.isWritable_of_text spelled
      exact refuses_writing (FileTable.write_of_not_writable text there given unwritable)

/-- A file is closed, and then its path is opened again and written to. The old reference is refused
as before. Another file is open only for writing. -/
theorem Machine.closed_forever_reopened :
    ∃ (m closed last : Machine) (isara : Native) (program : Program) (file other : FileRef),
      m.store.files.Contains file ∧
      Exec.call isara [.file file] m = .ok .void closed ∧
      closed.finish (program.run 1) = (.done, last) ∧
      m.store.files.disk.bytes ["f"] = .ofText "old" ∧
      last.store.files.disk.bytes ["f"] = .ofText "new" ∧
      last.Refuses "linya" [.file file] "I/O operation on closed file" ∧
      last.Refuses "isulat" [.file file, .str "x"] "I/O operation on closed file" ∧
      last.Refuses "basahin" [.file other] "File not open for reading" := by
  let isara : Native := ⟨"isara", .exact 1, .isara⟩
  let file : FileRef := ⟨0, "f", ⟨.read, true⟩⟩
  let other : FileRef := ⟨1, "g", ⟨.write, false⟩⟩
  let table : FileTable :=
    ⟨⟨[(["f"], .file (.ofText "old")), (["g"], .file #[])]⟩,
      #[⟨["f"], ⟨.read, true⟩, some ⟨0, []⟩⟩, ⟨["g"], ⟨.write, false⟩, some ⟨0, []⟩⟩]⟩
  let m : Machine := ⟨⟨[], .standard⟩, { files := table }⟩
  let program : Program := [
    .assign ⟨"f", ⟨0, 1⟩⟩ (.call ⟨"buksan", ⟨0, 1⟩⟩
      [.literal (.str "f") ⟨0, 1⟩, .literal (.str "w") ⟨0, 1⟩] ⟨0, 1⟩) ⟨0, 1⟩,
    .call ⟨"isulat", ⟨0, 1⟩⟩ [.var ⟨"f", ⟨0, 1⟩⟩, .literal (.str "new") ⟨0, 1⟩] ⟨0, 1⟩]
  obtain ⟨steps, -, closes, opened⟩ := Machine.closed_forever
  have contains : m.store.files.Contains file := ⟨_, rfl⟩
  obtain ⟨closed, called, refused⟩ := closes isara m file rfl contains
  have same : m.closing file = closed := by
    have ends := Machine.call_isara (f := isara) rfl m file
    rw [called] at ends
    cases ends
    rfl
  subst same
  have later := (steps (m.closing file)).2.2.2 1 program
  obtain ⟨-, line, write, -⟩ := refused _ later file rfl
  let last := ((m.closing file).finish (program.run 1)).2
  have run : (m.closing file).finish (program.run 1) = (.done, last) :=
    Prod.ext (by decide +kernel) rfl
  have bytes : last.store.files.disk.bytes ["f"] = .ofText "new" := by decide +kernel
  have there : last.store.files.handle? 1 =
      some ⟨["g"], ⟨.write, false⟩, some ⟨0, []⟩⟩ := by decide +kernel
  obtain ⟨reads, -⟩ := opened last other _ _ there rfl
  exact ⟨m, _, last, isara, program, file, other, contains, called, run, rfl, bytes,
    line, write "x", (reads (by decide)).1⟩

end Salita
