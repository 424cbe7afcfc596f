import Salita.File.Handle

namespace Salita

theorem FileMode.ofText?_eq_some_iff {spelling : String} {mode : FileMode} :
    ofText? spelling = some mode ↔ mode.text = spelling := by
  constructor
  · unfold ofText?
    split <;> intro found <;> cases found <;> rfl
  · rintro rfl
    rcases mode with ⟨access, update⟩
    cases access <;> cases update <;> rfl

structure Handle.Continues (handle later : Handle) : Prop where
  mode : later.mode = handle.mode
  closed : handle.stream = none → later.stream = none

namespace FileTable

def handle? (table : FileTable) (index : Nat) : Option Handle := table.handles[index]?

def Contains (table : FileTable) (file : FileRef) : Prop :=
  ∃ handle, table.handle? file.index = some handle

def Closed (table : FileTable) (file : FileRef) : Prop :=
  ∃ handle, table.handle? file.index = some handle ∧ handle.stream = none

def Kept (table next : FileTable) : Prop :=
  ∀ index handle, table.handle? index = some handle →
    ∃ later, next.handle? index = some later ∧ handle.Continues later

variable {table mid next : FileTable} {file : FileRef} {stream : Option Stream}

theorem handle?_setStream (index : Nat) :
    (table.setStream file stream).handle? index =
      if file.index = index then (table.handle? index).map fun h => { h with stream := stream }
      else table.handle? index := by
  simp only [handle?, setStream, Array.getElem?_modify]

namespace Kept

theorem of_handles_eq (same : next.handles = table.handles) : table.Kept next := by
  intro index handle there
  rw [handle?, ← same] at there
  exact ⟨handle, there, rfl, id⟩

theorem refl (table : FileTable) : table.Kept table := of_handles_eq rfl

theorem trans (first : table.Kept mid) (second : mid.Kept next) : table.Kept next := by
  intro index handle there
  obtain ⟨later, there, before⟩ := first index handle there
  obtain ⟨last, there, behind⟩ := second index later there
  exact ⟨last, there, behind.mode.trans before.mode, behind.closed ∘ before.closed⟩

theorem closed (kept : table.Kept next) (closed : table.Closed file) : next.Closed file := by
  obtain ⟨handle, there, none⟩ := closed
  obtain ⟨later, there, continues⟩ := kept file.index handle there
  exact ⟨later, there, continues.closed none⟩

theorem setStream (allowed : stream = none ∨ ¬ table.Closed file) :
    table.Kept (table.setStream file stream) := by
  intro index handle there
  rw [handle?_setStream]
  split
  case isTrue same =>
    subst same
    rw [there]
    refine ⟨_, rfl, rfl, fun none => ?_⟩
    rcases allowed with taken | opened
    · exact taken
    · exact absurd ⟨handle, there, none⟩ opened
  case isFalse => exact ⟨handle, there, rfl, id⟩

theorem push (disk : Disk) (table : FileTable) (new : Handle) :
    table.Kept ⟨disk, table.handles.push new⟩ := by
  intro index handle there
  obtain ⟨bound, -⟩ := Array.getElem?_eq_some_iff.1 there
  refine ⟨handle, ?_, rfl, id⟩
  rw [handle?, Array.getElem?_push_lt bound, ← Array.getElem?_eq_getElem bound]
  exact there

end Kept

theorem stream_of_closed (closed : table.Closed file) : table.stream file = .error .closed := by
  obtain ⟨handle, there, none⟩ := closed
  rw [handle?] at there
  rw [FileTable.stream, there]
  simp only [none]

theorem not_closed_of_stream {opened : Handle × Stream} (found : table.stream file = .ok opened) :
    ¬ table.Closed file := by
  intro closed
  rw [stream_of_closed closed] at found
  cases found

theorem closed_close (contains : table.Contains file) : (table.close file).Closed file := by
  obtain ⟨handle, there⟩ := contains
  refine ⟨{ handle with stream := none }, ?_, rfl⟩
  rw [close, handle?_setStream, if_pos rfl, there, Option.map_some]

theorem eq_of_handle? (disk : next.disk = table.disk)
    (handles : ∀ index, next.handle? index = table.handle? index) : next = table := by
  obtain ⟨left, opened⟩ := next
  obtain ⟨right, known⟩ := table
  cases disk
  rw [show opened = known from Array.ext_getElem? handles]

theorem close_of_closed (closed : table.Closed file) : table.close file = table := by
  obtain ⟨handle, there, none⟩ := closed
  refine eq_of_handle? rfl fun index => ?_
  rw [close, handle?_setStream]
  split
  case isTrue same =>
    subst same
    rw [there, Option.map_some, ← none]
  case isFalse => rfl

theorem openFile_eq_ok {path : String} {mode : FileMode} {opened : FileRef}
    (done : table.openFile path mode = .ok (opened, next)) :
    table.Kept next ∧ ∃ handle, next.handle? opened.index = some handle ∧ handle.mode = mode := by
  unfold openFile at done
  cases target : table.disk.opened path mode with
  | error e =>
      rw [target] at done
      cases done
  | ok found =>
      rw [target] at done
      cases done
      exact ⟨.push _ table _, _, Array.getElem?_push_size, rfl⟩

theorem kept_readBy (step : Bytes → Stream → List UInt8 × Stream) (table : FileTable)
    (file : FileRef) : table.Kept (table.readBy step file).2 := by
  unfold readBy
  split
  case h_1 => exact .refl table
  case h_2 handle stream found =>
    split
    · exact .refl table
    · split
      · exact .refl table
      · dsimp only
        split <;> exact .setStream (.inr (not_closed_of_stream found))

theorem kept_write (table : FileTable) (file : FileRef) (text : String) :
    table.Kept (table.write file text).2 := by
  unfold write
  split
  case h_1 => exact .refl table
  case h_2 handle stream found =>
    split
    · exact .refl table
    · have changed (disk : Disk) : table.Kept ⟨disk, table.handles⟩ := .of_handles_eq rfl
      exact (changed _).trans (.setStream (.inr (not_closed_of_stream found)))

theorem kept_close (table : FileTable) (file : FileRef) : table.Kept (table.close file) :=
  .setStream (.inl rfl)

theorem readBy_of_closed (step : Bytes → Stream → List UInt8 × Stream)
    (closed : table.Closed file) : table.readBy step file = (.error .closed, table) := by
  rw [readBy, stream_of_closed closed]

theorem write_of_closed (text : String) (closed : table.Closed file) :
    table.write file text = (.error .closed, table) := by
  rw [write, stream_of_closed closed]

variable {handle : Handle} {opened : Stream}

theorem stream_of_handle (there : table.handle? file.index = some handle)
    (given : handle.stream = some opened) : table.stream file = .ok (handle, opened) := by
  rw [handle?] at there
  rw [FileTable.stream, there]
  simp only [given]

theorem readBy_of_not_readable (step : Bytes → Stream → List UInt8 × Stream)
    (there : table.handle? file.index = some handle) (given : handle.stream = some opened)
    (unreadable : handle.mode.isReadable = false) :
    table.readBy step file = (.error .notReadable, table) := by
  rw [readBy, stream_of_handle there given]
  simp only [unreadable, Bool.not_false, if_true]

theorem write_of_not_writable (text : String)
    (there : table.handle? file.index = some handle) (given : handle.stream = some opened)
    (unwritable : handle.mode.isWritable = false) :
    table.write file text = (.error .notWritable, table) := by
  rw [write, stream_of_handle there given]
  simp only [unwritable, Bool.not_false, if_true]

end FileTable

end Salita
