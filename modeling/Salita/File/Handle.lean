import Salita.File.Disk

/-!
# Open files

An open file reads ahead in blocks and writes at once. Whatever else happens to the file, bytes that
were read ahead stay as they were read. Before a write the bytes read ahead are given back, so that
the write goes where reading has come to.
-/

namespace Salita

/-- The position in a file and the bytes before it that were read ahead but not yet given out. -/
structure Stream where
  position : Nat
  ahead : List UInt8
deriving DecidableEq, Repr

/-- A file that was opened. It has no stream once it is closed. -/
structure Handle where
  place : Place
  mode : FileMode
  stream : Option Stream
deriving DecidableEq, Repr

inductive FileError where
  | closed
  | notReadable
  | notWritable
  | system (error : SystemError)
deriving DecidableEq, Repr

def FileError.text : FileError → String
  | .closed => "I/O operation on closed file"
  | .notReadable => "File not open for reading"
  | .notWritable => "File not open for writing"
  | .system cause => cause.text

namespace Stream

def blockSize : Nat := 8192

def fill (content : Bytes) (s : Stream) : Stream :=
  if s.ahead.isEmpty then
    let block := content.extract s.position (s.position + blockSize)
    ⟨s.position + block.size, block.toList⟩
  else s

def cutLine : List UInt8 → Option (List UInt8 × List UInt8)
  | [] => none
  | b :: rest =>
      if b = 10 then some ([b], rest) else (cutLine rest).map fun (line, rest) => (b :: line, rest)

def readLine (content : Bytes) : Nat → Stream → List UInt8 × Stream
  | 0, s => ([], s)
  | blocks + 1, s =>
      let s := s.fill content
      if s.ahead.isEmpty then ([], s)
      else
        match cutLine s.ahead with
        | some (line, rest) => (line, ⟨s.position, rest⟩)
        | none =>
            let (more, after) := readLine content blocks ⟨s.position, []⟩
            (s.ahead ++ more, after)

def readRest (content : Bytes) (s : Stream) : List UInt8 × Stream :=
  (s.ahead ++ (content.extract s.position content.size).toList, ⟨max s.position content.size, []⟩)

/-- The bytes with others written over them from a position on. A gap is filled with zeros. -/
def overwrite (content : Bytes) (position : Nat) (written : Bytes) : Bytes :=
  let gap := position - content.size
  let behind := content.extract (position + written.size) content.size
  content.shrink position ++ Array.replicate gap 0 ++ written ++ behind

def write (append : Bool) (written : Bytes) (s : Stream) (content : Bytes) : Bytes × Stream :=
  let position := s.position - s.ahead.length
  if written.isEmpty then (content, ⟨position, []⟩)
  else
    let start := if append then content.size else position
    (overwrite content start written, ⟨start + written.size, []⟩)

end Stream

structure FileTable where
  disk : Disk
  handles : Array Handle
deriving DecidableEq, Repr

namespace FileTable

def ofDisk (disk : Disk) : FileTable := ⟨disk, #[]⟩

def openFile (table : FileTable) (path : String) (mode : FileMode) :
    Except SystemError (FileRef × FileTable) := do
  let (place, disk) ← table.disk.opened path mode
  return (⟨table.handles.size, path, mode⟩, ⟨disk, table.handles.push ⟨place, mode, some ⟨0, []⟩⟩⟩)

def stream (table : FileTable) (file : FileRef) : Except FileError (Handle × Stream) :=
  match table.handles[file.index]? with
  | some handle =>
      match handle.stream with
      | some stream => .ok (handle, stream)
      | none => .error .closed
  | none => .error .closed

def setStream (table : FileTable) (file : FileRef) (stream : Option Stream) : FileTable :=
  { table with handles := table.handles.modify file.index fun h => { h with stream := stream } }

/-- Reads by `step`, which takes bytes from a stream over the content of the file. Bytes that are
no text are refused, and count as read. -/
def readBy (step : Bytes → Stream → List UInt8 × Stream) (table : FileTable) (file : FileRef) :
    Except FileError String × FileTable :=
  match table.stream file with
  | .error e => (.error e, table)
  | .ok (handle, stream) =>
      if !handle.mode.isReadable then (.error .notReadable, table)
      else if table.disk.isDirectory handle.place then (.error (.system .isDirectory), table)
      else
        let (bytes, stream) := step (table.disk.bytes handle.place) stream
        let table := table.setStream file (some stream)
        match Bytes.toText? bytes.toArray with
        | some text => (.ok text, table)
        | none => (.error (.system .notUtf8), table)

def readLine (table : FileTable) (file : FileRef) : Except FileError String × FileTable :=
  table.readBy (fun content s => s.readLine content (content.size + 2)) file

def readRest (table : FileTable) (file : FileRef) : Except FileError String × FileTable :=
  table.readBy (fun content s => s.readRest content) file

def write (table : FileTable) (file : FileRef) (text : String) :
    Except FileError Unit × FileTable :=
  match table.stream file with
  | .error e => (.error e, table)
  | .ok (handle, stream) =>
      if !handle.mode.isWritable then (.error .notWritable, table)
      else
        match table with
        | ⟨disk, handles⟩ =>
            let append := handle.mode.access == .append
            let (disk, stream) := disk.update handle.place (stream.write append (.ofText text))
            (.ok (), setStream ⟨disk, handles⟩ file (some stream))

def close (table : FileTable) (file : FileRef) : FileTable := table.setStream file none

end FileTable

end Salita
