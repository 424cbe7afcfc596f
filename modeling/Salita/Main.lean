import Salita.Command

/-!
# The command

The outer layer of the command. A run is a function of the files and the input it is given, and it
ends at the first file or line that is missing. So the command starts with the program's file
alone, and whenever a run has ended for want of a file or a line, it fetches this and runs again.
Output only grows from run to run: what is new of it is shown before a line is read.
-/

namespace Salita.Main

structure Outside where
  disk : Disk
  known : List Place
  lines : List String
  ended : Bool
  shown : Nat

def rounds : Nat := 0x4000000000000000

def pathOf : Place → String
  | "/" :: names => "/" ++ "/".intercalate names
  | names => "/".intercalate names

def fetchPlace (disk : Disk) (place : Place) : IO Disk := do
  try
    let path ← IO.FS.realPath (pathOf place)
    if ← path.isDir then return disk.put place .directory
    else return disk.put place (.file (← IO.FS.readBinFile path).data)
  catch _ => return disk

def placesOf (path : String) : List Place :=
  let step (places : List Place) (name : String) : List Place :=
    let place := places.headD []
    (if name = "." then place else if name = ".." then Disk.parent place else place ++ [name])
      :: places
  ((Disk.names path).foldl step [Disk.origin path]).reverse

def fetch (outside : Outside) (path : String) : IO Outside := do
  let places := (placesOf path).filter fun place => !outside.known.contains place
  let disk ← places.foldlM fetchPlace outside.disk
  return { outside with disk := disk, known := places ++ outside.known }

def programPath? (args : List String) : Option String :=
  match Command.splitColor .auto args with
  | .ok (_, args) =>
      match Command.request args with
      | .file _ path => some path
      | _ => none
  | .error _ => none

def missingPath? (outside : Outside) (response : Response) : Option String :=
  let opened := response.machine.store.files.handles.toList.map fun h => pathOf h.place
  let failed := match response.finish with
    | some (.failed (.eval { cause := .fileNotFound path, .. })) => [path]
    | _ => []
  (opened ++ failed).find? fun path => (placesOf path).any fun place => !outside.known.contains place

/-- Whether a run ended for want of a line that may still come. -/
def wantsLine (outside : Outside) (response : Response) : Bool :=
  match response.finish with
  | some (.failed (.eval { cause := .transfer .endOfInput, .. })) => !outside.ended
  | _ => false

def showOutput (outside : Outside) (text : String) : IO Outside := do
  let out ← IO.getStdout
  out.putStr (text.drop outside.shown).toString
  out.flush
  return { outside with shown := text.length }

def store (before after : Disk) : IO Unit := do
  for (place, node) in after.nodes do
    match node with
    | .file bytes =>
        if before.node? place ≠ some node then
          IO.FS.writeBinFile (pathOf place) ⟨bytes⟩
    | .directory => pure ()

partial def serve (args : List String) (isTerminal : Bool) (outside : Outside) : IO UInt32 := do
  let machine := Machine.start .standard outside.disk outside.lines.reverse (.captured "")
  let response := Command.perform rounds isTerminal args machine
  match missingPath? outside response with
  | some path => serve args isTerminal (← fetch outside path)
  | none =>
      let outside ← showOutput outside response.stdout
      if wantsLine outside response then
        let line ← (← IO.getStdin).getLine
        if line.isEmpty then serve args isTerminal { outside with ended := true }
        else serve args isTerminal { outside with lines := line :: outside.lines }
      else
        (← IO.getStderr).putStr response.stderr
        store outside.disk response.machine.store.files.disk
        return UInt32.ofNat response.exit

end Salita.Main

def main (args : List String) : IO UInt32 := do
  let outside : Salita.Main.Outside := ⟨.empty, [], [], false, 0⟩
  let outside ← match Salita.Main.programPath? args with
    | some path => Salita.Main.fetch outside path
    | none => pure outside
  Salita.Main.serve args (← (← IO.getStderr).isTty) outside
