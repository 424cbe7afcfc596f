import Salita.File.Reference

namespace Salita

abbrev Bytes := Array UInt8

namespace Bytes

def ofText (text : String) : Bytes := text.toUTF8.data

def toText? (bytes : Bytes) : Option String := String.fromUTF8? ⟨bytes⟩

end Bytes

inductive SystemError where
  | notFound
  | isDirectory
  | notDirectory
  | nameTooLong
  | zeroInPath
  | notUtf8
deriving DecidableEq, Repr

def SystemError.text : SystemError → String
  | .notFound => "No such file or directory (os error 2)"
  | .isDirectory => "Is a directory (os error 21)"
  | .notDirectory => "Not a directory (os error 20)"
  | .nameTooLong => "File name too long (os error 36)"
  | .zeroInPath => "file name contained an unexpected NUL byte"
  | .notUtf8 => "stream did not contain valid UTF-8"

inductive Node where
  | directory
  | file (bytes : Bytes)
deriving DecidableEq, Repr

def Node.bytes : Node → Bytes
  | .directory => #[]
  | .file bytes => bytes

/-- A place seen from the working directory: names of directories from the outermost, and the name
of the file. Places below the root of the system have a slash as their first name, and places around
the working directory start with two dots. -/
abbrev Place := List String

structure Disk where
  nodes : List (Place × Node)
deriving DecidableEq, Repr

namespace Disk

def empty : Disk := ⟨[]⟩

def root : Place := ["/"]

def isAround (place : Place) : Bool := place.all (· = "..")

def node? (disk : Disk) (place : Place) : Option Node :=
  if isAround place ∨ place = root then some .directory else disk.nodes.lookup place

def putNode (place : Place) (node : Node) : List (Place × Node) → List (Place × Node)
  | [] => [(place, node)]
  | (other, old) :: rest =>
      if other = place then (place, node) :: rest else (other, old) :: putNode place node rest

def put (disk : Disk) (place : Place) (node : Node) : Disk := ⟨putNode place node disk.nodes⟩

def bytes (disk : Disk) (place : Place) : Bytes := ((disk.node? place).map Node.bytes).getD #[]

def updateNode {α : Type} (place : Place) (step : Bytes → Bytes × α) :
    List (Place × Node) → List (Place × Node) × α
  | [] =>
      let (bytes, result) := step #[]
      ([(place, .file bytes)], result)
  | (other, node) :: rest =>
      if other = place then
        let (bytes, result) := step node.bytes
        ((place, .file bytes) :: rest, result)
      else
        let (rest, result) := updateNode place step rest
        ((other, node) :: rest, result)

def update {α : Type} (disk : Disk) (place : Place) (step : Bytes → Bytes × α) : Disk × α :=
  let (nodes, result) := updateNode place step disk.nodes
  (⟨nodes⟩, result)

def isDirectory (disk : Disk) (place : Place) : Bool := disk.node? place == some .directory

def maxPath : Nat := 4095

def maxName : Nat := 255

structure Target where
  place : Place
  slash : Bool

def parent (place : Place) : Place :=
  if place = root then root else if isAround place then place ++ [".."] else place.dropLast

def origin (path : String) : Place := if path.startsWith "/" then root else []

def pieces : List Char → List (List Char)
  | [] => [[]]
  | '/' :: text => [] :: pieces text
  | c :: text =>
      match pieces text with
      | [] => [[c]]
      | piece :: rest => (c :: piece) :: rest

def names (path : String) : List String :=
  ((pieces path.toList).filter (· ≠ [])).map String.ofList

def walk (disk : Disk) (slash : Bool) : Place → List String → Except SystemError Target
  | place, [] => .ok ⟨place, false⟩
  | place, "." :: rest => walk disk slash place rest
  | place, ".." :: rest => walk disk slash (parent place) rest
  | place, name :: rest =>
      let next := place ++ [name]
      if rest.isEmpty then .ok ⟨next, slash⟩
      else if maxName < name.utf8ByteSize then .error .nameTooLong
      else
        match disk.node? next with
        | some .directory => walk disk slash next rest
        | some (.file _) => .error .notDirectory
        | none => .error .notFound

def target (disk : Disk) (path : String) : Except SystemError Target :=
  if path.toList.any (·.toNat == 0) then .error .zeroInPath
  else if maxPath < path.utf8ByteSize then .error .nameTooLong
  else if path.isEmpty then .error .notFound
  else walk disk (path.endsWith "/") (origin path) (names path)

def opened (disk : Disk) (path : String) (mode : FileMode) :
    Except SystemError (Place × Disk) := do
  let ⟨place, slash⟩ ← disk.target path
  if mode.creates && slash then throw .isDirectory
  if maxName < (place.getLastD "").utf8ByteSize then throw .nameTooLong
  match disk.node? place with
  | some .directory =>
      if mode.isWritable then throw .isDirectory
      return (place, disk)
  | some (.file _) =>
      if slash then throw .notDirectory
      return (place, if mode.truncates then disk.put place (.file #[]) else disk)
  | none =>
      if mode.creates then return (place, disk.put place (.file #[])) else throw .notFound

def readText (disk : Disk) (path : String) : Except SystemError String := do
  let (place, _) ← disk.opened path ⟨.read, false⟩
  if disk.isDirectory place then throw .isDirectory
  match (disk.bytes place).toText? with
  | some text => return text
  | none => throw .notUtf8

end Disk

end Salita
