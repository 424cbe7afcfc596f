namespace Salita

inductive Access where
  | read
  | write
  | append
deriving DecidableEq, Repr

structure FileMode where
  access : Access
  update : Bool
deriving DecidableEq, Repr

namespace FileMode

def text : FileMode → String
  | ⟨.read, false⟩ => "r"
  | ⟨.read, true⟩ => "r+"
  | ⟨.write, false⟩ => "w"
  | ⟨.write, true⟩ => "w+"
  | ⟨.append, false⟩ => "a"
  | ⟨.append, true⟩ => "a+"

def ofText? : String → Option FileMode
  | "r" => some ⟨.read, false⟩
  | "r+" => some ⟨.read, true⟩
  | "w" => some ⟨.write, false⟩
  | "w+" => some ⟨.write, true⟩
  | "a" => some ⟨.append, false⟩
  | "a+" => some ⟨.append, true⟩
  | _ => none

def isReadable (mode : FileMode) : Bool := mode.update || mode.access == .read

def isWritable (mode : FileMode) : Bool := mode.update || mode.access != .read

def creates (mode : FileMode) : Bool := mode.access != .read

def truncates (mode : FileMode) : Bool := mode.access == .write

end FileMode

structure FileRef where
  index : Nat
  path : String
  mode : FileMode
deriving DecidableEq, Repr

end Salita
