import Salita.Builtin.Basic
import Salita.File.Reference
import Salita.Number.Binary64

namespace Salita

structure ListId where
  index : Nat
deriving DecidableEq, Repr

inductive Value where
  | int (value : Int64)
  | float (value : Float)
  | str (value : String)
  | bool (value : Bool)
  | list (id : ListId)
  | function (function : Native)
  | file (file : FileRef)
  | void
deriving DecidableEq

inductive ValueType where
  | int
  | float
  | str
  | bool
  | list
  | function
  | file
  | void
deriving DecidableEq, Repr

def ValueType.text : ValueType → String
  | .int => "int"
  | .float => "float"
  | .str => "str"
  | .bool => "bool"
  | .list => "list"
  | .function => "function"
  | .file => "file"
  | .void => "void"

namespace Value

def type : Value → ValueType
  | .int _ => .int
  | .float _ => .float
  | .str _ => .str
  | .bool _ => .bool
  | .list _ => .list
  | .function _ => .function
  | .file _ => .file
  | .void => .void

def widen (n : Int64) : Float := Binary64.ofInt n.toInt

def toFloat? : Value → Option Float
  | .int n => some (widen n)
  | .float x => some x
  | _ => none

def characters (s : String) : List Value := s.toList.map fun c => .str (String.singleton c)

end Value

structure Heap where
  lists : Array (Array Value)

namespace Heap

def empty : Heap := ⟨#[]⟩

def items (heap : Heap) (id : ListId) : Array Value := heap.lists[id.index]?.getD #[]

def last? (heap : Heap) (id : ListId) : Option Value := (heap.items id).back?

def alloc (heap : Heap) (items : Array Value) : ListId × Heap :=
  (⟨heap.lists.size⟩, ⟨heap.lists.push items⟩)

def modify (heap : Heap) (id : ListId) (change : Array Value → Array Value) : Heap :=
  ⟨heap.lists.modify id.index change⟩

def set (heap : Heap) (id : ListId) (items : Array Value) : Heap := heap.modify id fun _ => items

def isTrue (heap : Heap) : Value → Bool
  | .int n => n.toInt != 0
  | .float x => !Binary64.isZero x
  | .str s => !s.isEmpty
  | .bool b => b
  | .list id => !(heap.items id).isEmpty
  | .function _ | .file _ => true
  | .void => false

end Heap

end Salita
