import Salita.Evaluation.Error
import Salita.Value.Display

namespace Salita

inductive Output where
  | captured (text : String)
  | silent
deriving DecidableEq, Repr

namespace Output

def write : Output → String → Output
  | .captured text, more => .captured (text ++ more)
  | .silent, _ => .silent

def text : Output → String
  | .captured text => text
  | .silent => ""

end Output

structure Store where
  heap : Heap := .empty
  files : FileTable := .ofDisk .empty
  output : Output := .captured ""
  input : List String := []

abbrev Eval := EStateM EvalError Store

namespace Eval

def fail {α : Type} (cause : Cause) : Eval α := fun s => .error { cause := cause } s

def heap : Eval Heap := fun s => .ok s.heap s

def textOf (value : Value) : Eval String := return (← heap).text value

def isTrue (value : Value) : Eval Bool := return (← heap).isTrue value

def items (id : ListId) : Eval (Array Value) := return (← heap).items id

def last? (id : ListId) : Eval (Option Value) := return (← heap).last? id

def newList (items : Array Value) : Eval Value := fun s =>
  let (id, heap) := s.heap.alloc items
  .ok (.list id) { s with heap := heap }

def modifyList (id : ListId) (change : Array Value → Array Value) : Eval Unit := fun s =>
  .ok () { s with heap := s.heap.modify id change }

def print (text : String) : Eval Unit := fun s =>
  .ok () { s with output := s.output.write text }

def readLine : Eval String := fun s =>
  match s.input with
  | [] => .error { cause := .transfer .endOfInput } s
  | line :: rest => .ok line { s with input := rest }

def onFiles {α : Type} (operation : FileTable → Except FileError α × FileTable) : Eval α := fun s =>
  match s with
  | ⟨heap, files, output, input⟩ =>
      match operation files with
      | (.ok a, files) => .ok a ⟨heap, files, output, input⟩
      | (.error e, files) => .error { cause := .transfer (.file e) } ⟨heap, files, output, input⟩

def mapError {α : Type} (change : EvalError → EvalError) (x : Eval α) : Eval α := fun s =>
  match x s with
  | .ok a s => .ok a s
  | .error e s => .error (change e) s

def placed {α : Type} (span : Span) (x : Eval α) : Eval α := x.mapError (·.placed span)

def orAt {α : Type} (span : Span) (x : Eval α) : Eval α := x.mapError (·.orAt span)

end Eval

end Salita
