import Salita.Builtin.Arguments

namespace Salita.Call

def withoutLineEnd (line : List Char) : List Char :=
  let line := if line.getLast? = some '\n' then line.dropLast else line
  if line.getLast? = some '\r' then line.dropLast else line

def pahingi (call : Call) : Eval Value := do
  match call.args with
  | prompt :: _ => Eval.print (← Eval.textOf prompt)
  | [] => pure ()
  let line ← Eval.readLine
  return .str (String.ofList (withoutLineEnd line.toList))

def openFile (path : String) (mode : FileMode) : Eval Value := fun s =>
  match s.files.openFile path mode with
  | .ok (file, files) => .ok (.file file) { s with files := files }
  | .error .notFound => .error { cause := .fileNotFound path } s
  | .error e => .error { cause := .transfer (.file (.system e)) } s

def buksan (call : Call) : Eval Value := do
  let path ← call.str 0
  let mode ← call.str 1
  match FileMode.ofText? mode with
  | some mode => openFile path mode
  | none => call.refuse (.noMode mode)

def basahin (call : Call) : Eval Value := do
  let file ← call.file 0
  return .str (← Eval.onFiles (·.readRest file))

def linya (call : Call) : Eval Value := do
  let file ← call.file 0
  return .str (← Eval.onFiles (·.readLine file))

def isulat (call : Call) : Eval Value := do
  let text ← call.str 1
  let file ← call.file 0
  Eval.onFiles (·.write file text)
  return .void

def isara (call : Call) : Eval Value := do
  let file ← call.file 0
  Eval.onFiles fun table => (.ok (), table.close file)
  return .void

end Salita.Call
