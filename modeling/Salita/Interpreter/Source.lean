import Salita.Interpreter.Statement
import Salita.Syntax.Parser
import Salita.Token.Lexer

namespace Salita

inductive RunError where
  | lex (error : LexError)
  | parse (error : ParseError)
  | eval (error : EvalError)
deriving DecidableEq, Repr

namespace RunError

def code : RunError → Code
  | .lex _ => .unreadableText
  | .parse e => e.code
  | .eval e => e.code

def message : RunError → String
  | .lex e => e.message
  | .parse e => e.message
  | .eval e => e.message

def span? : RunError → Option Span
  | .lex e => some e.span
  | .parse e => some e.span
  | .eval e => e.span

def report : RunError → Report
  | .lex e => e.report
  | .parse e => e.report
  | .eval e => e.report

end RunError

def readProgram (source : String) : Except RunError Program :=
  match lex source with
  | .error e => .error (.lex e)
  | .ok tokens =>
      match parse tokens source with
      | .error e => .error (.parse e)
      | .ok program => .ok program

def readSource (disk : Disk) (path : String) : Except RunError String :=
  match disk.readText path with
  | .ok source => .ok source
  | .error .notFound => .error (.eval { cause := .fileNotFound path })
  | .error e => .error (.eval { cause := .transfer (.file (.system e)) })

inductive Finish where
  | done
  | failed (error : RunError)
  | outOfRounds
deriving DecidableEq, Repr

namespace Machine

def start (env : Environment) (disk : Disk) (input : List String) (output : Output) : Machine :=
  ⟨env, { files := .ofDisk disk, input := input, output := output }⟩

def finish {α : Type} (x : Exec α) (m : Machine) : Finish × Machine :=
  match x m with
  | .ok _ m => (.done, m)
  | .error (.error e) m => (.failed (.eval e), m)
  | .error .outOfRounds m => (.outOfRounds, m)

def runSource (rounds : Nat) (source : String) (m : Machine) : Finish × Machine :=
  match readProgram source with
  | .error e => (.failed e, m)
  | .ok program => m.finish (program.run rounds)

def runFile (rounds : Nat) (path : String) (m : Machine) : Finish × Machine :=
  match readSource m.store.files.disk path with
  | .error e => (.failed e, m)
  | .ok source => m.runSource rounds source

end Machine

end Salita
