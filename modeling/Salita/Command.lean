import Salita.Interpreter.Source
import Salita.Report.Terminal
import Salita.Syntax.Outline

namespace Salita

structure Response where
  exit : Nat
  stdout : String := ""
  stderr : String := ""
  machine : Machine
  finish : Option Finish := none

namespace Command

def version : String := "0.1.0"

def usage : String := String.join (List.map (· ++ "\n")
  ["Asin, a tree-walking interpreter with Tagalog keywords",
    "",
    "Usage: asin <command> [options]",
    "       asin <file.asin>",
    "",
    "Commands:",
    "  run <file.asin>      Run an Asin program",
    "  lex <file.asin>      Tokenize and display tokens",
    "  parse <file.asin>    Parse and display the syntax tree",
    "  help                 Show this help message",
    "  version              Show version information",
    "",
    "Options:",
    "  --color=<mode>       Diagnostic colors: auto (default), always, never",
    "",
    "Environment:",
    "  ASIN_LOG=<filter>    Enable tracing, e.g. ASIN_LOG=asin_eval=debug",
    "  ASIN_LOG_TREE=1      Render traces as an indented span tree",
    "",
    "Examples:",
    "  asin main.asin",
    "  asin run main.asin --color=never",
    "  asin lex main.asin"])

inductive Action where
  | run
  | listTokens
  | outline
deriving DecidableEq, Repr

inductive Request where
  | file (action : Action) (path : String)
  | noPath (command : String)
  | help
  | version
  | unknown (command : String)
deriving DecidableEq, Repr

def colorOption : String := "--color="

/-- Takes the colour options out of the arguments, of which the last one counts. The value of one
that is not understood is an error. -/
def splitColor : Terminal.ColorMode → List String → Except String (Terminal.ColorMode × List String)
  | mode, [] => .ok (mode, [])
  | mode, arg :: rest =>
      if arg.startsWith colorOption then
        let value := (arg.drop colorOption.length).toString
        match Terminal.ColorMode.ofText? value with
        | some mode => splitColor mode rest
        | none => .error value
      else (splitColor mode rest).map fun (mode, args) => (mode, arg :: args)

def onFile (action : Action) (command : String) : List String → Request
  | [] => .noPath command
  | path :: _ => .file action path

def request : List String → Request
  | [] => .help
  | "run" :: rest => onFile .run "run" rest
  | "lex" :: rest => onFile .listTokens "lex" rest
  | "parse" :: rest => onFile .outline "parse" rest
  | "help" :: _ | "--help" :: _ | "-h" :: _ => .help
  | "version" :: _ | "--version" :: _ | "-v" :: _ => .version
  | command :: _ => if command.startsWith "-" then .unknown command else .file .run command

def fail (mode : Terminal.ColorMode) (isTerminal : Bool) (path : String) (source : Option String)
    (e : RunError) (m : Machine) : Response :=
  let origin := source.map fun text => (⟨path, Lines.ofText text.toList⟩ : Terminal.Origin)
  { exit := 1
    stderr := Terminal.render (mode.usesColor isTerminal) origin e.report
    machine := m }

def tokenListing (path : String) (tokens : Array Token) : String :=
  let lines := tokens.toList.map fun t => "  " ++ t.kind.listing ++ " @ " ++ t.span.text ++ "\n"
  "Tokens for '" ++ path ++ "' (" ++ tokens.size.repr ++ " tokens):\n" ++ String.join lines

def outlineListing (path : String) (program : Program) : String :=
  let outlines := program.map fun stmt => stmt.outline ++ "\n"
  "Parse result for '" ++ path ++ "':\n  Statements: " ++ program.length.repr ++ "\n"
    ++ (if program.isEmpty then "" else "\n" ++ String.join outlines)

def act (rounds : Nat) (mode : Terminal.ColorMode) (isTerminal : Bool) (path source : String)
    (m : Machine) : Action → Response
  | .run =>
      let (finish, m) := m.runSource rounds source
      match finish with
      | .failed e =>
          { fail mode isTerminal path (some source) e m with
            stdout := m.store.output.text
            finish := some finish }
      | _ => { exit := 0, stdout := m.store.output.text, machine := m, finish := some finish }
  | .listTokens =>
      match lex source with
      | .error e => fail mode isTerminal path (some source) (.lex e) m
      | .ok tokens => { exit := 0, stdout := tokenListing path tokens, machine := m }
  | .outline =>
      match readProgram source with
      | .error e => fail mode isTerminal path (some source) e m
      | .ok program => { exit := 0, stdout := outlineListing path program, machine := m }

def perform (rounds : Nat) (isTerminal : Bool) (args : List String) (m : Machine) : Response :=
  match splitColor .auto args with
  | .error value =>
      { exit := 1
        stderr := "error: invalid --color value '" ++ value
          ++ "' (expected auto, always or never)\n"
        machine := m }
  | .ok (mode, args) =>
      match request args with
      | .file action path =>
          match readSource m.store.files.disk path with
          | .error e => fail mode isTerminal path none e m
          | .ok source => act rounds mode isTerminal path source m action
      | .noPath command =>
          { exit := 1, stderr := "Usage: asin " ++ command ++ " <file.asin>\n", machine := m }
      | .help => { exit := 0, stdout := usage, machine := m }
      | .version => { exit := 0, stdout := "Asin " ++ version ++ "\n", machine := m }
      | .unknown command =>
          { exit := 1
            stdout := usage
            stderr := "Unknown command: " ++ command ++ "\n\n"
            machine := m }

def linesBehind : List Char → List Char → List String
  | [], [] => []
  | line, [] => [String.ofList line.reverse]
  | line, '\n' :: text => String.ofList ('\n' :: line).reverse :: linesBehind [] text
  | line, c :: text => linesBehind (c :: line) text

def inputLines (text : String) : List String := linesBehind [] text.toList

end Command

end Salita
