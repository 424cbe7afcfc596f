import Salita.Evaluation.Error
import Salita.Interpreter.Suggestion

namespace Salita

structure Environment where
  bindings : List (String × Value)
  functions : Registry

namespace Environment

def prelude : List (String × Value) :=
  [("asin_pi", .float (Float.ofBits 0x400921fb54442d18)),
    ("asin_e", .float (Float.ofBits 0x4005bf0a8b145769))]

def empty : Environment := ⟨[], .empty⟩

def ofRegistry (registry : Registry) : Environment :=
  ⟨prelude, registry.functions.foldl Registry.register .empty⟩

def standard : Environment := ofRegistry .standard

def bind (name : String) (value : Value) : List (String × Value) → List (String × Value)
  | [] => [(name, value)]
  | (other, old) :: rest =>
      if other = name then (name, value) :: rest else (other, old) :: bind name value rest

def set (env : Environment) (name : String) (value : Value) : Environment :=
  { env with bindings := bind name value env.bindings }

def erase (env : Environment) (name : String) : Environment :=
  { env with bindings := env.bindings.filter fun binding => binding.1 ≠ name }

def get? (env : Environment) (name : String) : Option Value := env.bindings.lookup name

def contains (env : Environment) (name : String) : Bool := (env.get? name).isSome

def variableNames (env : Environment) : List String := env.bindings.map (·.1)

def valueOf (env : Environment) (name : String) : Except EvalError Value :=
  match env.get? name with
  | some value => .ok value
  | none => .error
      { cause := .undefinedName name .vars
        help := Suggestion.didYouMean? name env.variableNames }

def functionOf (env : Environment) (name : String) : Except EvalError Native :=
  match env.functions.get? name with
  | some f => .ok f
  | none => .error
      { cause := .undefinedName name .functions
        help := Suggestion.didYouMean? name env.functions.names }

end Environment

end Salita
