namespace Salita

inductive Arity where
  | exact (count : Nat)
  | range (min max : Nat)
  | atLeast (min : Nat)
deriving DecidableEq, Repr

namespace Arity

def accepts : Arity → Nat → Bool
  | .exact count, given => given == count
  | .range min max, given => min ≤ given && given ≤ max
  | .atLeast min, given => min ≤ given

def noun (count : Nat) : String := if count = 1 then "argument" else "arguments"

def description : Arity → String
  | .exact 0 => "takes no arguments"
  | .exact count => "takes exactly " ++ count.repr ++ " " ++ noun count
  | .range min max => "takes from " ++ min.repr ++ " to " ++ max.repr ++ " arguments"
  | .atLeast min => "takes at least " ++ min.repr ++ " " ++ noun min

def listing : Arity → String
  | .exact count => "Exact(" ++ count.repr ++ ")"
  | .range min max => "Range(" ++ min.repr ++ ", " ++ max.repr ++ ")"
  | .atLeast min => "AtLeast(" ++ min.repr ++ ")"

end Arity

inductive Builtin where
  | bilang
  | lutang
  | titik
  | halaga
  | ibilog
  | putulin
  | kisame
  | sahig
  | iangat
  | ibaba
  | parisugat
  | maximo
  | minimo
  | haba
  | palitan
  | idagdag
  | tanggalan
  | silipin
  | isaayos
  | baligtarin
  | baligtad
  | nakaayos
  | pahingi
  | buksan
  | basahin
  | linya
  | isulat
  | isara
  | argumentCount
deriving DecidableEq, Repr

structure Native where
  name : String
  arity : Arity
  builtin : Builtin
deriving DecidableEq, Repr

namespace Native

def listing (f : Native) : String := "NativeFunction(" ++ f.name ++ ", " ++ f.arity.listing ++ ")"

def standard : List Native :=
  [⟨"bilang", .exact 1, .bilang⟩,
    ⟨"lutang", .exact 1, .lutang⟩,
    ⟨"titik", .exact 1, .titik⟩,
    ⟨"halaga", .exact 1, .halaga⟩,
    ⟨"ibilog", .range 1 2, .ibilog⟩,
    ⟨"putulin", .exact 1, .putulin⟩,
    ⟨"kisame", .exact 1, .kisame⟩,
    ⟨"sahig", .exact 1, .sahig⟩,
    ⟨"iangat", .exact 2, .iangat⟩,
    ⟨"ibaba", .range 1 2, .ibaba⟩,
    ⟨"parisugat", .exact 1, .parisugat⟩,
    ⟨"maximo", .atLeast 1, .maximo⟩,
    ⟨"minimo", .atLeast 1, .minimo⟩,
    ⟨"haba", .exact 1, .haba⟩,
    ⟨"palitan", .exact 3, .palitan⟩,
    ⟨"idagdag", .exact 2, .idagdag⟩,
    ⟨"tanggalan", .exact 1, .tanggalan⟩,
    ⟨"silipin", .exact 1, .silipin⟩,
    ⟨"isaayos", .range 1 2, .isaayos⟩,
    ⟨"baligtarin", .exact 1, .baligtarin⟩,
    ⟨"baligtad", .exact 1, .baligtad⟩,
    ⟨"nakaayos", .exact 1, .nakaayos⟩,
    ⟨"pahingi", .range 0 1, .pahingi⟩,
    ⟨"buksan", .exact 2, .buksan⟩,
    ⟨"basahin", .exact 1, .basahin⟩,
    ⟨"linya", .exact 1, .linya⟩,
    ⟨"isulat", .exact 2, .isulat⟩,
    ⟨"isara", .exact 1, .isara⟩]

end Native

/-- Functions by name, in the order in which the names were first registered. -/
structure Registry where
  functions : List Native
deriving DecidableEq, Repr

namespace Registry

def empty : Registry := ⟨[]⟩

def put (f : Native) : List Native → List Native
  | [] => [f]
  | g :: rest => if g.name = f.name then f :: rest else g :: put f rest

def register (registry : Registry) (f : Native) : Registry := ⟨put f registry.functions⟩

def get? (registry : Registry) (name : String) : Option Native :=
  registry.functions.find? (·.name = name)

def names (registry : Registry) : List String := registry.functions.map (·.name)

def size (registry : Registry) : Nat := registry.functions.length

def standard : Registry := Native.standard.foldl register empty

end Registry

end Salita
