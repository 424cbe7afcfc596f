import Salita.Number.Layout
import Salita.Text.Quoted
import Salita.Value.Basic
import Std.Data.TreeSet

namespace Salita

def Value.floatLayout : Decimal.Layout :=
  { Decimal.Layout.listing with nan := "nan", plus := "+", exponentWidth := 2 }

def Value.recurring : String := "[...]"

def Value.scalarText : Value → String
  | .int n => n.toInt.repr
  | .float x => floatLayout.write x
  | .str s => "\"" ++ s ++ "\""
  | .bool true => "Totoo"
  | .bool false => "Huwad"
  | .list _ => recurring
  | .function f => "<native function " ++ f.name ++ ">"
  | .file f => "<file \"" ++ f.path ++ "\" " ++ f.mode.text ++ ">"
  | .void => "Wala"

namespace Heap

abbrev Around := Std.TreeSet Nat

/-- Writes a value. The set has a list while its elements are written. At most `depth` lists are
entered. -/
def write (heap : Heap) : Nat → Value → StateM Around String
  | 0, value => return value.scalarText
  | depth + 1, .list id => do
      if (← get).contains id.index then return Value.recurring
      modifyThe Around (·.insert id.index)
      let texts ← (heap.items id).toList.mapM (heap.write depth)
      modifyThe Around (·.erase id.index)
      return "[" ++ ", ".intercalate texts ++ "]"
  | _ + 1, value => return value.scalarText

/-- The text of a value. No path through the heap enters more lists than there are. -/
def text (heap : Heap) : Value → String
  | .str s => s
  | value => ((heap.write (heap.lists.size + 1) value).run ∅).1

def listing (heap : Heap) : Value → String
  | .int n => "Int(" ++ n.toInt.repr ++ ")"
  | .float x => "Float(" ++ Decimal.Layout.listing.write x ++ ")"
  | .str s => "Str(" ++ Text.quoted s ++ ")"
  | .bool b => "Bool(" ++ (if b then "true" else "false") ++ ")"
  | .list id => "Array(ArrayRef(" ++ heap.text (.list id) ++ "))"
  | .function f => "Function(" ++ f.listing ++ ")"
  | .file f => "File(FileRef(" ++ heap.text (.file f) ++ "))"
  | .void => "Void"

end Heap

end Salita
