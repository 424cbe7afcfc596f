import Salita.Number.Binary64

namespace Salita.Decimal

def shift (n : Nat) (digit : Char) : Nat := 10 * n + (digit.toNat - '0'.toNat)

def valueOf (digits : List Char) : Nat := digits.foldl shift 0

/-- The value of a run of decimal digits, of which those are left out that follow a value of
`bound` or more. It is exact below the bound, and at least the bound from there on. -/
def valueUpTo (bound : Nat) (digits : List Char) : Nat :=
  digits.foldl (fun n digit => if n < bound then shift n digit else n) 0

def signed (negative : Bool) (n : Nat) : Int := if negative then -(n : Int) else n

def splitSign : List Char → Bool × List Char
  | '+' :: text => (false, text)
  | '-' :: text => (true, text)
  | text => (false, text)

def readWhole? (text : List Char) : Option Int64 :=
  let (negative, digits) := splitSign text
  if digits ≠ [] ∧ digits.all Char.isDigit then
    Whole.ofInt? (signed negative (valueUpTo 0x10000000000000000 digits))
  else none

/-- The float nearest to `digits * 10 ^ exponent`. Numbers of more than 400 places before the point
are infinite, and those with more than 400 zeros behind it are zero. -/
def nearestFloat (digits : Nat) (exponent : Int) : Float :=
  let leading := (digits.repr.length : Int) + exponent
  if digits = 0 then 0.0
  else if 400 < leading then Binary64.ofMagnitude false Binary64.infiniteMagnitude
  else if leading < -400 then 0.0
  else Float.ofScientific digits (exponent < 0) exponent.natAbs

def significantDigits : Nat := 800

/-- The float nearest to the number that the digits spell, times `10 ^ exponent`. Of the digits
behind the significant ones it only counts whether all of them are zero, as no number halfway
between two floats differs from this one in them alone. -/
def roundDigits (digits : List Char) (exponent : Int) : Float :=
  let digits := digits.dropWhile (· = '0')
  let behind := digits.drop significantDigits
  if behind = [] then nearestFloat (valueOf digits) exponent
  else
    let last := if behind.all (· = '0') then '0' else '1'
    nearestFloat (shift (valueOf (digits.take significantDigits)) last)
      (exponent + behind.length - 1)

def exponentBound : Nat := 0x10000

def readExponent? : List Char → Option Int
  | [] => some 0
  | mark :: text =>
      let (negative, digits) := splitSign text
      if (mark = 'e' ∨ mark = 'E') ∧ digits ≠ [] ∧ digits.all Char.isDigit then
        some (signed negative (valueUpTo exponentBound digits))
      else none

def readUnsigned? (text : List Char) : Option Float := do
  let whole := text.takeWhile Char.isDigit
  let (fraction, rest) := match text.dropWhile Char.isDigit with
    | '.' :: behind => (behind.takeWhile Char.isDigit, behind.dropWhile Char.isDigit)
    | rest => ([], rest)
  if whole = [] ∧ fraction = [] then none
  else
    let exponent ← readExponent? rest
    return roundDigits (whole ++ fraction) (exponent - fraction.length)

def readFloat? (text : List Char) : Option Float :=
  let (negative, text) := splitSign text
  let name := text.map Char.toLower
  let read :=
    if name = "inf".toList ∨ name = "infinity".toList then
      some (Binary64.ofMagnitude false Binary64.infiniteMagnitude)
    else if name = "nan".toList then some Binary64.nan
    else readUnsigned? text
  read.map fun x => if negative then -x else x

end Salita.Decimal
