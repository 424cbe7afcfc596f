import Salita.Number.Shortest

namespace Salita.Decimal

structure Layout where
  nan : String
  infinity : String
  /-- The leading exponents that are written positionally: from the first, below the second.
  All of them, if there are no bounds. -/
  positional : Option (Int × Int)
  wholeSuffix : String
  plus : String
  exponentWidth : Nat

/-- Floats in listings and outlines: positional from `1e-4` to below `1e16`, with `.0` behind a
whole one, and elsewhere with a bare exponent. -/
def Layout.listing : Layout where
  nan := "NaN"
  infinity := "inf"
  positional := some (-4, 16)
  wholeSuffix := ".0"
  plus := ""
  exponentWidth := 1

def zeros (n : Nat) : String := String.ofList (List.replicate n '0')

def digitsOf (n : Nat) : List Char := Nat.toDigits 10 n

def Layout.positionalText (layout : Layout) (digits : List Char) (leading : Int) : String :=
  if leading < 0 then "0." ++ zeros (-leading - 1).toNat ++ String.ofList digits
  else
    let whole := leading.toNat + 1
    if digits.length ≤ whole then
      String.ofList digits ++ zeros (whole - digits.length) ++ layout.wholeSuffix
    else String.ofList (digits.take whole) ++ "." ++ String.ofList (digits.drop whole)

def Layout.exponentText (layout : Layout) (digits : List Char) (leading : Int) : String :=
  let mantissa := match digits with
    | first :: second :: rest => String.ofList (first :: '.' :: second :: rest)
    | short => String.ofList short
  let exponent := digitsOf leading.natAbs
  mantissa ++ "e" ++ (if leading < 0 then "-" else layout.plus)
    ++ zeros (layout.exponentWidth - exponent.length) ++ String.ofList exponent

def Layout.unsigned (layout : Layout) (s : Scientific) : String :=
  let digits := digitsOf s.digits
  let leading := if s.digits = 0 then 0 else s.exponent + digits.length - 1
  match layout.positional with
  | none => layout.positionalText digits leading
  | some (low, high) =>
      if low ≤ leading ∧ leading < high then layout.positionalText digits leading
      else layout.exponentText digits leading

def Layout.write (layout : Layout) (x : Float) : String :=
  match Binary64.parts x with
  | .nan => layout.nan
  | .infinite negative => if negative then "-" ++ layout.infinity else layout.infinity
  | .finite negative mantissa exponent =>
      let text := layout.unsigned (shortest mantissa exponent)
      if negative then "-" ++ text else text

end Salita.Decimal
