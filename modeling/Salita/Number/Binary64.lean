import Salita.Number.Whole

/-!
# Floats by their bits

A float is a sign, a mantissa and a power of two. The functions here read and build these parts
exactly, in integers: the order of floats, the float nearest to an integer, rounding to integers
and the remainder of a division. Sums, products, quotients and roots are those of `Float`.
-/

namespace Salita.Binary64

def signBit : Nat := 0x8000000000000000

def unit : Nat := 0x10000000000000

/-- What the bits of a float say: a finite one is `mantissa * 2 ^ exponent`, negated or not. -/
inductive Parts where
  | nan
  | infinite (negative : Bool)
  | finite (negative : Bool) (mantissa : Nat) (exponent : Int)
deriving DecidableEq, Repr

def isNegative (x : Float) : Bool := signBit ≤ x.toBits.toNat

def magnitude (x : Float) : Nat := x.toBits.toNat % signBit

def infiniteMagnitude : Nat := 2047 * unit

def isNaN (x : Float) : Bool := infiniteMagnitude < magnitude x

def isFinite (x : Float) : Bool := magnitude x < infiniteMagnitude

def parts (x : Float) : Parts :=
  let biased : Nat := magnitude x / unit
  let fraction := magnitude x % unit
  if biased = 2047 then
    if fraction = 0 then .infinite (isNegative x) else .nan
  else if biased = 0 then .finite (isNegative x) fraction (-1074)
  else .finite (isNegative x) (unit + fraction) ((biased : Int) - 1075)

def ofMagnitude (negative : Bool) (magnitude : Nat) : Float :=
  Float.ofBits (UInt64.ofNat (if negative then signBit + magnitude else magnitude))

def copySign (x sign : Float) : Float := ofMagnitude (isNegative sign) (magnitude x)

/-- The place of a number in the order of floats. Both zeros have place zero. -/
def rank (x : Float) : Int := if isNegative x then -(magnitude x : Int) else magnitude x

def order? (x y : Float) : Option Ordering :=
  if isNaN x || isNaN y then none else some (compare (rank x) (rank y))

def isZero (x : Float) : Bool := magnitude x == 0

def isBelowZero (x : Float) : Bool := !isNaN x && isNegative x && !isZero x

def magnitudeOfNat (n : Nat) : Nat :=
  if n = 0 then 0
  else if n.log2 ≤ 52 then (n.log2 + 1022) * unit + n * Nat.pow 2 (52 - n.log2)
  else (n.log2 + 1022) * unit + Whole.divHalfEven n (Nat.pow 2 (n.log2 - 52))

def ofInt (n : Int) : Float := ofMagnitude (n < 0) (magnitudeOfNat n.natAbs)

/-- The float `mantissa * 2 ^ exponent` of a mantissa below `2 ^ 53` and an exponent from `-1074`
on, in which case it is exact. -/
def ofParts (negative : Bool) (mantissa : Nat) (exponent : Int) : Float :=
  let leading := mantissa.log2 + exponent
  ofMagnitude negative <|
    if mantissa = 0 then 0
    else if leading < -1022 then mantissa * Nat.pow 2 (exponent + 1074).toNat
    else (leading + 1022).toNat * unit + mantissa * Nat.pow 2 (52 - mantissa.log2)

inductive Rounding where
  | down
  | up
  | towardZero
  | halfEven
deriving DecidableEq, Repr

def Rounding.apply (rounding : Rounding) (negative : Bool) (n d : Nat) : Nat :=
  match rounding with
  | .down => if negative then (n + (d - 1)) / d else n / d
  | .up => if negative then n / d else (n + (d - 1)) / d
  | .towardZero => n / d
  | .halfEven => Whole.divHalfEven n d

def round? (rounding : Rounding) (x : Float) : Option Int :=
  match parts x with
  | .finite negative mantissa exponent =>
      let n := if 0 ≤ exponent then mantissa * Nat.pow 2 exponent.toNat
        else rounding.apply negative mantissa (Nat.pow 2 exponent.natAbs)
      some (if negative then -(n : Int) else n)
  | _ => none

def round (rounding : Rounding) (x : Float) : Float :=
  match parts x with
  | .finite negative mantissa exponent =>
      if 0 ≤ exponent then x
      else ofMagnitude negative
        (magnitudeOfNat (rounding.apply negative mantissa (Nat.pow 2 exponent.natAbs)))
  | _ => x

def nan : Float := Float.ofBits 0x7ff8000000000000

def remainder (x y : Float) : Float :=
  match parts x, parts y with
  | .finite negative m e, .finite _ n f =>
      if n = 0 then nan
      else
        let least := min e f
        ofParts negative (m * Nat.pow 2 (e - least).toNat % (n * Nat.pow 2 (f - least).toNat)) least
  | .finite .., .infinite _ => x
  | _, _ => nan

/-- Quotient rounded down and remainder of the sign of the divisor, for a divisor other than
zero. The quotient comes from the exact remainder: `1 // 0.1` is nine, as `0.1` is a little
more than a tenth. -/
def divMod (a b : Float) : Float × Float :=
  let m := remainder a b
  let q := (a - m) / b
  let (q, m) :=
    if isZero m then (q, copySign 0.0 b)
    else if isBelowZero m != isBelowZero b then (q - 1.0, m + b)
    else (q, m)
  if isZero q then (copySign 0.0 (a / b), m)
  else
    let floor := round .down q
    (if order? (q - floor) 0.5 = some .gt then floor + 1.0 else floor, m)

def squarings : Nat → Float → Float → Nat → Float
  | 0, _, r, _ => r
  | steps + 1, a, r, n =>
      let r := if n % 2 = 1 then r * a else r
      if n / 2 = 0 then r else squarings steps (a * a) r (n / 2)

def powWhole (a : Float) (n : Int) : Float :=
  let r := squarings (n.natAbs.log2 + 1) a 1.0 n.natAbs
  if n < 0 then 1.0 / r else r

def clampPlaces (digits : Int) : Int := max (-0x80000000) (min digits 0x7fffffff)

/-- A float rounded to `digits` places behind the point, a tie going to the even digit. Where
scaling by the power of ten leaves the range of floats, the number keeps its value. -/
def roundPlaces (x : Float) (digits : Int) : Float :=
  let factor := powWhole 10.0 (clampPlaces digits)
  let scaled := x * factor
  if !isFinite x then x
  else if isZero factor then copySign 0.0 x
  else if !isFinite scaled then x
  else round .halfEven scaled / factor

end Salita.Binary64
