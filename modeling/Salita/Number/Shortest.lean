import Salita.Number.Binary64

/-!
# The fewest digits of a float

The decimal written for a float is the one with the fewest digits among those that read back as
this float, and of several with that many digits the nearest. Decimals read back as a float if
they lie in the interval of numbers that are rounded to it. All tests are exact, in natural
numbers.
-/

namespace Salita.Decimal

structure Scientific where
  digits : Nat
  exponent : Int
deriving DecidableEq, Repr

/-- The numbers that are rounded to one float: those between `low` and `high`, both multiplied by
`4 * 2 ^ scale`. The ends belong to it if `closed`. -/
structure Interval where
  low : Nat
  value : Nat
  high : Nat
  scale : Int
  closed : Bool
deriving Repr

/-- The interval of the float `mantissa * 2 ^ exponent`. At a power of two the neighbour below is
only half as far away, so long as it is not a subnormal. -/
def Interval.ofFloat (mantissa : Nat) (exponent : Int) : Interval where
  low := if mantissa = Binary64.unit ∧ exponent ≠ -1074 then 4 * mantissa - 1 else 4 * mantissa - 2
  value := 4 * mantissa
  high := 4 * mantissa + 2
  scale := exponent - 2
  closed := mantissa % 2 = 0

structure Scaled where
  low : Nat
  value : Nat
  high : Nat
  unit : Nat
  closed : Bool

def Interval.divPowTen (interval : Interval) (exponent : Int) : Scaled :=
  let factor := Nat.pow 10 (-exponent).toNat * Nat.pow 2 interval.scale.toNat
  { low := interval.low * factor
    value := interval.value * factor
    high := interval.high * factor
    unit := Nat.pow 10 exponent.toNat * Nat.pow 2 (-interval.scale).toNat
    closed := interval.closed }

def Scaled.contains (scaled : Scaled) (n : Nat) : Bool :=
  let x := n * scaled.unit
  if scaled.closed then scaled.low ≤ x && x ≤ scaled.high else scaled.low < x && x < scaled.high

/-- The multiple of the unit nearest to the value, if one lies in the interval. Only the two
neighbours of the value have to be tried, and of two equally near ones the upper is taken. -/
def Scaled.nearest? (scaled : Scaled) : Option Nat :=
  let below := scaled.value / scaled.unit
  let above := below + 1
  let rest := scaled.value % scaled.unit
  if scaled.contains below && (2 * rest < scaled.unit || !scaled.contains above) then some below
  else if scaled.contains above then some above
  else none

def Scientific.trim : Nat → Scientific → Scientific
  | 0, s => s
  | steps + 1, s =>
      if s.digits ≠ 0 ∧ s.digits % 10 = 0 then trim steps ⟨s.digits / 10, s.exponent + 1⟩ else s

def Interval.reaches (interval : Interval) (exponent : Int) : Bool :=
  let scaled := interval.divPowTen exponent
  scaled.unit ≤ scaled.value

/-- The exponent of the leading decimal digit of the interval's value. That of the leading bit,
times the logarithm of two, gives it up to one. -/
def Interval.leading (interval : Interval) : Int :=
  let estimate := (interval.value.log2 + interval.scale) * 1233 / 4096
  if interval.reaches (estimate + 1) then estimate + 1
  else if interval.reaches estimate then estimate
  else estimate - 1

def search (interval : Interval) : Nat → Int → Scientific
  | 0, exponent => ⟨interval.value, exponent⟩
  | steps + 1, exponent =>
      match (interval.divPowTen exponent).nearest? with
      | some n => ⟨n, exponent⟩
      | none => search interval steps (exponent - 1)

/-- The shortest decimal of the float `mantissa * 2 ^ exponent`. Seventeen digits always
suffice. -/
def shortest (mantissa : Nat) (exponent : Int) : Scientific :=
  if mantissa = 0 then ⟨0, 0⟩
  else
    let interval := Interval.ofFloat mantissa exponent
    (search interval 18 interval.leading).trim 18

end Salita.Decimal
