namespace Salita.Whole

def limit : Int := 0x8000000000000000

def ofInt? (n : Int) : Option Int64 :=
  if -limit ≤ n ∧ n < limit then some (Int64.ofInt n) else none

def add? (a b : Int64) : Option Int64 := ofInt? (a.toInt + b.toInt)

def sub? (a b : Int64) : Option Int64 := ofInt? (a.toInt - b.toInt)

def mul? (a b : Int64) : Option Int64 := ofInt? (a.toInt * b.toInt)

def neg? (a : Int64) : Option Int64 := ofInt? (-a.toInt)

def abs? (a : Int64) : Option Int64 := ofInt? a.toInt.natAbs

def div? (a b : Int64) : Option Int64 :=
  if b.toInt = 0 then none else ofInt? (a.toInt.tdiv b.toInt)

def rem? (a b : Int64) : Option Int64 := do
  let _ ← div? a b
  ofInt? (a.toInt.tmod b.toInt)

def isOpposed (remainder divisor : Int64) : Bool :=
  remainder.toInt ≠ 0 && decide (remainder.toInt < 0) != decide (divisor.toInt < 0)

def floorDiv? (a b : Int64) : Option Int64 := do
  let quotient ← div? a b
  let remainder ← rem? a b
  if isOpposed remainder b then sub? quotient 1 else return quotient

/-- The remainder that goes with `floorDiv?`: zero, or of the sign of the divisor. It exists even
where the quotient does not. -/
def floorMod? (a b : Int64) : Option Int64 :=
  if b.toInt = -1 then some 0
  else do
    let remainder ← rem? a b
    if isOpposed remainder b then add? remainder b else return remainder

def mulPow? (factor base : Int64) (exponent : Nat) : Option Int64 :=
  if exponent = 0 then some factor
  else if exponent = 1 then mul? factor base
  else do
    let factor ← (if exponent % 2 = 1 then mul? factor base else some factor)
    let square ← mul? base base
    mulPow? factor square (exponent / 2)
termination_by exponent

def exponentLimit : Nat := 0x100000000

/-- The power of a base with a natural exponent. Beyond the limit only the bases 0, 1 and -1 have a
power in range, and that of -1 depends on the exponent's parity. -/
def pow? (base : Int64) (exponent : Nat) : Option Int64 :=
  if exponent < exponentLimit then mulPow? 1 base exponent
  else if base.toInt = 0 ∨ base.toInt = 1 then some base
  else if base.toInt = -1 then some (if exponent % 2 = 0 then 1 else -1)
  else none

def divHalfEven (n d : Nat) : Nat :=
  let q := n / d
  let r := n % d
  if d < 2 * r ∨ (2 * r = d ∧ q % 2 = 1) then q + 1 else q

def roundToMultiple? (n step : Int64) : Option Int64 := do
  let quotient := Int64.ofInt (n.toInt / step.toInt)
  let remainder := Int64.ofInt (n.toInt % step.toInt)
  let twice ← mul? remainder 2
  let isUp := step.toInt < twice.toInt ∨ (twice.toInt = step.toInt ∧ quotient.toInt % 2 ≠ 0)
  let quotient ← (if isUp then add? quotient 1 else some quotient)
  mul? quotient step

/-- The number rounded to `digits` places behind the point. No places or more change nothing, and
`-k` places give the nearest multiple of `10 ^ k`. If this step is itself no 64-bit number, then
every number is rounded to zero. -/
def roundPlaces? (n : Int64) (digits : Int) : Option Int64 :=
  if 0 ≤ digits then some n
  else
    match if digits.natAbs < exponentLimit then mulPow? 1 10 digits.natAbs else none with
    | none => some 0
    | some step => roundToMultiple? n step

end Salita.Whole
