import LiveMarkup.Decimal.Binary

namespace LiveMarkup

/-- `digits * 10 ^ exponent`. -/
structure Decimal where
  digits : Nat
  exponent : Int
deriving DecidableEq, Repr

/-- The reals that round to one double, as natural numbers over a common denominator. -/
structure RoundingInterval where
  low : Nat
  value : Nat
  high : Nat
  den : Nat
  closed : Bool

def roundingInterval (mantissa : Nat) (exponent : Int) : RoundingInterval :=
  let below := if mantissa = twoTo 52 && -1074 < exponent then 1 else 2
  let (scale, den) := inUnits 1 1 (2 - exponent)
  { low := (4 * mantissa - below) * scale
    value := 4 * mantissa * scale
    high := (4 * mantissa + 2) * scale
    den := den
    closed := mantissa % 2 == 0 }

/-- Whether `n * 10 ^ t` rounds to the double of the interval. -/
def RoundingInterval.covers (i : RoundingInterval) (n : Nat) (t : Int) : Bool :=
  let up := tenTo t.toNat
  let down := tenTo (-t).toNat
  let point := n * up * i.den
  if i.closed then i.low * down ≤ point && point ≤ i.high * down
  else i.low * down < point && point < i.high * down

/-- The exponent of the first decimal digit of the value. -/
def RoundingInterval.magnitude (i : RoundingInterval) : Int :=
  ((Nat.toDigits 10 (i.value * tenTo 340 / i.den)).length : Int) - 341

/-- The multiple of `10 ^ t` beside the value that rounds to the double, the nearer one of two and the
upper one of two equally near. -/
def RoundingInterval.neighbour? (i : RoundingInterval) (t : Int) : Option Decimal :=
  let up := tenTo t.toNat
  let down := tenTo (-t).toNat
  let floor := i.value * down / (i.den * up)
  match i.covers floor t, i.covers (floor + 1) t with
  | true, true =>
    if 2 * i.value * down < (2 * floor + 1) * up * i.den then some ⟨floor, t⟩ else some ⟨floor + 1, t⟩
  | true, false => some ⟨floor, t⟩
  | false, true => some ⟨floor + 1, t⟩
  | false, false => none

/-- A decimal with the fewest digits among those that round to `mantissa * 2 ^ exponent`. Seventeen
digits are always enough. -/
def shortest (mantissa : Nat) (exponent : Int) : Decimal :=
  let i := roundingInterval mantissa exponent
  let k := i.magnitude
  ((List.range 17).findSome? fun n : Nat => i.neighbour? (k - (n : Int))).getD ⟨mantissa, 0⟩

end LiveMarkup
