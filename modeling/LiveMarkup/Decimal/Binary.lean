namespace LiveMarkup

def twoTo (n : Nat) : Nat :=
  Nat.pow 2 n

def tenTo (n : Nat) : Nat :=
  Nat.pow 10 n

/-- A double, with a finite one as its sign and `mantissa * 2 ^ exponent`. -/
inductive Binary where
  | nan
  | infinite (negative : Bool)
  | finite (negative : Bool) (mantissa : Nat) (exponent : Int)
deriving DecidableEq, Repr

def Binary.ofBits (bits : Nat) : Binary :=
  let negative := bits / twoTo 63 % 2 == 1
  let field : Nat := bits / twoTo 52 % twoTo 11
  let fraction : Nat := bits % twoTo 52
  if field = 2047 then
    if fraction = 0 then .infinite negative else .nan
  else if field = 0 then .finite negative fraction (-1074)
  else .finite negative (fraction + twoTo 52) ((field : Int) - 1075)

def Binary.ofFloat (x : Float) : Binary :=
  .ofBits x.toBits.toNat

/-- The quotient rounded to the nearest natural number, a half to the even one. -/
def roundEven (num den : Nat) : Nat :=
  let floor := num / den
  let rest := num % den
  if den < 2 * rest || (2 * rest == den && floor % 2 == 1) then floor + 1 else floor

/-- The fraction `num / den` measured in units of `2 ^ e`. -/
def inUnits (num den : Nat) (e : Int) : Nat × Nat :=
  if e < 0 then (num * twoTo e.natAbs, den) else (num, den * twoTo e.toNat)

/-- The exponent at which `num / den` has a mantissa of 53 bits, or the smallest exponent there is. -/
def mantissaExponent (num den : Nat) : Int :=
  let wanted := (num.log2 : Int) - den.log2 - 53
  let guess := if wanted < -1074 then -1074 else wanted
  let (n, d) := inUnits num den guess
  if twoTo 53 ≤ n / d then guess + 1 else guess

/-- The bits of the positive infinity, above those of every finite positive double. -/
def infiniteBits : Nat :=
  2047 * twoTo 52

/-- The bits of the double nearest to the positive fraction `num / den`. -/
def nearestBits (num den : Nat) : Nat :=
  let e := mantissaExponent num den
  let (n, d) := inUnits num den e
  let m := roundEven n d
  let bits := if m < twoTo 52 then m else (e + 1074).toNat * twoTo 52 + m
  if infiniteBits < bits then infiniteBits else bits

end LiveMarkup
