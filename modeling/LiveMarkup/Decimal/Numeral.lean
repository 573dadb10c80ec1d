import LiveMarkup.Decimal.Shortest

namespace LiveMarkup

/-- The digits of `d` without an exponent: zeros fill the places up to the point, and no zero ends a
fraction. -/
def Decimal.positional (d : Decimal) : List Char :=
  let ds := Nat.toDigits 10 d.digits
  if 0 ≤ d.exponent then ds ++ List.replicate d.exponent.toNat '0'
  else
    let padded := List.replicate (d.exponent.natAbs + 1 - ds.length) '0' ++ ds
    let whole := padded.take (padded.length - d.exponent.natAbs)
    let fraction := padded.drop (padded.length - d.exponent.natAbs)
    match (fraction.reverse.dropWhile (· == '0')).reverse with
    | [] => whole
    | kept => whole ++ '.' :: kept

/-- A number in its shortest positional form; zero keeps its sign. -/
def numeral (x : Float) : String :=
  match Binary.ofFloat x with
  | .nan => "NaN"
  | .infinite negative => if negative then "-inf" else "inf"
  | .finite negative mantissa exponent =>
    let body := if mantissa = 0 then ['0'] else (shortest mantissa exponent).positional
    String.ofList (if negative then '-' :: body else body)

def digitValue (c : Char) : Nat :=
  c.toNat - '0'.toNat

def ofDigits (ds : List Char) : Nat :=
  ds.foldl (fun n c => 10 * n + digitValue c) 0

/-- The bits of the double nearest to `digits * 10 ^ exponent`. Far outside the range of doubles the
answer is known from the number of digits alone. -/
def Decimal.bits (d : Decimal) : Nat :=
  if d.digits = 0 then 0
  else
    let top := ((Nat.toDigits 10 d.digits).length : Int) + d.exponent
    if 310 < top then infiniteBits
    else if top < -330 then 0
    else nearestBits (d.digits * tenTo d.exponent.toNat) (tenTo (-d.exponent).toNat)

/-- An exponent mark, an optional sign and at least one digit, or nothing at all. -/
def readExponent? : List Char → Option Int
  | [] => some 0
  | mark :: cs =>
    if mark == 'e' || mark == 'E' then
      let (negative, ds) := match cs with
        | '-' :: r => (true, r)
        | '+' :: r => (false, r)
        | r => (false, r)
      if ds.isEmpty || !ds.all Char.isDigit then none
      else some (if negative then -(ofDigits ds : Int) else ofDigits ds)
    else none

/-- Digits with an optional point among them, then an optional exponent. -/
def readDecimal? (cs : List Char) : Option Decimal :=
  let whole := cs.takeWhile Char.isDigit
  let (fraction, tail) := match cs.dropWhile Char.isDigit with
    | '.' :: r => (r.takeWhile Char.isDigit, r.dropWhile Char.isDigit)
    | r => ([], r)
  if whole.isEmpty && fraction.isEmpty then none
  else (readExponent? tail).map fun e => ⟨ofDigits (whole ++ fraction), e - fraction.length⟩

def readMagnitudeBits? (cs : List Char) : Option Nat :=
  let word := cs.map Char.toLower
  if word = ['i', 'n', 'f'] || word = ['i', 'n', 'f', 'i', 'n', 'i', 't', 'y'] then some infiniteBits
  else if word = ['n', 'a', 'n'] then some (infiniteBits + twoTo 51)
  else (readDecimal? cs).map Decimal.bits

/-- Reads a number: an optional sign, then a decimal or one of the words `inf`, `infinity` and `nan`. -/
def readNumeral? (s : String) : Option Float :=
  let (negative, cs) := match s.toList with
    | '-' :: r => (true, r)
    | '+' :: r => (false, r)
    | r => (false, r)
  (readMagnitudeBits? cs).map fun bits =>
    Float.ofBits (UInt64.ofNat (if negative then bits + twoTo 63 else bits))

end LiveMarkup
