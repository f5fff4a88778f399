import Polyrhythm.Number.Binary64

/-!
# The decimal digits of a number

A positive number is shown by a few decimal digits and the power of ten of the first of them
(`Digits`). Two rules choose the digits. `Digits.nearest` takes a given count of them, so that the
written number is as close as that count allows. `Digits.shortest` takes the fewest digits that
still single the floating-point number out among its neighbours, and of two equally short ones the
nearer.
-/

namespace Polyrhythm.Number

/-- The digits of a positive number, read as one whole number without trailing zeros, and the
power of ten that the first digit counts. -/
structure Digits where
  digits : List Char
  exponent : Int
deriving DecidableEq, Repr

/-- The power of ten that the first digit of a positive rational counts. -/
def logTen (q : Rat) : Int :=
  let estimate : Int := (Nat.toDigits 10 q.num.toNat).length - (Nat.toDigits 10 q.den).length
  if power 10 estimate ≤ q then estimate else estimate - 1

namespace Digits

/-- The digits of `point * 10 ^ last`, where the last digit counts `10 ^ last`. -/
def ofPoint (point : Nat) (last : Int) : Digits :=
  let digits := Nat.toDigits 10 point
  { digits := (digits.reverse.dropWhile (· = '0')).reverse
    exponent := last + digits.length - 1 }

/-- The power of ten of the last of `count` digits of a positive rational. -/
def lastPower (count : Nat) (q : Rat) : Int := logTen q - count + 1

/-- The `count` digits nearest to a positive rational, a tie going to the even last digit. -/
def nearest (count : Nat) (q : Rat) : Digits :=
  let last := lastPower count q
  ofPoint (roundEven (q * power 10 (-last))).toNat last

/-- The rationals that have a given floating-point number as their nearest: all between two
bounds, the bounds themselves among them when the significand is even. -/
structure Basin where
  lower : Rat
  upper : Rat
  closed : Bool

/-- The basin of `significand * 2 ^ exponent`. Below a power of two the neighbour is only half as
far away as above it, unless the number is subnormal. -/
def basin (significand : Nat) (exponent : Int) : Basin :=
  let half := power 2 (exponent - 1)
  let below := if significand = Binary64.fieldSize && exponent != Binary64.leastExponent
    then half / 2 else half
  { lower := 2 * significand * half - below
    upper := 2 * significand * half + half
    closed := significand % 2 = 0 }

/-- Whether a rational lies in a basin. -/
def Basin.holds (b : Basin) (q : Rat) : Bool :=
  if b.closed then b.lower ≤ q && q ≤ b.upper else b.lower < q && q < b.upper

/-- The point of the grid of `count` digits that lies in the basin of the number, the nearer one
if two do and the even one if they are equally near. Only the two points beside the number need to
be tried: if any point of the grid lies in the basin, one of them does. -/
def gridPoint? (b : Basin) (q : Rat) (count : Nat) : Option Digits :=
  let last := lastPower count q
  let unit := power 10 last
  let below := (q / unit).floor.toNat
  match b.holds (below * unit), b.holds ((below + 1 : Nat) * unit) with
  | false, false => none
  | true, false => some (ofPoint below last)
  | false, true => some (ofPoint (below + 1) last)
  | true, true => some (ofPoint (roundEven (q / unit)).toNat last)

/-- The fewest digits that lie in the basin of `significand * 2 ^ exponent`, a positive number.
Seventeen always suffice. -/
def shortest (significand : Nat) (exponent : Int) : Digits :=
  let q := significand * power 2 exponent
  ((List.range' 1 17).findSome? (gridPoint? (basin significand exponent) q)).getD (nearest 17 q)

end Digits

end Polyrhythm.Number
