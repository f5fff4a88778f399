import Polyrhythm.Number.Rounding

/-!
# Binary floating-point numbers and the rationals

A finite binary64 number is an integer of at most 53 bits times a power of two, hence a rational
(`Binary64.rational?`). In the other direction a rational goes to the nearest binary64 number, a tie
to the one with the even significand (`Binary64.nearest?`). A rational that would round past the
largest finite number has no nearest one; what then happens is left to the caller, because a
written number beyond the range is an infinity and an exact number beyond it is a fault.
-/

namespace Polyrhythm.Number.Binary64

/-- What the 64 bits of a floating-point number say. A finite number is
`significand * 2 ^ exponent`, negated if `negative`. -/
inductive Parts
  | finite (negative : Bool) (significand : Nat) (exponent : Int)
  | infinite (negative : Bool)
  | undefined
deriving DecidableEq, Repr

/-- The least exponent: that of the subnormal numbers. -/
def leastExponent : Int := -1074

/-- The number of values of the field that holds the low 52 bits of the significand. -/
def fieldSize : Nat := 0x10000000000000

/-- The parts of a floating-point number. -/
def parts (x : Float) : Parts :=
  let bits := x.toBits.toNat
  let negative := bits / 0x8000000000000000 = 1
  let exponent := bits / fieldSize % 2048
  let field := bits % fieldSize
  if exponent = 2047 then
    if field = 0 then .infinite negative else .undefined
  else if exponent = 0 then .finite negative field leastExponent
  else .finite negative (fieldSize + field) (leastExponent + exponent - 1)

/-- The exact value of a finite number; an infinity and an undefined number have none. -/
def rational? (x : Float) : Option Rat :=
  match parts x with
  | .finite negative significand exponent =>
    let size := significand * power 2 exponent
    some (if negative then -size else size)
  | .infinite _ | .undefined => none

/-- The exponent of the greatest power of two that is at most a positive rational. -/
def logTwo (q : Rat) : Int :=
  let estimate : Int := (Nat.log2 q.num.toNat : Int) - (Nat.log2 q.den : Int)
  if power 2 estimate ≤ q then estimate else estimate - 1

/-- The bits of the number nearest to a positive rational. The exponent field and the significand
are added, not joined: a significand that rounds up to the next power of two then carries into
the exponent, as it should. -/
def nearestBits (q : Rat) : Nat :=
  let exponent := max (logTwo q - 52) leastExponent
  let significand := (roundEven (q * power 2 (-exponent))).toNat
  (exponent - leastExponent).toNat * fieldSize + significand

/-- The bits of positive infinity, the first that stand for no finite number. -/
def infinityBits : Nat := 2047 * fieldSize

/-- The number nearest to a rational, or nothing when the rational is beyond the finite range. -/
def nearest? (q : Rat) : Option Float :=
  if q = 0 then some 0.0
  else
    let size := if q < 0 then -q else q
    let bits := nearestBits size
    if bits < infinityBits then
      let x := Float.ofBits (UInt64.ofNat bits)
      some (if q < 0 then -x else x)
    else none

/-- Positive infinity. -/
def infinity : Float := Float.ofBits (UInt64.ofNat infinityBits)

/-- The number that is not a number. -/
def undefined : Float := Float.ofBits 0x7FF8000000000000

example : rational? 0.5 = some (1 / 2) := by decide +kernel
example : rational? (-0.1) = some (-3602879701896397 / 36028797018963968) := by decide +kernel
example : nearest? (1 / 10) = some 0.1 := by decide +kernel
example : nearest? (2 ^ 1024) = none := by decide +kernel

end Polyrhythm.Number.Binary64
