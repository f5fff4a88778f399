import Polyrhythm.Number.Digits
import Polyrhythm.Number.Quantity

/-!
# Numbers as text

A real number is written with the fewest digits that single it out (`realText`) or with six
significant digits (`realBrief`). Both forms are decimals for sizes near one and have an exponent
of at least two digits elsewhere; they differ in where that begins and in whether a whole value
keeps a point (`RealForm`). A ratio is written as its numerator and denominator, the denominator 1
being left out.

Whole numbers are turned into digits, and digits into whole numbers, up to a limit of digits. A
number beyond it has no written form (`Quantity.isWritable`).
-/

namespace Polyrhythm.Number

/-- The choices of a written form of real numbers. -/
structure RealForm where
  /-- The first exponent that is too large for a plain decimal. -/
  limit : Int
  /-- Whether a whole value ends in a point and a zero. -/
  keepsPoint : Bool

/-- A plain decimal up to sixteen places before the point, and always with a point. -/
def fullForm : RealForm := ⟨16, true⟩

/-- A plain decimal up to six places before the point, without a point if the value is whole. -/
def briefForm : RealForm := ⟨6, false⟩

/-- Zeros in a row. -/
def zeros (count : Int) : List Char := List.replicate count.toNat '0'

/-- Digits as a plain decimal, the first of them counting `10 ^ exponent`. -/
def RealForm.decimal (form : RealForm) (d : Digits) : List Char :=
  let count : Int := d.digits.length
  if d.exponent < 0 then '0' :: '.' :: zeros (-d.exponent - 1) ++ d.digits
  else if count ≤ d.exponent + 1 then
    d.digits ++ zeros (d.exponent + 1 - count) ++ if form.keepsPoint then ['.', '0'] else []
  else
    let whole := (d.exponent + 1).toNat
    d.digits.take whole ++ '.' :: d.digits.drop whole

/-- Digits as a number below ten times a power of ten; the exponent has a sign and at least two
digits. -/
def withExponent (d : Digits) : List Char :=
  let size := Nat.toDigits 10 d.exponent.natAbs
  let fraction := d.digits.drop 1
  d.digits.take 1 ++ (if fraction.isEmpty then [] else '.' :: fraction) ++
    'e' :: (if d.exponent < 0 then '-' else '+') :: zeros (2 - size.length) ++ size

/-- The written form of the digits of a positive number: plain from one ten-thousandth on. -/
def RealForm.positive (form : RealForm) (d : Digits) : List Char :=
  if -4 ≤ d.exponent && d.exponent < form.limit then form.decimal d else withExponent d

/-- A real number in a given form, its digits chosen by `choose` from the significand and the
exponent of a positive number. -/
def RealForm.write (form : RealForm) (choose : Nat → Int → Digits) (x : Float) : String :=
  let signed (negative : Bool) (text : List Char) :=
    String.ofList (if negative then '-' :: text else text)
  match Binary64.parts x with
  | .undefined => "nan"
  | .infinite negative => signed negative "inf".toList
  | .finite negative significand exponent =>
    signed negative <|
      if significand = 0 then form.decimal ⟨['0'], 0⟩
      else form.positive (choose significand exponent)

/-- A real number with the fewest digits that single it out. -/
def realText (x : Float) : String := fullForm.write Digits.shortest x

/-- A real number with six significant digits, trailing zeros left out. -/
def realBrief (x : Float) : String :=
  briefForm.write (fun significand exponent => .nearest 6 (significand * power 2 exponent)) x

/-- The number of digits up to which a whole number is read and written. -/
def digitLimit : Nat := 4300

/-- Whether a whole number has no more digits than can be written. -/
def isWritable (n : Int) : Bool := (Nat.toDigits 10 n.natAbs).length ≤ digitLimit

/-- Whether both parts of a ratio can be written. -/
def isWritableRatio (q : Rat) : Bool := isWritable q.num && isWritable q.den

/-- A whole number in decimal. -/
def wholeText (n : Int) : String :=
  let size := String.ofList (Nat.toDigits 10 n.natAbs)
  if n < 0 then "-" ++ size else size

/-- A ratio as a numerator and, unless it is 1, a denominator. -/
def ratioText (q : Rat) : String :=
  if q.den = 1 then wholeText q.num else wholeText q.num ++ "/" ++ wholeText q.den

end Polyrhythm.Number

namespace Polyrhythm.Quantity

/-- Whether a quantity can be written. A real number always can. -/
def isWritable : Quantity → Bool
  | .whole n => Number.isWritable n
  | .ratio q => Number.isWritableRatio q
  | .real _ => true

/-- A quantity as it stands in a message. -/
def text : Quantity → String
  | .whole n => Number.wholeText n
  | .ratio q => Number.ratioText q
  | .real x => Number.realText x

/-- A quantity with its kind: a ratio is shown as what builds it. -/
def shown : Quantity → String
  | .whole n => Number.wholeText n
  | .ratio q => "Fraction(" ++ Number.wholeText q.num ++ ", " ++ Number.wholeText q.den ++ ")"
  | .real x => Number.realText x

example : (real 0.1).text = "0.1" := by decide +kernel
example : (real 1e16).text = "1e+16" := by decide +kernel
example : (real 1e-5).text = "1e-05" := by decide +kernel
example : (real (-0.0)).text = "-0.0" := by decide +kernel
example : Number.realBrief 1234567.0 = "1.23457e+06" := by decide +kernel
example : (ratio (1 / 2)).text = "1/2" := by decide +kernel

end Polyrhythm.Quantity
