import Polyrhythm.Number.Binary64
import Polyrhythm.Text.Blank
import Polyrhythm.Text.Digit

/-!
# Reading decimals

A decimal numeral names a rational; as a real number it is the nearest one, or an infinity if it
is beyond the range. Two readers use this rule. `readPitch?` reads the literal between the
parentheses of a pitched symbol: an optional minus sign, digits, and perhaps a point with further
digits. `readReal?` reads a number given to the command, which may also have an exponent, blanks
around it, single underscores between digits, or be the name of an infinity.
-/

namespace Polyrhythm.Number

open Polyrhythm.Text

/-- A written decimal: a sign, digits before and after the point, and a power of ten. -/
structure Decimal where
  negative : Bool
  whole : List Char
  fraction : List Char
  exponent : Int
deriving DecidableEq, Repr

namespace Decimal

/-- The size of a decimal as a floating-point number. The rational is only formed when the
position of the first digit leaves the answer open: 400 places either side of the point are beyond
all numbers, large and small. -/
def magnitude (d : Decimal) : Float :=
  let point := readNumeral (d.whole ++ d.fraction)
  let last := d.exponent - d.fraction.length
  let first := last + (Nat.toDigits 10 point).length
  if point = 0 || first < -400 then 0.0
  else if 400 < first then Binary64.infinity
  else (Binary64.nearest? (point * power 10 last)).getD Binary64.infinity

/-- The real number that a decimal names. -/
def toReal (d : Decimal) : Float := if d.negative then -d.magnitude else d.magnitude

end Decimal

/-- The longest run of decimal digits at the front, and what follows it. -/
def digitRun (cs : List Char) : List Char × List Char := cs.span isDigit

/-- Whether there is a sign in front, and what follows it. Without a sign the number is positive. -/
def readSign : List Char → Bool × List Char
  | '-' :: rest => (true, rest)
  | '+' :: rest => (false, rest)
  | rest => (false, rest)

/-- The literal of a pitch, as a whole: a minus sign or none, at least one digit, and a point or
none with any digits after it. -/
def readPitch? (literal : List Char) : Option Decimal :=
  let (negative, rest) := match literal with
    | '-' :: rest => (true, rest)
    | rest => (false, rest)
  let (whole, rest) := digitRun rest
  if whole.isEmpty then none
  else match rest with
    | [] => some ⟨negative, whole, [], 0⟩
    | '.' :: rest => if rest.all isDigit then some ⟨negative, whole, rest, 0⟩ else none
    | _ => none

/-- The exponent at the end of a number: nothing, or the letter e, a sign or none, and digits. -/
def readExponent? : List Char → Option Int
  | [] => some 0
  | mark :: rest =>
    if mark = 'e' || mark = 'E' then
      let (negative, digits) := readSign rest
      if digits.isEmpty || !digits.all isDigit then none
      else some (if negative then -readNumeral digits else readNumeral digits)
    else none

/-- Whether every underscore stands between two digits. -/
def underscoresBetweenDigits : Bool → List Char → Bool
  | _, [] => true
  | afterDigit, '_' :: rest =>
    afterDigit && (rest.head?.map isDigit).getD false && underscoresBetweenDigits false rest
  | _, c :: rest => underscoresBetweenDigits (isDigit c) rest

/-- The blanks that may stand around a number: all but the four information separators. -/
def isMargin (c : Char) : Bool := isBlank c && !(0x1C ≤ c.toNat && c.toNat ≤ 0x1F)

/-- A text without the margin on either side. -/
def trimMargin (cs : List Char) : List Char :=
  ((cs.dropWhile isMargin).reverse.dropWhile isMargin).reverse

/-- A number without a sign: a decimal with an exponent, or the name of something that is not
finite. -/
def readUnsigned? (cs : List Char) : Option Float :=
  let name := String.ofList (cs.map Char.toLower)
  if name = "inf" || name = "infinity" then some Binary64.infinity
  else if name = "nan" then some Binary64.undefined
  else
    let (whole, rest) := digitRun cs
    let (fraction, rest) := match rest with
      | '.' :: rest => digitRun rest
      | rest => ([], rest)
    if whole.isEmpty && fraction.isEmpty then none
    else (readExponent? rest).map fun exponent => (Decimal.mk false whole fraction exponent).toReal

/-- A number given as text, or nothing if the text is no number. -/
def readReal? (text : String) : Option Float :=
  let cs := trimMargin text.toList
  if underscoresBetweenDigits false cs then
    let (negative, size) := readSign (cs.filter (· != '_'))
    (readUnsigned? size).map fun x => if negative then -x else x
  else none

example : (readPitch? "-3.5".toList).map Decimal.toReal = some (-3.5) := by decide +kernel
example : (readPitch? "12.".toList).map Decimal.toReal = some 12.0 := by decide +kernel
example : readReal? " 1_0 " = some 10.0 := by decide +kernel
example : readReal? "1__0" = none := by decide +kernel
example : readReal? "1e400" = some Binary64.infinity := by decide +kernel

end Polyrhythm.Number
