import Polyrhythm.Number.Binary64

/-!
# Quantities

Durations, onsets, pitches and rates are quantities of three kinds. Whole numbers and ratios are
exact; real numbers are binary floating point. The kind is part of a quantity: a ratio that
happens to be whole stays a ratio. Quantities of different kinds are compared by value
(`Quantity.lessThan`, `Quantity.sameValue`), and the value of an exact quantity is
`Quantity.rational?`.
-/

namespace Polyrhythm

/-- A number together with its kind. -/
inductive Quantity
  | whole (n : Int)
  | ratio (q : Rat)
  | real (x : Float)
deriving DecidableEq

instance : Inhabited Quantity := ⟨.whole 0⟩

namespace Quantity

/-- The exact value of a quantity, if it has one: an infinite or undefined real has none. -/
def value? : Quantity → Option Rat
  | .whole n => some n
  | .ratio q => some q
  | .real x => Number.Binary64.rational? x

/-- The exact value of a whole number or a ratio. -/
def rational? : Quantity → Option Rat
  | .whole n => some n
  | .ratio q => some q
  | .real _ => none

/-- Where a quantity lies on the line of numbers with both ends. -/
inductive Place
  | bottom
  | finite (q : Rat)
  | top
  | nowhere
deriving DecidableEq

/-- The place of a quantity; one that is not a number has none. -/
def place : Quantity → Place
  | .whole n => .finite n
  | .ratio q => .finite q
  | .real x =>
    match Number.Binary64.rational? x, Number.Binary64.parts x with
    | some q, _ => .finite q
    | none, .infinite true => .bottom
    | none, .infinite false => .top
    | none, _ => .nowhere

/-- Whether one quantity is less than another. What is not a number is neither less nor
greater than anything. -/
def lessThan (a b : Quantity) : Bool :=
  match a.place, b.place with
  | .nowhere, _ | _, .nowhere | .top, _ | _, .bottom => false
  | .finite p, .finite q => p < q
  | .bottom, _ | _, .top => true

/-- Whether two quantities have the same value. What is not a number does not even equal
itself. -/
def sameValue (a b : Quantity) : Bool :=
  match a.place, b.place with
  | .finite p, .finite q => p = q
  | .bottom, .bottom | .top, .top => true
  | _, _ => false

/-- Whether a quantity is at most another. -/
def atMost (a b : Quantity) : Bool := a.lessThan b || a.sameValue b

/-- Whether a quantity is zero, of whatever kind. -/
def isZero (a : Quantity) : Bool := a.sameValue (.whole 0)

/-- Ratios are ordered as rationals. -/
@[simp]
theorem lessThan_ratio (p q : Rat) : (ratio p).lessThan (ratio q) = decide (p < q) := rfl

/-- Ratios have the same value exactly when they are equal. -/
@[simp]
theorem sameValue_ratio (p q : Rat) : (ratio p).sameValue (ratio q) = decide (p = q) := rfl

end Quantity

end Polyrhythm
