import Polyrhythm.Fault

/-!
# Arithmetic on quantities

The kind of a result follows from the kinds of the operands. Whole numbers stay whole under sum and
product, and their quotient is real. A ratio makes the result a ratio. A real operand makes it
real: the other operand is first rounded to the nearest real number, which fails when it is beyond
the range. Between exact operands at least one of which is a ratio, all operations are exact
(`add_ratio`, `mul_ratio`, `div_ratio`).
-/

namespace Polyrhythm.Quantity

/-- The real number nearest to a rational. -/
def nearestReal (q : Rat) : Except Fault Float :=
  match Number.Binary64.nearest? q with
  | some x => .ok x
  | none => .error .overflow

/-- The real number nearest to a quantity. -/
def toReal : Quantity → Except Fault Float
  | whole n => nearestReal n
  | ratio q => nearestReal q
  | real x => .ok x

/-- Applies a rule for exact operands, one of which is a ratio, or a rule for real ones. -/
def combine (exact : Rat → Rat → Except Fault Rat) (inexact : Float → Float → Except Fault Float) :
    Quantity → Quantity → Except Fault Quantity
  | real x, b => do return real (← inexact x (← b.toReal))
  | a, real y => do return real (← inexact (← a.toReal) y)
  | ratio p, ratio q => do return ratio (← exact p q)
  | ratio p, whole n => do return ratio (← exact p n)
  | whole m, ratio q => do return ratio (← exact m q)
  | whole m, whole n => do return ratio (← exact m n)

/-- The sum of two quantities. -/
def add : Quantity → Quantity → Except Fault Quantity
  | whole m, whole n => .ok (whole (m + n))
  | a, b => combine (fun p q => .ok (p + q)) (fun x y => .ok (x + y)) a b

/-- The product of two quantities. -/
def mul : Quantity → Quantity → Except Fault Quantity
  | whole m, whole n => .ok (whole (m * n))
  | a, b => combine (fun p q => .ok (p * q)) (fun x y => .ok (x * y)) a b

/-- The quotient of two rationals. -/
def quotient (p q : Rat) : Except Fault Rat :=
  if q = 0 then .error .divisionByZero else .ok (p / q)

/-- The quotient of two real numbers. -/
def realQuotient (x y : Float) : Except Fault Float :=
  if y == 0 then .error .divisionByZero else .ok (x / y)

/-- The quotient of two quantities. The real quotient of whole numbers is rounded once, from the
exact one; that of zero and a negative number has a sign. -/
def div : Quantity → Quantity → Except Fault Quantity
  | whole m, whole n => do
    let q ← quotient m n
    if m = 0 && n < 0 then return real (-0.0) else return real (← nearestReal q)
  | a, b => combine quotient realQuotient a b

/-- The sum of quantities, from left to right and from the whole number 0 on. -/
def sum (quantities : List Quantity) : Except Fault Quantity := quantities.foldlM add (whole 0)

/-- The whole number nearest to a quantity, a half going to the even one. -/
def round : Quantity → Except Fault Int
  | whole n => .ok n
  | ratio q => .ok (Number.roundEven q)
  | real x =>
    match Number.Binary64.rational? x, Number.Binary64.parts x with
    | some q, _ => .ok (Number.roundEven q)
    | none, .infinite _ => .error .overflow
    | none, _ => .error .undefinedRounding

@[simp]
theorem add_whole (m n : Int) : (whole m).add (whole n) = .ok (whole (m + n)) := rfl

@[simp]
theorem mul_whole (m n : Int) : (whole m).mul (whole n) = .ok (whole (m * n)) := rfl

@[simp]
theorem add_ratio (p q : Rat) : (ratio p).add (ratio q) = .ok (ratio (p + q)) := rfl

@[simp]
theorem whole_add_ratio (n : Int) (q : Rat) : (whole n).add (ratio q) = .ok (ratio (n + q)) := rfl

@[simp]
theorem ratio_add_whole (p : Rat) (n : Int) : (ratio p).add (whole n) = .ok (ratio (p + n)) := rfl

@[simp]
theorem mul_ratio (p q : Rat) : (ratio p).mul (ratio q) = .ok (ratio (p * q)) := rfl

@[simp]
theorem ratio_mul_whole (p : Rat) (n : Int) : (ratio p).mul (whole n) = .ok (ratio (p * n)) := rfl

@[simp]
theorem whole_mul_ratio (n : Int) (q : Rat) : (whole n).mul (ratio q) = .ok (ratio (n * q)) := rfl

/-- Ratios are divided exactly, unless the divisor is zero. -/
theorem div_ratio {p q : Rat} (h : q ≠ 0) : (ratio p).div (ratio q) = .ok (ratio (p / q)) := by
  simp [div, combine, quotient, h, bind, Except.bind, pure, Except.pure]

/-- A ratio divided by a whole number is a ratio. -/
theorem ratio_div_whole {p : Rat} {n : Int} (h : (n : Rat) ≠ 0) :
    (ratio p).div (whole n) = .ok (ratio (p / n)) := by
  simp [div, combine, quotient, h, bind, Except.bind, pure, Except.pure]

end Polyrhythm.Quantity
