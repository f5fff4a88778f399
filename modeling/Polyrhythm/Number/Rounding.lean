/-!
# Rounding to the nearest whole number

A tick, a semitone and the last digit of a written number are all found by rounding an exact
rational to the nearest integer, a half going to the even neighbour (`roundEven`). An integer is
its own nearest integer (`roundEven_intCast`).
-/

namespace Polyrhythm.Number

/-- The integer nearest to a rational; a rational midway between two goes to the even one. -/
def roundEven (q : Rat) : Int :=
  let below := q.floor
  let rest := q - below
  if rest < 1 / 2 then below
  else if 1 / 2 < rest then below + 1
  else if below % 2 = 0 then below
  else below + 1

/-- An integer is its own nearest integer. -/
theorem roundEven_intCast (n : Int) : roundEven n = n := by
  have rest : (n : Rat) - n < 1 / 2 := by rw [Rat.sub_self]; decide +kernel
  rw [roundEven, Rat.floor_intCast]
  exact if_pos rest

/-- The power of a whole base with an integer exponent, as a rational. -/
def power (base : Nat) : Int → Rat
  | .ofNat e => base.pow e
  | .negSucc e => mkRat 1 (base.pow (e + 1))

end Polyrhythm.Number
