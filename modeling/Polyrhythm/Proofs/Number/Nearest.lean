import Mathlib.Algebra.Order.Field.Rat
import Mathlib.Tactic.Linarith
import Polyrhythm.Number.Rounding

/-!
# The nearest whole number

Rounding goes to a whole number that is at most a half away, and to an even one if there are two of
them (`Number.IsNearest`). There is only one such number, so this says what rounding is
(`Number.roundEven_eq_iff`). What is not negative stays so when it is rounded. Rounding keeps the
order (`Number.roundEven_mono`), and what is more than one apart is not rounded to one number
(`Number.roundEven_lt`), as half a number and the number after it may be: 3 / 2 and 5 / 2 both go
to 2.
-/

namespace Polyrhythm.Number

/-- A whole number is nearest to a rational: none is nearer, and it is even if another one is as
near. -/
structure IsNearest (q : Rat) (n : Int) : Prop where
  close : |q - n| ≤ 1 / 2
  even : |q - n| = 1 / 2 → n % 2 = 0

variable {p q : Rat} {m n : Int}

theorem isNearest_roundEven (q : Rat) : IsNearest q (roundEven q) := by
  have hlow := Rat.floor_le q
  have hhigh := Rat.lt_floor_add_one q
  push_cast at hhigh
  have below : |q - q.floor| = q - q.floor := abs_of_nonneg (by linarith)
  have above : |q - (q.floor + 1 : Int)| = q.floor + 1 - q := by
    push_cast
    rw [abs_of_neg (by linarith), neg_sub]
  rw [roundEven]
  split
  · next hless => exact ⟨by rw [below]; exact hless.le, fun htie => by linarith⟩
  · next hmost =>
    split
    · exact ⟨by rw [above]; linarith, fun htie => by linarith⟩
    · next hleast =>
      have hhalf : q - q.floor = 1 / 2 := le_antisymm (not_lt.1 hleast) (not_lt.1 hmost)
      split
      · next heven => exact ⟨by rw [below, hhalf], fun _ => heven⟩
      · next hodd => exact ⟨by rw [above]; linarith, fun _ => by omega⟩

/-- There is one nearest whole number. -/
theorem IsNearest.unique (hm : IsNearest q m) (hn : IsNearest q n) : m = n := by
  have apart {a b : Int} (ha : IsNearest q a) (hb : IsNearest q b) (h : a < b) : False := by
    have hstep : (a : Rat) + 1 ≤ b := by exact_mod_cast h
    have hahigh := (abs_le.1 ha.close).2
    have hblow := (abs_le.1 hb.close).1
    have hafar : q - a = 1 / 2 := by linarith
    have hbfar : q - b = -(1 / 2) := by linarith
    have hnext : (b : Rat) = (a + 1 : Int) := by
      push_cast
      linarith
    have haeven := ha.even (by rw [hafar]; norm_num)
    have hbeven := hb.even (by rw [hbfar]; norm_num)
    have hnext : b = a + 1 := by exact_mod_cast hnext
    omega
  rcases lt_trichotomy m n with h | h | h
  · exact (apart hm hn h).elim
  · exact h
  · exact (apart hn hm h).elim

/-- Rounding goes to the nearest whole number. -/
theorem roundEven_eq_iff : roundEven q = n ↔ IsNearest q n := by
  constructor
  · rintro rfl
    exact isNearest_roundEven q
  · exact (isNearest_roundEven q).unique

/-- Rounding keeps the order. -/
theorem roundEven_mono (h : p ≤ q) : roundEven p ≤ roundEven q := by
  by_contra hless
  have hstep : (roundEven q : Rat) + 1 ≤ roundEven p := by exact_mod_cast not_le.1 hless
  have hlow := (abs_le.1 (isNearest_roundEven p).close).1
  have hhigh := (abs_le.1 (isNearest_roundEven q).close).2
  -- only a number midway between the two can be a half away from both of them
  have heq : p = q := le_antisymm h (by linarith)
  exact hless (heq ▸ le_rfl)

/-- Numbers that are more than one apart are rounded to different ones. -/
theorem roundEven_lt (h : p + 1 < q) : roundEven p < roundEven q := by
  have hlow := (abs_le.1 (isNearest_roundEven p).close).1
  have hhigh := (abs_le.1 (isNearest_roundEven q).close).2
  have hless : (roundEven p : Rat) < roundEven q := by linarith
  exact_mod_cast hless

end Polyrhythm.Number
