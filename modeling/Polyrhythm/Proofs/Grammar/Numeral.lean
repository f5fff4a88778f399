import Mathlib.Data.List.TakeDrop
import Mathlib.Data.List.TakeWhile
import Mathlib.Data.Rat.Lemmas
import Polyrhythm.Proofs.Grammar.Reading

/-!
# Markers of many digits

A marker is read digit by digit, so powers of ten show what becomes of long ones: `Token.tenfold n`
speeds up by the `n`-th power of ten and has one digit more than that. It can be used below the
limit of digits, and from the limit on it is refused, though it is no marker with a zero.
-/

namespace Polyrhythm

/-- A last digit. -/
theorem Text.readNumeral_append (digits : List Char) (c : Char) :
    readNumeral (digits ++ [c]) = 10 * readNumeral digits + (digitValue? c).getD 0 := by
  rw [readNumeral, List.foldl_append]
  rfl

/-- A one and zeros write a power of ten. -/
theorem Text.readNumeral_one_zeros (n : Nat) :
    readNumeral ('1' :: List.replicate n '0') = 10 ^ n := by
  have hzero : (digitValue? '0').getD 0 = 0 := by decide
  induction n with
  | zero => decide
  | succ n ih =>
    rw [List.replicate_succ', ← List.cons_append, readNumeral_append, ih, hzero, pow_succ']
    rfl

/-- A slash and digits are a marker. -/
theorem Marker.read?_of_digits {digits : List Char} (hne : digits ≠ [])
    (h : ∀ c ∈ digits, Text.isDigit c = true) :
    read? ('/' :: digits) = some ⟨⟨Text.readNumeral digits, digits.length⟩, ⟨1, 1⟩⟩ := by
  have hspan : digits.span Text.isDigit = (digits, []) := by
    rw [List.span_eq_takeWhile_dropWhile, List.takeWhile_eq_self_iff.2 h,
      List.dropWhile_eq_nil_iff.2 h]
  have hempty : digits.isEmpty = false := by simpa using hne
  have hall : digits.all Text.isDigit = true := List.all_eq_true.2 h
  rw [read?, hspan]
  simp [readDigits?, hempty, hall]

/-! ## Powers of ten -/

/-- What speeds up by a power of ten. -/
def Marker.tenfold (n : Nat) : Marker := ⟨⟨10 ^ n, n + 1⟩, ⟨1, 1⟩⟩

/-- A power of ten is no zero. -/
theorem Marker.isVoid_tenfold (n : Nat) : (tenfold n).isVoid = false :=
  Bool.or_eq_false_iff.2 ⟨decide_eq_false (pow_ne_zero n (by decide)), rfl⟩

/-- Below the limit, a power of ten can be read. -/
theorem Marker.excess?_tenfold_of_lt {n : Nat} (h : n < Number.digitLimit) :
    (tenfold n).excess? = none := by
  rw [excess?, tenfold, List.find?_cons_of_neg (by simpa using Nat.succ_le_of_lt h)]
  rfl

/-- From the limit on, a power of ten has more digits than can be read. -/
theorem Marker.excess?_tenfold {n : Nat} (h : Number.digitLimit ≤ n) :
    (tenfold n).excess? = some ⟨10 ^ n, n + 1⟩ :=
  List.find?_cons_of_pos (decide_eq_true (Nat.lt_succ_of_le h))

/-- Below the limit, a power of ten can be used. -/
theorem Marker.isRefused_tenfold {n : Nat} (h : n < Number.digitLimit) :
    (tenfold n).isRefused = false := by
  rw [isRefused, excess?_tenfold_of_lt h, isVoid_tenfold]
  rfl

theorem Marker.rate_tenfold (n : Nat) : (tenfold n).rate = 10 ^ n := by
  rw [rate, tenfold, Rat.mkRat_eq_div]
  push_cast
  rw [div_one]

/-- A whole number can be written if it is below a power of ten. -/
theorem Number.isWritable_iff {n : Int} : isWritable n = true ↔ n.natAbs < 10 ^ digitLimit := by
  rw [isWritable, decide_eq_true_iff]
  exact Nat.length_toDigits_le_iff (by decide) (by decide)

/-- From the limit on, a power of ten cannot be written. -/
theorem Number.isWritable_pow {n : Nat} (h : digitLimit ≤ n) : isWritable (10 ^ n) = false := by
  rw [← Bool.not_eq_true, isWritable_iff, not_lt, Int.natAbs_pow]
  exact Nat.pow_le_pow_right (by decide) h

/-- What is a power of ten times as fast lasts for too short to be written, from the limit on. -/
theorem Number.isWritableRatio_one_div {n : Nat} (h : digitLimit ≤ n) :
    isWritableRatio (1 / 10 ^ n) = false := by
  have hden : (1 / 10 ^ n : Rat).den = 10 ^ n := by
    rw [one_div, show (10 : Rat) ^ n = ((10 ^ n : Nat) : Rat) by push_cast; rfl]
    exact Rat.inv_natCast_den_of_pos (Nat.pos_of_ne_zero (pow_ne_zero n (by decide)))
  rw [isWritableRatio, hden, Nat.cast_pow, Nat.cast_ofNat, isWritable_pow h, Bool.and_false]

namespace Token

/-- A marker that speeds up by a power of ten. -/
def tenfold (n : Nat) : Token := ⟨String.ofList ('/' :: '1' :: List.replicate n '0'), .start⟩

theorem marker?_tenfold (n : Nat) : (tenfold n).marker? = some (.tenfold n) := by
  have hdigits : ∀ c ∈ '1' :: List.replicate n '0', Text.isDigit c = true := by
    refine List.forall_mem_cons.2 ⟨by decide, fun c hc => ?_⟩
    rw [List.eq_of_mem_replicate hc]
    decide
  rw [marker?, tenfold, String.toList_ofList,
    Marker.read?_of_digits (List.cons_ne_nil _ _) hdigits, Text.readNumeral_one_zeros,
    List.length_cons, List.length_replicate]
  rfl

theorem isVoid_tenfold (n : Nat) : (tenfold n).isVoid = false := by
  rw [isVoid, marker?_tenfold]
  exact Marker.isVoid_tenfold n

theorem excess?_tenfold {n : Nat} (h : Number.digitLimit ≤ n) :
    (tenfold n).excess? = some ⟨10 ^ n, n + 1⟩ := by
  rw [excess?, marker?_tenfold]
  exact Marker.excess?_tenfold h

end Token

end Polyrhythm
