import Mathlib
import Polyrhythm.Number.Decimal
import Polyrhythm.Number.Order

/-!
# Real numbers that are numbers

Of the 64-bit floating-point numbers only those whose exponent field is full and whose significand
field is not empty are no numbers (`Number.Binary64.parts_eq_undefined_iff`). Packing anything that
is a number gives a number (`Number.Binary64.isDefined_pack`), so the negative of a number is one,
and so are the bits up to those of infinity. What a decimal names is therefore always a number
(`Number.isComparable_toReal`).
-/

namespace Polyrhythm.Number

namespace Binary64

open Float.Model Float.Model.UnpackedFloat

/-- A floating-point number is a number, finite or not. -/
def IsDefined (x : Float) : Prop := parts x ≠ .undefined

instance : DecidablePred IsDefined := fun x => inferInstanceAs (Decidable (parts x ≠ .undefined))

variable {x : Float} {bits : Nat}

/-- The exponent field of some bits. -/
theorem toNat_unpackExponent (b : BitVec 64) :
    (@unpackExponent Format.binary64 b).toNat = b.toNat / fieldSize % 2048 := by
  change (b.toNat >>> 52) % 2 ^ 11 = _
  rw [Nat.shiftRight_eq_div_pow]
  rfl

/-- The significand field of some bits. -/
theorem toNat_unpackMantissa (b : BitVec 64) :
    (@unpackMantissa Format.binary64 b).toNat = b.toNat % fieldSize := rfl

/-- A number is undefined exactly if its exponent field is full and its significand field is not
empty. -/
theorem parts_eq_undefined_iff : parts x = .undefined ↔
    @unpackExponent Format.binary64 x.toBits.toBitVec = -1#_ ∧
      @unpackMantissa Format.binary64 x.toBits.toBitVec ≠ 0#_ := by
  have hexponent : @unpackExponent Format.binary64 x.toBits.toBitVec = -1#_ ↔
      x.toBits.toNat / fieldSize % 2048 = 2047 := by
    rw [← BitVec.toNat_inj, toNat_unpackExponent]
    rfl
  have hmantissa : @unpackMantissa Format.binary64 x.toBits.toBitVec = 0#_ ↔
      x.toBits.toNat % fieldSize = 0 := by
    rw [← BitVec.toNat_inj, toNat_unpackMantissa]
    rfl
  rw [parts, hexponent, ne_eq, hmantissa]
  by_cases hfull : x.toBits.toNat / fieldSize % 2048 = 2047
  · by_cases hempty : x.toBits.toNat % fieldSize = 0
    · simp [hfull, hempty]
    · simp [hfull, hempty]
  · simp only [hfull, if_false, false_and, iff_false]
    split <;> nofun

/-- Packing what is a number gives a number: an infinity has an empty significand field, and all
others have an exponent field that is not full. -/
theorem isDefined_pack {f : UnpackedFloat} (h : f ≠ .notANumber) :
    IsDefined (.ofModel (pack f)) := by
  rw [IsDefined, ne_eq, parts_eq_undefined_iff]
  change ¬(unpackExponent (UnpackedFloat.pack Format.binary64 f) = -1#_ ∧
    unpackMantissa (UnpackedFloat.pack Format.binary64 f) ≠ 0#_)
  cases f with
  | notANumber => exact (h rfl).elim
  | infinity s => simp [UnpackedFloat.pack, packedInfinity]
  | zero s => simp [UnpackedFloat.pack, packedZero]
  | finite s m e hm =>
    rw [UnpackedFloat.pack]
    split
    · simp [packedInfinity]
    · next hsmall =>
      split
      · rintro ⟨hfull, -⟩
        have hfield := congrArg BitVec.toNat hfull
        rw [unpackExponent_packComponents, BitVec.toNat_ofNat] at hfield
        change _ % 2048 = 2047 at hfield
        change ¬2048 ≤ _ at hsmall
        omega
      · rw [unpackExponent_packComponents]
        exact fun hfull => absurd hfull.1 (by decide)

/-- What is unpacked is no number only if the bits say so. -/
theorem unpack_eq_notANumber {b : BitVec 64}
    (h : UnpackedFloat.unpack Format.binary64 b = .notANumber) :
    @unpackExponent Format.binary64 b = -1#_ ∧ @unpackMantissa Format.binary64 b ≠ 0#_ := by
  rw [UnpackedFloat.unpack] at h
  split at h
  · next hfull =>
    split at h
    · cases h
    · next hmantissa => exact ⟨hfull, hmantissa⟩
  · split at h
    · split at h <;> cases h
    · cases h

/-- The negative of a number is a number. -/
theorem IsDefined.neg (h : IsDefined x) : IsDefined (-x) := by
  refine isDefined_pack fun hneg => ?_
  have hnan : UnpackedFloat.unpack Format.binary64 x.toBits.toBitVec = .notANumber := by
    change x.toModel.unpack.neg = .notANumber at hneg
    change x.toModel.unpack = .notANumber
    cases hx : x.toModel.unpack with
    | notANumber => rfl
    | infinity | zero | finite =>
      rw [hx] at hneg
      cases hneg
  exact h (parts_eq_undefined_iff.2 (unpack_eq_notANumber hnan))

/-- The bits up to those of infinity are bits of a number. -/
theorem isDefined_ofBits (h : bits ≤ infinityBits) :
    IsDefined (Float.ofBits (UInt64.ofNat bits)) := by
  refine isDefined_pack fun hnan => ?_
  obtain ⟨hfull, hmantissa⟩ := unpack_eq_notANumber hnan
  have hbits : (UInt64.ofNat bits).toBitVec.toNat = bits := by
    rw [infinityBits, fieldSize] at h
    change bits % 2 ^ 64 = bits
    omega
  have hexponent := congrArg BitVec.toNat hfull
  rw [toNat_unpackExponent, hbits] at hexponent
  change _ = 2047 at hexponent
  refine hmantissa (BitVec.eq_of_toNat_eq ?_)
  rw [toNat_unpackMantissa, hbits]
  change _ = 0
  rw [infinityBits] at h
  rw [fieldSize] at h hexponent ⊢
  omega

theorem isDefined_infinity : IsDefined infinity := isDefined_ofBits (Nat.le_refl _)

/-- The number nearest to a rational is a number. -/
theorem isDefined_of_nearest? {q : Rat} (h : nearest? q = some x) : IsDefined x := by
  rw [nearest?] at h
  by_cases hzero : q = 0
  · rw [if_pos hzero] at h
    cases h
    decide +kernel
  rw [if_neg hzero] at h
  by_cases hbits : nearestBits (if q < 0 then -q else q) < infinityBits
  · have hsize := isDefined_ofBits (Nat.le_of_lt hbits)
    simp only [hbits, if_true, Option.some.injEq] at h
    by_cases hnegative : q < 0
    · simp only [hnegative, if_true] at h hsize
      exact h ▸ hsize.neg
    · simp only [hnegative, if_false] at h hsize
      exact h ▸ hsize
  · simp only [hbits, if_false] at h
    cases h

/-- A real number that is a number comes before or after others. -/
theorem IsDefined.isComparable (h : IsDefined x) : (Quantity.real x).isComparable = true := by
  have hplace : (Quantity.real x).place ≠ .nowhere := by
    rw [Quantity.place, rational?]
    cases hparts : parts x with
    | undefined => exact absurd hparts h
    | finite => nofun
    | infinite negative => cases negative <;> nofun
  simpa [Quantity.isComparable] using hplace

end Binary64

open Binary64

/-- What a decimal names is a number, and so comes before or after others. -/
theorem isComparable_toReal (d : Decimal) : (Quantity.real d.toReal).isComparable = true := by
  have hmagnitude : IsDefined d.magnitude := by
    rw [Decimal.magnitude]
    split
    · decide +kernel
    · split
      · exact isDefined_infinity
      · cases hnearest : nearest? _ with
        | none => exact isDefined_infinity
        | some x => exact isDefined_of_nearest? hnearest
  refine IsDefined.isComparable ?_
  rw [Decimal.toReal]
  split
  · exact hmagnitude.neg
  · exact hmagnitude

end Polyrhythm.Number
