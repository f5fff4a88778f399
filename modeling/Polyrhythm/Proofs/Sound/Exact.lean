import Mathlib.Algebra.BigOperators.Group.List.Lemmas
import Mathlib.Algebra.Order.Field.Rat
import Polyrhythm.Sound
import Polyrhythm.Traversal

/-!
# Exact sounds

Arithmetic on whole numbers and ratios is exact, and what it yields is again a whole number or a
ratio (`Quantity.add_exact`, `Quantity.sum_exact`). A sound is exact if all durations in it are, and
if it says how its parts are played (`Sound.IsExact`). Fitting an exact sound to a ratio and filling
slots with it never fail, and yield exact sounds that last what they were told to (`fit_exact`,
`fill_exact`).
-/

namespace Polyrhythm

open Traversal

namespace Quantity

variable {a b : Quantity} {p q : Rat}

/-- The sum of exact quantities is exact. -/
theorem add_exact (ha : a.rational? = some p) (hb : b.rational? = some q) :
    ∃ c, a.add b = .ok c ∧ c.rational? = some (p + q) := by
  cases a with
  | real => cases ha
  | whole m =>
    cases ha
    cases b with
    | real => cases hb
    | whole n => cases hb; exact ⟨_, rfl, by simp [rational?]⟩
    | ratio y => cases hb; exact ⟨_, rfl, rfl⟩
  | ratio x =>
    cases ha
    cases b with
    | real => cases hb
    | whole n => cases hb; exact ⟨_, rfl, rfl⟩
    | ratio y => cases hb; exact ⟨_, rfl, rfl⟩

/-- A ratio times an exact quantity is a ratio. -/
theorem ratio_mul_exact (x : Rat) (hb : b.rational? = some q) :
    (ratio x).mul b = .ok (ratio (x * q)) := by
  cases b with
  | real => cases hb
  | whole | ratio => cases hb; rfl

/-- An exact quantity times a ratio is a ratio. -/
theorem mul_ratio_exact (ha : a.rational? = some p) (x : Rat) :
    a.mul (ratio x) = .ok (ratio (p * x)) := by
  cases a with
  | real => cases ha
  | whole | ratio => cases ha; rfl

/-- A ratio divided by an exact quantity is a ratio, unless the divisor is zero. -/
theorem ratio_div_exact (x : Rat) (hb : b.rational? = some q) (hq : q ≠ 0) :
    (ratio x).div b = .ok (ratio (x / q)) := by
  cases b with
  | real => cases hb
  | whole n => cases hb; exact ratio_div_whole hq
  | ratio y => cases hb; exact div_ratio hq

/-- The product of exact quantities is exact. -/
theorem mul_exact (ha : a.rational? = some p) (hb : b.rational? = some q) :
    ∃ c, a.mul b = .ok c ∧ c.rational? = some (p * q) := by
  cases a with
  | real => cases ha
  | ratio x => cases ha; exact ⟨_, ratio_mul_exact _ hb, rfl⟩
  | whole m =>
    cases ha
    cases b with
    | real => cases hb
    | whole n => cases hb; exact ⟨_, rfl, by simp [rational?]⟩
    | ratio y => cases hb; exact ⟨_, rfl, rfl⟩

/-- An exact quantity is rounded by its value. -/
theorem round_exact (ha : a.rational? = some p) : a.round = .ok (Number.roundEven p) := by
  cases a with
  | real => cases ha
  | whole n => cases ha; exact congrArg Except.ok (Number.roundEven_intCast n).symm
  | ratio q => cases ha; rfl

/-- An exact quantity lies at its value. -/
theorem place_exact (ha : a.rational? = some p) : a.place = .finite p := by
  cases a with
  | real => cases ha
  | whole | ratio => cases ha; rfl

/-- Exact quantities are compared by their values. -/
theorem sameValue_exact (ha : a.rational? = some p) (hb : b.rational? = some q) :
    a.sameValue b = decide (p = q) := by
  rw [sameValue, place_exact ha, place_exact hb]

theorem atMost_exact (ha : a.rational? = some p) (hb : b.rational? = some q) :
    a.atMost b = decide (p ≤ q) := by
  rw [atMost, sameValue_exact ha hb, lessThan, place_exact ha, place_exact hb]
  simp [le_iff_lt_or_eq]

/-- An exact quantity is zero if its value is. -/
theorem isZero_exact (ha : a.rational? = some p) : a.isZero = decide (p = 0) :=
  sameValue_exact ha rfl

/-- A list of exact quantities has an exact sum. -/
theorem sum_exact {quantities : List Quantity} {values : List Rat}
    (h : quantities.map rational? = values.map some) :
    ∃ c, sum quantities = .ok c ∧ c.rational? = some values.sum := by
  have from_ {total : Quantity} {t : Rat} (ht : total.rational? = some t) :
      ∃ c, quantities.foldlM add total = .ok c ∧ c.rational? = some (t + values.sum) := by
    induction quantities generalizing values total t with
    | nil =>
      cases values with
      | nil => exact ⟨total, rfl, by rw [List.sum_nil, add_zero, ht]⟩
      | cons => cases h
    | cons a as ih =>
      cases values with
      | nil => cases h
      | cons v vs =>
        obtain ⟨ha, has⟩ := List.cons.inj h
        obtain ⟨next, hnext, hvalue⟩ := add_exact ht ha
        obtain ⟨c, hc, hc'⟩ := ih has hvalue
        refine ⟨c, ?_, by rw [hc', List.sum_cons, add_assoc]⟩
        rw [List.foldlM_cons, hnext]
        exact hc
  have hzero : (whole 0).rational? = some ((0 : Int) : Rat) := rfl
  obtain ⟨c, hc, hvalue⟩ := from_ hzero
  exact ⟨c, hc, by rw [hvalue, Int.cast_zero, zero_add]⟩

end Quantity

namespace Sound

/-- Every duration in a sound is exact, and every container says how its content is played. -/
inductive IsExact : Sound → Prop
  | note {d : Quantity} {x : Rat} (name : String) (pitch : Option Quantity) (isContinuous : Bool) :
    d.rational? = some x → IsExact (note name d pitch isContinuous)
  | pause {d : Quantity} {x : Rat} : d.rational? = some x → IsExact (pause d)
  | container {arrangement : Arrangement} {objects : List Sound} {d : Quantity} {x : Rat} :
    arrangement ≠ .unspecified → (∀ s ∈ objects, IsExact s) → d.rational? = some x →
      IsExact (container arrangement objects d)

variable {s : Sound}

/-- An exact sound has an exact duration. -/
theorem IsExact.duration (h : s.IsExact) : ∃ x, s.duration.rational? = some x := by
  cases h with
  | note _ _ _ h | pause h | container _ _ h => exact ⟨_, h⟩

/-! ## Fitting -/

/-- Each of several exact sounds can be fitted to its own duration times a ratio. -/
theorem fitEach_exact {objects : List Sound} (factor : Rat) (h : ∀ s ∈ objects, s.IsExact)
    (hfit : ∀ s ∈ objects, ∀ x, ∃ fitted, s.fit (.ratio x) = .ok fitted ∧ fitted.IsExact) :
    ∃ fitted, fitEach (.ratio factor) objects = .ok fitted ∧ ∀ s ∈ fitted, s.IsExact := by
  induction objects with
  | nil => exact ⟨[], rfl, nofun⟩
  | cons s ss ih =>
    obtain ⟨hs, hss⟩ := List.forall_mem_cons.1 h
    obtain ⟨hfits, hfitss⟩ := List.forall_mem_cons.1 hfit
    obtain ⟨x, hx⟩ := hs.duration
    obtain ⟨s', hs', hexact⟩ := hfits (x * factor)
    obtain ⟨ss', hss', hexacts⟩ := ih hss hfitss
    refine ⟨s' :: ss', ?_, List.forall_mem_cons.2 ⟨hexact, hexacts⟩⟩
    have hown := Quantity.mul_ratio_exact hx factor
    exact bind_eq_ok.2 ⟨_, hown, bind_eq_ok.2 ⟨_, hs', bind_eq_ok.2 ⟨_, hss', rfl⟩⟩⟩

/-- An exact sound can be fitted to a ratio. -/
theorem fit_exact (h : s.IsExact) (x : Rat) :
    ∃ fitted, s.fit (.ratio x) = .ok fitted ∧ fitted.IsExact ∧ fitted.duration = .ratio x := by
  induction h generalizing x with
  | note name pitch isContinuous => exact ⟨_, rfl, .note name pitch isContinuous rfl, rfl⟩
  | pause => exact ⟨_, rfl, .pause rfl, rfl⟩
  | @container arrangement objects old q harrangement hobjects hold ih =>
    rw [fit, Quantity.isZero_exact hold]
    by_cases hzero : q = 0
    · rw [if_pos (decide_eq_true hzero)]
      exact ⟨_, rfl, .container harrangement hobjects rfl, rfl⟩
    · rw [if_neg (by simpa using hzero)]
      obtain ⟨fitted, hfitted, hexact⟩ := fitEach_exact (x / q) hobjects fun s hs x =>
        (ih s hs x).imp fun _ h => ⟨h.1, h.2.1⟩
      have hfactor := Quantity.ratio_div_exact x hold hzero
      exact ⟨_, bind_eq_ok.2 ⟨_, hfactor, bind_eq_ok.2 ⟨_, hfitted, rfl⟩⟩,
        .container harrangement hexact rfl, rfl⟩

/-! ## Arranging -/

/-- Sounds of exact durations can be arranged in turn, and last as long as all of them. -/
theorem arrange_inTurn_exact {objects : List Sound} {values : List Rat}
    (h : objects.map (fun s => s.duration.rational?) = values.map some) :
    ∃ d, arrange .inTurn objects none = .ok (container .inTurn objects d) ∧
      d.rational? = some values.sum := by
  have hdurations : (objects.map duration).map Quantity.rational? = values.map some := by
    rw [List.map_map]
    exact h
  obtain ⟨d, hd, hvalue⟩ := Quantity.sum_exact hdurations
  exact ⟨d, bind_eq_ok.2 ⟨d, hd, rfl⟩, hvalue⟩

/-- Sounds of exact durations can be arranged together, and last as long as the first. -/
theorem arrange_together_exact {objects : List Sound} {values : List Rat}
    (h : objects.map (fun s => s.duration.rational?) = values.map some) :
    ∃ d, arrange .together objects none = .ok (container .together objects d) ∧
      d.rational? = some (values.headD 0) := by
  cases objects with
  | nil =>
    cases List.map_eq_nil_iff.1 h.symm
    exact ⟨_, rfl, rfl⟩
  | cons s ss =>
    cases values with
    | nil => cases h
    | cons v vs => exact ⟨_, rfl, (List.cons.inj h).1⟩

/-- An exact sound fills slots of exact durations, and then lasts as long as all of them. -/
theorem fill_exact (h : s.IsExact) (slots : List Rat) :
    ∃ filled, s.fill (slots.map .ratio) = .ok filled ∧ filled.IsExact ∧
      filled.duration.rational? = some slots.sum := by
  have hslots : (slots.map Quantity.ratio).map Quantity.rational? = slots.map some := by
    rw [List.map_map]
    rfl
  have inTurn : ∃ filled,
      (do arrange .inTurn (← (slots.map Quantity.ratio).mapM fun slot => s.fit slot) none) =
          .ok filled ∧
        filled.IsExact ∧ filled.duration.rational? = some slots.sum := by
    choose fitted hfitted hexact hduration using fit_exact h
    have hparts : (slots.map Quantity.ratio).mapM (fun slot => s.fit slot) =
        .ok (slots.map fitted) := by
      rw [List.mapM_map]
      exact mapM_of_forall fun x _ => hfitted x
    have hdurations : (slots.map fitted).map (fun s => s.duration.rational?) = slots.map some := by
      rw [List.map_map]
      exact List.map_congr_left fun x _ => congrArg Quantity.rational? (hduration x)
    obtain ⟨d, hd, hvalue⟩ := arrange_inTurn_exact hdurations
    exact ⟨_, bind_eq_ok.2 ⟨_, hparts, hd⟩,
      .container nofun (List.forall_mem_map.2 fun x _ => hexact x) hvalue, hvalue⟩
  cases h with
  | note name pitch isContinuous =>
    cases isContinuous with
    | true =>
      obtain ⟨d, hd, hvalue⟩ := Quantity.sum_exact hslots
      exact ⟨_, bind_eq_ok.2 ⟨d, hd, rfl⟩, .note name pitch true hvalue, hvalue⟩
    | false => exact inTurn
  | pause | container => exact inTurn

end Sound

end Polyrhythm
