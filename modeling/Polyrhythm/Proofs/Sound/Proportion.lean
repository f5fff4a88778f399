import Mathlib.Algebra.BigOperators.Ring.List
import Polyrhythm.Number.Order
import Polyrhythm.Proofs.Sound.Exact

/-!
# Fitting keeps the proportions of a sound

A sound is proportioned if its durations are exact, its pitches are numbers, and what lasts no time
holds only what lasts no time (`Sound.Proportioned`). Fitting such a sound to a multiple of its own
duration never fails, and multiplies every duration in it (`Sound.fit_mul`); the durations are then
read off with all of them written as ratios (`Sound.scaled`). Filling slots does the same, once for
every slot (`Sound.StretchedFrom.fill`). Proportioned sounds that are alike when all durations are
written as ratios are the same sound (`Sound.same_of_scaled`).
-/

namespace Polyrhythm

open Traversal

namespace Quantity

variable {a b : Quantity} {p q : Rat}

/-- The exact value of a quantity times a factor, as a ratio. -/
def scaled (factor : Rat) (a : Quantity) : Quantity := .ratio (a.rational?.getD 0 * factor)

theorem scaled_exact (ha : a.rational? = some p) (factor : Rat) :
    a.scaled factor = .ratio (p * factor) := by
  rw [scaled, ha, Option.getD_some]

theorem scaled_scaled (factor next : Rat) (a : Quantity) :
    (a.scaled factor).scaled next = a.scaled (factor * next) := by
  simp only [scaled, rational?, Option.getD_some, mul_assoc]

/-- Exact quantities have the same value if they are written as the same ratio. -/
theorem sameValue_of_scaled (ha : a.rational? = some p) (hb : b.rational? = some q)
    (h : a.scaled 1 = b.scaled 1) : a.sameValue b = true := by
  rw [scaled_exact ha, scaled_exact hb, mul_one, mul_one] at h
  cases h
  rw [sameValue_exact ha hb]
  exact decide_eq_true rfl

/-- What comes before or after others has its own value. -/
theorem sameValue_self (h : a.isComparable = true) : a.sameValue a = true := by
  have hplace : a.place ≠ .nowhere := by simpa [isComparable] using h
  rw [sameValue]
  cases hcases : a.place with
  | nowhere => exact absurd hcases hplace
  | finite => exact decide_eq_true rfl
  | bottom | top => rfl

end Quantity

namespace Sound

/-! ## Durations as ratios -/

mutual
/-- A sound with every duration multiplied by a factor and written as a ratio. -/
def scaled (factor : Rat) : Sound → Sound
  | note name duration pitch isContinuous =>
    note name (duration.scaled factor) pitch isContinuous
  | pause duration => pause (duration.scaled factor)
  | container arrangement objects duration =>
    container arrangement (scaledEach factor objects) (duration.scaled factor)
  | bare => bare

/-- `scaled` over the sounds of a list. -/
def scaledEach (factor : Rat) : List Sound → List Sound
  | [] => []
  | s :: ss => scaled factor s :: scaledEach factor ss
end

@[simp]
theorem scaledEach_eq_map (factor : Rat) (ss : List Sound) :
    scaledEach factor ss = ss.map (scaled factor) := by
  induction ss with
  | nil => rfl
  | cons s ss ih => rw [scaledEach, ih, List.map_cons]

mutual
/-- Scaling twice is scaling by the product. -/
theorem scaled_scaled (factor next : Rat) (s : Sound) :
    (s.scaled factor).scaled next = s.scaled (factor * next) := by
  cases s with
  | note | pause => simp only [scaled, Quantity.scaled_scaled]
  | container arrangement objects duration =>
    simp only [scaled, Quantity.scaled_scaled, scaledEach_scaledEach factor next objects]
  | bare => rfl

theorem scaledEach_scaledEach (factor next : Rat) (ss : List Sound) :
    scaledEach next (scaledEach factor ss) = scaledEach (factor * next) ss := by
  cases ss with
  | nil => rfl
  | cons s ss =>
    rw [scaledEach, scaledEach, scaledEach, scaled_scaled factor next s,
      scaledEach_scaledEach factor next ss]
end

/-! ## Proportions -/

/-- All durations in a sound are exact, all pitches are numbers, and a container that lasts no time
holds only sounds that last no time. -/
inductive Proportioned : Sound → Prop
  | note {d : Quantity} {x : Rat} {pitch : Option Quantity} (name : String) (isContinuous : Bool) :
    d.rational? = some x → (∀ p, pitch = some p → p.isComparable = true) →
      Proportioned (note name d pitch isContinuous)
  | pause {d : Quantity} {x : Rat} : d.rational? = some x → Proportioned (pause d)
  | container {objects : List Sound} {d : Quantity} {x : Rat} (arrangement : Arrangement) :
    (∀ s ∈ objects, Proportioned s) → d.rational? = some x →
      (x = 0 → ∀ s ∈ objects, s.duration.rational? = some 0) →
      Proportioned (container arrangement objects d)

variable {s s' ref : Sound} {x v : Rat}

/-- A proportioned sound has an exact duration. -/
theorem Proportioned.duration (h : s.Proportioned) : ∃ x, s.duration.rational? = some x := by
  cases h with
  | note _ _ h | pause h | container _ _ h => exact ⟨_, h⟩

/-- No factor changes a proportioned sound that lasts no time. -/
theorem scaled_of_zero (h : s.Proportioned) (hzero : s.duration.rational? = some 0)
    (factor next : Rat) : s.scaled factor = s.scaled next := by
  have hduration {d : Quantity} (hd : d.rational? = some 0) : d.scaled factor = d.scaled next := by
    rw [Quantity.scaled_exact hd, Quantity.scaled_exact hd, zero_mul, zero_mul]
  induction h with
  | @note d | @pause d => rw [scaled, scaled, hduration (d := d) hzero]
  | @container objects d x arrangement _ hd hobjects ih =>
    have hx := Option.some.inj (hd.symm.trans hzero)
    rw [scaled, scaled, hduration (d := d) hzero, scaledEach_eq_map, scaledEach_eq_map,
      List.map_congr_left fun s hs => ih s hs (hobjects hx s hs)]

/-! ## Fitting -/

/-- Sounds each of which can be fitted to multiples of its own duration are fitted to the same
multiple. -/
theorem fitEach_mul_of {objects : List Sound} {factor : Rat} (h : ∀ s ∈ objects, s.Proportioned)
    (hfit : ∀ s ∈ objects, ∀ x, s.duration.rational? = some x →
      ∃ fitted, s.fit (.ratio (x * factor)) = .ok fitted ∧ fitted.Proportioned ∧
        fitted.duration = .ratio (x * factor) ∧ fitted.scaled 1 = s.scaled factor) :
    ∃ fitted, fitEach (.ratio factor) objects = .ok fitted ∧ (∀ s ∈ fitted, s.Proportioned) ∧
      (factor = 0 → ∀ s ∈ fitted, s.duration.rational? = some 0) ∧
      fitted.map (scaled 1) = objects.map (scaled factor) := by
  induction objects with
  | nil => exact ⟨[], rfl, nofun, fun _ => nofun, rfl⟩
  | cons s ss ih =>
    obtain ⟨hs, hss⟩ := List.forall_mem_cons.1 h
    obtain ⟨hfits, hfitss⟩ := List.forall_mem_cons.1 hfit
    obtain ⟨x, hx⟩ := hs.duration
    obtain ⟨s', hs', hproportioned, hduration, hscaled⟩ := hfits x hx
    obtain ⟨ss', hss', hproportioneds, hzero, hscaleds⟩ := ih hss hfitss
    have hown := Quantity.mul_ratio_exact hx factor
    refine ⟨s' :: ss', bind_eq_ok.2 ⟨_, hown, bind_eq_ok.2 ⟨_, hs', bind_eq_ok.2 ⟨_, hss', rfl⟩⟩⟩,
      List.forall_mem_cons.2 ⟨hproportioned, hproportioneds⟩, ?_, ?_⟩
    · intro hfactor
      refine List.forall_mem_cons.2 ⟨?_, hzero hfactor⟩
      rw [hduration, hfactor, mul_zero]
      rfl
    · rw [List.map_cons, hscaled, hscaleds, List.map_cons]

/-- A proportioned sound can be fitted to any multiple of its own duration. Then every duration in
it is multiplied. -/
theorem fit_mul (h : s.Proportioned) (hx : s.duration.rational? = some x) (factor : Rat) :
    ∃ fitted, s.fit (.ratio (x * factor)) = .ok fitted ∧ fitted.Proportioned ∧
      fitted.duration = .ratio (x * factor) ∧ fitted.scaled 1 = s.scaled factor := by
  have hnew {d : Quantity} {x : Rat} (hd : d.rational? = some x) :
      (Quantity.ratio (x * factor)).scaled 1 = d.scaled factor := by
    rw [Quantity.scaled_exact hd, Quantity.scaled_exact rfl, mul_one]
  induction h generalizing x with
  | note name isContinuous hd hpitch =>
    cases hd.symm.trans hx
    exact ⟨_, rfl, .note name isContinuous rfl hpitch, rfl, by rw [scaled, scaled, hnew hd]⟩
  | pause hd =>
    cases hd.symm.trans hx
    exact ⟨_, rfl, .pause rfl, rfl, by rw [scaled, scaled, hnew hd]⟩
  | @container objects d old arrangement hobjects hd hzeros ih =>
    obtain rfl : x = old := Option.some.inj (hx.symm.trans hd)
    rw [fit, Quantity.isZero_exact hd]
    by_cases hzero : x = 0
    · rw [if_pos (decide_eq_true hzero)]
      refine ⟨_, rfl, .container arrangement hobjects rfl fun _ => hzeros hzero, rfl, ?_⟩
      rw [scaled, scaled, hnew hd, scaledEach_eq_map, scaledEach_eq_map,
        List.map_congr_left fun s hs => scaled_of_zero (hobjects s hs) (hzeros hzero s hs) 1 factor]
    · rw [if_neg (by simpa using hzero)]
      obtain ⟨fitted, hfitted, hproportioned, hnone, hscaled⟩ :=
        fitEach_mul_of hobjects fun s hs x hx => ih s hs hx
      have hfactor : (Quantity.ratio (x * factor)).div d = .ok (.ratio factor) := by
        rw [Quantity.ratio_div_exact _ hd hzero, mul_div_cancel_left₀ _ hzero]
      refine ⟨_, bind_eq_ok.2 ⟨_, hfactor, bind_eq_ok.2 ⟨_, hfitted, rfl⟩⟩,
        .container arrangement hproportioned rfl ?_, rfl, ?_⟩
      · intro hproduct
        exact hnone ((mul_eq_zero.1 hproduct).resolve_left hzero)
      · rw [scaled, scaled, hnew hd, scaledEach_eq_map, scaledEach_eq_map, hscaled]

/-! ## Equality -/

/-- Proportioned sounds that are alike with all durations written as ratios are the same. -/
theorem same_of_scaled (h : s.Proportioned) (h' : s'.Proportioned)
    (heq : s.scaled 1 = s'.scaled 1) : s.same s' = true := by
  have each {objects objects' : List Sound}
      (ih : ∀ s ∈ objects, ∀ s' : Sound, s'.Proportioned → s.scaled 1 = s'.scaled 1 →
        s.same s' = true)
      (h' : ∀ s ∈ objects', s.Proportioned)
      (heq : objects.map (scaled 1) = objects'.map (scaled 1)) :
      sameEach objects objects' = true := by
    induction objects generalizing objects' with
    | nil =>
      cases objects' with
      | nil => rfl
      | cons => cases heq
    | cons s ss ihs =>
      cases objects' with
      | nil => cases heq
      | cons s' ss' =>
        obtain ⟨hs, hss⟩ := List.cons.inj heq
        obtain ⟨ihs', ihss⟩ := List.forall_mem_cons.1 ih
        obtain ⟨hs', hss'⟩ := List.forall_mem_cons.1 h'
        rw [sameEach, ihs' s' hs' hs, ihs ihss hss' hss, Bool.and_self]
  have pitches {pitch : Option Quantity} (h : ∀ p, pitch = some p → p.isComparable = true) :
      samePitch pitch pitch = true := by
    cases pitch with
    | none => rfl
    | some p => exact Quantity.sameValue_self (h p rfl)
  induction h generalizing s' with
  | note name isContinuous hd hpitch =>
    cases h' with
    | note _ _ hd' =>
      simp only [scaled, note.injEq] at heq
      obtain ⟨rfl, hduration, rfl, rfl⟩ := heq
      simp [same, Quantity.sameValue_of_scaled hd hd' hduration, pitches hpitch]
    | pause | container => cases heq
  | pause hd =>
    cases h' with
    | pause hd' => exact Quantity.sameValue_of_scaled hd hd' (pause.inj heq)
    | note | container => cases heq
  | container arrangement hobjects hd _ ih =>
    cases h' with
    | container _ hobjects' hd' =>
      simp only [scaled, container.injEq, scaledEach_eq_map] at heq
      obtain ⟨rfl, hobjectsEq, hduration⟩ := heq
      have hsame := each (fun s hs s' h' heq => ih s hs h' heq) hobjects' hobjectsEq
      simp [same, Quantity.sameValue_of_scaled hd hd' hduration, hsame]
    | note | pause => cases heq

/-! ## Stretching -/

/-- A proportioned sound has all durations of another sound, multiplied by a factor. -/
structure StretchedFrom (ref : Sound) (factor : Rat) (s : Sound) : Prop where
  proportioned : s.Proportioned
  scaled_eq : s.scaled 1 = ref.scaled factor

/-- A sound that is stretched can be fitted to any multiple of its own duration, which stretches it
more. -/
theorem StretchedFrom.fit (h : StretchedFrom ref v s) (hx : s.duration.rational? = some x)
    (factor : Rat) :
    ∃ fitted, s.fit (.ratio (x * factor)) = .ok fitted ∧ StretchedFrom ref (v * factor) fitted ∧
      fitted.duration = .ratio (x * factor) := by
  obtain ⟨fitted, hfitted, hproportioned, hduration, hscaled⟩ := fit_mul h.proportioned hx factor
  refine ⟨fitted, hfitted, ⟨hproportioned, ?_⟩, hduration⟩
  calc fitted.scaled 1 = (s.scaled 1).scaled factor := by rw [hscaled, scaled_scaled, one_mul]
    _ = ref.scaled (v * factor) := by rw [h.scaled_eq, scaled_scaled]

/-- Sounds stretched from the same sound by the same factor are the same. -/
theorem StretchedFrom.same (h : StretchedFrom ref v s) (h' : StretchedFrom ref v s') :
    s.same s' = true :=
  same_of_scaled h.proportioned h'.proportioned (h.scaled_eq.trans h'.scaled_eq.symm)

/-- Whether a sound is a note that is repeated by holding it. -/
def isSustained : Sound → Bool
  | note _ _ _ isContinuous => isContinuous
  | pause _ | container .. | bare => false

@[simp]
theorem isSustained_scaled (factor : Rat) (s : Sound) :
    (s.scaled factor).isSustained = s.isSustained := by
  cases s <;> rfl

/-- A sound that cannot be held is repeated by fitting it to every slot. -/
theorem fill_of_not_isSustained (h : s.isSustained = false) (slots : List Quantity) :
    s.fill slots = (do arrange .inTurn (← slots.mapM fun slot => s.fit slot) none) := by
  cases s with
  | note _ _ _ isContinuous => cases h; rfl
  | pause | container | bare => rfl

/-- A sound of a given duration repeated in slots: held for all of them, or stretched to each. -/
def filled (own : Rat) (slots : List Rat) : Sound → Sound
  | note name _ pitch true => note name (.ratio slots.sum) pitch true
  | s => container .inTurn (slots.map fun slot => s.scaled (slot / own)) (.ratio slots.sum)

theorem filled_of_not_isSustained (h : ref.isSustained = false) (own : Rat) (slots : List Rat) :
    ref.filled own slots =
      container .inTurn (slots.map fun slot => ref.scaled (slot / own)) (.ratio slots.sum) := by
  cases ref with
  | note _ _ _ isContinuous => cases h; rfl
  | pause | container | bare => rfl

/-- A sound that is stretched, fitted to each of several slots that are stretched as well. -/
theorem StretchedFrom.mapM_fit {own : Rat} (hown : own ≠ 0) (h : StretchedFrom ref v s)
    (hx : s.duration.rational? = some (own * v)) (slots : List Rat) :
    ∃ parts, ((slots.map (· * v)).map Quantity.ratio).mapM (fun slot => s.fit slot) = .ok parts ∧
      (∀ s ∈ parts, s.Proportioned) ∧
      parts.map (fun s => s.duration.rational?) = (slots.map (· * v)).map some ∧
      parts.map (scaled 1) = (slots.map fun slot => ref.scaled (slot / own)).map (scaled v) := by
  induction slots with
  | nil => exact ⟨[], rfl, nofun, rfl, rfl⟩
  | cons slot slots ih =>
    obtain ⟨parts, hparts, hproportioned, hdurations, hscaled⟩ := ih
    obtain ⟨part, hpart, hstretched, hduration⟩ := h.fit hx (slot / own)
    have hslot : own * v * (slot / own) = slot * v := by
      rw [mul_right_comm, mul_div_cancel₀ _ hown]
    rw [hslot] at hpart hduration
    refine ⟨part :: parts, mapM_cons_eq_ok.2 ⟨part, parts, hpart, hparts, rfl⟩,
      List.forall_mem_cons.2 ⟨hstretched.proportioned, hproportioned⟩, ?_, ?_⟩
    · rw [List.map_cons, hdurations, hduration]
      rfl
    · rw [List.map_cons, hscaled, hstretched.scaled_eq, List.map_cons, List.map_cons,
        scaled_scaled, mul_comm v]

/-- A sound that is stretched fills slots that are stretched as well; what comes of it is stretched
likewise. -/
theorem StretchedFrom.fill {own : Rat} {slots : List Rat} (hown : own ≠ 0) (hsum : slots.sum ≠ 0)
    (h : StretchedFrom ref v s) (hx : s.duration.rational? = some (own * v)) :
    ∃ filled, s.fill ((slots.map (· * v)).map .ratio) = .ok filled ∧
      StretchedFrom (ref.filled own slots) v filled ∧
      filled.duration.rational? = some (slots.sum * v) := by
  have hvalues : (slots.map (· * v)).sum = slots.sum * v := by
    rw [List.sum_map_mul_right, List.map_id']
  have hsustained : s.isSustained = ref.isSustained := by
    rw [← isSustained_scaled 1, h.scaled_eq, isSustained_scaled]
  cases hcases : ref.isSustained with
  | false =>
    rw [hcases] at hsustained
    obtain ⟨parts, hparts, hproportioned, hdurations, hscaled⟩ := h.mapM_fit hown hx slots
    obtain ⟨d, hd, hvalue⟩ := arrange_inTurn_exact hdurations
    rw [hvalues] at hvalue
    rw [fill_of_not_isSustained hsustained, filled_of_not_isSustained hcases]
    refine ⟨_, bind_eq_ok.2 ⟨_, hparts, hd⟩, ⟨.container _ hproportioned hvalue ?_, ?_⟩, hvalue⟩
    · intro hzero
      have hv : v = 0 := (mul_eq_zero.1 hzero).resolve_left hsum
      intro part hpart
      have hmem : part.duration.rational? ∈ (slots.map (· * v)).map some :=
        hdurations ▸ List.mem_map_of_mem hpart
      simp only [List.map_map, List.mem_map, Function.comp_apply, hv, mul_zero] at hmem
      obtain ⟨-, -, hmem⟩ := hmem
      exact hmem.symm
    · rw [scaled, scaled, scaledEach_eq_map, scaledEach_eq_map, hscaled,
        Quantity.scaled_exact hvalue, Quantity.scaled_exact rfl, mul_one]
  | true =>
    rw [hcases] at hsustained
    have hslots : ((slots.map (· * v)).map Quantity.ratio).map Quantity.rational? =
        (slots.map (· * v)).map some := by
      rw [List.map_map]
      rfl
    obtain ⟨d, hd, hvalue⟩ := Quantity.sum_exact hslots
    rw [hvalues] at hvalue
    obtain ⟨hproportioned, hscaled⟩ := h
    cases hproportioned with
    | @note d' x pitch name isContinuous hd' hpitch =>
      cases hsustained
      cases ref with
      | note name' duration' pitch' isContinuous' =>
        simp only [scaled, note.injEq] at hscaled
        obtain ⟨rfl, -, rfl, rfl⟩ := hscaled
        refine ⟨_, bind_eq_ok.2 ⟨d, hd, rfl⟩, ⟨.note name true hvalue hpitch, ?_⟩, hvalue⟩
        rw [filled, scaled, scaled, Quantity.scaled_exact hvalue, Quantity.scaled_exact rfl,
          mul_one]
      | pause | container | bare => cases hscaled
    | pause | container => cases hsustained

end Sound

end Polyrhythm
