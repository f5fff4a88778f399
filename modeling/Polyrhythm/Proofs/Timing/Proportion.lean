import Mathlib.Algebra.Order.Field.Rat
import Polyrhythm.Node.Fit
import Polyrhythm.Node.Scale
import Polyrhythm.Proofs.Tree.Walk

/-!
# Fitting keeps proportions

A timed tree is proportioned if an element that lasts no time holds only elements that last no time
(`Node.Proportioned`). Then fitting never fails, and it is scaling by the ratio of the new duration
to the old one, apart from the duration of an element that lasted no time, which is replaced
(`Node.fit_eq_ok`). Fitting an element to a multiple of its own duration is nothing but scaling
(`Node.fit_mul`).
-/

namespace Polyrhythm.Node

/-- The duration of an element, zero while it is missing. -/
def extent (n : Node) : Rat := n.duration?.getD 0

/-- An element with another duration, its content being left alone. -/
def lasting {δ : Type} (duration : δ) : Node δ → Node δ
  | symbol s => symbol { s with duration := some duration }
  | hold h => hold { h with duration := some duration }
  | group content isExplicit _ => group content isExplicit (some duration)
  | simul content _ => simul content (some duration)
  | held content h => held content { h with duration := some duration }
  | sequence content => sequence content
  | foreign kind => foreign kind

/-- The duration of an element is known, and if it is zero, so are the durations of its children
and its slots. A hold that is not gathered has no slots. -/
def Proportioned : Node → Prop
  | symbol s => ∃ d, s.duration = some d
  | hold h => h.slots = none ∧ ∃ d, h.duration = some d
  | group content _ duration | simul content duration =>
    ∃ d, duration = some d ∧ (d = 0 → ∀ c ∈ content, c.duration? = some 0)
  | held content h =>
    ∃ d slots, h.duration = some d ∧ h.slots = some slots ∧
      (d = 0 → content.duration? = some 0 ∧ ∀ slot ∈ slots, slot = 0)
  | sequence _ | foreign _ => False

variable {n : Node}

/-! ## Durations -/

theorem extent_of_duration? {d : Rat} (h : n.duration? = some d) : n.extent = d := by
  simp [extent, h]

/-- The duration of a proportioned element is known. -/
theorem Proportioned.duration? (h : n.Proportioned) : n.duration? = some n.extent := by
  have hsome : ∃ d, n.duration? = some d := by
    cases n with
    | symbol => exact h
    | hold => exact h.2
    | group | simul => exact h.imp fun _ h => h.1
    | held => exact h.imp fun _ ⟨_, h, _⟩ => h
    | sequence | foreign => exact h.elim
  obtain ⟨d, hd⟩ := hsome
  rw [hd, extent_of_duration? hd]

/-- A duration that is known is a part of its element. -/
theorem durationPart_of_duration? {δ : Type} {n : Node δ} {d : δ} (h : n.duration? = some d) :
    n.durationPart = .ok (some d) := by
  rw [← h]
  cases n with
  | sequence | foreign => cases h
  | _ => rfl

/-- A duration that is known can be used in a sum or a product. -/
theorem knownDuration_of_duration? {δ : Type} {n : Node δ} {d : δ} (h : n.duration? = some d) :
    n.knownDuration = .ok d := by
  rw [knownDuration, durationPart_of_duration? h]
  rfl

/-- A proportioned element has a duration as a part. -/
theorem Proportioned.durationPart (h : n.Proportioned) : n.durationPart = .ok (some n.extent) :=
  durationPart_of_duration? h.duration?

/-- The duration of a proportioned element can be used in a sum or a product. -/
theorem Proportioned.knownDuration (h : n.Proportioned) : n.knownDuration = .ok n.extent :=
  knownDuration_of_duration? h.duration?

@[simp]
theorem duration?_scale (factor : Rat) (n : Node) :
    (n.scale factor).duration? = n.duration?.map (· * factor) := by
  cases n <;> simp [scale, duration?, Hold.scale]

/-- An element that lasts as long as it is told to is unchanged. -/
theorem lasting_eq_self {δ : Type} {n : Node δ} {d : δ} (h : n.duration? = some d) :
    n.lasting d = n := by
  cases n with
  | symbol s => cases s; cases h; rfl
  | hold s | held _ s => cases s; cases h; rfl
  | group | simul => cases h; rfl
  | sequence | foreign => rfl

/-- A proportioned element has whatever duration it is given. -/
theorem Proportioned.duration?_lasting (h : n.Proportioned) (d : Rat) :
    (n.lasting d).duration? = some d := by
  cases n with
  | sequence | foreign => exact h.elim
  | _ => rfl

/-- The duration that is replaced may be scaled or not. -/
theorem scale_lasting (factor d : Rat) (n : Node) :
    (n.lasting d).scale factor = (n.scale factor).lasting (d * factor) := by
  cases n <;> simp [lasting, scale, Hold.scale]

/-! ## Elements that last no time -/

/-- Slots that last no time are not changed by a factor. -/
theorem map_mul_of_zero {slots : List Rat} {factor : Rat} (h : ∀ slot ∈ slots, slot = 0) :
    slots.map (· * factor) = slots := by
  rw [List.map_congr_left fun slot hslot => by rw [h slot hslot, zero_mul, ← h slot hslot],
    List.map_id']

/-- Scaling does nothing to a proportioned tree that lasts no time. -/
theorem scale_eq_self (h : n.Every Proportioned) (hzero : n.duration? = some 0) (factor : Rat) :
    n.scale factor = n := by
  have each {content : List Node} (hchildren : ∀ c ∈ content, c.Every Proportioned)
      (hzeros : ∀ c ∈ content, c.duration? = some 0)
      (ih : ∀ c ∈ content, c.Every Proportioned → c.duration? = some 0 → c.scale factor = c) :
      content.map (scale factor) = content := by
    rw [List.map_congr_left fun c hc => ih c hc (hchildren c hc) (hzeros c hc), List.map_id']
  induction n with
  | symbol s =>
    cases s
    cases hzero
    simp [scale]
  | hold s =>
    obtain ⟨hslots, -⟩ := h.self
    cases s
    cases hzero
    cases hslots
    simp [scale, Hold.scale]
  | group content isExplicit duration ih =>
    obtain ⟨⟨d, rfl, hchildren⟩, hcontent⟩ := every_group.1 h
    cases hzero
    simp [scale, each hcontent (hchildren rfl) ih]
  | simul content duration ih =>
    obtain ⟨⟨d, rfl, hchildren⟩, hcontent⟩ := every_simul.1 h
    cases hzero
    simp [scale, each hcontent (hchildren rfl) ih]
  | sequence => exact h.self.elim
  | held content s ih =>
    obtain ⟨⟨d, slots, hd, hslots, hchildren⟩, hcontent⟩ := every_held.1 h
    cases s
    cases hd
    cases hslots
    cases hzero
    obtain ⟨hown, hzeros⟩ := hchildren rfl
    simp [scale, Hold.scale, map_mul_of_zero hzeros, ih hcontent hown]
  | foreign => exact h.self.elim

/-! ## Fitting -/

/-- Fitting an element to a multiple of its own duration is scaling it, if fitting it to any
duration is scaling it by the ratio of the durations. -/
theorem fit_mul_of (h : n.Every Proportioned)
    (hfit : ∀ d, n.fit d = .ok ((n.scale (d / n.extent)).lasting d)) (factor : Rat) :
    n.fit (n.extent * factor) = .ok (n.scale factor) := by
  have hscaled : (n.scale factor).duration? = some (n.extent * factor) := by
    rw [duration?_scale, h.self.duration?]
    rfl
  rw [hfit]
  by_cases hzero : n.extent = 0
  · have hself := scale_eq_self h (hzero ▸ h.self.duration?)
    rw [hself] at hscaled ⊢
    rw [hself, lasting_eq_self hscaled]
  · rw [mul_div_cancel_left₀ _ hzero, lasting_eq_self hscaled]

/-- Fitting every element of a list to a multiple of its own duration is scaling the list. -/
theorem scaleAll_eq_ok {content : List Node} {factor : Rat}
    (h : ∀ c ∈ content, c.Every Proportioned)
    (hfit : ∀ c ∈ content, c.fit (c.extent * factor) = .ok (c.scale factor)) :
    scaleAll factor content = .ok (content.map (scale factor)) := by
  induction content with
  | nil => rfl
  | cons c rest ih =>
    have hrest := ih (fun m hm => h m (by simp [hm])) fun m hm => hfit m (by simp [hm])
    simp only [scaleAll, (h c (by simp)).self.knownDuration, Scalable.mul_rat, hfit c (by simp),
      hrest, bind, Except.bind, pure, Except.pure, List.map_cons]

/-- A proportioned tree can be fitted to any duration. All it holds is scaled by the ratio of the
durations; a ratio to zero, of an element that lasts no time, counts as zero. -/
theorem fit_eq_ok (h : n.Every Proportioned) (d : Rat) :
    n.fit d = .ok ((n.scale (d / n.extent)).lasting d) := by
  have each {content : List Node} {factor : Rat} (hchildren : ∀ c ∈ content, c.Every Proportioned)
      (ih : ∀ c ∈ content, c.Every Proportioned →
        ∀ d, c.fit d = .ok ((c.scale (d / c.extent)).lasting d)) :
      scaleAll factor content = .ok (content.map (scale factor)) :=
    scaleAll_eq_ok hchildren fun c hc => fit_mul_of (hchildren c hc) (ih c hc (hchildren c hc)) _
  have still {content : List Node} {factor : Rat} (hchildren : ∀ c ∈ content, c.Every Proportioned)
      (hzeros : ∀ c ∈ content, c.duration? = some 0) :
      content.map (scale factor) = content := by
    rw [List.map_congr_left fun c hc => scale_eq_self (hchildren c hc) (hzeros c hc) _,
      List.map_id']
  induction n generalizing d with
  | symbol s => rfl
  | hold s =>
    obtain ⟨hslots, -⟩ := h.self
    simp [fit, scale, Hold.scale, lasting, hslots]
  | group content isExplicit duration ih =>
    obtain ⟨⟨old, rfl, hchildren⟩, hcontent⟩ := every_group.1 h
    have hextent : (group content isExplicit (some old)).extent = old := rfl
    rw [hextent, fit, scale, lasting, scaleDurations_eq_map]
    simp only [oldDuration, bind, Except.bind, pure, Except.pure, Scalable.isZero_rat,
      decide_eq_true_eq]
    split
    · next hzero => rw [still hcontent (hchildren hzero)]
    · next hne =>
      simp only [Scalable.div_rat hne, each hcontent ih]
  | simul content duration ih =>
    obtain ⟨⟨old, rfl, hchildren⟩, hcontent⟩ := every_simul.1 h
    have hextent : (simul content (some old)).extent = old := rfl
    rw [hextent, fit, scale, lasting, scaleDurations_eq_map]
    simp only [oldDuration, bind, Except.bind, pure, Except.pure, Scalable.isZero_rat,
      decide_eq_true_eq]
    split
    · next hzero => rw [still hcontent (hchildren hzero)]
    · next hne =>
      simp only [Scalable.div_rat hne, each hcontent ih]
  | sequence => exact h.self.elim
  | held content s ih =>
    obtain ⟨⟨old, slots, hold, hslots, hchildren⟩, hcontent⟩ := every_held.1 h
    have hextent : (held content s).extent = old := extent_of_duration? hold
    rw [hextent, fit, scale, lasting]
    simp only [hold, hslots, oldDuration, Option.elim, bind, Except.bind, pure, Except.pure,
      hcontent.self.knownDuration, Hold.scale, Option.map_some, Scalable.isZero_rat,
      decide_eq_true_eq]
    split
    · next hzero =>
      obtain ⟨hown, hzeros⟩ := hchildren hzero
      rw [scale_eq_self hcontent hown, map_mul_of_zero hzeros, ← hslots]
    · next hne =>
      simp only [Scalable.div_rat hne, Scalable.mapM_mul_rat]
      simp only [Scalable.mul_rat, fit_mul_of hcontent (ih hcontent)]
  | foreign => exact h.self.elim

/-- Fitting a proportioned element to a multiple of its own duration is scaling it. -/
theorem fit_mul (h : n.Every Proportioned) (factor : Rat) :
    n.fit (n.extent * factor) = .ok (n.scale factor) :=
  fit_mul_of h (fit_eq_ok h) factor

end Polyrhythm.Node
