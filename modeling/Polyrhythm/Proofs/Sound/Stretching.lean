import Polyrhythm.Proofs.Sound.Loosening

/-!
# Fitting scales the time line

What is heard of a sound with every duration multiplied by a factor is what is heard of the sound,
with onsets and durations multiplied by it (`Sound.heard_scaled`). Only durations as ratios matter
for that, so it is all that has to be known of a fitted sound (`Sound.events_of_scaled`). A solid
sound is exact, and none of its containers lasts no time; these may be given any other duration,
which need not be that of their content. Since a container passes the factor it finds on to its
content, and not the duration, the same factor reaches every note of a solid sound
(`Sound.events_of_fit`). A container that lasts no time has no factor and would stop it.
-/

namespace Polyrhythm

open Traversal

variable {b factor x : Rat} {start : Quantity}

/-! ## Stretching -/

/-- A note that is heard in time that is stretched by a factor, and from a start on. -/
def Beat.stretched (start factor : Rat) (b : Beat) : Beat :=
  { b with time := start + b.time * factor, duration := b.duration * factor }

theorem Beat.stretched_zero_one (b : Beat) : b.stretched 0 1 = b := by
  rw [stretched, zero_add, mul_one, mul_one]

/-- An event that plays the same note as another one, at whatever time, for a multiple of its
duration. -/
structure Event.LengthenedFrom (factor : Rat) (e e' : Event) : Prop where
  duration : ∃ x, e.duration.rational? = some x ∧ e'.duration.rational? = some (x * factor)
  name : e'.name = e.name
  pitch : e'.pitch = e.pitch

/-- An event that is another one in time that is stretched by a factor, and from a start on. -/
structure Event.StretchedFrom (start factor : Rat) (e e' : Event) : Prop extends
    Event.LengthenedFrom factor e e' where
  time : ∃ t, e.time.rational? = some t ∧ e'.time.rational? = some (start + t * factor)

/-- Events that play notes and the stretched notes are stretched. -/
theorem Event.forall₂_stretchedFrom {beats : List Beat} {events events' : List Event}
    (h : List.Forall₂ Event.Plays beats events)
    (h' : List.Forall₂ Event.Plays (beats.map (Beat.stretched b factor)) events') :
    List.Forall₂ (Event.StretchedFrom b factor) events events' := by
  rw [List.forall₂_map_left_iff] at h'
  induction h generalizing events' with
  | nil =>
    cases h'
    exact .nil
  | cons hplays _ ih =>
    cases h' with
    | cons hplays' h' =>
      exact .cons ⟨⟨⟨_, hplays.duration, hplays'.duration⟩, hplays'.name.trans hplays.name.symm,
        hplays'.pitch.trans hplays.pitch.symm⟩, _, hplays.time, hplays'.time⟩ (ih h')

namespace Sound

variable {s t : Sound}

/-- The durations as ratios say how long a sound lasts. -/
theorem extent_scaled (factor : Rat) (s : Sound) :
    (s.scaled factor).extent = s.extent * factor := by
  cases s with
  | note | pause | container => rfl
  | bare => exact (zero_mul factor).symm

mutual
/-- In a sound with every duration multiplied, the same notes are heard in stretched time. -/
theorem heard_scaled (start factor x : Rat) (s : Sound) :
    (s.scaled factor).heard (start + x * factor) =
      (s.heard x).map (Beat.stretched start factor) := by
  cases s with
  | note | pause | bare => rfl
  | container arrangement objects duration =>
    obtain ⟨hinTurn, htogether⟩ := heardEach_scaled start factor x objects
    cases arrangement with
    | inTurn => exact hinTurn
    | together => exact htogether
    | unspecified => rfl

/-- `heard_scaled` for sounds in turn and for sounds together. -/
theorem heardEach_scaled (start factor x : Rat) (ss : List Sound) :
    heardInTurn (start + x * factor) (scaledEach factor ss) =
        (heardInTurn x ss).map (Beat.stretched start factor) ∧
      heardTogether (start + x * factor) (scaledEach factor ss) =
        (heardTogether x ss).map (Beat.stretched start factor) := by
  cases ss with
  | nil => exact ⟨rfl, rfl⟩
  | cons s ss =>
    have hfirst := heard_scaled start factor x s
    have hnext : start + x * factor + (s.scaled factor).extent =
        start + (x + s.extent) * factor := by rw [extent_scaled, add_mul, add_assoc]
    refine ⟨?_, ?_⟩
    · rw [scaledEach, heardInTurn, heardInTurn, List.map_append, hfirst, hnext,
        (heardEach_scaled start factor (x + s.extent) ss).1]
    · rw [scaledEach, heardTogether, heardTogether, List.map_append, hfirst,
        (heardEach_scaled start factor x ss).2]
end

/-- Writing durations as ratios does not change what is heard. -/
theorem heard_scaled_one (x : Rat) (s : Sound) : (s.scaled 1).heard x = s.heard x := by
  have h := heard_scaled 0 1 x s
  rwa [zero_add, mul_one, funext Beat.stretched_zero_one, List.map_id'] at h

/-- If the durations of an exact sound are multiples of those of another, so are the times and the
durations of its events. -/
theorem events_of_scaled (hs : s.IsExact) (ht : t.IsExact)
    (hscaled : t.scaled 1 = s.scaled factor) (hstart : start.rational? = some b) :
    ∃ events events', s.events (.whole 0) = .ok events ∧ t.events start = .ok events' ∧
      List.Forall₂ (Event.StretchedFrom b factor) events events' := by
  have hzero : (Quantity.whole 0).rational? = some 0 := rfl
  obtain ⟨events, hevents, hplays⟩ := hs.events hzero
  obtain ⟨events', hevents', hplays'⟩ := ht.events hstart
  have hheard : t.heard b = (s.heard 0).map (Beat.stretched b factor) := by
    calc t.heard b = (t.scaled 1).heard b := (heard_scaled_one b t).symm
      _ = (s.scaled factor).heard (b + 0 * factor) := by rw [hscaled, zero_mul, add_zero]
      _ = (s.heard 0).map (Beat.stretched b factor) := heard_scaled b factor 0 s
  rw [hheard] at hplays'
  exact ⟨events, events', hevents, hevents', Event.forall₂_stretchedFrom hplays hplays'⟩

mutual
/-- The start of a sound decides on the times of its events and on nothing else. -/
theorem forall₂_events {start start' : Quantity} {s : Sound} {events events' : List Event}
    (h : s.events start = .ok events) (h' : s.events start' = .ok events') :
    List.Forall₂ (fun e e' => e' = { e with time := e'.time }) events events' := by
  cases s with
  | note =>
    cases h
    cases h'
    exact .cons rfl .nil
  | pause =>
    cases h
    cases h'
    exact .nil
  | container arrangement objects duration =>
    cases arrangement with
    | inTurn => exact forall₂_eventsInTurn h h'
    | together => exact forall₂_eventsTogether h h'
    | unspecified => cases h
  | bare => cases h

theorem forall₂_eventsInTurn {start start' : Quantity} {ss : List Sound}
    {events events' : List Event} (h : eventsInTurn start ss = .ok events)
    (h' : eventsInTurn start' ss = .ok events') :
    List.Forall₂ (fun e e' => e' = { e with time := e'.time }) events events' := by
  cases ss with
  | nil =>
    cases h
    cases h'
    exact .nil
  | cons s ss =>
    obtain ⟨first, hfirst, h⟩ := bind_eq_ok.1 h
    obtain ⟨next, -, h⟩ := bind_eq_ok.1 h
    obtain ⟨later, hlater, h⟩ := bind_eq_ok.1 h
    obtain ⟨first', hfirst', h'⟩ := bind_eq_ok.1 h'
    obtain ⟨next', -, h'⟩ := bind_eq_ok.1 h'
    obtain ⟨later', hlater', h'⟩ := bind_eq_ok.1 h'
    cases h
    cases h'
    exact List.rel_append (forall₂_events hfirst hfirst') (forall₂_eventsInTurn hlater hlater')

theorem forall₂_eventsTogether {start start' : Quantity} {ss : List Sound}
    {events events' : List Event} (h : eventsTogether start ss = .ok events)
    (h' : eventsTogether start' ss = .ok events') :
    List.Forall₂ (fun e e' => e' = { e with time := e'.time }) events events' := by
  cases ss with
  | nil =>
    cases h
    cases h'
    exact .nil
  | cons s ss =>
    obtain ⟨first, hfirst, h⟩ := bind_eq_ok.1 h
    obtain ⟨others, hothers, h⟩ := bind_eq_ok.1 h
    obtain ⟨first', hfirst', h'⟩ := bind_eq_ok.1 h'
    obtain ⟨others', hothers', h'⟩ := bind_eq_ok.1 h'
    cases h
    cases h'
    exact List.rel_append (forall₂_events hfirst hfirst')
      (forall₂_eventsTogether hothers hothers')
end

/-- All numbers in a sound are exact, every container in it says how its content is played, and
none lasts no time. -/
inductive Solid : Sound → Prop
  | note {d : Quantity} {x : Rat} {pitch : Option Quantity} (name : String) (isContinuous : Bool) :
    d.rational? = some x → (∀ p, pitch = some p → ∃ y, p.rational? = some y) →
      Solid (note name d pitch isContinuous)
  | pause {d : Quantity} {x : Rat} : d.rational? = some x → Solid (pause d)
  | container {arrangement : Arrangement} {objects : List Sound} {d : Quantity} {x : Rat} :
    arrangement ≠ .unspecified → (∀ s ∈ objects, Solid s) → d.rational? = some x → x ≠ 0 →
      Solid (container arrangement objects d)

theorem Solid.isExact (h : s.Solid) : s.IsExact := by
  induction h with
  | note name isContinuous hd => exact .note name _ isContinuous hd
  | pause hd => exact .pause hd
  | container harrangement _ hd _ ih => exact .container harrangement ih hd

theorem Solid.proportioned (h : s.Solid) : s.Proportioned := by
  induction h with
  | note name isContinuous hd hpitch =>
    refine .note name isContinuous hd fun p hp => ?_
    obtain ⟨y, hy⟩ := hpitch p hp
    rw [Quantity.isComparable, Quantity.place_exact hy]
    rfl
  | pause hd => exact .pause hd
  | container _ _ hd hzero ih => exact .container _ ih hd fun h => absurd h hzero

end Sound

end Polyrhythm
