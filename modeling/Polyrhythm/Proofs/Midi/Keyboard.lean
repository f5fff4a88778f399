import Polyrhythm.Proofs.Midi.Schedule
import Polyrhythm.Proofs.Sound.Lookup

/-!
# Notes that are off the keyboard

An event whose name has a number is refused if its pitch takes it off the keyboard, or cannot be
rounded (`Event.refusal?`). A track of exact events is made unless an event is refused, and then the
first one decides (`Track.stopsAt_ofEvents`). Every refusal is one that is reported to the user but
for that of an infinite pitch, which overflows (`Event.refusal?_of_lookup`).
-/

namespace Polyrhythm

open Traversal

/-! ## Infinite pitches -/

/-- A quantity lies at an end of the line of numbers. -/
def Quantity.IsInfinite (a : Quantity) : Prop := a.place = .bottom ∨ a.place = .top

instance (a : Quantity) : Decidable a.IsInfinite :=
  inferInstanceAs (Decidable (_ ∨ _))

/-- Rounding fails for what is infinite, and for what is no number. -/
theorem Quantity.round_eq_error {a : Quantity} {fault : Fault} (h : a.round = .error fault) :
    fault = .undefinedRounding ∨ fault = .overflow ∧ a.IsInfinite := by
  cases a with
  | whole | ratio => cases h
  | real x =>
    rw [round] at h
    rw [IsInfinite, place]
    cases hvalue : Number.Binary64.rational? x with
    | some q =>
      rw [hvalue] at h
      cases h
    | none =>
      cases hparts : Number.Binary64.parts x with
      | infinite negative =>
        rw [hvalue, hparts] at h
        cases h
        cases negative with
        | true => exact .inr ⟨rfl, .inl rfl⟩
        | false => exact .inr ⟨rfl, .inr rfl⟩
      | finite | undefined =>
        rw [hvalue, hparts] at h
        cases h
        exact .inl rfl

/-- Rounding what is infinite overflows. -/
theorem Quantity.IsInfinite.round {a : Quantity} (h : a.IsInfinite) :
    a.round = .error .overflow := by
  cases a with
  | whole | ratio => rcases h with h | h <;> cases h
  | real x =>
    rw [IsInfinite, place] at h
    rw [Quantity.round]
    cases hvalue : Number.Binary64.rational? x with
    | some q =>
      rw [hvalue] at h
      rcases h with h | h <;> cases h
    | none =>
      cases hparts : Number.Binary64.parts x with
      | infinite => rfl
      | finite | undefined =>
        rw [hvalue, hparts] at h
        rcases h with h | h <;> cases h

/-- A note beyond the keyboard is reported, whether it can be written or not. -/
theorem Fault.isReported_ofNote (note : Quantity) (name : String) :
    (Fault.ofNote note name).isReported = true := by
  rw [ofNote]
  split <;> rfl

namespace Event

/-- The pitch of an event is infinite. -/
def IsUnbounded (e : Event) : Prop := ∃ pitch, e.pitch = some pitch ∧ pitch.IsInfinite

/-- The fault for which an event is refused a note, if it is. -/
def refusal? (notes : NoteMap) (e : Event) : Option Fault :=
  match e.note? notes with
  | .ok _ => none
  | .error fault => some fault

variable {e : Event} {numbers : List (String × Int)} {base : Int} {fault : Fault}

/-- An event has no note if its pitch cannot be rounded. -/
theorem note?_of_semitones_eq_error (h : numbers.lookup e.name = some base)
    (hshift : e.semitones = .error fault) : e.note? (.ofNumbers numbers) = .error fault := by
  have hbase : NoteMap.ofNumbers numbers e.name = .ok (some (.number (.whole base))) := by
    rw [NoteMap.ofNumbers, h]
    rfl
  rw [note?, hbase, hshift]
  rfl

/-- The note that an event plays is on the keyboard. -/
theorem exists_of_note? {q : Quantity} (h : e.note? (.ofNumbers numbers) = .ok (some q)) :
    ∃ note : Int, q = .whole note ∧ 0 ≤ note ∧ note ≤ 127 := by
  cases hlookup : numbers.lookup e.name with
  | none => cases (note?_of_lookup_eq_none hlookup).symm.trans h
  | some base =>
    cases hshift : e.semitones with
    | error fault => cases (note?_of_semitones_eq_error hlookup hshift).symm.trans h
    | ok shift =>
      rw [note?_of_lookup hlookup hshift] at h
      split at h
      · next hkeyboard =>
        cases h
        exact ⟨base + shift, rfl, hkeyboard⟩
      · cases h

/-- An event is refused for a fault that is reported, unless its pitch is infinite. -/
theorem refusal?_of_lookup (h : numbers.lookup e.name = some base) :
    (e.IsUnbounded → e.refusal? (.ofNumbers numbers) = some .overflow) ∧
      (¬e.IsUnbounded → ∀ fault, e.refusal? (.ofNumbers numbers) = some fault →
        fault.isReported = true) := by
  constructor
  · rintro ⟨pitch, hpitch, hinfinite⟩
    have hshift : e.semitones = .error .overflow := by
      rw [semitones, hpitch]
      exact hinfinite.round
    rw [refusal?, note?_of_semitones_eq_error h hshift]
  · intro hbounded fault hrefusal
    cases hshift : e.semitones with
    | ok shift =>
      rw [refusal?, note?_of_lookup h hshift] at hrefusal
      by_cases hkeyboard : 0 ≤ base + shift ∧ base + shift ≤ 127
      · rw [if_pos hkeyboard] at hrefusal
        cases hrefusal
      · rw [if_neg hkeyboard] at hrefusal
        cases hrefusal
        exact Fault.isReported_ofNote _ _
    | error other =>
      rw [refusal?, note?_of_semitones_eq_error h hshift] at hrefusal
      cases hrefusal
      rw [semitones] at hshift
      cases hpitch : e.pitch with
      | none =>
        rw [hpitch] at hshift
        cases hshift
      | some pitch =>
        rw [hpitch] at hshift
        rcases Quantity.round_eq_error hshift with rfl | ⟨-, hinfinite⟩
        · rfl
        · exact absurd ⟨pitch, hpitch, hinfinite⟩ hbounded

end Event

/-! ## Tracks -/

namespace Track

variable {recorder : Recorder} {playing : Playing} {events : List Event}
  {numbers : List (String × Int)} {ticks : Quantity} {t : Rat} {channel velocity : Nat}

section
variable (hrecorder : recorder.Lawful) (hchannel : recorder.channel playing.channel = .ok channel)
  (hvelocity : recorder.data playing.velocity = .ok velocity) (hticks : ticks.rational? = some t)

include hrecorder hchannel hvelocity hticks

/-- The messages of exact events are made unless an event is refused. -/
theorem stopsAt_marks (hexact : ∀ e ∈ events, e.IsExact) :
    StopsAt (events.filterMap (Event.refusal? (.ofNumbers numbers))) (fun _ => True)
      (marks recorder playing ticks (.ofNumbers numbers) events) := by
  induction events with
  | nil => exact ⟨[], rfl, trivial⟩
  | cons e es ih =>
    obtain ⟨he, hes⟩ := List.forall_mem_cons.1 hexact
    have ih := ih hes
    rw [List.filterMap_cons, Event.refusal?, marks]
    cases hnote : e.note? (.ofNumbers numbers) with
    | error fault => rfl
    | ok played =>
      cases played with
      | none => exact ih
      | some q =>
        obtain ⟨note, rfl, hlow, hhigh⟩ := Event.exists_of_note? hnote
        have hstrike := strike_exact hrecorder hchannel hvelocity hticks he hlow hhigh
        change StopsAt _ _ (strike recorder playing ticks e (.whole note) >>= _)
        rw [hstrike]
        exact ih.bind_ok fun later _ => ⟨_, rfl, trivial⟩

end

/-- The track of exact events that are played in the standard way is made unless an event is
refused. -/
theorem stopsAt_ofEvents (hrecorder : recorder.Lawful) (hexact : ∀ e ∈ events, e.IsExact) :
    StopsAt (events.filterMap (Event.refusal? (.ofNumbers numbers))) (fun _ => True)
      (Track.ofEvents recorder .standard (.ofNumbers numbers) events) := by
  have hbeats : positive .beatsNotPositive Playing.standard.beats = .ok (.whole 120) := by
    decide +kernel
  have hticks : positive .ticksNotPositive Playing.standard.ticks =
      .ok (.whole Playing.standardTicks) := by decide +kernel
  have hchannel : recorder.channel Playing.standard.channel = .ok 0 :=
    (hrecorder.channel _ _).2 ⟨rfl, by decide⟩
  have hvelocity : recorder.data Playing.standard.velocity = .ok 100 :=
    (hrecorder.data _ _).2 ⟨rfl, by decide⟩
  obtain ⟨tempo, htempo⟩ := hrecorder.tempo
  rw [Track.ofEvents, hbeats, hticks]
  have hmarks : StopsAt _ (fun _ => True) (marks recorder .standard (.whole Playing.standardTicks)
      (.ofNumbers numbers) events) :=
    stopsAt_marks hrecorder hchannel hvelocity rfl hexact
  exact hmarks.bind_ok fun marks _ => ⟨_, bind_eq_ok.2 ⟨_, htempo, rfl⟩, trivial⟩

end Track

end Polyrhythm
