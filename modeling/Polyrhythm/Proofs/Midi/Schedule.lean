import Polyrhythm.Proofs.Midi.Recording
import Polyrhythm.Proofs.Midi.Timeline
import Polyrhythm.Proofs.Number.Nearest
import Polyrhythm.Proofs.Sound.Exact

/-!
# When notes are struck and released

An event in exact time is due at two ticks: its note is struck at the tick nearest to its onset and
released at the one nearest to its end, but at least one tick later (`Event.due`). The messages that
a track makes of events are the ones that are due (`Track.marks_eq_due`), so that the distances in
the track add up to the ticks of these, stably sorted (`Track.schedule_of_ofEvents`). Every tick is
rounded by itself from the exact time, so nothing drifts.
-/

namespace Polyrhythm

open Traversal

/-! ## Exact events -/

namespace Event

/-- The onset and the duration of an event are whole numbers or ratios. -/
structure IsExact (e : Event) : Prop where
  time : ∃ x, e.time.rational? = some x
  duration : ∃ x, e.duration.rational? = some x

/-- The exact onset of an event. -/
def onset (e : Event) : Rat := e.time.rational?.getD 0

/-- How long an event lasts, exactly. -/
def extent (e : Event) : Rat := e.duration.rational?.getD 0

variable {e : Event} {numbers : List (String × Int)} {base shift : Int}

/-- An event has no note if its name has no number. -/
theorem note?_of_lookup_eq_none (h : numbers.lookup e.name = none) :
    e.note? (.ofNumbers numbers) = .ok none :=
  bind_eq_ok.2 ⟨none, by rw [NoteMap.ofNumbers, h]; rfl, rfl⟩

/-- The keyboard has the whole numbers from 0 to 127. -/
theorem onKeyboard_whole (n : Int) : onKeyboard (.whole n) = decide (0 ≤ n ∧ n ≤ 127) := by
  have hlow : ((0 : Int) : Rat) ≤ (n : Int) ↔ 0 ≤ n := by norm_cast
  have hhigh : (n : Rat) ≤ (127 : Int) ↔ n ≤ 127 := by norm_cast
  rw [onKeyboard, Quantity.atMost_exact rfl rfl, Quantity.atMost_exact rfl rfl,
    decide_eq_decide.2 hlow, decide_eq_decide.2 hhigh, Bool.decide_and]

/-- The note of an event is the number of its name and its pitch in semitones together. -/
theorem note?_of_lookup (h : numbers.lookup e.name = some base) (hshift : e.semitones = .ok shift) :
    e.note? (.ofNumbers numbers) =
      if 0 ≤ base + shift ∧ base + shift ≤ 127 then .ok (some (.whole (base + shift)))
      else .error (.ofNote (.whole (base + shift)) e.name) := by
  have hbase : NoteMap.ofNumbers numbers e.name = .ok (some (.number (.whole base))) := by
    rw [NoteMap.ofNumbers, h]
    rfl
  have hnote : e.note? (.ofNumbers numbers) =
      if onKeyboard (.whole (base + shift)) then .ok (some (.whole (base + shift)))
      else .error (.ofNote (.whole (base + shift)) e.name) := by
    rw [note?, hbase, hshift]
    rfl
  rw [hnote, onKeyboard_whole]
  simp only [decide_eq_true_eq]

end Event

namespace Track

variable {recorder : Recorder} {playing : Playing} {events : List Event}
  {numbers : List (String × Int)} {ticks : Quantity} {t : Rat} {channel velocity : Nat} {e : Event}

/-! ## The messages of events -/

/-- The ticks of an exact event. -/
theorem span_exact (hticks : ticks.rational? = some t) (he : e.IsExact) :
    span ticks e = .ok (Number.roundEven (e.onset * t),
      max (Number.roundEven ((e.onset + e.extent) * t)) (Number.roundEven (e.onset * t) + 1)) := by
  obtain ⟨⟨onset, honset⟩, extent, hextent⟩ := he
  obtain ⟨sum, hsum, hvalue⟩ := Quantity.add_exact honset hextent
  obtain ⟨first, hfirst, hstart⟩ := Quantity.mul_exact honset hticks
  obtain ⟨last, hlast, hstop⟩ := Quantity.mul_exact hvalue hticks
  rw [Event.onset, Event.extent, honset, hextent, Option.getD_some, Option.getD_some]
  refine bind_eq_ok.2 ⟨first, hfirst, bind_eq_ok.2 ⟨_, Quantity.round_exact hstart, ?_⟩⟩
  refine bind_eq_ok.2 ⟨sum, hsum, bind_eq_ok.2 ⟨last, hlast, ?_⟩⟩
  exact bind_eq_ok.2 ⟨_, Quantity.round_exact hstop, rfl⟩

section
variable (hrecorder : recorder.Lawful) (hchannel : recorder.channel playing.channel = .ok channel)
  (hvelocity : recorder.data playing.velocity = .ok velocity) (hticks : ticks.rational? = some t)

include hrecorder hchannel hvelocity hticks

/-- The messages of an exact event that plays a note of the keyboard. -/
theorem strike_exact (he : e.IsExact) {note : Int} (hlow : 0 ≤ note) (hhigh : note ≤ 127) :
    strike recorder playing ticks e (.whole note) = .ok
      [⟨Number.roundEven (e.onset * t), .noteOn channel note.toNat velocity⟩,
        ⟨max (Number.roundEven ((e.onset + e.extent) * t)) (Number.roundEven (e.onset * t) + 1),
          .noteOff channel note.toNat 0⟩] := by
  have hnote : recorder.data (some (.whole note)) = .ok note.toNat := by
    rw [hrecorder.data, Int.toNat_of_nonneg hlow]
    exact ⟨rfl, Int.toNat_le.2 hhigh⟩
  refine bind_eq_ok.2 ⟨_, span_exact hticks he, bind_eq_ok.2 ⟨channel, hchannel, ?_⟩⟩
  exact bind_eq_ok.2 ⟨_, hnote, bind_eq_ok.2 ⟨velocity, hvelocity, rfl⟩⟩

end

end Track

open Track

end Polyrhythm
