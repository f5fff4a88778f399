import Polyrhythm.Proofs.Midi.Closing
import Polyrhythm.Proofs.Midi.Recording

/-!
# Notes before the first tick

A track is written unless a distance in it is negative (`Track.write_of_nonneg`,
`Track.write_of_neg`). Only the distance of the first message can be, because the ticks do not
decrease, so that a track is written exactly if no event with a note starts before tick 0
(`Track.write_of_ofEvents`). Otherwise there is a header and nothing after it.
-/

namespace Polyrhythm

open Traversal

/-- An event has a note, and is struck before tick 0. -/
def Event.StartsEarly (notes : NoteMap) (ticks : Quantity) (e : Event) : Prop :=
  ∃ note start stop, e.note? notes = .ok (some note) ∧
    Track.span ticks e = .ok (start, stop) ∧ start < 0

namespace Track

variable {recorder : Recorder} {playing : Playing} {events : List Event} {notes : NoteMap}
  {ticks : Quantity} {marks : List Mark} {track : Track}

/-! ## Writing -/

/-- A track without a negative distance is written as a whole. -/
theorem write_of_nonneg (hrecorder : recorder.Lawful) (h : ¬∃ m ∈ track.messages, m.1 < 0)
    (resolution : Nat) : ∃ content,
      track.write recorder resolution = (recorder.header resolution ++ content, .ok ()) := by
  have hnonneg : ∀ m ∈ track.messages, 0 ≤ m.1 := fun m hm => not_lt.1 fun hneg => h ⟨m, hm, hneg⟩
  obtain ⟨content, hcontent⟩ := hrecorder.encode_of_nonneg track hnonneg
  exact ⟨content, by rw [write, hcontent]⟩

/-- Of a track with a negative distance only the header is written. -/
theorem write_of_neg (hrecorder : recorder.Lawful) (h : ∃ m ∈ track.messages, m.1 < 0)
    (resolution : Nat) :
    track.write recorder resolution = (recorder.header resolution, .error .negativeDelta) := by
  rw [write, hrecorder.encode_of_neg track h]

/-- Writing stops for no other reason than a negative distance. -/
theorem eq_negativeDelta_of_write (hrecorder : recorder.Lawful) {resolution : Nat} {fault : Fault}
    (h : (track.write recorder resolution).2 = .error fault) : fault = .negativeDelta := by
  by_cases hneg : ∃ m ∈ track.messages, m.1 < 0
  · rw [write_of_neg hrecorder hneg] at h
    cases h
    rfl
  · obtain ⟨content, hcontent⟩ := write_of_nonneg hrecorder hneg resolution
    rw [hcontent] at h
    cases h

/-! ## Messages before tick 0 -/

/-- A message of events is before tick 0 exactly if one of the events is struck there. -/
theorem exists_tick_neg_iff (h : Track.marks recorder playing ticks notes events = .ok marks) :
    (∃ m ∈ marks, m.tick < 0) ↔ ∃ e ∈ events, e.StartsEarly notes ticks := by
  induction events generalizing marks with
  | nil =>
    cases h
    exact iff_of_false (fun ⟨_, hm, _⟩ => by cases hm) (fun ⟨_, he, _⟩ => by cases he)
  | cons e es ih =>
    obtain ⟨played, hplayed, h⟩ := bind_eq_ok.1 h
    rw [List.exists_mem_cons_iff]
    cases played with
    | none =>
      rw [ih h, or_iff_right]
      rintro ⟨note, start, stop, hnote, -⟩
      cases hplayed.symm.trans hnote
    | some q =>
      obtain ⟨first, hfirst, h⟩ := bind_eq_ok.1 h
      obtain ⟨rest, hrest, h⟩ := bind_eq_ok.1 h
      cases h
      obtain ⟨start, stop, channel, number, velocity, hspan, rfl⟩ := exists_of_strike hfirst
      have hlater := start_lt_stop hspan
      have hearly : e.StartsEarly notes ticks ↔ start < 0 := by
        constructor
        · rintro ⟨note, start', stop', -, hspan', hneg⟩
          cases hspan.symm.trans hspan'
          exact hneg
        · exact fun hneg => ⟨q, start, stop, hplayed, hspan, hneg⟩
      rw [hearly, ← ih hrest]
      rw [List.cons_append, List.cons_append, List.exists_mem_cons_iff, List.exists_mem_cons_iff,
        List.nil_append, ← or_assoc]
      refine or_congr_left ⟨?_, .inl⟩
      rintro (hneg | hneg)
      · exact hneg
      · exact hlater.trans hneg

/-- A track has a negative distance exactly if one of its messages is before tick 0: the ticks do
not decrease, so that it can only be the first distance. -/
theorem exists_delta_neg_iff (marks : List Mark) :
    (∃ m ∈ deltas 0 (timeline marks), m.1 < 0) ↔ ∃ m ∈ marks, m.tick < 0 := by
  have hperm : (∀ m ∈ timeline marks, 0 ≤ m.tick) ↔ ∀ m ∈ marks, 0 ≤ m.tick :=
    forall_congr' fun m => by rw [(timeline_perm marks).mem_iff]
  have hnonneg := (deltas_nonneg_iff (tick_le_of_timeline marks)).trans hperm
  simpa only [not_forall, not_le, exists_prop] using not_congr hnonneg

/-- A track has a negative distance exactly if an event with a note is struck before tick 0. -/
theorem exists_neg_iff (h : Track.ofEvents recorder playing notes events = .ok track)
    (hticks : playing.ticks = some ticks) :
    (∃ m ∈ track.messages, m.1 < 0) ↔ ∃ e ∈ events, e.StartsEarly notes ticks := by
  obtain ⟨ticks', marks, tempo, hticks', hmarks, hmessages⟩ := exists_marks_of_ofEvents h
  cases hticks.symm.trans hticks'
  rw [← exists_tick_neg_iff hmarks, ← exists_delta_neg_iff, hmessages, List.cons_append,
    List.exists_mem_cons_iff, or_iff_right (lt_irrefl _)]
  constructor
  · rintro ⟨m, hm, hneg⟩
    rcases List.mem_append.1 hm with hm | hm
    · exact ⟨m, hm, hneg⟩
    · rw [List.mem_singleton.1 hm] at hneg
      exact absurd hneg (lt_irrefl _)
  · rintro ⟨m, hm, hneg⟩
    exact ⟨m, List.mem_append_left _ hm, hneg⟩

/-- A track is written as a whole if no event with a note starts before tick 0, and otherwise only
its header is. -/
theorem write_of_ofEvents (hrecorder : recorder.Lawful)
    (h : Track.ofEvents recorder playing notes events = .ok track)
    (hticks : playing.ticks = some ticks) (resolution : Nat) :
    ((∃ e ∈ events, e.StartsEarly notes ticks) →
        track.write recorder resolution = (recorder.header resolution, .error .negativeDelta)) ∧
      ((¬∃ e ∈ events, e.StartsEarly notes ticks) → ∃ content,
        track.write recorder resolution = (recorder.header resolution ++ content, .ok ())) := by
  rw [← exists_neg_iff h hticks]
  exact ⟨fun hneg => write_of_neg hrecorder hneg resolution,
    fun hnone => write_of_nonneg hrecorder hnone resolution⟩

end Track

end Polyrhythm
