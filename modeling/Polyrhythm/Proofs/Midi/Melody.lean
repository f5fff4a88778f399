import Mathlib.Data.List.Chain
import Mathlib.Data.List.Forall2
import Polyrhythm.Proofs.Midi.Closing
import Polyrhythm.Proofs.Midi.Schedule

/-!
# Melodies

In a melody one note is played at a time: no event starts before the one in front of it has ended.
If each lasts more than a tick, its end is rounded to a later tick than its onset, so that nothing
has to be put off, and no onset is rounded to an earlier tick than the end in front of it. The
messages are then in order as the events are (`Track.isChain_unpaired`), and the track strikes and
releases the notes in turn, even if all of them are the same note. Where an event starts just when
the one in front of it ends, nothing lies between the release and the strike
(`Track.turns_of_ofEvents`). An event of one tick may be rounded to no time at all, and its release
is then put off beyond the next strike.
-/

namespace Polyrhythm

open Traversal

namespace Event

/-- An event has ended when another one starts. -/
def EndsBefore (a b : Event) : Prop := a.onset + a.extent ≤ b.onset

/-- An event is passed over only if the map does not have its name. -/
theorem eq_none_of_note? {e : Event} {notes : NoteMap} (h : e.note? notes = .ok none) :
    notes e.name = .ok none := by
  obtain ⟨entry, hentry, h⟩ := bind_eq_ok.1 h
  cases entry with
  | none => exact hentry
  | some base =>
    obtain ⟨shift, -, h⟩ := bind_eq_ok.1 h
    cases hbase : base.quantity? with
    | none =>
      rw [hbase] at h
      cases h
    | some number =>
      rw [hbase] at h
      obtain ⟨note, -, h⟩ := bind_eq_ok.1 h
      split at h <;> cases h

end Event

namespace Track

/-- A strike and a release are the turn of an event: they are of the note that the event plays, at
the ticks nearest to its onset and to its end. -/
structure IsTurn (playing : Playing) (notes : NoteMap) (t : Rat) (e : Event)
    (turn : Mark × Mark) : Prop where
  message : ∃ channel note velocity : Nat, playing.channel = some (.whole channel) ∧
    playing.velocity = some (.whole velocity) ∧ e.note? notes = .ok (some (.whole note)) ∧
    turn.1.message = .noteOn channel note velocity ∧ turn.2.message = .noteOff channel note 0
  struck : turn.1.tick = Number.roundEven (e.onset * t)
  released : turn.2.tick = Number.roundEven ((e.onset + e.extent) * t)

variable {recorder : Recorder} {playing : Playing} {events before after : List Event}
  {notes : NoteMap} {ticks : Quantity} {t : Rat} {a b e : Event} {marks : List Mark}
  {turn : Mark × Mark} {turns : List (Mark × Mark)} {track : Track}

/-! ## One event -/

/-- An event that lasts more than a tick ends at a later tick than it starts. -/
theorem start_lt_stop_of_long (hlong : 1 < e.extent * t) :
    Number.roundEven (e.onset * t) < Number.roundEven ((e.onset + e.extent) * t) := by
  refine Number.roundEven_lt ?_
  rw [add_mul]
  exact add_lt_add_right hlong _

/-- The messages of an event that lasts more than a tick are its turn: the release is not put
off. -/
theorem exists_turn_of_strike (hrecorder : recorder.Lawful) {q : Quantity}
    (h : strike recorder playing ticks e q = .ok marks)
    (hnote : e.note? notes = .ok (some q)) (hticks : ticks.rational? = some t) (he : e.IsExact)
    (hlong : 1 < e.extent * t) :
    ∃ turn, marks = [turn.1, turn.2] ∧ IsTurn playing notes t e turn := by
  obtain ⟨⟨start, stop⟩, hspan, h⟩ := bind_eq_ok.1 h
  obtain ⟨channel, hchannel, h⟩ := bind_eq_ok.1 h
  obtain ⟨note, hchecked, h⟩ := bind_eq_ok.1 h
  obtain ⟨velocity, hvelocity, h⟩ := bind_eq_ok.1 h
  cases h
  cases hspan.symm.trans (span_exact hticks he)
  refine ⟨(⟨_, .noteOn channel note velocity⟩, ⟨_, .noteOff channel note 0⟩), rfl, ?_, rfl, ?_⟩
  · refine ⟨channel, note, velocity, ((hrecorder.channel _ _).1 hchannel).1,
      ((hrecorder.data _ _).1 hvelocity).1, ?_, rfl, rfl⟩
    rw [hnote, Option.some.inj ((hrecorder.data _ _).1 hchecked).1]
  · exact max_eq_left (start_lt_stop_of_long hlong)

/-! ## Events in turn -/

/-- The messages of events with notes that last more than a tick are their turns. -/
theorem exists_turns_of_marks (hrecorder : recorder.Lawful)
    (h : Track.marks recorder playing ticks notes events = .ok marks)
    (hticks : ticks.rational? = some t) (hexact : ∀ e ∈ events, e.IsExact)
    (hmapped : ∀ e ∈ events, notes e.name ≠ .ok none)
    (hlong : ∀ e ∈ events, 1 < e.extent * t) :
    ∃ turns, marks = unpaired turns ∧ List.Forall₂ (IsTurn playing notes t) events turns := by
  induction events generalizing marks with
  | nil =>
    cases h
    exact ⟨[], rfl, .nil⟩
  | cons e es ih =>
    obtain ⟨he, hexact⟩ := List.forall_mem_cons.1 hexact
    obtain ⟨hname, hmapped⟩ := List.forall_mem_cons.1 hmapped
    obtain ⟨hextent, hlong⟩ := List.forall_mem_cons.1 hlong
    obtain ⟨played, hplayed, h⟩ := bind_eq_ok.1 h
    cases played with
    | none => exact absurd (Event.eq_none_of_note? hplayed) hname
    | some q =>
      obtain ⟨first, hfirst, h⟩ := bind_eq_ok.1 h
      obtain ⟨rest, hrest, h⟩ := bind_eq_ok.1 h
      cases h
      obtain ⟨turn, rfl, hturn⟩ := exists_turn_of_strike hrecorder hfirst hplayed hticks he hextent
      obtain ⟨turns, rfl, hturns⟩ := ih hrest hexact hmapped hlong
      exact ⟨turn :: turns, rfl, .cons hturn hturns⟩

/-- The turns of a melody are in order: a strike comes before the release after it, and a release
not after the strike that follows, before which it may stand at the same tick. -/
theorem isChain_unpaired (h : List.Forall₂ (IsTurn playing notes t) events turns) (ht : 0 ≤ t)
    (hlong : ∀ e ∈ events, 1 < e.extent * t) (hchain : events.IsChain Event.EndsBefore) :
    (unpaired turns).IsChain fun a b => mayPrecede a b = true := by
  induction h with
  | nil => exact .nil
  | @cons e turn es turns hturn hturns ih =>
    obtain ⟨hextent, hlong⟩ := List.forall_mem_cons.1 hlong
    have hown : mayPrecede turn.1 turn.2 = true := by
      rw [mayPrecede_iff, hturn.struck, hturn.released]
      exact .inl (start_lt_stop_of_long hextent)
    have hlater := ih hlong hchain.of_cons
    cases hturns with
    | nil => exact List.isChain_pair.2 hown
    | @cons next following _ _ hfollowing _ =>
      have hends : e.EndsBefore next := (List.isChain_cons_cons.1 hchain).1
      -- a release and a strike at one tick are in order, since releases come first there
      have hacross : mayPrecede turn.2 following.1 = true := by
        obtain ⟨channel, note, velocity, -, -, -, -, hrelease⟩ := hturn.message
        have hticks : turn.2.tick ≤ following.1.tick := by
          rw [hturn.released, hfollowing.struck]
          exact Number.roundEven_mono (mul_le_mul_of_nonneg_right hends ht)
        rw [mayPrecede_iff, hrelease]
        exact hticks.lt_or_eq.imp_right fun heq => ⟨heq, .inl rfl⟩
      exact List.isChain_cons_cons.2 ⟨hown, List.isChain_cons_cons.2 ⟨hacross, hlater⟩⟩

/-- The turns of a melody need no sorting. -/
theorem timeline_unpaired (h : List.Forall₂ (IsTurn playing notes t) events turns) (ht : 0 ≤ t)
    (hlong : ∀ e ∈ events, 1 < e.extent * t) (hchain : events.IsChain Event.EndsBefore) :
    timeline (unpaired turns) = unpaired turns := by
  have : Trans (fun a b => mayPrecede a b = true) (fun a b => mayPrecede a b = true)
      fun a b => mayPrecede a b = true := ⟨fun hab hbc => mayPrecede_trans _ _ _ hab hbc⟩
  exact List.mergeSort_of_pairwise
    (List.isChain_iff_pairwise.1 (isChain_unpaired h ht hlong hchain))

/-! ## Distances between turns -/

/-- The distance of a message is counted from the one in front of it. -/
theorem deltas_append_cons_cons (last : Int) (front : List Mark) (m n : Mark) (rest : List Mark) :
    ∃ first d, deltas last (front ++ m :: n :: rest) =
        first ++ (d, m.message) :: (n.tick - m.tick, n.message) :: deltas n.tick rest ∧
      first.length = front.length := by
  induction front generalizing last with
  | nil => exact ⟨[], m.tick - last, rfl, rfl⟩
  | cons f front ih =>
    obtain ⟨first, d, hdeltas, hlength⟩ := ih f.tick
    refine ⟨(f.tick - last, f.message) :: first, d, ?_, ?_⟩
    · rw [List.cons_append, deltas, hdeltas, List.cons_append]
    · rw [List.length_cons, List.length_cons, hlength]

/-- Between the turns of two events in a row, the release of the first stands right before the
strike of the second. -/
theorem exists_of_unpaired
    (h : List.Forall₂ (IsTurn playing notes t) (before ++ a :: b :: after) turns) :
    ∃ front release strike rest, unpaired turns = front ++ release :: strike :: rest ∧
      front.length = 2 * before.length + 1 ∧
      release.tick = Number.roundEven ((a.onset + a.extent) * t) ∧
      strike.tick = Number.roundEven (b.onset * t) := by
  induction before generalizing turns with
  | nil =>
    cases h with
    | @cons _ turn _ _ hturn h =>
      cases h with
      | @cons _ following _ turns hfollowing _ =>
        exact ⟨[turn.1], turn.2, following.1, following.2 :: unpaired turns, rfl, rfl,
          hturn.released, hfollowing.struck⟩
  | cons e before ih =>
    cases h with
    | @cons _ turn _ _ _ h =>
      obtain ⟨front, release, strike, rest, hturns, hlength, hticks⟩ := ih h
      refine ⟨turn.1 :: turn.2 :: front, release, strike, rest, ?_, ?_, hticks⟩
      · rw [unpaired, List.flatMap_cons, ← unpaired, hturns]
        rfl
      · rw [List.length_cons, List.length_cons, List.length_cons, hlength]
        omega

/-! ## Tracks -/

/-- A track is made at a positive number of ticks a beat. -/
theorem ticks_pos_of_ofEvents (h : Track.ofEvents recorder playing notes events = .ok track)
    (hticks : playing.ticks = some ticks) (ht : ticks.rational? = some t) : 0 < t := by
  obtain ⟨beats, -, h⟩ := bind_eq_ok.1 h
  obtain ⟨rate, hrate, -⟩ := bind_eq_ok.1 h
  rw [hticks, positive, Quantity.atMost_exact ht rfl] at hrate
  split at hrate
  · cases hrate
  · next hpositive =>
    rw [decide_eq_true_eq, not_le] at hpositive
    exact_mod_cast hpositive

/-- In the track of a melody whose events have notes and last more than a tick each, the notes are
struck and released in turn, at the ticks nearest to the onset and the end of every event. Where an
event starts just when the one in front of it ends, its strike has no distance from the release. -/
theorem turns_of_ofEvents (hrecorder : recorder.Lawful)
    (h : Track.ofEvents recorder playing notes events = .ok track)
    (hticks : playing.ticks = some ticks) (ht : ticks.rational? = some t)
    (hexact : ∀ e ∈ events, e.IsExact) (hmapped : ∀ e ∈ events, notes e.name ≠ .ok none)
    (hlong : ∀ e ∈ events, 1 < e.extent * t) (hchain : events.IsChain Event.EndsBefore) :
    ∃ tempo turns messages, List.Forall₂ (IsTurn playing notes t) events turns ∧
      track.messages = (0, .tempo tempo) :: messages ++ [(0, .trackEnd)] ∧
      absolute 0 messages = unpaired turns ∧
      ∀ before a b after, events = before ++ a :: b :: after → a.onset + a.extent = b.onset →
        ∃ first release strike rest, messages = first ++ release :: strike :: rest ∧
          first.length = 2 * before.length + 1 ∧ strike.1 = 0 := by
  have hpositive := ticks_pos_of_ofEvents h hticks ht
  obtain ⟨ticks', marks, tempo, hticks', hmarks, hmessages⟩ := exists_marks_of_ofEvents h
  cases hticks.symm.trans hticks'
  obtain ⟨turns, rfl, hturns⟩ := exists_turns_of_marks hrecorder hmarks ht hexact hmapped hlong
  rw [timeline_unpaired hturns hpositive.le hlong hchain] at hmessages
  refine ⟨tempo, turns, deltas 0 (unpaired turns), hturns, hmessages, absolute_deltas 0 _, ?_⟩
  rintro before a b after rfl hmeet
  obtain ⟨front, release, strike, rest, hmarks, hlength, hrelease, hstrike⟩ :=
    exists_of_unpaired hturns
  obtain ⟨first, d, hdeltas, hfirst⟩ := deltas_append_cons_cons 0 front release strike rest
  refine ⟨first, _, _, _, hmarks ▸ hdeltas, hfirst.trans hlength, ?_⟩
  rw [hrelease, hstrike, hmeet, sub_self]

/-- A note struck three times, the last time for little more than a tick; its first release and its
second strike are at one tick. -/
theorem turns_of_ofEvents_repeated :
    ∃ track tempo turns messages first release strike rest,
      Track.ofEvents .standard .standard (.ofNumbers [("a", 60)])
        [⟨.whole 0, .ratio (1 / 3), "a", none⟩, ⟨.ratio (1 / 3), .ratio (1 / 2), "a", none⟩,
          ⟨.whole 1, .ratio (1 / 400), "a", none⟩] = .ok track ∧
      track.messages = (0, .tempo tempo) :: messages ++ [(0, .trackEnd)] ∧
      List.Forall₂ (IsTurn .standard (.ofNumbers [("a", 60)]) 480)
        [⟨.whole 0, .ratio (1 / 3), "a", none⟩, ⟨.ratio (1 / 3), .ratio (1 / 2), "a", none⟩,
          ⟨.whole 1, .ratio (1 / 400), "a", none⟩] turns ∧
      absolute 0 messages = unpaired turns ∧
      messages = first ++ release :: strike :: rest ∧ first.length = 1 ∧ strike.1 = 0 := by
  have hmade : (Track.ofEvents .standard .standard (.ofNumbers [("a", 60)])
      [⟨.whole 0, .ratio (1 / 3), "a", none⟩, ⟨.ratio (1 / 3), .ratio (1 / 2), "a", none⟩,
        ⟨.whole 1, .ratio (1 / 400), "a", none⟩]).isOk = true := by decide +kernel
  obtain ⟨track, htrack⟩ := exists_of_isOk hmade
  have hticks : (Quantity.whole Playing.standardTicks).rational? = some 480 := rfl
  obtain ⟨tempo, turns, messages, hturns, hmessages, habsolute, hgap⟩ :=
    turns_of_ofEvents Recorder.lawful_standard htrack rfl hticks
      (by
        simp only [List.forall_mem_cons]
        exact ⟨⟨⟨_, rfl⟩, _, rfl⟩, ⟨⟨_, rfl⟩, _, rfl⟩, ⟨⟨_, rfl⟩, _, rfl⟩, nofun⟩)
      (by
        simp only [List.forall_mem_cons]
        exact ⟨nofun, nofun, nofun, nofun⟩)
      (by decide +kernel)
      (.cons_cons (by unfold Event.EndsBefore; decide +kernel)
        (.cons_cons (by unfold Event.EndsBefore; decide +kernel) (.singleton _)))
  obtain ⟨first, release, strike, rest, hsplit, hlength, hzero⟩ :=
    hgap [] _ _ _ rfl (by decide +kernel)
  exact ⟨track, tempo, turns, messages, first, release, strike, rest, htrack, hmessages, hturns,
    habsolute, hsplit, hlength, hzero⟩

/-- Of two events that last one tick, the second is due before the first is released. -/
example : (Track.marks .standard .standard (.whole 480) (.ofNumbers [("a", 60)])
    [⟨.ratio (3 / 960), .ratio (1 / 480), "a", none⟩,
      ⟨.ratio (5 / 960), .ratio (1 / 480), "a", none⟩]).toOption =
    some [⟨2, .noteOn 0 60 100⟩, ⟨3, .noteOff 0 60 0⟩, ⟨2, .noteOn 0 60 100⟩,
      ⟨4, .noteOff 0 60 0⟩] := by decide +kernel

end Track

end Polyrhythm
