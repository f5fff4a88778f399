import Mathlib.Algebra.Order.Group.Nat
import Mathlib.Data.List.Infix
import Polyrhythm.Midi.File
import Polyrhythm.Proofs.Midi.Timeline
import Polyrhythm.Traversal

/-!
# Notes that are closed

No note is left sounding, and none is released that does not sound. Every event that is played gives
a strike and a later release of one note (`Track.exists_pairs_of_marks`), and putting messages into
the order of their ticks leaves every strike before its release. So no beginning of a track has more
releases of a note than strikes (`Track.releases_le_strikes`), and the whole track has as many. None
of this depends on what the events are, how they overlap, or how ticks are rounded
(`Track.closes_of_ofEvents`).
-/

namespace Polyrhythm

open Traversal

namespace Message

/-- The note that a message strikes. -/
def struck? : Message → Option Nat
  | noteOn _ note _ => some note
  | _ => none

/-- The note that a message releases. -/
def released? : Message → Option Nat
  | noteOff _ note _ => some note
  | _ => none

/-- Whether a message is about a note. -/
def isNote (m : Message) : Bool := m.struck?.isSome || m.released?.isSome

/-- How often messages strike a note. -/
def strikes (note : Nat) (messages : List Message) : Nat :=
  messages.countP fun m => m.struck? = some note

/-- How often messages release a note. -/
def releases (note : Nat) (messages : List Message) : Nat :=
  messages.countP fun m => m.released? = some note

end Message

open Message

namespace Track

/-- A release closes a strike: it is about the same note on the same channel, and comes at a later
tick. -/
structure Closes (strike release : Mark) : Prop where
  note : ∃ channel note velocity, strike.message = .noteOn channel note velocity ∧
    release.message = .noteOff channel note 0
  later : strike.tick < release.tick

/-- Two messages after each other, for every pair of a list. -/
def unpaired (pairs : List (Mark × Mark)) : List Mark := pairs.flatMap fun pair => [pair.1, pair.2]

variable {recorder : Recorder} {playing : Playing} {events : List Event} {notes : NoteMap}
  {ticks : Quantity} {e : Event} {marks part : List Mark} {pairs : List (Mark × Mark)}
  {track : Track} {note : Nat}

/-! ## One event -/

/-- An event ends after the tick at which it starts. -/
theorem start_lt_stop {start stop : Int} (h : span ticks e = .ok (start, stop)) : start < stop := by
  obtain ⟨onset, -, h⟩ := bind_eq_ok.1 h
  obtain ⟨first, -, h⟩ := bind_eq_ok.1 h
  obtain ⟨sum, -, h⟩ := bind_eq_ok.1 h
  obtain ⟨ending, -, h⟩ := bind_eq_ok.1 h
  obtain ⟨last, -, h⟩ := bind_eq_ok.1 h
  cases h
  omega

/-- An event gives a strike at its first tick and a release of the same note at its last. -/
theorem exists_of_strike {q : Quantity} (h : strike recorder playing ticks e q = .ok marks) :
    ∃ start stop channel number velocity, span ticks e = .ok (start, stop) ∧
      marks = [⟨start, .noteOn channel number velocity⟩, ⟨stop, .noteOff channel number 0⟩] := by
  obtain ⟨⟨start, stop⟩, hspan, h⟩ := bind_eq_ok.1 h
  obtain ⟨channel, -, h⟩ := bind_eq_ok.1 h
  obtain ⟨number, -, h⟩ := bind_eq_ok.1 h
  obtain ⟨velocity, -, h⟩ := bind_eq_ok.1 h
  cases h
  exact ⟨start, stop, channel, number, velocity, hspan, rfl⟩

/-! ## All events -/

/-- The messages of events are pairs of a strike and the release that closes it. -/
theorem exists_pairs_of_marks (h : Track.marks recorder playing ticks notes events = .ok marks) :
    ∃ pairs, marks = unpaired pairs ∧ ∀ pair ∈ pairs, Closes pair.1 pair.2 := by
  induction events generalizing marks with
  | nil =>
    cases h
    exact ⟨[], rfl, nofun⟩
  | cons e es ih =>
    obtain ⟨played, -, h⟩ := bind_eq_ok.1 h
    cases played with
    | none => exact ih h
    | some q =>
      obtain ⟨first, hfirst, h⟩ := bind_eq_ok.1 h
      obtain ⟨rest, hrest, h⟩ := bind_eq_ok.1 h
      cases h
      obtain ⟨start, stop, channel, number, velocity, hspan, rfl⟩ := exists_of_strike hfirst
      obtain ⟨pairs, rfl, hpairs⟩ := ih hrest
      refine ⟨(_, _) :: pairs, rfl, List.forall_mem_cons.2 ⟨?_, hpairs⟩⟩
      exact ⟨⟨channel, number, velocity, rfl, rfl⟩, start_lt_stop hspan⟩

theorem isNote_of_mem_unpaired (hpairs : ∀ pair ∈ pairs, Closes pair.1 pair.2) :
    ∀ m ∈ unpaired pairs, m.message.isNote = true := by
  intro m hm
  obtain ⟨pair, hpair, hm⟩ := List.mem_flatMap.1 hm
  obtain ⟨channel, note, velocity, hstruck, hreleased⟩ := (hpairs pair hpair).note
  rcases List.mem_pair.1 hm with rfl | rfl
  · rw [hstruck]; rfl
  · rw [hreleased]; rfl

/-- Of paired messages at most as many release a note up to a tick as strike it before. -/
theorem countP_released_le (hpairs : ∀ pair ∈ pairs, Closes pair.1 pair.2) (tick : Int) :
    (unpaired pairs).countP (fun m => m.message.released? = some note && m.tick ≤ tick) ≤
      (unpaired pairs).countP fun m => m.message.struck? = some note && m.tick < tick := by
  induction pairs with
  | nil => exact le_rfl
  | cons pair pairs ih =>
    obtain ⟨hpair, hpairs⟩ := List.forall_mem_cons.1 hpairs
    obtain ⟨channel, number, velocity, hstruck, hreleased⟩ := hpair.note
    have hlater := hpair.later
    have hrest := ih hpairs
    simp only [unpaired, List.flatMap_cons, List.countP_append, List.countP_cons, List.countP_nil,
      hstruck, hreleased, struck?, released?] at hrest ⊢
    refine Nat.add_le_add ?_ hrest
    by_cases hnumber : number = note
    · simp only [hnumber]
      by_cases hticks : pair.2.tick ≤ tick
      · have hbefore : pair.1.tick < tick := lt_of_lt_of_le hlater hticks
        simp [hticks, hbefore]
      · simp [hticks]
    · simp [hnumber]

/-- As many of paired messages release a note as strike it. -/
theorem releases_eq_strikes (hpairs : ∀ pair ∈ pairs, Closes pair.1 pair.2) (note : Nat) :
    releases note ((unpaired pairs).map Mark.message) =
      strikes note ((unpaired pairs).map Mark.message) := by
  induction pairs with
  | nil => rfl
  | cons pair pairs ih =>
    obtain ⟨hpair, hpairs⟩ := List.forall_mem_cons.1 hpairs
    obtain ⟨channel, number, velocity, hstruck, hreleased⟩ := hpair.note
    have hrest := ih hpairs
    simp only [releases, strikes, unpaired, List.flatMap_cons, List.map_append, List.map_cons,
      List.map_nil, List.countP_append, List.countP_cons, List.countP_nil, hstruck, hreleased,
      struck?, released?] at hrest ⊢
    rw [hrest]
    simp

/-! ## Beginnings of a timeline -/

/-- In the beginning of messages in order, pairs of which close, a note is released at most as often
as it is struck. Up to the last tick of the beginning, all its releases have their strikes before
this tick, where all messages are in it. -/
theorem releases_le_strikes (hpairs : ∀ pair ∈ pairs, Closes pair.1 pair.2)
    (hperm : marks.Perm (unpaired pairs)) (horder : marks.Pairwise fun a b => a.tick ≤ b.tick)
    (hpart : part <+: marks) (note : Nat) :
    releases note (part.map Mark.message) ≤ strikes note (part.map Mark.message) := by
  obtain ⟨rest, rfl⟩ := hpart
  obtain ⟨hpartorder, -, hacross⟩ := List.pairwise_append.1 horder
  rw [releases, strikes, List.countP_map, List.countP_map]
  rcases List.eq_nil_or_concat' part with rfl | ⟨before, last, rfl⟩
  · exact le_rfl
  have hupto : ∀ m ∈ before ++ [last], m.tick ≤ last.tick := by
    intro m hm
    rcases List.mem_append.1 hm with hm | hm
    · exact (List.pairwise_append.1 hpartorder).2.2 m hm last (List.mem_singleton_self _)
    · rw [List.mem_singleton.1 hm]
  have hfrom : ∀ m ∈ rest, last.tick ≤ m.tick :=
    fun m hm => hacross last (List.mem_append_right _ (List.mem_singleton_self _)) m hm
  calc (before ++ [last]).countP (fun m => m.message.released? = some note)
      = (before ++ [last]).countP
          fun m => m.message.released? = some note && m.tick ≤ last.tick := by
        refine List.countP_congr fun m hm => ?_
        simp [hupto m hm]
    _ ≤ (before ++ [last] ++ rest).countP
          fun m => m.message.released? = some note && m.tick ≤ last.tick :=
        (List.sublist_append_left _ rest).countP_le
    _ ≤ (before ++ [last] ++ rest).countP
          fun m => m.message.struck? = some note && m.tick < last.tick := by
        rw [hperm.countP_eq, hperm.countP_eq]
        exact countP_released_le hpairs last.tick
    _ = (before ++ [last]).countP
          fun m => m.message.struck? = some note && m.tick < last.tick := by
        rw [List.countP_append, Nat.add_eq_left, List.countP_eq_zero]
        intro m hm
        simp [not_lt.2 (hfrom m hm)]
    _ ≤ (before ++ [last]).countP (fun m => m.message.struck? = some note) := by
        refine List.countP_mono_left fun m _ h => ?_
        exact (Bool.and_eq_true_iff.1 h).1

/-! ## Tracks -/

/-- Counting messages about notes passes over messages about the file. -/
theorem countP_filter_isNote {p : Message → Bool} (h : ∀ m, p m = true → m.isNote = true)
    (messages : List Message) : (messages.filter isNote).countP p = messages.countP p := by
  rw [List.countP_filter]
  refine List.countP_congr fun m _ => ?_
  rw [Bool.and_eq_true, and_iff_left_iff_imp]
  exact h m

theorem strikes_filter_isNote (note : Nat) (messages : List Message) :
    strikes note (messages.filter isNote) = strikes note messages :=
  countP_filter_isNote (fun m h => by simp [isNote, of_decide_eq_true h]) messages

theorem releases_filter_isNote (note : Nat) (messages : List Message) :
    releases note (messages.filter isNote) = releases note messages :=
  countP_filter_isNote (fun m h => by simp [isNote, of_decide_eq_true h]) messages

/-- A track that is made has the sorted messages of its events between its tempo and its end. -/
theorem exists_marks_of_ofEvents (h : Track.ofEvents recorder playing notes events = .ok track) :
    ∃ ticks marks tempo, playing.ticks = some ticks ∧
      Track.marks recorder playing ticks notes events = .ok marks ∧
      track.messages = (0, .tempo tempo) :: deltas 0 (timeline marks) ++ [(0, .trackEnd)] := by
  obtain ⟨beats, -, h⟩ := bind_eq_ok.1 h
  obtain ⟨ticks, hticks, h⟩ := bind_eq_ok.1 h
  obtain ⟨marks, hmarks, h⟩ := bind_eq_ok.1 h
  obtain ⟨tempo, -, h⟩ := bind_eq_ok.1 h
  cases h
  refine ⟨ticks, marks, tempo, ?_, hmarks, rfl⟩
  rw [positive.eq_def] at hticks
  split at hticks
  · next rate hrate =>
    split at hticks
    · cases hticks
    · cases hticks
      exact hrate
  · cases hticks

/-- In every beginning of a track a note is released at most as often as it is struck, in the whole
track as often, and the messages about notes are pairs of a strike and its release at a later
tick. -/
theorem closes_of_ofEvents (h : Track.ofEvents recorder playing notes events = .ok track) :
    (∀ part, part <+: track.messages → ∀ note,
      releases note (part.map Prod.snd) ≤ strikes note (part.map Prod.snd)) ∧
    (∀ note, releases note (track.messages.map Prod.snd) =
      strikes note (track.messages.map Prod.snd)) ∧
    ∃ pairs, ((absolute 0 track.messages).filter (·.message.isNote)).Perm (unpaired pairs) ∧
      ∀ pair ∈ pairs, Closes pair.1 pair.2 := by
  obtain ⟨ticks, marks, tempo, -, hmarks, hmessages⟩ := exists_marks_of_ofEvents h
  obtain ⟨pairs, rfl, hpairs⟩ := exists_pairs_of_marks hmarks
  have hperm := timeline_perm (unpaired pairs)
  have hnotes : ∀ m ∈ timeline (unpaired pairs), m.message.isNote = true :=
    fun m hm => isNote_of_mem_unpaired hpairs m (hperm.mem_iff.1 hm)
  have hsounding : (track.messages.map Prod.snd).filter isNote =
      (timeline (unpaired pairs)).map Mark.message := by
    have hall : ∀ m ∈ (timeline (unpaired pairs)).map Mark.message, m.isNote = true :=
      List.forall_mem_map.2 hnotes
    rw [hmessages, List.map_append, List.map_cons, map_snd_deltas, List.filter_append,
      List.filter_cons_of_neg Bool.false_ne_true, List.filter_eq_self.2 hall]
    exact List.append_nil _
  refine ⟨?_, ?_, pairs, ?_, hpairs⟩
  · intro part hpart note
    obtain ⟨part', hpart', heq⟩ := List.prefix_map_iff.1
      (hsounding ▸ (hpart.map Prod.snd).filter isNote)
    rw [← releases_filter_isNote, ← strikes_filter_isNote, heq]
    exact releases_le_strikes hpairs hperm (tick_le_of_timeline _) hpart' note
  · intro note
    rw [← releases_filter_isNote, ← strikes_filter_isNote, hsounding, releases, strikes,
      (hperm.map Mark.message).countP_eq, (hperm.map Mark.message).countP_eq]
    exact releases_eq_strikes hpairs note
  · rw [hmessages, absolute_append, List.filter_append, absolute, add_zero, absolute_deltas,
      List.filter_cons_of_neg Bool.false_ne_true, List.filter_eq_self.2 hnotes]
    exact (List.append_nil _).symm ▸ hperm

/-- Two notes of one name, one of no time inside the other, and a third one that goes backwards. -/
theorem closes_of_ofEvents_overlapping :
    ∃ track, Track.ofEvents .standard .standard (.ofNumbers [("a", 60)])
        [⟨.whole 0, .whole 2, "a", none⟩, ⟨.whole 1, .whole 0, "a", none⟩,
          ⟨.whole 2, .whole (-1), "a", none⟩] = .ok track ∧
      releases 60 (track.messages.map Prod.snd) = strikes 60 (track.messages.map Prod.snd) ∧
      ∀ part, part <+: track.messages →
        releases 60 (part.map Prod.snd) ≤ strikes 60 (part.map Prod.snd) := by
  have hmade : (Track.ofEvents .standard .standard (.ofNumbers [("a", 60)])
      [⟨.whole 0, .whole 2, "a", none⟩, ⟨.whole 1, .whole 0, "a", none⟩,
        ⟨.whole 2, .whole (-1), "a", none⟩]).isOk = true := by decide +kernel
  cases htrack : Track.ofEvents .standard .standard (.ofNumbers [("a", 60)])
      [⟨.whole 0, .whole 2, "a", none⟩, ⟨.whole 1, .whole 0, "a", none⟩,
        ⟨.whole 2, .whole (-1), "a", none⟩] with
  | error fault =>
    rw [htrack] at hmade
    cases hmade
  | ok track =>
    obtain ⟨hparts, hwhole, -⟩ := closes_of_ofEvents htrack
    exact ⟨track, rfl, hwhole 60, fun part hpart => hparts part hpart 60⟩

end Track

end Polyrhythm
