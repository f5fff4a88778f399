import Polyrhythm.Midi.Note

/-!
# Tracks

A track plays events on a keyboard. Every event becomes a message that strikes its note and one that
releases it, at the ticks nearest to its onset and its end, but at least one tick apart. The
messages are put into the order of their ticks, at one tick releases first, and each is written with
its distance from the one before. The tempo stands in front and the end of the track behind.

Messages are made and written by a `Recorder`, which may refuse their values. `Track.marks` are the
messages with their absolute ticks, in the order of the events; `Track.ofEvents` is the whole track.
-/

namespace Polyrhythm

/-- A message of a track. -/
inductive Message
  /-- The length of a beat in microseconds. -/
  | tempo (microseconds : Nat)
  /-- Strikes a note. -/
  | noteOn (channel note velocity : Nat)
  /-- Releases a note. -/
  | noteOff (channel note velocity : Nat)
  /-- The end of the track. -/
  | trackEnd
deriving DecidableEq, Repr

/-- A message at an absolute tick. -/
structure Mark where
  tick : Int
  message : Message
deriving DecidableEq, Repr

/-- How events are played: the beats a minute, the channel and the velocity of all messages, and
the ticks a beat. What is no number is missing, which is a fault once it is needed. -/
structure Playing where
  beats : Option Quantity
  channel : Option Quantity
  velocity : Option Quantity
  ticks : Option Quantity
deriving DecidableEq

namespace Playing

/-- The usual number of ticks a beat. -/
def standardTicks : Nat := 480

/-- 120 beats a minute on channel 0, at velocity 100 and with the usual number of ticks a beat. -/
def standard : Playing :=
  ⟨some (.whole 120), some (.whole 0), some (.whole 100), some (.whole standardTicks)⟩

end Playing

/-- Messages, each with its distance in ticks from the one before. -/
structure Track where
  messages : List (Int × Message)
deriving DecidableEq, Repr

/-- What makes messages and writes them to a file: the values it accepts in a message, what it
writes in front of a track, and what it writes of the track. -/
structure Recorder where
  /-- The channel of a message. -/
  channel : Option Quantity → Except Fault Nat
  /-- A note, or a velocity. -/
  data : Option Quantity → Except Fault Nat
  /-- The microseconds of a beat at a number of beats a minute. -/
  tempo : Quantity → Except Fault Nat
  /-- The bytes in front of a track, for a number of ticks a beat. -/
  header : Nat → List UInt8
  /-- The bytes of a track. -/
  encode : Track → Except Fault (List UInt8)

namespace Track

/-! ## Messages of an event -/

/-- The ticks at which an event starts and ends, the end being at least one tick after the start. -/
def span (ticks : Quantity) (e : Event) : Except Fault (Int × Int) := do
  let start ← (← e.time.mul ticks).round
  let stop ← (← (← e.time.add e.duration).mul ticks).round
  return (start, max stop (start + 1))

/-- The two messages of an event that plays a note. -/
def strike (recorder : Recorder) (playing : Playing) (ticks : Quantity) (e : Event)
    (note : Quantity) : Except Fault (List Mark) := do
  let (start, stop) ← span ticks e
  let channel ← recorder.channel playing.channel
  let note ← recorder.data note
  let velocity ← recorder.data playing.velocity
  return [⟨start, .noteOn channel note velocity⟩, ⟨stop, .noteOff channel note 0⟩]

/-- The messages of events in the order of the events. Events whose names have no note are left
out. -/
def marks (recorder : Recorder) (playing : Playing) (ticks : Quantity) (notes : NoteMap) :
    List Event → Except Fault (List Mark)
  | [] => .ok []
  | e :: es => do
    match ← e.note? notes with
    | none => marks recorder playing ticks notes es
    | some note =>
      let first ← strike recorder playing ticks e note
      return first ++ (← marks recorder playing ticks notes es)

/-- The names of the events that have no note, each once. -/
def unmapped (notes : NoteMap) (events : List Event) : List String :=
  let hasNone (e : Event) : Bool :=
    match notes e.name with
    | .ok none => true
    | _ => false
  ((events.filter hasNone).map (·.name)).eraseDups

/-! ## The order of messages -/

/-- Whether a message releases a note. -/
def isRelease : Message → Bool
  | .noteOff .. => true
  | _ => false

/-- Whether a message may stand before another: earlier ticks come first, and at one tick releases
come first. -/
def mayPrecede (a b : Mark) : Bool :=
  a.tick < b.tick || (a.tick = b.tick && (isRelease a.message || !isRelease b.message))

/-- Messages in the order in which they are played. Messages that may stand in either order keep
the order they had. -/
def timeline (marks : List Mark) : List Mark := marks.mergeSort mayPrecede

/-- Messages with their distances, the first being counted from the given tick. -/
def deltas (last : Int) : List Mark → List (Int × Message)
  | [] => []
  | m :: ms => (m.tick - last, m.message) :: deltas m.tick ms

/-! ## The whole track -/

/-- A rate, which must be a number and positive. -/
def positive (fault : Fault) : Option Quantity → Except Fault Quantity
  | some rate => if rate.atMost (.whole 0) then .error fault else .ok rate
  | none => .error .wrongType

/-- The track that plays events. -/
def ofEvents (recorder : Recorder) (playing : Playing) (notes : NoteMap) (events : List Event) :
    Except Fault Track := do
  let beats ← positive .beatsNotPositive playing.beats
  let ticks ← positive .ticksNotPositive playing.ticks
  let marks ← marks recorder playing ticks notes events
  let tempo ← recorder.tempo beats
  return ⟨(0, .tempo tempo) :: deltas 0 (timeline marks) ++ [(0, .trackEnd)]⟩

/-! ## Writing -/

/-- Writes a file: the bytes that are in it afterwards, and the fault that stopped the writing. The
header is written before the track, so it is there even if the track cannot be written. -/
def write (recorder : Recorder) (ticks : Nat) (track : Track) : List UInt8 × Except Fault Unit :=
  match recorder.encode track with
  | .ok content => (recorder.header ticks ++ content, .ok ())
  | .error fault => (recorder.header ticks, .error fault)

end Track

end Polyrhythm
