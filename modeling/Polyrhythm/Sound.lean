import Polyrhythm.Number.Arithmetic

/-!
# Sounds

What an expression sounds like: notes and pauses, in sequence or together. A sound knows how long it
lasts. It can be fitted to another duration, which scales all it holds, repeated in slots of given
durations, and listed as events with absolute times. A container may be given a duration that is
not the natural one of its content; scaling then starts from the given one.

Two kinds of sound exist only to be extended: a bare sound without any rule of its own, and a
container that says nothing about how its content is played.
-/

namespace Polyrhythm

/-- A note as it is played: its onset, how long it lasts, its name, and its offset in semitones. -/
structure Event where
  time : Quantity
  duration : Quantity
  name : String
  pitch : Option Quantity
deriving DecidableEq

/-- How the sounds in a container are played: one after another, all started together, or in no
way that is said. -/
inductive Arrangement
  | inTurn
  | together
  | unspecified
deriving DecidableEq, Repr

/-- A sound object. -/
inductive Sound
  /-- A note. A continuous one is repeated by holding it, any other by striking it again. -/
  | note (name : String) (duration : Quantity) (pitch : Option Quantity) (isContinuous : Bool)
  /-- Silence. -/
  | pause (duration : Quantity)
  /-- Sounds with an arrangement, lasting as long as stated. -/
  | container (arrangement : Arrangement) (objects : List Sound) (duration : Quantity)
  /-- A sound without rules of its own. -/
  | bare

namespace Sound

instance : Inhabited Sound := ⟨.bare⟩

/-- How long a sound lasts. -/
def duration : Sound → Quantity
  | note _ duration .. | pause duration | container _ _ duration => duration
  | bare => .whole 0

/-- How long sounds last by themselves: one after another as long as all of them, started together
as long as the first. -/
def naturalDuration (objects : List Sound) : Arrangement → Except Fault Quantity
  | .inTurn => Quantity.sum (objects.map duration)
  | .together => .ok ((objects.head?.map duration).getD (.whole 0))
  | .unspecified => .error .notImplemented

/-- A container that lasts as long as stated or else as long as its content does by itself. -/
def arrange (arrangement : Arrangement) (objects : List Sound) (stated : Option Quantity) :
    Except Fault Sound :=
  match stated with
  | some duration => .ok (container arrangement objects duration)
  | none => do
    return container arrangement objects (← naturalDuration objects arrangement)

/-! ## Fitting -/

mutual
/-- A sound that lasts as long as it is told to. A container scales its content by the ratio of the
new duration to the old one; if it lasted no time, the content stays as it is. -/
def fit (new : Quantity) : Sound → Except Fault Sound
  | note name _ pitch isContinuous => .ok (note name new pitch isContinuous)
  | pause _ => .ok (pause new)
  | container arrangement objects old =>
    if old.isZero then .ok (container arrangement objects new)
    else do
      let factor ← new.div old
      let objects ← fitEach factor objects
      return container arrangement objects new
  | bare => .error .notImplemented

/-- Fits every sound of a list to its own duration times a factor. -/
def fitEach (factor : Quantity) : List Sound → Except Fault (List Sound)
  | [] => .ok []
  | s :: ss => do
    let own ← s.duration.mul factor
    let s ← fit own s
    let ss ← fitEach factor ss
    return s :: ss
end

/-- A sound repeated in slots of the given durations. A continuous note is held for all of them. -/
def fill (slots : List Quantity) : Sound → Except Fault Sound
  | note name _ pitch true => do return note name (← Quantity.sum slots) pitch true
  | s => do arrange .inTurn (← slots.mapM fun slot => s.fit slot) none

/-- A note with another pitch; any other sound has none. -/
def withPitch (pitch : Option Quantity) : Sound → Sound
  | note name duration _ isContinuous => note name duration pitch isContinuous
  | s => s

/-! ## Events -/

mutual
/-- The notes of a sound that starts at a time, in the order in which they are written. -/
def events (start : Quantity) : Sound → Except Fault (List Event)
  | note name duration pitch _ => .ok [⟨start, duration, name, pitch⟩]
  | pause _ => .ok []
  | container .inTurn objects _ => eventsInTurn start objects
  | container .together objects _ => eventsTogether start objects
  | container .unspecified .. | bare => .error .notImplemented

/-- The events of sounds each of which starts when the one before it has lasted its duration. -/
def eventsInTurn (start : Quantity) : List Sound → Except Fault (List Event)
  | [] => .ok []
  | s :: ss => do
    let first ← events start s
    let next ← start.add s.duration
    return first ++ (← eventsInTurn next ss)

/-- The events of sounds that start at one time. -/
def eventsTogether (start : Quantity) : List Sound → Except Fault (List Event)
  | [] => .ok []
  | s :: ss => do
    let first ← events start s
    return first ++ (← eventsTogether start ss)
end

/-! ## Equality -/

/-- Whether two offsets have the same value, or both are missing. -/
def samePitch : Option Quantity → Option Quantity → Bool
  | some p, some q => p.sameValue q
  | none, none => true
  | _, _ => false

mutual
/-- Whether two sounds are of one kind and have the same content, numbers being compared by value.
A bare sound has nothing to be compared by, so it equals no other. -/
def same : Sound → Sound → Bool
  | note name duration pitch isContinuous, note name' duration' pitch' isContinuous' =>
    name = name' && duration.sameValue duration' && samePitch pitch pitch' &&
      isContinuous = isContinuous'
  | pause duration, pause duration' => duration.sameValue duration'
  | container arrangement objects duration, container arrangement' objects' duration' =>
    arrangement = arrangement' && sameEach objects objects' && duration.sameValue duration'
  | _, _ => false

/-- Whether two lists of sounds are the same, one by one. -/
def sameEach : List Sound → List Sound → Bool
  | [], [] => true
  | s :: ss, s' :: ss' => same s s' && sameEach ss ss'
  | _, _ => false
end

end Sound

end Polyrhythm
