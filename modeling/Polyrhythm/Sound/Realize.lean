import Polyrhythm.Sound.Order
import Polyrhythm.Sound.Table
import Polyrhythm.Timing

/-!
# From trees to sounds

A timed tree is realized by looking up every symbol. Groups become sequences of sounds, simuls
sounds together, and a held element is repeated in its slots. Durations are measured in a unit of
time, by which every duration of the tree is multiplied. `render` goes all the way from a text to
events in the order of their onsets, if it can be said how long the sound lasts.
-/

namespace Polyrhythm

/-- Finds the sound of a name, fitted to a duration. -/
abbrev Resolver := String → Quantity → Except Fault Sound

/-- A failed lookup with the place of the symbol that was looked up, unless it tells a place of its
own. Any other fault is none of the symbol's. -/
def Fault.blamedOn (s : Symbol) : Fault → Fault
  | .unknownSound name none => .unknownSound name s.position
  | .lookupRefused reason none => .lookupRefused reason s.position
  | .absent | .noSuchIndex => .unknownSound s.content s.position
  | fault => fault

namespace Node

/-- The sound of a symbol; `measure` turns its duration into time. -/
def realizeSymbol (measure : Rat → Except Fault Quantity) (resolve : Resolver) (s : Symbol) :
    Except Fault Sound := do
  let duration ← measure (← needed s.duration)
  match resolve s.content duration with
  | .error fault => .error (fault.blamedOn s)
  | .ok sound =>
    match s.pitch with
    | none => return sound
    | some pitch => return sound.withPitch (some pitch)

mutual
/-- The sound of a timed tree; `measure` turns durations into time. -/
def realizeWith (measure : Rat → Except Fault Quantity) (resolve : Resolver) :
    Node → Except Fault Sound
  | symbol s => realizeSymbol measure resolve s
  | group content .. => do Sound.arrange .inTurn (← realizeEach measure resolve content) none
  | simul content _ => do Sound.arrange .together (← realizeEach measure resolve content) none
  | held content h => do
    let sound ← realizeWith measure resolve content
    let slots ← h.slots.elim (.error .wrongType) .ok
    sound.fill (← slots.mapM measure)
  | hold h => .error (.unplayable (hold h).kind)
  | sequence content => .error (.unplayable (sequence content).kind)
  | foreign kind => .error (.unplayable kind)

/-- The sounds of the elements of a list. -/
def realizeEach (measure : Rat → Except Fault Quantity) (resolve : Resolver) :
    List Node → Except Fault (List Sound)
  | [] => .ok []
  | n :: ns => do
    let sound ← realizeWith measure resolve n
    return sound :: (← realizeEach measure resolve ns)
end

/-- The sound of a timed tree, its durations being multiplied by the unit of time. -/
def realize (n : Node) (resolve : Resolver) (unit : Quantity) : Except Fault Sound :=
  n.realizeWith (fun duration => (Quantity.ratio duration).mul unit) resolve

end Node

/-! ## Rendering -/

/-- The events of a text, in the order of their onsets; `measure` turns durations into time. -/
def renderWith (measure : Rat → Except Fault Quantity) (text : String) (table : Table) :
    Except Fault (List Event) := do
  let tree ← parse text
  let sound ← tree.realizeWith measure table.resolve
  let events ← sound.events (.whole 0)
  let _ ← sound.duration.written
  return sortByTime events

/-- The events of a text, in the order of their onsets. -/
def render (text : String) (table : Table) (unit : Quantity) : Except Fault (List Event) :=
  renderWith (fun duration => (Quantity.ratio duration).mul unit) text table

/-- A text whose sound has events is rendered, unless the duration of the sound has too many
digits. -/
theorem renderWith_eq {measure : Rat → Except Fault Quantity} {text : String} {table : Table}
    {tree : Node} {sound : Sound} {events : List Event} (htree : parse text = .ok tree)
    (hsound : tree.realizeWith measure table.resolve = .ok sound)
    (hevents : sound.events (.whole 0) = .ok events) :
    renderWith measure text table =
      if sound.duration.isWritable then .ok (sortByTime events) else .error .unwritableNumber := by
  rw [renderWith, htree]
  change (tree.realizeWith measure table.resolve >>= _) = _
  rw [hsound]
  change (sound.events (.whole 0) >>= _) = _
  rw [hevents]
  change (sound.duration.written >>= fun _ => .ok (sortByTime events)) = _
  rw [Quantity.written]
  split <;> rfl

end Polyrhythm
