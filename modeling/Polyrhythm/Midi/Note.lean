import Polyrhythm.Number.Limit
import Polyrhythm.Setting
import Polyrhythm.Sound

/-!
# Notes on the keyboard

The notes of a keyboard are numbered from 0 to 127. A note map gives names their numbers, and an
event is played at the number of its name, moved by its pitch to the nearest whole semitone.
-/

namespace Polyrhythm

/-- The number of a name, if the map has it. What stands there may be no number, and the map itself
may be of a kind that knows a name without having a number for it. -/
abbrev NoteMap := String → Except Fault (Option Setting)

namespace NoteMap

/-- Whether one text is a part of another. -/
def isInfix (part : List Char) : List Char → Bool
  | [] => part.isEmpty
  | c :: rest => part.isPrefixOf (c :: rest) || isInfix part rest

/-- The note map that a setting is. A list and a text know their parts, but not by number. -/
def ofSetting (setting : Setting) : NoteMap := fun name =>
  match setting with
  | .mapping entries => .ok (entries.lookup name)
  | .list items => if items.any (Setting.isText name) then .error .wrongType else .ok none
  | .text value => if isInfix name.toList value.toList then .error .wrongType else .ok none
  | _ => .error .wrongType

/-- The note map of names with whole numbers. -/
def ofNumbers (numbers : List (String × Int)) : NoteMap := fun name =>
  .ok ((numbers.lookup name).map fun n => .number (.whole n))

end NoteMap

namespace Event

/-- Whether a quantity lies on the keyboard. -/
def onKeyboard (note : Quantity) : Bool :=
  Quantity.atMost (.whole 0) note && note.atMost (.whole 127)

/-- The pitch of an event in whole semitones; an event without a pitch is not moved. -/
def semitones (e : Event) : Except Fault Int := (e.pitch.map Quantity.round).getD (.ok 0)

/-- The note that an event plays, or nothing if the map does not have its name. -/
def note? (e : Event) (notes : NoteMap) : Except Fault (Option Quantity) := do
  match ← notes e.name with
  | none => return none
  | some base =>
    let semitones ← e.semitones
    match base.quantity? with
    | none => .error .wrongType
    | some base =>
      let note ← base.add (.whole semitones)
      if onKeyboard note then return some note else .error (.ofNote note e.name)

end Event

end Polyrhythm
