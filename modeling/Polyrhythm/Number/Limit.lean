import Polyrhythm.Fault

/-!
# The limit of digits

Writing a quantity fails if it has a whole number with too many digits in it, whichever way it is
written. What it would be written in makes no difference: the message of a fault that is about such
a quantity cannot be made either, and the fault is another one then.
-/

namespace Polyrhythm

namespace Quantity

/-- A quantity as it stands in a message, if it can be written. -/
def written (q : Quantity) : Except Fault String :=
  if q.isWritable then .ok q.text else .error .unwritableNumber

/-- A quantity with its kind, if it can be written. -/
def writtenWithKind (q : Quantity) : Except Fault String :=
  if q.isWritable then .ok q.shown else .error .unwritableNumber

end Quantity

/-- The fault of a note beyond the keyboard, whose message has the note in it. -/
def Fault.ofNote (note : Quantity) (name : String) : Fault :=
  if note.isWritable then .noteOutOfRange note name else .unwritableNumber

end Polyrhythm
