import Polyrhythm.Number.Limit
import Polyrhythm.Sound

/-!
# Sounds as text

A sound shown as the expression that would build it: the name of its kind and its parts, names
between quotes and numbers with their kind. A bare sound shows only its kind.
-/

namespace Polyrhythm

/-- The name of a kind of container. -/
def Arrangement.kind : Arrangement → String
  | .inTurn => "Seq"
  | .together => "Simul"
  | .unspecified => "_Container"

namespace Sound

/-- An offset, or the word for a missing one. -/
def shownPitch : Option Quantity → Except Fault String
  | some pitch => pitch.writtenWithKind
  | none => .ok "None"

/-- A truth value. -/
def shownFlag (flag : Bool) : String := if flag then "True" else "False"

mutual
/-- A sound as the expression that builds it. -/
def shown : Sound → Except Fault String
  | note name duration pitch isContinuous => do
    return "Sound(name=" ++ Text.quoted name ++ ", duration=" ++ (← duration.writtenWithKind) ++
      ", pitch=" ++ (← shownPitch pitch) ++ ", continuous=" ++ shownFlag isContinuous ++ ")"
  | pause duration => do return "Pause(duration=" ++ (← duration.writtenWithKind) ++ ")"
  | container arrangement objects duration => do
    return arrangement.kind ++ "([" ++ ", ".intercalate (← shownEach objects) ++ "], duration=" ++
      (← duration.writtenWithKind) ++ ")"
  | bare => .ok "SoundObject"

/-- The expressions of the sounds of a list. -/
def shownEach : List Sound → Except Fault (List String)
  | [] => .ok []
  | s :: ss => do return (← shown s) :: (← shownEach ss)
end

end Sound

end Polyrhythm
