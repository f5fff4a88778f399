import Polyrhythm.Node.Fit
import Polyrhythm.Number.Limit

/-!
# The outline of a tree

A tree shown as indented text, one element on each line: the content or the kind of the element,
a pitch in brackets, the slots of a held element, and a duration in parentheses once it is known.
A pitch is rounded to six significant digits. Durations and slots are written in full; a tree with
one that has too many digits has no outline.
-/

namespace Polyrhythm

/-- A quantity with six significant digits. A ratio has no such form, and a whole number is made
real for it. -/
def Quantity.brief : Quantity → Except Fault String
  | .real x => .ok (Number.realBrief x)
  | .whole n => ((Number.Binary64.nearest? n).map Number.realBrief).elim (.error .overflow) .ok
  | .ratio _ => .error .wrongType

namespace Node

/-- A duration in parentheses, or nothing while it is missing. -/
def durationNote : Option Rat → Except Fault String
  | some duration => do return " (" ++ (← (Quantity.ratio duration).written) ++ ")"
  | none => .ok ""

/-- A pitch in brackets, or nothing if there is none. -/
def pitchNote : Option Quantity → Except Fault String
  | some pitch => do return "[" ++ (← pitch.brief) ++ "]"
  | none => .ok ""

/-- The line of an element, without indentation. -/
def outlineLine : Node → Except Fault String
  | symbol s => do
    let duration ← durationNote s.duration
    return s.content ++ (← pitchNote s.pitch) ++ duration
  | hold h => do return "_" ++ (← durationNote h.duration)
  | held _ h => do
    let duration ← durationNote h.duration
    let slots ← h.slots.elim (.error .wrongType) .ok
    let slots ← slots.mapM fun slot => (Quantity.ratio slot).written
    return "repeat [" ++ " ".intercalate slots ++ "]" ++ duration
  | group _ isExplicit duration => do
    return (if isExplicit then "\x7b\x7d" else "group") ++ (← durationNote duration)
  | simul _ duration => do return "simul" ++ (← durationNote duration)
  | sequence _ => .ok "sequence"
  | foreign kind => .error (.unknownKind kind)

/-- The numbers that stand in the line of an element: its slots and its duration. -/
def numbers : Node → List Rat
  | symbol s => s.duration.toList
  | hold h => h.duration.toList
  | held _ h => h.duration.toList ++ h.slots.getD []
  | group _ _ duration | simul _ duration => duration.toList
  | sequence _ | foreign _ => []

/-- Whether all numbers in the lines of a tree can be written. -/
def isWritable (n : Node) : Bool := n.walk.all fun m => m.numbers.all Number.isWritableRatio

/-- A line pushed in by two spaces for each level. -/
def indented (level : Int) (line : String) : String := "".pushn ' ' (2 * level).toNat ++ line

mutual
/-- The lines of an element at a level of indentation, and of all it holds one level deeper. -/
def outlineLines (level : Int) : Node → Except Fault (List String)
  | group content isExplicit duration => do
    let line ← (group content isExplicit duration).outlineLine
    return indented level line :: (← outlineLinesOf (level + 1) content)
  | simul content duration => do
    let line ← (simul content duration).outlineLine
    return indented level line :: (← outlineLinesOf (level + 1) content)
  | sequence content => do
    let line ← (sequence content).outlineLine
    return indented level line :: (← outlineLinesOf (level + 1) content)
  | held content h => do
    let line ← (held content h).outlineLine
    return indented level line :: (← outlineLines (level + 1) content)
  | symbol s => do return [indented level (← (symbol s).outlineLine)]
  | hold h => do return [indented level (← (hold h).outlineLine)]
  | foreign kind => do return [indented level (← (foreign kind).outlineLine)]

/-- `outlineLines` over the elements of a list. -/
def outlineLinesOf (level : Int) : List Node → Except Fault (List String)
  | [] => .ok []
  | n :: ns => do
    let lines ← outlineLines level n
    return lines ++ (← outlineLinesOf level ns)
end

/-- The outline of an element, indented to a level. -/
def outline (n : Node) (level : Int) : Except Fault String := do
  return "\n".intercalate (← n.outlineLines level)

end Node

end Polyrhythm
