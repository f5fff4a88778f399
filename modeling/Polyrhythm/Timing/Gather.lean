import Polyrhythm.Node.Fit

/-!
# Gathering holds

A hold lengthens the element before it in its list. Gathering puts every such element and the holds
after it into one held element, whose slots are the durations of all of them, the element's own
first. It goes into groups and simuls before the element itself is put away, so an element is held
as it will be. A hold with nothing before it in its list is a fault.
-/

namespace Polyrhythm.Node

/-- An element and the holds after it: their durations, latest first. -/
structure Run where
  element : Node
  durations : List (Option Rat)

/-- The element that a run becomes: itself if no hold follows it, and held otherwise. -/
def Run.close (run : Run) : Except Fault Node :=
  match run.durations with
  | [] | [_] => .ok run.element
  | durations => do
    let slots ← durations.reverse.mapM needed
    return held run.element ⟨none, 1, some slots, some (slots.foldr (· + ·) 0)⟩

/-- What the open run, if there is one, adds to a list. -/
def closeRun : Option Run → Except Fault (List Node)
  | none => .ok []
  | some run => do return [← run.close]

mutual
/-- Gathers the holds inside an element. -/
def gatherInside : Node → Except Fault Node
  | group content isExplicit duration => do
    return group (← gatherFrom none content) isExplicit duration
  | simul content duration => do return simul (← gatherFrom none content) duration
  | n => .ok n

/-- Gathers the holds in the rest of a list, the run before it still being open. -/
def gatherFrom (run : Option Run) : List Node → Except Fault (List Node)
  | [] => closeRun run
  | n :: rest =>
    match n, run with
    | hold h, none => .error (.nothingToHold h.position)
    | hold h, some run => gatherFrom (some ⟨run.element, h.duration :: run.durations⟩) rest
    | n, run => do
      let n ← gatherInside n
      let closed ← closeRun run
      let duration ← n.durationPart
      return closed ++ (← gatherFrom (some ⟨n, [duration]⟩) rest)
end

/-- Gathers the holds of a list. -/
def gatherAll (ns : List Node) : Except Fault (List Node) := gatherFrom none ns

/-- Gathers the holds of a tree. Its root cannot be a hold. -/
def gather (root : Node) : Except Fault Node := do
  return (← gatherAll [root]).headD root

end Polyrhythm.Node
