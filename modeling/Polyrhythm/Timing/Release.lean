import Polyrhythm.Node

/-!
# Releasing holds

The reverse of gathering: a held element is written out as the element followed by a hold for every
slot but the first. Where the holds stood and at which tempo they were is not remembered.
-/

namespace Polyrhythm.Node

/-- A hold of which only the duration is known. -/
def bareHold (duration : Rat) : Node := hold ⟨none, 1, none, some duration⟩

mutual
/-- An element with its holds written out after it. -/
def release : Node → List Node
  | group content isExplicit duration => [group (releaseAll content) isExplicit duration]
  | simul content duration => [simul (releaseAll content) duration]
  | held content h => release content ++ ((h.slots.getD []).drop 1).map bareHold
  | symbol s => [symbol s]
  | hold h => [hold h]
  | sequence content => [sequence content]
  | foreign kind => [foreign kind]

/-- The elements of a list with their holds written out. -/
def releaseAll : List Node → List Node
  | [] => []
  | n :: ns => release n ++ releaseAll ns
end

end Polyrhythm.Node
