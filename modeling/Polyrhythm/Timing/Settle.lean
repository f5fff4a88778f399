import Polyrhythm.Node.Fit
import Polyrhythm.Timing.Pitch

/-!
# Settling durations

A built tree says how its elements relate; settling it gives every element a duration. A leaf lasts
one unit divided by its tempo. A group lasts as long as its elements together, a simul as long as
its first element, to which the others are fitted. A sequence fits its segments to the first one
and then turns into a group, in which segments that are groups without braces are spliced.

The elements of a list are settled kind by kind: groups first, then leaves, then simuls, then
sequences. They do not depend on one another, so the order decides only which of several faults is
found (`inStages`).
-/

namespace Polyrhythm.Node

/-! ## Leaves -/

/-- Gives a leaf the unit duration, and takes the pitch out of the content of a symbol. -/
def assignBase : Node → Node
  | symbol s => symbol { s.splitPitch with duration := some 1 }
  | hold h => hold { h with duration := some 1 }
  | n => n

/-- A duration played at a tempo. -/
def atTempo (tempo : Rat) (duration : Option Rat) : Except Fault (Option Rat) :=
  if tempo = 1 then .ok duration
  else do
    let duration ← needed duration
    if tempo = 0 then .error .divisionByZero else return some (duration / tempo)

/-- Divides the duration of a leaf by its tempo. -/
def applyTempo : Node → Except Fault Node
  | symbol s => do return symbol { s with duration := ← atTempo s.tempo s.duration }
  | hold h => do return hold { h with duration := ← atTempo h.tempo h.duration }
  | n => .ok n

/-! ## Composites -/

/-- When an element is settled, among the elements of one list. Elements that are left as they are
count as leaves. -/
inductive Stage
  | group
  | leaf
  | simul
  | sequence
deriving DecidableEq, Repr

/-- When an element is settled. -/
def stage : Node → Stage
  | group .. => .group
  | simul .. => .simul
  | sequence _ => .sequence
  | symbol _ | hold _ | held .. | foreign _ => .leaf

/-- The first fault among the elements of a stage. -/
def faultAt (results : List (Stage × Except Fault Node)) (stage : Stage) : Option Fault :=
  results.findSome? fun
    | (other, .error fault) => if other = stage then some fault else none
    | (_, .ok _) => none

/-- The settled elements of a list, or the fault that settling them stage by stage meets first. -/
def inStages (results : List (Stage × Except Fault Node)) : Except Fault (List Node) :=
  match [Stage.group, .leaf, .simul, .sequence].findSome? (faultAt results) with
  | some fault => .error fault
  | none => results.mapM (·.2)

/-- The elements of a list with the content of every group without braces in its place. -/
def splice (ns : List Node) : List Node :=
  ns.flatMap fun
    | group content false _ => content
    | n => [n]

/-- The group of elements that are settled. -/
def groupOf (isExplicit : Bool) (content : List Node) : Except Fault Node := do
  let total ← totalDuration content
  return group content isExplicit (some total)

/-- The simul of elements that are settled. -/
def simulOf (content : List Node) : Except Fault Node := do
  let content ← unify content
  match content with
  | [] => return simul [] (some 0)
  | first :: rest => return simul (first :: rest) (← first.durationPart)

/-- The group that a sequence of segments that are settled turns into. -/
def sequenceOf (content : List Node) : Except Fault Node := do
  let content ← unify content
  let total ← totalDuration content
  return group (splice content) false (some total)

mutual
/-- Gives an element and all inside it a duration. -/
def settle : Node → Except Fault Node
  | symbol s => applyTempo (assignBase (symbol s))
  | hold h => applyTempo (assignBase (hold h))
  | group content isExplicit _ => inStages (settleEach content) >>= groupOf isExplicit
  | simul content _ => inStages (settleEach content) >>= simulOf
  | sequence content => inStages (settleEach content) >>= sequenceOf
  | held content h => .ok (held content h)
  | foreign kind => .ok (foreign kind)

/-- Every element of a list with the stage it is settled in and what becomes of it. -/
def settleEach : List Node → List (Stage × Except Fault Node)
  | [] => []
  | n :: ns => (n.stage, settle n) :: settleEach ns
end

/-- Settles the elements of a list. -/
def settleAll (ns : List Node) : Except Fault (List Node) := inStages (settleEach ns)

/-! ## One stage at a time -/

/-- Settles an element if it belongs to a stage. -/
def settleAt (stage : Stage) (n : Node) : Except Fault Node :=
  if n.stage = stage then n.settle else .ok n

/-- Settles a group and leaves any other element alone. -/
def sumGroup : Node → Except Fault Node := settleAt .group

/-- Settles a simul and leaves any other element alone. -/
def unifySimul : Node → Except Fault Node := settleAt .simul

/-- Settles a sequence and leaves any other element alone. -/
def flattenSequence : Node → Except Fault Node := settleAt .sequence

/-! ## Lists of elements -/

theorem settleEach_eq_map (ns : List Node) :
    settleEach ns = ns.map fun n => (n.stage, n.settle) := by
  induction ns with
  | nil => rfl
  | cons n ns ih => simp [settleEach, ih]

/-- No stage has a fault when every element can be settled. -/
theorem faultAt_eq_none {ns : List Node} (h : ∀ n ∈ ns, ∃ m, n.settle = .ok m) (stage : Stage) :
    faultAt (settleEach ns) stage = none := by
  simp only [faultAt, settleEach_eq_map, List.findSome?_map, List.findSome?_eq_none_iff]
  intro n hn
  obtain ⟨m, hm⟩ := h n hn
  simp [hm]

end Polyrhythm.Node
