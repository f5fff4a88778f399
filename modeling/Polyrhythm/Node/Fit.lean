import Polyrhythm.Node
import Polyrhythm.Number.Arithmetic

/-!
# Fitting an element to a duration

`Node.fit` rescales a timed element: a leaf takes the new duration, and a composite scales all it
holds by the ratio of the new duration to the old one, so that proportions are kept. A composite
of duration 0 has no proportions to keep; it takes the new duration and leaves its content alone.

Durations are rational as long as a tree is timed, and there fitting is exact. A timed tree may be
fitted to a quantity of any kind afterwards. Then its durations are quantities, which are multiplied
and divided by the rules of their kinds (`Scalable`).

A duration that is needed and missing is a fault. Which fault depends on who needs it: the composite
itself names its kind, while inside a sum or a product the missing operand is of the wrong type.
-/

namespace Polyrhythm

/-- What fitting asks of durations: to be compared with zero, multiplied and divided. -/
class Scalable (δ : Type) where
  isZero : δ → Bool
  mul : δ → δ → Except Fault δ
  div : δ → δ → Except Fault δ

instance : Scalable Rat where
  isZero q := q = 0
  mul p q := .ok (p * q)
  div := Quantity.quotient

instance : Scalable Quantity := ⟨Quantity.isZero, Quantity.mul, Quantity.div⟩

namespace Scalable

@[simp]
theorem isZero_rat (q : Rat) : isZero q = decide (q = 0) := rfl

@[simp]
theorem mul_rat (p q : Rat) : mul p q = .ok (p * q) := rfl

/-- A rational duration is divided by any other than zero. -/
theorem div_rat {p q : Rat} (h : q ≠ 0) : div p q = .ok (p / q) := if_neg h

/-- All durations of a list multiplied by a rational factor. -/
theorem mapM_mul_rat (durations : List Rat) (factor : Rat) :
    durations.mapM (mul · factor) = .ok (durations.map (· * factor)) :=
  List.mapM_pure

end Scalable

namespace Node

variable {δ : Type}

/-- The duration as a part of an element. A sequence and a foreign element have no such part. -/
def durationPart : Node δ → Except Fault (Option δ)
  | sequence _ | foreign _ => .error .noSuchPart
  | n => .ok n.duration?

/-- A duration that a sum or a product needs. -/
def needed : Option δ → Except Fault δ
  | some duration => .ok duration
  | none => .error .wrongType

/-- The duration of an element as an operand. -/
def knownDuration (n : Node δ) : Except Fault δ := n.durationPart >>= needed

/-- The sum of the durations of elements. -/
def totalDuration (ns : List Node) : Except Fault Rat :=
  ns.foldlM (fun total n => return total + (← n.knownDuration)) 0

/-- The duration of a composite that is about to be fitted. -/
def oldDuration (kind : String) : Option δ → Except Fault δ
  | some duration => .ok duration
  | none => .error (.unknownDuration kind)

mutual
/-- Rescales an element to a new duration. -/
def fit [Scalable δ] (duration : δ) : Node δ → Except Fault (Node δ)
  | symbol s => .ok (symbol { s with duration := some duration })
  | hold h => .ok (hold { h with duration := some duration })
  | group content isExplicit old => do
    let old ← oldDuration "Group" old
    if Scalable.isZero old then return group content isExplicit (some duration)
    else
      let content ← scaleAll (← Scalable.div duration old) content
      return group content isExplicit (some duration)
  | simul content old => do
    let old ← oldDuration "Simul" old
    if Scalable.isZero old then return simul content (some duration)
    else
      let content ← scaleAll (← Scalable.div duration old) content
      return simul content (some duration)
  | held content h => do
    let old ← oldDuration "Repetition" h.duration
    if Scalable.isZero old then return held content { h with duration := some duration }
    else
      let factor ← Scalable.div duration old
      let slots ← h.slots.elim (.error .wrongType) .ok
      let slots ← slots.mapM (Scalable.mul · factor)
      let own ← content.knownDuration
      let content ← fit (← Scalable.mul own factor) content
      return held content { h with slots := some slots, duration := some duration }
  | sequence _ => .error .unflattenedSequence
  | foreign _ => .error .noSuchPart

/-- Fits every element of a list to its own duration times a factor. -/
def scaleAll [Scalable δ] (factor : δ) : List (Node δ) → Except Fault (List (Node δ))
  | [] => .ok []
  | n :: ns => do
    let own ← n.knownDuration
    let n ← fit (← Scalable.mul own factor) n
    let ns ← scaleAll factor ns
    return n :: ns
end

/-- Takes the duration of an element away, as fitting it to a missing duration does. Only a
composite of duration 0 can lose its duration; any other would have to be scaled by nothing. -/
def unfit : Node → Except Fault Node
  | symbol s => .ok (symbol { s with duration := none })
  | hold h => .ok (hold { h with duration := none })
  | group content isExplicit old => do
    let old ← oldDuration "Group" old
    if old = 0 then return group content isExplicit none else .error .wrongType
  | simul content old => do
    let old ← oldDuration "Simul" old
    if old = 0 then return simul content none else .error .wrongType
  | held content h => do
    let old ← oldDuration "Repetition" h.duration
    if old = 0 then return held content { h with duration := none } else .error .wrongType
  | sequence _ => .error .unflattenedSequence
  | foreign _ => .error .noSuchPart

/-- Fits every element of a list to the duration of the first. -/
def unify : List Node → Except Fault (List Node)
  | [] => .ok []
  | first :: rest => do
    let duration ← first.durationPart
    let rest ← rest.mapM (duration.elim unfit fit)
    return first :: rest

/-- A leaf can be fitted to any duration, and then has it. -/
theorem fit_of_isLeaf [Scalable δ] {n : Node δ} (h : n.isLeaf = true) (duration : δ) :
    ∃ m, n.fit duration = .ok m ∧ m.isLeaf = true ∧ m.duration? = some duration := by
  cases n with
  | symbol s => exact ⟨_, rfl, rfl, rfl⟩
  | hold h => exact ⟨_, rfl, rfl, rfl⟩
  | _ => cases h

end Node

end Polyrhythm
