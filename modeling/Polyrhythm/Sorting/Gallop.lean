/-!
# Searching from one end of a run

How many elements at the front of a list have a property, if those that have it come first. A
search that expects few of them looks at the elements 0, 1, 3, 7 and so on until one does not have
the property, and then halves the range that is left (`gallop`). On a list whose elements do not
keep to that order the count depends on which of them are looked at.
-/

namespace Polyrhythm.Sorting

variable {α : Type}

/-- An end of a run. A run that is treated from its back is given in reverse. -/
inductive End
  | front
  | back
deriving DecidableEq, Repr

/-- Where a range of the given size is halved. A range of even size has no middle; its half on the
side of the back of the run is then looked at first. -/
def half : End → Nat → Nat
  | .front, size => size / 2
  | .back, size => (size - 1) / 2

/-- Halves the range of places from `low` up to `high` until it is empty, going on behind the
middle if the element there has the property. -/
def bisect (side : End) (holds : α → Bool) (xs : List α) (low high : Nat) : Nat :=
  if low < high then
    let middle := low + half side (high - low)
    if xs[middle]?.any holds then bisect side holds xs (middle + 1) high
    else bisect side holds xs low middle
  else low
termination_by high - low
decreasing_by
  all_goals simp only [half]; split <;> omega

/-- Looks at `next` and then about twice as far each time, until an element does not have the
property or the list ends. Given back are the last place that has it and the first that may not. -/
def stride (holds : α → Bool) (xs : List α) (last next : Nat) : Nat × Nat :=
  if next < xs.length then
    if xs[next]?.any holds then stride holds xs next (2 * next + 1) else (last, next)
  else (last, xs.length)
termination_by xs.length - next

/-- The number of elements at the front of a list that have a property, expected to be small. -/
def gallop (side : End) (holds : α → Bool) (xs : List α) : Nat :=
  if xs.head?.any holds then
    let (last, next) := stride holds xs 0 1
    bisect side holds xs (last + 1) next
  else 0

end Polyrhythm.Sorting
