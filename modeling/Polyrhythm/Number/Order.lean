import Polyrhythm.Number.Quantity
import Polyrhythm.Sorting

/-!
# The order of quantities

Things are sorted by a quantity that belongs to each of them, those with equal ones keeping their
order (`Quantity.sortBy`). What is not a number comes neither before nor after any other quantity,
so no order fits it; where things then stand is what merging runs makes of them.

Sorting keeps the things (`sortBy_perm`), and exact quantities are always in order afterwards
(`sortBy_of_comparable`).
-/

namespace Polyrhythm.Quantity

/-- Whether a quantity comes before or after others. -/
def isComparable (a : Quantity) : Bool := a.place != .nowhere

/-- Things sorted by a quantity, those with equal ones keeping their order. -/
def sortBy {α : Type} (key : α → Quantity) (xs : List α) : List α :=
  if xs.all fun x => (key x).isComparable then
    xs.mergeSort fun a b => !(key b).lessThan (key a)
  else Sorting.sort (fun a b => (key a).lessThan (key b)) xs

/-- A ratio comes before or after others. -/
@[simp]
theorem isComparable_ratio (q : Rat) : (ratio q).isComparable = true := rfl

/-- A whole number comes before or after others. -/
@[simp]
theorem isComparable_whole (n : Int) : (whole n).isComparable = true := rfl

theorem sortBy_of_comparable {α : Type} {key : α → Quantity} {xs : List α}
    (h : ∀ x ∈ xs, (key x).isComparable = true) :
    sortBy key xs = xs.mergeSort fun a b => !(key b).lessThan (key a) :=
  if_pos (List.all_eq_true.2 h)

/-- Sorting keeps the things that are sorted. -/
theorem sortBy_perm {α : Type} (key : α → Quantity) (xs : List α) : (sortBy key xs).Perm xs := by
  rw [sortBy]
  split
  · exact List.mergeSort_perm ..
  · exact Sorting.sort_perm ..

end Polyrhythm.Quantity
