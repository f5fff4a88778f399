import Polyrhythm.Sorting.Run

/-!
# Sorting by merging runs

A list is cut into runs from the left to the right, and runs are merged as soon as that keeps merges
balanced. Of elements none of which precedes the other the one that stood first stays first.

This is for a relation that need not be an order. Then there is no sorted list, and which list comes
out depends on which elements are compared. Whatever the relation, no element is lost or added
(`sort_perm`).
-/

namespace Polyrhythm.Sorting

variable {α : Type}

/-- Cuts the rest of a list into runs and adds them to those that wait. Every run takes an element,
so as many runs as there are elements suffice. -/
def pushRuns (precedes : α → α → Bool) (size : Nat) : Nat → List α → Waiting α → Waiting α
  | 0, _, w => w
  | bound + 1, rest, w =>
    if rest.isEmpty then w
    else
      let cut := takeRun precedes (leastRun size) rest
      pushRuns precedes size bound cut.2 (w.push precedes size (size - rest.length) cut.1)

/-- A list sorted by a relation that says whether one element has to stand before another. -/
def sort (precedes : α → α → Bool) (xs : List α) : List α :=
  let w := pushRuns precedes xs.length xs.length xs .none
  (w.finish precedes w.runs.length).elements

theorem pushRuns_perm (precedes : α → α → Bool) (size : Nat) {bound : Nat} {rest : List α}
    (w : Waiting α) (h : rest.length ≤ bound) :
    (pushRuns precedes size bound rest w).elements.Perm (w.elements ++ rest) := by
  induction bound generalizing rest w with
  | zero =>
    cases List.length_eq_zero_iff.1 (Nat.le_zero.1 h)
    simp [pushRuns]
  | succ bound ih =>
    cases rest with
    | nil => simp [pushRuns]
    | cons x rest =>
      have cut := takeRun_perm precedes (leastRun size) (x :: rest)
      have hlength := cut.length_eq
      have hpos := length_takeRun_pos precedes (leastRun size) x rest
      rw [List.length_append] at hlength
      rw [pushRuns, if_neg (by simp)]
      refine (ih _ (by omega)).trans (((Waiting.push_perm ..).append_right _).trans ?_)
      rw [List.append_assoc]
      exact cut.append_left _

/-- Sorting keeps the elements, whatever the relation. -/
theorem sort_perm (precedes : α → α → Bool) (xs : List α) : (sort precedes xs).Perm xs :=
  (Waiting.finish_perm ..).trans (pushRuns_perm precedes _ _ (Nat.le_refl _))

end Polyrhythm.Sorting
