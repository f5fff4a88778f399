import Polyrhythm.Sorting.Gallop

/-!
# Merging two runs

Two runs that stand side by side are merged from the end at which the shorter one stands, so a merge
is told as what becomes of the shorter and of the longer run (`Merge`), both seen from that end.
Elements are taken one by one until one run has won often enough in a row; then as many as
possible are taken at once, found by galloping, until that no longer pays (`Merge.round`). How often
is enough is remembered from one merge to the next as the threshold.

The last element of the shorter run is known to stand behind all of the longer one, so it is never
compared (`Merge.remainder?`). No element is lost or added (`merge_perm`).
-/

namespace Polyrhythm.Sorting

variable {α : Type}

/-- The state of a merge: the elements that are placed, latest first, what is left of the two runs,
and how often a run has to win in a row before the merge gallops. -/
structure Merge (α : Type) where
  placed : List α
  shorter : List α
  longer : List α
  threshold : Nat

/-- Whether the next element of the longer run is placed before that of the shorter one. Of two
elements that may stand in either order the one of the left run stays on the left. -/
def longerWins (precedes : α → α → Bool) : End → α → α → Bool
  | .front, l, s => precedes l s
  | .back, l, s => precedes s l

/-- The number of wins in a row, or of elements at once, from which galloping pays. -/
def standardThreshold : Nat := 7

namespace Merge

/-- All elements of a merge. -/
def elements (m : Merge α) : List α := m.placed ++ (m.shorter ++ m.longer)

/-- What is placed last, once nothing is left to compare. -/
def remainder? (m : Merge α) : Option (List α) :=
  match m.shorter, m.longer with
  | shorter, [] => some shorter
  | [], longer => some longer
  | [s], longer => some (longer ++ [s])
  | _ :: _ :: _, _ :: _ => none

/-- Whether nothing is left to compare. -/
def isOver (m : Merge α) : Bool := m.remainder?.isSome

/-- Places so many elements of one run or the other. -/
def place (m : Merge α) (ofLonger : Bool) (count : Nat) : Merge α :=
  if ofLonger then
    { m with placed := (m.longer.take count).reverse ++ m.placed, longer := m.longer.drop count }
  else
    { m with placed := (m.shorter.take count).reverse ++ m.placed, shorter := m.shorter.drop count }

/-- Whether the next element of the longer run goes before that of the shorter one. -/
def next (precedes : α → α → Bool) (side : End) (m : Merge α) : Bool :=
  match m.longer, m.shorter with
  | l :: _, s :: _ => longerWins precedes side l s
  | _, _ => false

/-- How many elements of one run go before the next one of the other run. -/
def lead (precedes : α → α → Bool) (side : End) (m : Merge α) (ofLonger : Bool) : Nat :=
  match m.longer, m.shorter with
  | l :: _, s :: _ =>
    if ofLonger then gallop side (fun x => longerWins precedes side x s) m.longer
    else gallop side (fun x => !longerWins precedes side l x) m.shorter
  | _, _ => 0

/-- Places all elements of one run that go before the next one of the other run, and then that one,
as far as there is something left to compare. Given back is also the number of the former. -/
def placeLead (precedes : α → α → Bool) (side : End) (m : Merge α) (ofLonger : Bool) :
    Merge α × Nat :=
  if m.isOver then (m, 0)
  else
    let count := m.lead precedes side ofLonger
    let led := m.place ofLonger count
    (if led.isOver then led else led.place (!ofLonger) 1, count)

/-- A round of galloping: once through one run and once through the other. From the front the
shorter run comes first, from the back the longer one. Given back is also whether it paid. -/
def round (precedes : α → α → Bool) (side : End) (m : Merge α) : Merge α × Bool :=
  let m := { m with threshold := if 1 < m.threshold then m.threshold - 1 else m.threshold }
  let (m, first) := m.placeLead precedes side (side = .back)
  let (m, second) := m.placeLead precedes side (side != .back)
  (m, standardThreshold ≤ first || standardThreshold ≤ second)

/-- How a merge goes on: one by one, a run having won so many times in a row, or by galloping. -/
inductive Pace
  | single (ofLonger : Bool) (wins : Nat)
  | galloping
deriving DecidableEq, Repr

/-- One step of a merge that is not over. -/
def step (precedes : α → α → Bool) (side : End) (m : Merge α) : Pace → Merge α × Pace
  | .single winner wins =>
    let ofLonger := m.next precedes side
    let wins := if ofLonger = winner then wins + 1 else 1
    let m' := m.place ofLonger 1
    if m'.isOver || wins < m.threshold then (m', .single ofLonger wins)
    else ({ m' with threshold := m'.threshold + 1 }, .galloping)
  | .galloping =>
    let (m', paid) := m.round precedes side
    if m'.isOver || paid then (m', .galloping)
    else ({ m' with threshold := m'.threshold + 1 }, .single false 0)

/-- Carries a merge through: the elements as they are placed, and the threshold afterwards. Every
step places an element, so a bound of as many steps as there are elements is not reached. -/
def run (precedes : α → α → Bool) (side : End) : Nat → Pace → Merge α → List α × Nat
  | 0, _, m => (m.placed.reverse ++ (m.shorter ++ m.longer), m.threshold)
  | bound + 1, pace, m =>
    match m.remainder? with
    | some rest => (m.placed.reverse ++ rest, m.threshold)
    | none =>
      let (m, pace) := m.step precedes side pace
      run precedes side bound pace m

/-- Merges a shorter run and a longer one, seen from one end. The first element of the longer one
comes first. -/
def start (precedes : α → α → Bool) (side : End) (shorter longer : List α) (threshold : Nat) :
    List α × Nat :=
  run precedes side (shorter.length + longer.length + 1) (.single false 0)
    (place ⟨[], shorter, longer, threshold⟩ true 1)

end Merge

/-- Merges two runs none of which can be left as it is. -/
def mergeInner (precedes : α → α → Bool) (left right : List α) (threshold : Nat) : List α × Nat :=
  if left.length ≤ right.length then Merge.start precedes .front left right threshold
  else
    let (merged, threshold) := Merge.start precedes .back right.reverse left.reverse threshold
    (merged.reverse, threshold)

/-- The front of a left run that stays where it is: what does not follow the start of the right
run. -/
def stays (precedes : α → α → Bool) (left right : List α) : Nat :=
  match right with
  | [] => left.length
  | r :: _ => gallop .front (fun x => !precedes r x) left

/-- The back of a right run that stays where it is: what does not precede the end of the left
run. -/
def staysBehind (precedes : α → α → Bool) (left right : List α) : Nat :=
  match left.getLast? with
  | none => right.length
  | some l => gallop .back (fun x => !precedes x l) right.reverse

/-- Merges two runs that stand side by side. The front of the left one and the back of the right
one that stay where they are take no part. -/
def merge (precedes : α → α → Bool) (left right : List α) (threshold : Nat) : List α × Nat :=
  let front := stays precedes left right
  let inner := left.drop front
  let back := right.length - staysBehind precedes inner right
  if inner.isEmpty || (right.take back).isEmpty then (left ++ right, threshold)
  else
    let (merged, threshold) := mergeInner precedes inner (right.take back) threshold
    (left.take front ++ merged ++ right.drop back, threshold)

/-! ## What is merged is kept -/

namespace Merge

theorem perm_of_remainder? {m : Merge α} {rest : List α} (h : m.remainder? = some rest) :
    rest.Perm (m.shorter ++ m.longer) := by
  rw [remainder?] at h
  split at h <;> cases h <;> simp_all

theorem place_perm (m : Merge α) (ofLonger : Bool) (count : Nat) :
    (m.place ofLonger count).elements.Perm m.elements := by
  have move (taken left placed : List α) :
      (taken.reverse ++ placed ++ left).Perm (placed ++ (taken ++ left)) := by
    rw [← List.append_assoc placed]
    exact (((List.reverse_perm taken).append_right placed).trans List.perm_append_comm).append_right
      left
  cases ofLonger with
  | true =>
    have h := move (m.longer.take count) (m.longer.drop count) (m.placed ++ m.shorter)
    rw [List.take_append_drop] at h
    simpa [place, elements] using h
  | false =>
    have h := (move (m.shorter.take count) (m.shorter.drop count) m.placed).append_right m.longer
    rw [List.take_append_drop] at h
    simpa [place, elements] using h

theorem placeLead_perm (precedes : α → α → Bool) (side : End) (m : Merge α) (ofLonger : Bool) :
    (m.placeLead precedes side ofLonger).1.elements.Perm m.elements := by
  rw [placeLead]
  split
  · exact .refl _
  · change (if _ then _ else _ : Merge α).elements.Perm _
    split
    · exact place_perm ..
    · exact (place_perm ..).trans (place_perm ..)

theorem round_perm (precedes : α → α → Bool) (side : End) (m : Merge α) :
    (m.round precedes side).1.elements.Perm m.elements :=
  (placeLead_perm ..).trans (placeLead_perm ..)

theorem step_perm (precedes : α → α → Bool) (side : End) (m : Merge α) (pace : Pace) :
    (m.step precedes side pace).1.elements.Perm m.elements := by
  cases pace with
  | single winner wins =>
    have h := place_perm m (m.next precedes side) 1
    simp only [step]
    repeat' split
    all_goals exact h
  | galloping =>
    have h := round_perm precedes side m
    simp only [step]
    split
    all_goals exact h

theorem run_perm (precedes : α → α → Bool) (side : End) (bound : Nat) (pace : Pace) (m : Merge α) :
    (run precedes side bound pace m).1.Perm m.elements := by
  induction bound generalizing pace m with
  | zero => exact (List.reverse_perm _).append_right _
  | succ bound ih =>
    rw [run]
    split
    · next rest h => exact (List.reverse_perm _).append (perm_of_remainder? h)
    · exact (ih ..).trans (step_perm ..)

end Merge

theorem mergeInner_perm (precedes : α → α → Bool) (left right : List α) (threshold : Nat) :
    (mergeInner precedes left right threshold).1.Perm (left ++ right) := by
  rw [mergeInner]
  split
  · exact (Merge.run_perm ..).trans (Merge.place_perm ..)
  · refine (List.reverse_perm _).trans ((Merge.run_perm ..).trans ((Merge.place_perm ..).trans ?_))
    exact ((List.reverse_perm _).append (List.reverse_perm _)).trans List.perm_append_comm

/-- Merging two runs keeps their elements. -/
theorem merge_perm (precedes : α → α → Bool) (left right : List α) (threshold : Nat) :
    (merge precedes left right threshold).1.Perm (left ++ right) := by
  simp only [merge]
  split
  · exact .refl _
  · have inner := mergeInner_perm precedes (left.drop (stays precedes left right))
      (right.take (right.length -
        staysBehind precedes (left.drop (stays precedes left right)) right)) threshold
    refine ((inner.append_left _).append_right _).trans (.of_eq ?_)
    rw [← List.append_assoc, List.take_append_drop, List.append_assoc, List.take_append_drop]

end Polyrhythm.Sorting
