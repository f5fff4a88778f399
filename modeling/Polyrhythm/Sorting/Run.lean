import Polyrhythm.Sorting.Merge

/-!
# Runs

A list is cut into runs, each in order (`takeRun`). A run that starts by going down is taken as long
as it goes down, and reversed. A run that is too short is made longer by inserting the elements
after it, each at the place found by halving.

Runs that stand side by side are merged in an order that keeps the merges balanced (`pushRun`). The
boundary between two runs has a power: how often the whole list is halved until a cut falls between
the middles of the two runs. A boundary waits until one of a smaller power is found behind it.
-/

namespace Polyrhythm.Sorting

variable {α : Type}

/-! ## Finding a run -/

/-- The longest front of a list in which every element and the next are related, and the rest. -/
def chain (related : α → α → Bool) : List α → List α × List α
  | [] => ([], [])
  | [x] => ([x], [])
  | x :: next :: rest =>
    if related x next then
      let (run, left) := chain related (next :: rest)
      (x :: run, left)
    else ([x], next :: rest)

/-- The front of a list that is in order as it stands or, if its second element precedes its first,
after it is reversed; and the rest. -/
def firstRun (precedes : α → α → Bool) (xs : List α) : List α × List α :=
  match xs with
  | x :: next :: _ =>
    if precedes next x then
      let (run, rest) := chain (fun a b => precedes b a) xs
      (run.reverse, rest)
    else chain (fun a b => !precedes b a) xs
  | _ => (xs, [])

/-- A run with an element inserted, behind those that it does not precede. -/
def insert (precedes : α → α → Bool) (run : List α) (x : α) : List α :=
  let place := bisect .front (fun y => !precedes x y) run 0 run.length
  run.take place ++ x :: run.drop place

/-- The first run of a list, with at least so many elements if there are as many, and the rest. -/
def takeRun (precedes : α → α → Bool) (least : Nat) (xs : List α) : List α × List α :=
  let (run, rest) := firstRun precedes xs
  let missing := least - run.length
  ((rest.take missing).foldl (insert precedes) run, rest.drop missing)

/-- The least size of a run in a list: the size of the list divided, rounding up, by the least power
of two that leaves less than 64. -/
def leastRun (size : Nat) : Nat :=
  let unit := Nat.pow 2 (Nat.log2 size - 5)
  (size + unit - 1) / unit

/-! ## What is cut is kept -/

theorem chain_append (related : α → α → Bool) (xs : List α) :
    (chain related xs).1 ++ (chain related xs).2 = xs := by
  fun_induction chain related xs with
  | case1 | case2 | case4 => rfl
  | case3 x next rest _ run left h ih => simpa [h] using ih

theorem firstRun_perm (precedes : α → α → Bool) (xs : List α) :
    ((firstRun precedes xs).1 ++ (firstRun precedes xs).2).Perm xs := by
  match xs with
  | [] | [_] => simp [firstRun]
  | x :: next :: rest =>
    rw [firstRun]
    split
    · exact ((List.reverse_perm _).append_right _).trans (.of_eq (chain_append ..))
    · exact .of_eq (chain_append ..)

theorem insert_perm (precedes : α → α → Bool) (run : List α) (x : α) :
    (insert precedes run x).Perm (run ++ [x]) := by
  rw [insert]
  refine List.perm_middle.trans ?_
  rw [List.take_append_drop]
  exact (List.perm_append_singleton x run).symm

theorem foldl_insert_perm (precedes : α → α → Bool) (run xs : List α) :
    (xs.foldl (insert precedes) run).Perm (run ++ xs) := by
  induction xs generalizing run with
  | nil => simp
  | cons x xs ih =>
    have h := (ih (insert precedes run x)).trans ((insert_perm precedes run x).append_right xs)
    simpa using h

/-- Cutting a run off keeps all elements. -/
theorem takeRun_perm (precedes : α → α → Bool) (least : Nat) (xs : List α) :
    ((takeRun precedes least xs).1 ++ (takeRun precedes least xs).2).Perm xs := by
  simp only [takeRun]
  refine ((foldl_insert_perm ..).append_right _).trans ?_
  rw [List.append_assoc, List.take_append_drop]
  exact firstRun_perm ..

theorem chain_ne_nil (related : α → α → Bool) (x : α) (xs : List α) :
    (chain related (x :: xs)).1 ≠ [] := by
  cases xs with
  | nil => simp [chain]
  | cons next rest =>
    rw [chain]
    split <;> simp

theorem firstRun_ne_nil (precedes : α → α → Bool) (x : α) (xs : List α) :
    (firstRun precedes (x :: xs)).1 ≠ [] := by
  cases xs with
  | nil => simp [firstRun]
  | cons next rest =>
    rw [firstRun]
    split
    · simpa using chain_ne_nil _ x (next :: rest)
    · exact chain_ne_nil _ x (next :: rest)

/-- A run cut off a list that is not empty is not empty. -/
theorem length_takeRun_pos (precedes : α → α → Bool) (least : Nat) (x : α) (xs : List α) :
    0 < (takeRun precedes least (x :: xs)).1.length := by
  simp only [takeRun]
  rw [(foldl_insert_perm ..).length_eq, List.length_append]
  exact Nat.add_pos_left (List.length_pos_iff.2 (firstRun_ne_nil _ x xs)) _

/-! ## The order of merges -/

/-- A run that waits for its neighbour. Its power is that of the boundary in front of it; at the
first run, which has none, it means nothing. -/
structure Pending (α : Type) where
  items : List α
  power : Nat

/-- How often something of size `size` is halved until a cut falls behind the first of two places
and not behind the second one. Every halving doubles the distance between the places, so their bound
is not reached. -/
def cutsBetween : Nat → Nat → Nat → Nat → Nat
  | 0, _, _, _ => 0
  | bound + 1, size, a, b =>
    if size ≤ a then cutsBetween bound size (2 * (a - size)) (2 * (b - size)) + 1
    else if size ≤ b then 1
    else cutsBetween bound size (2 * a) (2 * b) + 1

/-- The power of the boundary between two runs in a list of the given size: the first one starts at
`start`. The places are the middles of the runs, in half elements. -/
def boundaryPower (size start first second : Nat) : Nat :=
  let middle := 2 * start + first
  cutsBetween size size middle (middle + first + second)

/-- The runs that wait, latest first, and the threshold of the last merge. -/
structure Waiting (α : Type) where
  runs : List (Pending α)
  threshold : Nat

namespace Waiting

/-- No runs. -/
def none : Waiting α := ⟨[], standardThreshold⟩

/-- The elements of all runs, in the order in which they stand. -/
def elements (w : Waiting α) : List α := w.runs.reverse.flatMap Pending.items

/-- Merges the two runs of a list of runs that stand behind the first `depth` ones. -/
def mergeAt (precedes : α → α → Bool) (w : Waiting α) (depth : Nat) : Waiting α :=
  match w.runs.drop depth with
  | right :: left :: rest =>
    let (items, threshold) := merge precedes left.items right.items w.threshold
    ⟨w.runs.take depth ++ ⟨items, left.power⟩ :: rest, threshold⟩
  | _ => w

/-- Merges the latest runs as long as the boundary between them has more than the given power. Every
merge takes a run away, so as many merges as there are runs suffice. -/
def settle (precedes : α → α → Bool) (power : Nat) : Nat → Waiting α → Waiting α
  | 0, w => w
  | bound + 1, w =>
    match w.runs with
    | latest :: _ :: _ =>
      if power < latest.power then settle precedes power bound (w.mergeAt precedes 0) else w
    | _ => w

/-- Adds a run behind those that wait. The whole list has `size` elements, of which `taken` are in
runs already. -/
def push (precedes : α → α → Bool) (w : Waiting α) (size taken : Nat) (items : List α) :
    Waiting α :=
  match w.runs with
  | [] => { w with runs := [⟨items, 0⟩] }
  | latest :: _ =>
    let length := latest.items.length
    let power := boundaryPower size (taken - length) length items.length
    let w := w.settle precedes power w.runs.length
    { w with runs := ⟨items, power⟩ :: w.runs }

/-- Merges all runs: the two latest ones, or the two before the latest if the earlier of those is
smaller than the latest. -/
def finish (precedes : α → α → Bool) : Nat → Waiting α → Waiting α
  | 0, w => w
  | bound + 1, w =>
    match w.runs with
    | latest :: _ :: third :: _ =>
      let depth := if third.items.length < latest.items.length then 1 else 0
      finish precedes bound (w.mergeAt precedes depth)
    | [_, _] => w.mergeAt precedes 0
    | _ => w

/-! ## What waits is kept -/

theorem mergeAt_perm (precedes : α → α → Bool) (w : Waiting α) (depth : Nat) :
    (w.mergeAt precedes depth).elements.Perm w.elements := by
  rw [mergeAt]
  split
  · next right left rest h =>
    have merged := merge_perm precedes left.items right.items w.threshold
    have kept : w.elements = rest.reverse.flatMap Pending.items ++ (left.items ++ right.items) ++
        (w.runs.take depth).reverse.flatMap Pending.items := by
      have runs := List.take_append_drop depth w.runs
      rw [h] at runs
      have split := congrArg
        (fun runs : List (Pending α) => runs.reverse.flatMap Pending.items) runs
      simpa [elements] using split.symm
    rw [kept]
    simpa [elements] using (merged.append_left _).append_right _
  · exact .refl _

theorem settle_perm (precedes : α → α → Bool) (power bound : Nat) (w : Waiting α) :
    (w.settle precedes power bound).elements.Perm w.elements := by
  induction bound generalizing w with
  | zero => exact .refl _
  | succ bound ih =>
    rw [settle]
    split
    · split
      · exact (ih _).trans (mergeAt_perm ..)
      · exact .refl _
    · exact .refl _

/-- Adding a run adds its elements. -/
theorem push_perm (precedes : α → α → Bool) (w : Waiting α) (size taken : Nat) (items : List α) :
    (w.push precedes size taken items).elements.Perm (w.elements ++ items) := by
  rw [push]
  split
  · next h => simp [elements, h]
  · next latest rest h =>
    have settled := settle_perm precedes
      (boundaryPower size (taken - latest.items.length) latest.items.length items.length)
      w.runs.length w
    simpa [elements] using settled.append_right items

/-- Merging all runs keeps their elements. -/
theorem finish_perm (precedes : α → α → Bool) (bound : Nat) (w : Waiting α) :
    (w.finish precedes bound).elements.Perm w.elements := by
  induction bound generalizing w with
  | zero => exact .refl _
  | succ bound ih =>
    rw [finish]
    split
    · exact (ih _).trans (mergeAt_perm ..)
    · exact mergeAt_perm ..
    · exact .refl _

end Waiting

end Polyrhythm.Sorting
