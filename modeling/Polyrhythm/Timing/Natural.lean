import Polyrhythm.Node

/-!
# What durations mean

The durations of a tree, read from the top. Every element has a natural duration
(`Node.natural`): a leaf one unit divided by its tempo, a group that of its elements together, a
simul that of its first element, a sequence that of its first segment times the number of segments.
An element that is to last longer or shorter passes the proportion on to what it holds. This gives
every leaf a place in time (`Node.place`), or only a length (`Node.lengths`), without any settling.
-/

namespace Polyrhythm.Node

/-- The tempo of a leaf. -/
def tempo : Node → Rat
  | symbol s => s.tempo
  | hold h => h.tempo
  | _ => 1

mutual
/-- The natural duration of an element. A tree that is built holds no other kinds of elements than
those that are given one here. -/
def natural : Node → Rat
  | symbol s => 1 / s.tempo
  | hold h => 1 / h.tempo
  | group content .. => naturalSum content
  | simul content _ => naturalFirst content
  | sequence content => content.length * naturalFirst content
  | held _ _ | foreign _ => 0

/-- The natural durations of the elements of a list together. -/
def naturalSum : List Node → Rat
  | [] => 0
  | n :: ns => natural n + naturalSum ns

/-- The natural duration of the first element of a list, zero if there is none. -/
def naturalFirst : List Node → Rat
  | [] => 0
  | n :: _ => natural n
end

/-! ## Lengths -/

mutual
/-- The lengths of the leaves of an element that is stretched by a factor, in the order of the
text. In a simul and in a sequence every element is stretched to the natural duration of the first;
an element of natural duration zero is stretched by zero. -/
def lengths (factor : Rat) : Node → List Rat
  | symbol s => [factor * (1 / s.tempo)]
  | hold h => [factor * (1 / h.tempo)]
  | group content .. => lengthsEach factor content
  | simul content _ | sequence content => lengthsLike (naturalFirst content) factor true content
  | held _ _ | foreign _ => []

/-- The lengths of the leaves of elements all stretched by one factor. -/
def lengthsEach (factor : Rat) : List Node → List Rat
  | [] => []
  | n :: ns => lengths factor n ++ lengthsEach factor ns

/-- The lengths of the leaves of elements stretched to a common natural duration, which the first
one has already. -/
def lengthsLike (common factor : Rat) (isFirst : Bool) : List Node → List Rat
  | [] => []
  | n :: ns =>
    lengths (if isFirst then factor else factor * (common / natural n)) n ++
      lengthsLike common factor false ns
end

/-! ## Places -/

/-- A leaf in time. -/
structure Placed where
  leaf : Node
  onset : Rat
  length : Rat

mutual
/-- The leaves of an element that starts at an onset and lasts a length, in the order of the
text. -/
def place (onset length : Rat) : Node → List Placed
  | symbol s => [⟨symbol s, onset, length⟩]
  | hold h => [⟨hold h, onset, length⟩]
  | group content .. => placeInTurn onset (length / naturalSum content) content
  | simul content _ => placeTogether onset length content
  | sequence content => placeEvenly onset (length / content.length) content
  | held _ _ | foreign _ => []

/-- The leaves of elements that follow one another, each as long as its natural duration times a
factor. -/
def placeInTurn (onset factor : Rat) : List Node → List Placed
  | [] => []
  | n :: ns =>
    place onset (factor * natural n) n ++ placeInTurn (onset + factor * natural n) factor ns

/-- The leaves of elements that all start at an onset and last a length. -/
def placeTogether (onset length : Rat) : List Node → List Placed
  | [] => []
  | n :: ns => place onset length n ++ placeTogether onset length ns

/-- The leaves of elements that follow one another and all last a length. -/
def placeEvenly (onset length : Rat) : List Node → List Placed
  | [] => []
  | n :: ns => place onset length n ++ placeEvenly (onset + length) length ns
end

end Polyrhythm.Node
