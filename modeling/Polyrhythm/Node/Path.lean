import Polyrhythm.Node.Fit

/-!
# Places in a tree

A path names an element by the indices of the children that lead to it from the root; a negative
index counts from the end. `Node.atPath` looks the element up and `Node.modifyAt` changes it in
place.
-/

namespace Polyrhythm.Node

variable {δ : Type}

/-- The children of an element, for a step of a path. A foreign element cannot be asked. -/
def childrenPart : Node δ → Except Fault (List (Node δ))
  | foreign kind => .error (.unknownKind kind)
  | n => .ok n.children

/-- The position in a list of the given length that an index means. -/
def resolveIndex (length : Nat) (index : Int) : Except Fault Nat :=
  let position := if index < 0 then index + length else index
  if 0 ≤ position && position < length then .ok position.toNat else .error .noSuchIndex

/-- An element with other children of the same number. -/
def withChildren : Node δ → List (Node δ) → Node δ
  | group _ isExplicit duration, content => group content isExplicit duration
  | simul _ duration, content => simul content duration
  | sequence _, content => sequence content
  | held content h, content' => held (content'.headD content) h
  | n, _ => n

/-- The element at a path. -/
def atPath : List Int → Node δ → Except Fault (Node δ)
  | [], n => .ok n
  | index :: path, n => do
    let children ← n.childrenPart
    let position ← resolveIndex children.length index
    atPath path (children.getD position n)

/-- The tree with the element at a path changed. -/
def modifyAt (change : Node δ → Except Fault (Node δ)) :
    List Int → Node δ → Except Fault (Node δ)
  | [], n => change n
  | index :: path, n => do
    let children ← n.childrenPart
    let position ← resolveIndex children.length index
    let child ← modifyAt change path (children.getD position n)
    return n.withChildren (children.set position child)

/-- An element put back its own children is unchanged. -/
@[simp]
theorem withChildren_children (n : Node δ) : n.withChildren n.children = n := by
  cases n <;> rfl

end Polyrhythm.Node
