import Polyrhythm.Node
import Polyrhythm.Traversal

/-!
# Blocks between braces

A level of the notation is a list of elements in which braces, markers and separators are still
symbols. The outermost blocks between braces are read as levels of their own; what is inside them
is left as it is. `cutBlocks` cuts a level into single elements and the contents of its outermost
blocks and stops at a brace that does not match; `groupBraces` then reads the blocks from left to
right, so a fault inside a closed block is found before a brace that does not match after it.
-/

namespace Polyrhythm

/-- The content of the symbol that opens a block. -/
def openingBrace : String := "\x7b"

/-- The content of the symbol that closes a block. -/
def closingBrace : String := "\x7d"

/-- A part of a level: an element outside all braces, or the content of a block. -/
inductive Part
  | single (node : Node)
  | block (content : List Node)

/-- A level cut into parts, up to the first brace that does not match. -/
structure Cut where
  parts : List Part
  fault : Option Fault

namespace Cut

/-- No parts, and nothing wrong. -/
def empty : Cut := ⟨[], none⟩

/-- No parts before a brace that does not match. -/
def stopped (fault : Fault) : Cut := ⟨[], some fault⟩

/-- A cut with one more part in front. -/
def add (part : Part) (cut : Cut) : Cut := { cut with parts := part :: cut.parts }

end Cut

/-- The block that is open while a level is cut: the position of its opening brace, the number of
blocks open inside it, and the elements since its opening brace, latest first. -/
structure OpenBlock where
  openedAt : Option Position
  inner : Nat
  content : List Node

/-- The open block with one more element. -/
def OpenBlock.push (block : OpenBlock) (n : Node) : OpenBlock :=
  { block with content := n :: block.content }

/-- Cuts the rest of a level, inside an open block or outside all of them. -/
def cutFrom : Option OpenBlock → List Node → Cut
  | none, [] => .empty
  | some block, [] => .stopped (.unclosedBlock block.openedAt)
  | none, n :: rest =>
    if n.isSymbol openingBrace then cutFrom (some ⟨n.position?, 0, []⟩) rest
    else if n.isSymbol closingBrace then .stopped (.unopenedBlock n.position?)
    else (cutFrom none rest).add (.single n)
  | some block, n :: rest =>
    if n.isSymbol openingBrace then
      cutFrom (some ⟨block.openedAt, block.inner + 1, n :: block.content⟩) rest
    else if n.isSymbol closingBrace then
      match block.inner with
      | 0 => (cutFrom none rest).add (.block block.content.reverse)
      | inner + 1 => cutFrom (some ⟨block.openedAt, inner, n :: block.content⟩) rest
    else cutFrom (some (block.push n)) rest

/-- Cuts a level into single elements and outermost blocks. -/
def cutBlocks (nodes : List Node) : Cut := cutFrom none nodes

/-- An element for a part, a block being read by `readBlock`. -/
def Part.read (readBlock : List Node → Except Fault Node) : Part → Except Fault Node
  | .single n => .ok n
  | .block content => readBlock content

/-- Replaces every outermost block of a level by the element that `readBlock` makes of it. -/
def groupBraces (readBlock : List Node → Except Fault Node) (nodes : List Node) :
    Except Fault (List Node) := do
  let cut := cutBlocks nodes
  let elements ← cut.parts.mapM (Part.read readBlock)
  match cut.fault with
  | some fault => .error fault
  | none => return elements

/-! ## Sizes -/

/-- The number of elements in a block that is open, its opening brace counted. -/
def openSize : Option OpenBlock → Nat
  | none => 0
  | some block => block.content.length + 1

/-- A part of a level has fewer elements than the level, if it is a block. -/
def Part.fits (size : Nat) : Part → Prop
  | .single _ => True
  | .block content => content.length < size

/-- A cut has at most as many parts as elements were left, and no block is larger than what was
open and left. -/
theorem cutFrom_bounds (state : Option OpenBlock) (nodes : List Node) :
    (cutFrom state nodes).parts.length ≤ nodes.length ∧
      ∀ part ∈ (cutFrom state nodes).parts, part.fits (openSize state + nodes.length) := by
  induction nodes generalizing state with
  | nil => cases state <;> simp [cutFrom, Cut.empty, Cut.stopped]
  | cons n rest ih =>
    have weaken {size size' : Nat} (h : size ≤ size') {part : Part} (hp : part.fits size) :
        part.fits size' := by
      cases part with
      | single => trivial
      | block content => exact Nat.lt_of_lt_of_le hp h
    have step {state' : Option OpenBlock} (h : openSize state' ≤ openSize state + 1) :
        (cutFrom state' rest).parts.length ≤ (n :: rest).length ∧
          ∀ part ∈ (cutFrom state' rest).parts,
            part.fits (openSize state + (n :: rest).length) := by
      refine ⟨Nat.le_succ_of_le (ih state').1, fun part hpart => ?_⟩
      refine weaken ?_ ((ih state').2 part hpart)
      simp only [List.length_cons]
      omega
    have added {part : Part} (h : part.fits (openSize state + (n :: rest).length)) :
        ((cutFrom none rest).add part).parts.length ≤ (n :: rest).length ∧
          ∀ other ∈ ((cutFrom none rest).add part).parts,
            other.fits (openSize state + (n :: rest).length) := by
      refine ⟨Nat.succ_le_succ (ih none).1, fun other hother => ?_⟩
      rcases List.mem_cons.1 hother with rfl | hother
      · exact h
      · exact (step (Nat.zero_le _)).2 other hother
    cases state with
    | none =>
      rw [cutFrom]
      split
      · exact step (by simp [openSize])
      · split
        · simp [Cut.stopped]
        · exact added trivial
    | some block =>
      rw [cutFrom]
      split
      · exact step (by simp [openSize])
      · split
        · split
          · exact added (by simp [Part.fits, openSize]; omega)
          · exact step (by simp [openSize])
        · exact step (by simp [openSize, OpenBlock.push])

/-- Two readers that agree on all lists shorter than a level group it in the same way. -/
theorem groupBraces_congr {read read' : List Node → Except Fault Node} {nodes : List Node}
    (h : ∀ ns : List Node, ns.length < nodes.length → read ns = read' ns) :
    groupBraces read nodes = groupBraces read' nodes := by
  have hparts : ∀ part ∈ (cutBlocks nodes).parts, part.read read = part.read read' := by
    intro part hpart
    have hfits := (cutFrom_bounds none nodes).2 part hpart
    cases part with
    | single => rfl
    | block content => exact h content (by simpa [Part.fits, openSize] using hfits)
  rw [groupBraces, groupBraces, Traversal.mapM_congr hparts]

/-- Grouping does not make a level longer. -/
theorem length_le_of_groupBraces {read : List Node → Except Fault Node} {nodes nodes' : List Node}
    (h : groupBraces read nodes = .ok nodes') : nodes'.length ≤ nodes.length := by
  rw [groupBraces] at h
  obtain ⟨elements, helements, h⟩ := Traversal.bind_eq_ok.1 h
  split at h
  · cases h
  · cases h
    rw [Traversal.length_of_mapM helements]
    exact (cutFrom_bounds none nodes).1

end Polyrhythm
