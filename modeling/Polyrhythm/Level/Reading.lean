import Polyrhythm.Level

/-!
# The grammar in one reading

The notation read in a single descent. Braces turn a list of tokens into a list of items, which are
tokens and blocks of items (`Item.ofTokens?`). Every item becomes a piece: a separator, a marker, or
an element, the elements of blocks being assembled first (`Item.piece`). Assembling pieces takes
the markers out and then looks for commas, and for periods between them (`assemble`).
-/

namespace Polyrhythm

/-! ## Items -/

/-- A token outside braces, or what is between two braces. -/
inductive Item
  | leaf (token : Token)
  | block (content : List Item)

/-- Adds a token to the innermost open block; the blocks are given from the innermost to the whole
text, each with its items latest first. Nothing is left if a closing brace closes no block. -/
def Item.push (t : Token) : List (List Item) → Option (List (List Item))
  | [] => none
  | inner :: outer =>
    if t.content = openingBrace then some ([] :: inner :: outer)
    else if t.content = closingBrace then
      match outer with
      | [] => none
      | next :: rest => some ((.block inner.reverse :: next) :: rest)
    else some ((.leaf t :: inner) :: outer)

/-- The items of a text whose braces match. -/
def Item.ofTokens? (tokens : List Token) : Option (List Item) :=
  match tokens.foldlM (fun blocks t => Item.push t blocks) [[]] with
  | some [items] => some items.reverse
  | _ => none

/-! ## Pieces -/

/-- What an item is at its level. -/
inductive Piece
  | comma
  | period
  | marker (rate : Rat)
  | element (node : Node)

/-- The piece for a token outside braces. -/
def Token.piece (t : Token) : Piece :=
  match Marker.read? t.content.toList with
  | some marker => .marker marker.rate
  | none =>
    if t.content = "," then .comma
    else if t.content = "." then .period
    else if t.content = "_" then .element (.hold ⟨some t.position, 1, none, none⟩)
    else .element t.symbol

/-- The pieces without the markers; every element is sped up by the markers before it. -/
def pace (tempo : Rat) : List Piece → List Piece
  | [] => []
  | .marker rate :: rest => pace (tempo * rate) rest
  | .element n :: rest => .element (n.scaleTempo tempo) :: pace tempo rest
  | piece :: rest => piece :: pace tempo rest

/-- Whether a piece is a comma. -/
def Piece.isComma : Piece → Bool
  | .comma => true
  | _ => false

/-- Whether a piece is a period. -/
def Piece.isPeriod : Piece → Bool
  | .period => true
  | _ => false

/-- The element that a piece is. -/
def Piece.element? : Piece → Option Node
  | .element n => some n
  | _ => none

/-- The parts of a list between the members that satisfy a test, the empty ones left out. -/
def partsBetween {α : Type} (isSeparator : α → Bool) (xs : List α) : List (List α) :=
  (xs.splitOnP isSeparator).filter fun part => !part.isEmpty

/-- A part between commas: a sequence of segments if it has periods, and otherwise its elements. -/
def assemblePart (isExplicit : Bool) (pieces : List Piece) : Node :=
  if pieces.any Piece.isPeriod then
    .sequence ((partsBetween Piece.isPeriod pieces).map fun segment =>
      wrapLevel false (segment.filterMap Piece.element?))
  else wrapLevel isExplicit (pieces.filterMap Piece.element?)

/-- The element for the pieces of a level: a simul of parts if it has commas, and otherwise a
single part. -/
def assemble (isExplicit : Bool) (pieces : List Piece) : Node :=
  let pieces := pace 1 pieces
  if pieces.any Piece.isComma then
    .simul ((partsBetween Piece.isComma pieces).map (assemblePart false)) none
  else assemblePart isExplicit pieces

mutual
/-- The piece for an item; a block is assembled on its own. -/
def Item.piece : Item → Piece
  | .leaf t => t.piece
  | .block content => .element (assemble true (Item.pieces content))

/-- The pieces for the items of a list. -/
def Item.pieces : List Item → List Piece
  | [] => []
  | item :: items => Item.piece item :: Item.pieces items
end

/-- The tree that the tokens of a text with matching braces write. -/
def readGrammar? (tokens : List Token) : Option Node :=
  (Item.ofTokens? tokens).map fun items => assemble false (Item.pieces items)

end Polyrhythm
