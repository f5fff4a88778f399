import Polyrhythm.Number.Written

/-!
# Positions in a text

Where a character stands: its line and its column. The lexer counts both from zero; tokens from
elsewhere may be placed anywhere. Only a line feed ends a line, and a column counts characters.
-/

namespace Polyrhythm

/-- The line and column of a character. -/
structure Position where
  line : Int
  column : Int
deriving DecidableEq, Repr, Inhabited

namespace Position

/-- The first character of a text. -/
def start : Position := ⟨0, 0⟩

/-- The position after a character. -/
def after (p : Position) (c : Char) : Position :=
  if c = '\n' then ⟨p.line + 1, 0⟩ else ⟨p.line, p.column + 1⟩

/-- The position after a text. -/
def afterAll (p : Position) (text : List Char) : Position := text.foldl after p

/-- A position as it ends a message. -/
def text (p : Position) : String :=
  ", at line " ++ Number.wholeText p.line ++ " column " ++ Number.wholeText p.column

@[simp]
theorem afterAll_nil (p : Position) : p.afterAll [] = p := rfl

@[simp]
theorem afterAll_cons (p : Position) (c : Char) (cs : List Char) :
    p.afterAll (c :: cs) = (p.after c).afterAll cs := rfl

/-- The position after two texts in a row is found from the position after the first. -/
theorem afterAll_append (p : Position) (cs ds : List Char) :
    p.afterAll (cs ++ ds) = (p.afterAll cs).afterAll ds := by
  simp [afterAll]

end Position

end Polyrhythm
