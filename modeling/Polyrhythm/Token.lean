import Polyrhythm.Position

/-!
# Tokens

A text of notation is a list of tokens: words, and the six characters `_ , . { } -` that are
tokens of their own wherever they stand outside parentheses.
-/

namespace Polyrhythm

/-- A piece of notation and the position of its first character. -/
structure Token where
  content : String
  position : Position
deriving DecidableEq, Repr

end Polyrhythm
