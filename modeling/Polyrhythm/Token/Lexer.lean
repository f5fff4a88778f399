import Polyrhythm.Fault
import Polyrhythm.Text.Blank
import Polyrhythm.Text.Letter
import Polyrhythm.Token

/-!
# From text to tokens

The lexer reads a text once, character by character. A word starts with a letter or a slash and
goes on until a blank or a special character; inside parentheses both belong to the word, so that
a pitch literal such as `note(-3.5)` stays in one piece. A closing parenthesis without an opening
one is an ordinary character. `Lexer.step` is the rule for one character, `tokenize` runs it over
a text.
-/

namespace Polyrhythm

/-- Whether a character is a token of its own. -/
def isSpecial (c : Char) : Bool :=
  c = '_' || c = ',' || c = '.' || c = '{' || c = '}' || c = '-'

/-- Whether a word can start with a character. -/
def startsWord (c : Char) : Bool := Text.isLetter c || c = '/'

/-- What the lexer remembers between two characters: the characters of the open word, latest
first, the position of its first character, the number of open parentheses, and the position of
the next character. While no word is open the list is empty and `start` means nothing. -/
structure Lexer where
  word : List Char
  start : Position
  depth : Nat
  here : Position
deriving DecidableEq, Repr

namespace Lexer

/-- The lexer before the first character. -/
def initial : Lexer := ⟨[], .start, 0, .start⟩

/-- The number of open parentheses after a character. -/
def depthAfter (depth : Nat) (c : Char) : Nat :=
  if c = '(' then depth + 1 else if c = ')' then depth - 1 else depth

/-- The open word as a token; none if no word is open. -/
def pending (s : Lexer) : List Token :=
  if s.word.isEmpty then [] else [⟨String.ofList s.word.reverse, s.start⟩]

/-- The lexer past a character that belongs to no word. -/
def close (s : Lexer) (depth : Nat) (c : Char) : Lexer := ⟨[], s.start, depth, s.here.after c⟩

/-- The lexer past a character that the word goes on with, or starts with. -/
def extend (s : Lexer) (depth : Nat) (c : Char) : Lexer :=
  ⟨c :: s.word, if s.word.isEmpty then s.here else s.start, depth, s.here.after c⟩

/-- Reads one character: the tokens that are complete with it, and the lexer after it. -/
def step (s : Lexer) (c : Char) : Except Fault (List Token × Lexer) :=
  let depth := depthAfter s.depth c
  if depth = 0 && Text.isBlank c then .ok (s.pending, s.close depth c)
  else if depth = 0 && isSpecial c then
    .ok (s.pending ++ [⟨c.toString, s.here⟩], s.close depth c)
  else if !s.word.isEmpty || startsWord c then .ok ([], s.extend depth c)
  else .error (.invalidCharacter c s.here)

/-- Reads the rest of a text. -/
def run (s : Lexer) : List Char → Except Fault (List Token)
  | [] => .ok s.pending
  | c :: cs => do
    let (tokens, s) ← s.step c
    let more ← s.run cs
    return tokens ++ more

end Lexer

/-- The tokens of a text. -/
def tokenize (text : String) : Except Fault (List Token) := Lexer.initial.run text.toList

end Polyrhythm
