import Polyrhythm.Node
import Polyrhythm.Number.Decimal

/-!
# Pitched symbols

A symbol may end in a literal between parentheses, its offset in semitones. `splitPitch?` takes the
content of such a symbol apart; the name before the parenthesis is not empty and holds no
parenthesis itself, and a line feed may follow the closing one.
-/

namespace Polyrhythm

/-- Whether a character is neither of the parentheses. -/
def isPlain (c : Char) : Bool := c != '(' && c != ')'

/-- The name and the literal of a pitched symbol, or nothing if the content is not of that form. -/
def splitPitch? (content : List Char) : Option (List Char × Number.Decimal) :=
  let (name, rest) := content.span isPlain
  match name, rest with
  | _ :: _, '(' :: rest =>
    let (literal, rest) := rest.span (· != ')')
    if rest = [')'] || rest = [')', '\n'] then
      (Number.readPitch? literal).map fun pitch => (name, pitch)
    else none
  | _, _ => none

/-- A symbol with its pitch taken out of its content. -/
def Symbol.splitPitch (s : Symbol) : Symbol :=
  match splitPitch? s.content.toList with
  | some (name, pitch) =>
    { s with content := String.ofList name, pitch := some (.real pitch.toReal) }
  | none => s

end Polyrhythm
