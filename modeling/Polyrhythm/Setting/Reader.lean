import Polyrhythm.Number.Decimal
import Polyrhythm.Setting
import Polyrhythm.Text.Utf8

/-!
# Reading a configuration

A configuration file gives one entry a line: a key, a colon and a value. What belongs to a key may
also stand below it and further in, as entries or as the items of a list, each after a dash. A value
on the line is a scalar or a list of scalars between brackets. What follows a number sign is a
comment. Other ways of writing settings are not read.
-/

namespace Polyrhythm.Setting

/-! ## Values -/

/-- Whether a character is a blank inside a line. -/
def isGap (c : Char) : Bool := c = ' ' || c = '\t'

/-- A text without the gaps on either side. -/
def trim (cs : List Char) : List Char := ((cs.dropWhile isGap).reverse.dropWhile isGap).reverse

/-- A whole number in plain digits, perhaps with a sign. -/
def readWhole? (cs : List Char) : Option Int :=
  let (negative, digits) := Number.readSign cs
  if digits.isEmpty || !digits.all Char.isDigit then none
  else some (if negative then -Text.readNumeral digits else Text.readNumeral digits)

/-- A decimal with a point and digits. -/
def readDecimal? (cs : List Char) : Option Float :=
  if cs.contains '.' && cs.any Char.isDigit then Number.readReal? (String.ofList cs) else none

/-- The text between two equal quotes. -/
def unquoted? (cs : List Char) : Option String :=
  match cs with
  | quote :: rest =>
    if (quote = '"' || quote = '\'') && rest.getLast? = some quote then
      some (String.ofList rest.dropLast)
    else none
  | [] => none

/-- A scalar. What is neither quoted nor a word of its own nor a number is a text. -/
def scalar (cs : List Char) : Setting :=
  let word := String.ofList cs
  if word = "" || word = "null" || word = "~" then .missing
  else if word = "true" then .flag true
  else if word = "false" then .flag false
  else match readWhole? cs, readDecimal? cs, unquoted? cs with
    | some n, _, _ => .number (.whole n)
    | none, some x, _ => .number (.real x)
    | none, none, some inner => .text inner
    | none, none, none => .text word

/-- A value that stands on one line. -/
def readValue (cs : List Char) : Setting :=
  if cs.head? = some '[' && cs.getLast? = some ']' then
    let items := ((cs.drop 1).dropLast.splitOn ',').map trim
    .list ((items.filter fun item => !item.isEmpty).map scalar)
  else scalar cs

/-! ## Lines -/

/-- A line that says something: how far it is pushed in, and what it says. -/
structure Line where
  indent : Nat
  content : List Char

/-- A line up to its comment. A number sign starts one at the start of the line and after a gap. -/
def dropComment (afterGap : Bool) : List Char → List Char
  | [] => []
  | c :: rest => if afterGap && c = '#' then [] else c :: dropComment (isGap c) rest

/-- The lines of a file that say something. -/
def linesOf (text : List Char) : List Line :=
  ((text.splitOn '\n').map fun line =>
    let line := dropComment true line
    (⟨(line.takeWhile (· = ' ')).length, trim line⟩ : Line)).filter fun line =>
      !line.content.isEmpty

/-- What a line says after a dash, if it is an item of a list. -/
def Line.item? (line : Line) : Option (List Char) :=
  match line.content with
  | ['-'] => some []
  | '-' :: ' ' :: rest => some (trim rest)
  | _ => none

/-- The key of a line and the value on it, if it has a key. -/
def Line.entry? (line : Line) : Option (String × List Char) :=
  let (key, rest) := line.content.span (· != ':')
  let name := (unquoted? (trim key)).getD (String.ofList (trim key))
  match rest with
  | [':'] => some (name, [])
  | ':' :: ' ' :: value => some (name, trim value)
  | _ => none

mutual
/-- Reads the block at the front of the lines, if it is pushed in at least as far as given. Every
step takes a line or goes into one, so a bound of four steps a line is never reached. -/
def readBlock : Nat → Nat → List Line → Option (Setting × List Line)
  | 0, _, _ => none
  | _ + 1, _, [] => some (.missing, [])
  | fuel + 1, indent, line :: rest =>
    if line.indent < indent then some (.missing, line :: rest)
    else if line.item?.isSome then readItems fuel line.indent [] (line :: rest)
    else if line.entry?.isSome then readEntries fuel line.indent [] (line :: rest)
    else some (readValue line.content, rest)

/-- Reads the items of a list, all pushed in equally far. -/
def readItems : Nat → Nat → List Setting → List Line → Option (Setting × List Line)
  | 0, _, _, _ => none
  | _ + 1, _, items, [] => some (.list items.reverse, [])
  | fuel + 1, indent, items, line :: rest =>
    match line.item? with
    | none => some (.list items.reverse, line :: rest)
    | some content =>
      if line.indent ≠ indent then some (.list items.reverse, line :: rest)
      else do
        let inner := if content.isEmpty then rest else ⟨indent + 2, content⟩ :: rest
        let (value, rest) ← readBlock fuel (indent + 1) inner
        readItems fuel indent (value :: items) rest

/-- Reads the entries of a mapping, all pushed in equally far. The items of a list may stand as far
in as the key that they belong to. -/
def readEntries :
    Nat → Nat → List (String × Setting) → List Line → Option (Setting × List Line)
  | 0, _, _, _ => none
  | _ + 1, _, entries, [] => some (.mapping entries.reverse, [])
  | fuel + 1, indent, entries, line :: rest =>
    match line.entry? with
    | none => some (.mapping entries.reverse, line :: rest)
    | some (key, content) =>
      if line.indent ≠ indent then some (.mapping entries.reverse, line :: rest)
      else if content.isEmpty then do
        let below := if (rest.head?.bind Line.item?).isSome then indent else indent + 1
        let (value, rest) ← readBlock fuel below rest
        readEntries fuel indent ((key, value) :: entries) rest
      else readEntries fuel indent ((key, readValue content) :: entries) rest
end

/-- Reads a configuration file, which has to be one block. -/
def read (bytes : List UInt8) : Except Fault Setting :=
  match Text.decode bytes with
  | .error problem => .error (.undecodable problem)
  | .ok cs =>
    let lines := linesOf (Text.endLines cs)
    match readBlock (4 * lines.length + 4) 0 lines with
    | some (setting, []) => .ok setting
    | _ => .error .unreadableSettings

end Polyrhythm.Setting
