import Polyrhythm.Text.Printable

/-!
# Quoted text

A name in a listing or in a message stands between quotes. Single quotes are used unless the text
has a single quote and no double one, so that as little as possible is escaped. The quote in use
and the backslash are written after a backslash, the line breaks and the tab by a letter, and a
character without a printed form by its code point in hexadecimal.
-/

namespace Polyrhythm.Text

/-- A code point in lower-case hexadecimal, filled up with zeros to a width. -/
def hex (width code : Nat) : List Char :=
  let digits := Nat.toDigits 16 code
  List.replicate (width - digits.length) '0' ++ digits

/-- A character as it stands between the given quotes. -/
def escaped (quote c : Char) : List Char :=
  if c = quote || c = '\\' then ['\\', c]
  else if c = '\n' then ['\\', 'n']
  else if c = '\r' then ['\\', 'r']
  else if c = '\t' then ['\\', 't']
  else if isPrintable c then [c]
  else if c.toNat < 0x100 then '\\' :: 'x' :: hex 2 c.toNat
  else if c.toNat < 0x10000 then '\\' :: 'u' :: hex 4 c.toNat
  else '\\' :: 'U' :: hex 8 c.toNat

/-- The quote that surrounds a text. -/
def quoteFor (text : List Char) : Char :=
  if text.contains '\'' && !text.contains '"' then '"' else '\''

/-- A text between quotes. -/
def quoted (text : String) : String :=
  let quote := quoteFor text.toList
  String.ofList (quote :: text.toList.flatMap (escaped quote) ++ [quote])

end Polyrhythm.Text
