import Polyrhythm.Text.Span

/-!
# Blanks

The characters that separate the words of the notation: the characters of the bidirectional
classes WS, B and S together with those of the general category Zs, in Unicode 14.
-/

namespace Polyrhythm.Text

/-- The spans of code points that are blank. -/
def blankSpans : List (Nat × Nat) :=
  [(0x9, 0xD), (0x1C, 0x20), (0x85, 0x85), (0xA0, 0xA0), (0x1680, 0x1680), (0x2000, 0x200A),
   (0x2028, 0x2029), (0x202F, 0x202F), (0x205F, 0x205F), (0x3000, 0x3000)]

/-- Whether a character is blank. -/
def isBlank (c : Char) : Bool := covers blankSpans c.toNat

/-- The space, the tab and the line breaks are blank. -/
theorem isBlank_of_isWhitespace {c : Char} (h : c.isWhitespace = true) : isBlank c = true := by
  simp only [Char.isWhitespace, Bool.or_eq_true, decide_eq_true_eq] at h
  rcases h with ((rfl | rfl) | rfl) | rfl <;> decide

end Polyrhythm.Text
