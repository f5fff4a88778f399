/-!
# Spans of code points

A character class is given by the spans of code points it covers, in rising order. `covers` is
membership, and `covers_iff` says that it holds of exactly the numbers some span encloses.
-/

namespace Polyrhythm.Text

/-- Whether some of the inclusive spans holds the code point. -/
def covers (spans : List (Nat × Nat)) (code : Nat) : Bool :=
  spans.any fun span => span.1 ≤ code && code ≤ span.2

/-- A code point is covered exactly when it lies in one of the spans. -/
theorem covers_iff {spans : List (Nat × Nat)} {code : Nat} :
    covers spans code = true ↔ ∃ span ∈ spans, span.1 ≤ code ∧ code ≤ span.2 := by
  simp [covers]

end Polyrhythm.Text
