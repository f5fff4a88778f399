import Polyrhythm.Level
import Polyrhythm.Node.Outline
import Polyrhythm.Timing.Gather
import Polyrhythm.Timing.Settle
import Polyrhythm.Token.Lexer

/-!
# Timed trees

`Node.annotate` gives a built tree its durations and then gathers its holds; `parse` does so for a
text. A tree that was put together by other means than `build` may hold what cannot be shown, and
is refused then.
-/

namespace Polyrhythm

/-- Settles the durations of a tree and gathers its holds. -/
def Node.timed (root : Node) : Except Fault Node := do
  let settled ← Node.settleAll [root]
  (settled.headD root).gather

/-- Times a tree that can be shown. -/
def Node.annotate (root : Node) : Except Fault Node := do
  let tree ← root.timed
  let _ ← tree.outline 0
  return tree

/-- The timed tree of a text of notation. -/
def parse (text : String) : Except Fault Node := do
  let tokens ← tokenize text
  let tree ← build tokens
  tree.annotate

end Polyrhythm
