import Polyrhythm.Setting
import Polyrhythm.Sound.Table

/-!
# The sounds of a configuration

The section `symbols` of a configuration names the notes that a text may use, usually each with its
number on the keyboard; the section `continuous` lists those that are held where they are repeated.
Either section may be given as a list or a text, whose members are then the names.
-/

namespace Polyrhythm

/-- The table of the notes that a configuration names. -/
def Table.ofConfiguration (configuration : Setting) : Except Fault Table := do
  let continuous ← configuration.entryOr "continuous" (.list [])
  let continuous ← continuous.members >>= Setting.keys
  let symbols ← configuration.entryOr "symbols" .empty
  let symbols ← symbols.members >>= Setting.keys
  return symbols.foldl (fun table key => table.addKey key (continuous.any key.same)) .initial

end Polyrhythm
