import Polyrhythm.Key
import Polyrhythm.Number.Arithmetic

/-!
# Settings

A configuration is a tree of settings: scalars, lists, and mappings with text keys. A part of it may
be anything, so every use of a setting says what happens when it has the wrong shape. Empty
settings, a zero and a missing one all count as absent where a default exists (`Setting.orElse`).
-/

namespace Polyrhythm

/-- A part of a configuration. -/
inductive Setting
  | missing
  | flag (value : Bool)
  | number (value : Quantity)
  | text (value : String)
  | list (items : List Setting)
  | mapping (entries : List (String × Setting))

namespace Setting

instance : Inhabited Setting := ⟨.missing⟩

/-- The empty mapping. -/
def empty : Setting := mapping []

/-- Whether a setting counts as absent where there is a default. -/
def isVoid : Setting → Bool
  | missing => true
  | flag value => !value
  | number value => value.isZero
  | text value => value.isEmpty
  | list items => items.isEmpty
  | mapping entries => entries.isEmpty

/-- A setting, or the default if it is void. -/
def orElse (setting default : Setting) : Setting := if setting.isVoid then default else setting

/-- The entry of a mapping under a key, if there is one; nothing else has entries. -/
def entry? (setting : Setting) (key : String) : Except Fault (Option Setting) :=
  match setting with
  | mapping entries => .ok (entries.lookup key)
  | _ => .error .noSuchPart

/-- The entry of a mapping under a key, or the default if it is absent or void. -/
def entryOr (setting : Setting) (key : String) (default : Setting) : Except Fault Setting := do
  return ((← setting.entry? key).getD default).orElse default

/-- A setting as a number, a flag counting as 0 or 1. -/
def quantity? : Setting → Option Quantity
  | number value => some value
  | flag value => some (.whole (if value then 1 else 0))
  | _ => none

/-- What a setting consists of: the items of a list, the keys of a mapping, the characters of a
text. A scalar consists of nothing and cannot be asked. -/
def members : Setting → Except Fault (List Setting)
  | list items => .ok items
  | mapping entries => .ok (entries.map fun entry => text entry.1)
  | text value => .ok (value.toList.map fun c => text c.toString)
  | missing | flag _ | number _ => .error .wrongType

/-- The key that a setting is; lists and mappings are none. -/
def key? : Setting → Option Key
  | missing => some .missing
  | flag value => some (.flag value)
  | number value => some (.number value)
  | text value => some (.name value)
  | list _ | mapping _ => none

/-- Settings that are all keys. -/
def keys (settings : List Setting) : Except Fault (List Key) :=
  (settings.mapM key?).elim (.error .wrongType) .ok

/-- Whether a setting is the given text. -/
def isText (value : String) : Setting → Bool
  | text other => value = other
  | _ => false

end Setting

end Polyrhythm
