import Polyrhythm.Fault
import Polyrhythm.Number.Order

/-!
# Keys

What a table or a set can have as key: mostly names, but a configuration may put a number, a truth
value or nothing at all in the place of a name. Numbers and truth values are one key if they have
one value, a truth value counting as 0 or 1. Names are sorted by their code points and the others by
their value; names and others have no common order (`Key.sort`).
-/

namespace Polyrhythm

/-- A key. -/
inductive Key
  | name (s : String)
  | number (value : Quantity)
  | flag (value : Bool)
  | missing
deriving DecidableEq

namespace Key

/-- The name that a key is. -/
def name? : Key → Option String
  | name s => some s
  | _ => none

/-- The value of a key, by which it is compared. -/
def value? : Key → Option Quantity
  | number value => some value
  | flag value => some (.whole (if value then 1 else 0))
  | name _ | missing => none

/-- Whether two keys are one. -/
def same (a b : Key) : Bool :=
  match a.value?, b.value? with
  | some p, some q => p.sameValue q
  | none, none => a = b
  | _, _ => false

/-- Keys with one more key, unless it is among them. -/
def insert (keys : List Key) (key : Key) : List Key :=
  if keys.any key.same then keys else keys ++ [key]

/-- Keys in order. A single key is in order, whatever it is. -/
def sort (keys : List Key) : Except Fault (List Key) :=
  if keys.length ≤ 1 then .ok keys
  else match keys.mapM name?, keys.mapM value? with
    | some names, _ => .ok ((names.mergeSort fun a b => decide (a ≤ b)).map name)
    | none, some values => .ok ((Quantity.sortBy Prod.snd (keys.zip values)).map Prod.fst)
    | none, none => .error .wrongType

end Key

end Polyrhythm
