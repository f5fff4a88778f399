import Polyrhythm.Key
import Polyrhythm.Sound

/-!
# Tables of sounds

A table keeps a prototype for each name it knows. `Table.resolve` finds the prototype of a name
and fits it to a duration. Every table starts with the rest `-`, which resolves to silence, but
may replace or forget it.
-/

namespace Polyrhythm

/-- The name of the rest. -/
def restName : String := "-"

/-- Prototypes by name. A table set up from a configuration may also have keys that are no names;
they cannot be looked up, and are only listed. -/
structure Table where
  entries : List (String × Sound)
  otherKeys : List Key

namespace Table

/-- The table that knows the rest only. -/
def initial : Table := ⟨[(restName, .pause (.whole 1))], []⟩

/-- The prototype of a name. -/
def find? (table : Table) (name : String) : Option Sound := table.entries.lookup name

/-- Whether a table knows a name. -/
def contains (table : Table) (name : String) : Bool := (table.find? name).isSome

/-- Forgets a name; one that is not known is forgotten already. -/
def remove (table : Table) (name : String) : Table :=
  { table with entries := table.entries.filter fun entry => entry.1 != name }

/-- Keeps a prototype under a name, in place of the one kept before. -/
def add (table : Table) (name : String) (prototype : Sound) : Table :=
  { table with entries := (name, prototype) :: (table.remove name).entries }

/-- Keeps a note of one unit under its own name. -/
def addNote (table : Table) (name : String) (isContinuous : Bool) : Table :=
  table.add name (.note name (.whole 1) none isContinuous)

/-- A note of one unit, under a key that is a name or not. -/
def addKey (table : Table) (key : Key) (isContinuous : Bool) : Table :=
  match key with
  | .name name => table.addNote name isContinuous
  | _ => { table with otherKeys := Key.insert table.otherKeys key }

/-- All keys in order. -/
def keys (table : Table) : Except Fault (List Key) :=
  Key.sort (table.entries.map (fun entry => .name entry.1) ++ table.otherKeys)

/-- The prototype of a name, fitted to a duration. -/
def resolve (table : Table) (name : String) (duration : Quantity) : Except Fault Sound :=
  match table.find? name with
  | some prototype => prototype.fit duration
  | none => .error (.unknownSound name none)

/-- A name that was added is found. -/
@[simp]
theorem find?_add_self (table : Table) (name : String) (prototype : Sound) :
    (table.add name prototype).find? name = some prototype := by
  simp [find?, add]

/-- Forgetting a name does not touch the others. -/
theorem find?_remove_other (table : Table) {name other : String} (h : other ≠ name) :
    (table.remove name).find? other = table.find? other := by
  obtain ⟨entries, otherKeys⟩ := table
  have hne : (other == name) = false := by simpa using h
  simp only [find?, remove]
  induction entries with
  | nil => rfl
  | cons entry entries ih =>
    obtain ⟨key, prototype⟩ := entry
    by_cases hkey : key = name
    · subst hkey
      simpa [List.lookup_cons, hne] using ih
    · simp [hkey, List.lookup_cons, ih]

/-- Adding a name does not touch the others. -/
theorem find?_add_other (table : Table) {name other : String} (prototype : Sound)
    (h : other ≠ name) : (table.add name prototype).find? other = table.find? other := by
  have hne : (other == name) = false := by simpa using h
  rw [← find?_remove_other table h]
  simp [find?, add, List.lookup_cons, hne]

end Table

end Polyrhythm
