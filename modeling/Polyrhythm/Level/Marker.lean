import Polyrhythm.Node
import Polyrhythm.Text.Digit
import Polyrhythm.Traversal

/-!
# Tempo markers and holds

A marker of a slash and a numeral speeds up what follows it by that factor; an asterisk and a second
numeral divide the factor. Markers compound and last to the end of the level they stand in. A marker
with a zero is refused, and so is one with more digits than can be read.
`Marker.read?` recognises markers, `applyMarkers` takes them out of a level and scales the tempos of
the elements after them. `tagHolds` turns every underscore into a hold.
-/

namespace Polyrhythm

/-- A run of digits: the number it writes, and how many digits it has, zeros in front counted. -/
structure Numeral where
  value : Nat
  length : Nat
deriving DecidableEq, Repr

/-- A numerator and a divisor: what a marker multiplies the tempo by. -/
structure Marker where
  numerator : Numeral
  divisor : Numeral
deriving DecidableEq, Repr

namespace Marker

/-- The rate of a marker. -/
def rate (marker : Marker) : Rat := mkRat marker.numerator.value marker.divisor.value

/-- Whether a marker multiplies or divides by zero. -/
def isVoid (marker : Marker) : Bool := marker.numerator.value = 0 || marker.divisor.value = 0

/-- The first numeral of a marker that has more digits than can be read. -/
def excess? (marker : Marker) : Option Numeral :=
  [marker.numerator, marker.divisor].find? fun numeral => Number.digitLimit < numeral.length

/-- Whether a marker cannot be used: it cannot be read, or it multiplies or divides by zero. -/
def isRefused (marker : Marker) : Bool := marker.excess?.isSome || marker.isVoid

/-- The fault of a marker that cannot be used. That it cannot be read is found first. -/
def refusal (marker : Marker) (content : String) (position : Option Position) : Fault :=
  match marker.excess? with
  | some numeral => .unreadableNumeral numeral.length
  | none => .invalidMarker content position

/-- Reads a numeral of at least one digit. -/
def readDigits? (digits : List Char) : Option Numeral :=
  if digits.isEmpty || !digits.all Text.isDigit then none
  else some ⟨Text.readNumeral digits, digits.length⟩

/-- Reads a marker: a slash and a numeral, perhaps followed by an asterisk and a numeral. -/
def read? (content : List Char) : Option Marker :=
  match content with
  | '/' :: rest =>
    let (numerator, rest) := rest.span Text.isDigit
    match rest with
    | [] => (readDigits? numerator).map (⟨·, ⟨1, 1⟩⟩)
    | '*' :: divisor => do return ⟨← readDigits? numerator, ← readDigits? divisor⟩
    | _ => none
  | _ => none

end Marker

/-- The marker that an element is, if it is one. -/
def Node.marker? : Node → Option Marker
  | .symbol s => Marker.read? s.content.toList
  | _ => none

/-- The content of a symbol, for the message about it. -/
def Node.contentText : Node → String
  | .symbol s => s.content
  | _ => ""

/-- Takes the markers out of the rest of a level, the tempo so far being known. -/
def applyMarkersFrom (tempo : Rat) : List Node → Except Fault (List Node)
  | [] => .ok []
  | n :: rest =>
    match n.marker? with
    | some marker =>
      if marker.isRefused then .error (marker.refusal n.contentText n.position?)
      else applyMarkersFrom (tempo * marker.rate) rest
    | none => do
      let n ← n.adjustTempo tempo
      let rest ← applyMarkersFrom tempo rest
      return n :: rest

/-- Takes the markers out of a level and scales the tempo of what follows them. -/
def applyMarkers (nodes : List Node) : Except Fault (List Node) := applyMarkersFrom 1 nodes

/-- The hold that an underscore stands for; any other element is left alone. -/
def Node.tagHold : Node → Node
  | .symbol s => if s.content = "_" then .hold ⟨s.position, s.tempo, none, none⟩ else .symbol s
  | n => n

/-- Turns every underscore of a level into a hold. -/
def tagHolds (nodes : List Node) : List Node := nodes.map Node.tagHold

/-- Taking markers out does not make a level longer. -/
theorem length_le_of_applyMarkersFrom {tempo : Rat} {nodes nodes' : List Node}
    (h : applyMarkersFrom tempo nodes = .ok nodes') : nodes'.length ≤ nodes.length := by
  induction nodes generalizing tempo nodes' with
  | nil => cases h; exact Nat.le_refl _
  | cons n rest ih =>
    rw [applyMarkersFrom] at h
    split at h
    · split at h
      · cases h
      · exact Nat.le_succ_of_le (ih h)
    · obtain ⟨m, -, h⟩ := Traversal.bind_eq_ok.1 h
      obtain ⟨ms, hms, h⟩ := Traversal.bind_eq_ok.1 h
      cases h
      exact Nat.succ_le_succ (ih hms)

/-- Turning underscores into holds keeps the number of elements. -/
@[simp]
theorem length_tagHolds (nodes : List Node) : (tagHolds nodes).length = nodes.length := by
  simp [tagHolds]

end Polyrhythm
