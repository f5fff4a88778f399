import Polyrhythm.Fault

/-!
# Expression trees

A text of notation denotes a tree. Its leaves are symbols, which name sounds, and holds, which
lengthen the element before them; groups play their elements one after another, simuls together.
A sequence, whose segments share one length, exists only until durations are known, when it turns
into a group. After that, holds are gathered: an element with the holds after it becomes one held
element, whose slots are the durations of all of them.

Tempos are exact, and so are the durations of a tree that is read from a text. A tree whose
durations are numbers of another type can be had by changing them (`Node.mapDurations`). A duration
is missing until the tree is timed. Elements that are no notation can be part of a tree too
(`Node.foreign`); an operation that has to look at one refuses it.
-/

namespace Polyrhythm

/-- The name of a sound at a place of the text: a tempo by which its unit duration is divided, an
offset in semitones, and a duration once that is known. -/
structure Symbol (δ : Type := Rat) where
  content : String
  position : Option Position
  tempo : Rat
  pitch : Option Quantity
  duration : Option δ
deriving DecidableEq

/-- What a hold carries: its place and tempo, the slots it fills once it is gathered with the
element it lengthens, and a duration once that is known. -/
structure Hold (δ : Type := Rat) where
  position : Option Position
  tempo : Rat
  slots : Option (List δ)
  duration : Option δ
deriving DecidableEq

/-- An element of an expression, its durations being of the type `δ`. -/
inductive Node (δ : Type := Rat)
  /-- A symbol, a leaf. -/
  | symbol (symbol : Symbol δ)
  /-- A hold that is not gathered yet, a leaf. -/
  | hold (hold : Hold δ)
  /-- Elements played one after another; `isExplicit` marks those written between braces. -/
  | group (content : List (Node δ)) (isExplicit : Bool) (duration : Option δ)
  /-- Elements played together. -/
  | simul (content : List (Node δ)) (duration : Option δ)
  /-- Segments played one after another, each as long as the first. -/
  | sequence (content : List (Node δ))
  /-- An element gathered with the holds after it. -/
  | held (content : Node δ) (hold : Hold δ)
  /-- An element of some other kind, of which only the name is known. -/
  | foreign (kind : String)

/-- A symbol with its duration changed. -/
def Symbol.mapDuration {δ ε : Type} (change : δ → ε) (s : Symbol δ) : Symbol ε :=
  ⟨s.content, s.position, s.tempo, s.pitch, s.duration.map change⟩

/-- A hold with its duration and its slots changed. -/
def Hold.mapDurations {δ ε : Type} (change : δ → ε) (h : Hold δ) : Hold ε :=
  ⟨h.position, h.tempo, h.slots.map (List.map change), h.duration.map change⟩

namespace Node

variable {δ : Type}

instance : Inhabited (Node δ) := ⟨.group [] false none⟩

/-- The name of the kind of an element. A hold and a held element are of one kind. -/
def kind : Node δ → String
  | symbol _ => "Symbol"
  | hold _ | held .. => "Repetition"
  | group .. => "Group"
  | simul .. => "Simul"
  | sequence _ => "Sequence"
  | foreign kind => kind

/-- Whether an element is a leaf: its duration is set and not derived. -/
def isLeaf : Node δ → Bool
  | symbol _ | hold _ => true
  | _ => false

/-- The elements directly inside an element. -/
def children : Node δ → List (Node δ)
  | group content .. | simul content _ | sequence content => content
  | held content _ => [content]
  | symbol _ | hold _ | foreign _ => []

/-- The duration of an element, if it is known. A sequence and a foreign element have none. -/
def duration? : Node δ → Option δ
  | symbol s => s.duration
  | hold h | held _ h => h.duration
  | group _ _ duration | simul _ duration => duration
  | sequence _ | foreign _ => none

/-- Whether an element is the symbol with the given content. -/
def isSymbol (content : String) : Node δ → Bool
  | symbol s => s.content = content
  | _ => false

/-- The position of a leaf. -/
def position? : Node δ → Option Position
  | symbol s => s.position
  | hold h => h.position
  | _ => none

/-! ## Walking a tree -/

mutual
/-- An element and all inside it, each before what it holds. -/
def walk : Node δ → List (Node δ)
  | symbol s => [symbol s]
  | hold h => [hold h]
  | group content isExplicit duration => group content isExplicit duration :: walkAll content
  | simul content duration => simul content duration :: walkAll content
  | sequence content => sequence content :: walkAll content
  | held content h => held content h :: walk content
  | foreign kind => [foreign kind]

/-- `walk` over the elements of a list. -/
def walkAll : List (Node δ) → List (Node δ)
  | [] => []
  | n :: ns => walk n ++ walkAll ns
end

/-- The leaves of an element, in the order of the text. -/
def leaves (n : Node δ) : List (Node δ) := n.walk.filter isLeaf

mutual
/-- The kind of the first foreign element in a tree, if there is one. -/
def firstForeign : Node δ → Option String
  | symbol _ | hold _ => none
  | group content .. | simul content _ | sequence content => firstForeignOf content
  | held content _ => firstForeign content
  | foreign kind => some kind

/-- `firstForeign` over the elements of a list. -/
def firstForeignOf : List (Node δ) → Option String
  | [] => none
  | n :: ns => (firstForeign n).or (firstForeignOf ns)
end

/-- The result of a walk over a whole tree, which foreign elements make impossible. -/
def afterWalk {α : Type} (n : Node δ) (result : α) : Except Fault α :=
  match n.firstForeign with
  | some kind => .error (.unknownKind kind)
  | none => .ok result

/-! ## Tempo -/

mutual
/-- Multiplies the tempo of every leaf. -/
def scaleTempo (factor : Rat) : Node δ → Node δ
  | symbol s => symbol { s with tempo := s.tempo * factor }
  | hold h => hold { h with tempo := h.tempo * factor }
  | group content isExplicit duration => group (scaleTempoAll factor content) isExplicit duration
  | simul content duration => simul (scaleTempoAll factor content) duration
  | sequence content => sequence (scaleTempoAll factor content)
  | held content h => held (scaleTempo factor content) h
  | foreign kind => foreign kind

/-- `scaleTempo` over the elements of a list. -/
def scaleTempoAll (factor : Rat) : List (Node δ) → List (Node δ)
  | [] => []
  | n :: ns => scaleTempo factor n :: scaleTempoAll factor ns
end

/-- Multiplies the tempo of every leaf of a tree of notation. -/
def adjustTempo (factor : Rat) (n : Node δ) : Except Fault (Node δ) :=
  n.afterWalk (n.scaleTempo factor)

/-! ## Durations of another type -/

mutual
/-- Changes every duration and every slot of a tree. -/
def mapDurations {ε : Type} (change : δ → ε) : Node δ → Node ε
  | symbol s => symbol (s.mapDuration change)
  | hold h => hold (h.mapDurations change)
  | group content isExplicit duration =>
    group (mapDurationsAll change content) isExplicit (duration.map change)
  | simul content duration => simul (mapDurationsAll change content) (duration.map change)
  | sequence content => sequence (mapDurationsAll change content)
  | held content h => held (mapDurations change content) (h.mapDurations change)
  | foreign kind => foreign kind

/-- `mapDurations` over the elements of a list. -/
def mapDurationsAll {ε : Type} (change : δ → ε) : List (Node δ) → List (Node ε)
  | [] => []
  | n :: ns => mapDurations change n :: mapDurationsAll change ns
end

/-! ## Lists of elements -/

@[simp]
theorem mapDurationsAll_eq_map {ε : Type} (change : δ → ε) (ns : List (Node δ)) :
    mapDurationsAll change ns = ns.map (mapDurations change) := by
  induction ns with
  | nil => rfl
  | cons n ns ih => simp [mapDurationsAll, ih]

@[simp]
theorem walkAll_eq_flatMap (ns : List (Node δ)) : walkAll ns = ns.flatMap walk := by
  induction ns with
  | nil => rfl
  | cons n ns ih => simp [walkAll, ih]

@[simp]
theorem scaleTempoAll_eq_map (factor : Rat) (ns : List (Node δ)) :
    scaleTempoAll factor ns = ns.map (scaleTempo factor) := by
  induction ns with
  | nil => rfl
  | cons n ns ih => simp [scaleTempoAll, ih]

/-- The leaves of a leaf are the leaf itself. -/
theorem leaves_of_isLeaf {n : Node δ} (h : n.isLeaf = true) : n.leaves = [n] := by
  cases n <;> simp_all [leaves, walk, isLeaf]

end Node

end Polyrhythm
