import Polyrhythm.Level.Brace
import Polyrhythm.Level.Marker
import Polyrhythm.Level.Separator
import Polyrhythm.Token

/-!
# From tokens to a tree

A level is read in five passes over its elements: blocks between braces become elements, tempo
markers are taken out, underscores become holds, commas make a simul, and periods make a sequence.
The content of a block and the parts between separators are levels themselves and go through the
same five passes (`readLevel`). A level of one element is that element; any other is a group.

Every inner level has fewer elements than the one it is part of, because a brace or a separator
stays behind. So the number of elements bounds how deep levels are nested (`readLevelWithin`), and
reading a level is what the passes do with reading itself (`readLevel_eq`).
-/

namespace Polyrhythm

/-- The five passes over a level, `readInner` reading the levels inside it: with `true` the content
of a block between braces, with `false` a part between separators. -/
def passes (readInner : Bool → List Node → Except Fault Node) (nodes : List Node) :
    Except Fault (List Node) :=
  groupBraces (readInner true) nodes >>= applyMarkers >>= (fun nodes => .ok (tagHolds nodes)) >>=
    splitCommas (readInner false) >>= splitPeriods (readInner false)

/-- One element for the elements that the passes leave. -/
def wrapLevel (isExplicit : Bool) : List Node → Node
  | [n] => n
  | nodes => .group nodes isExplicit none

/-- Reads a level whose inner levels are nested less deep than a bound. At the bound 0, which is
never reached, the elements are grouped as they are. -/
def readLevelWithin : Nat → Bool → List Node → Except Fault Node
  | 0, isExplicit, nodes => .ok (wrapLevel isExplicit nodes)
  | bound + 1, isExplicit, nodes => do
    return wrapLevel isExplicit (← passes (readLevelWithin bound) nodes)

/-- Reads a level: one element for the elements of a block between braces (`isExplicit`), of a part
between separators, or of a whole text. -/
def readLevel (isExplicit : Bool) (nodes : List Node) : Except Fault Node :=
  readLevelWithin (nodes.length + 1) isExplicit nodes

/-! ## The bound does not matter -/

/-- Two readers that agree on all levels shorter than a level pass over it in the same way. -/
theorem passes_congr {read read' : Bool → List Node → Except Fault Node} {nodes : List Node}
    (h : ∀ isExplicit (ns : List Node), ns.length < nodes.length →
      read isExplicit ns = read' isExplicit ns) :
    passes read nodes = passes read' nodes := by
  rw [passes, passes, groupBraces_congr (h true)]
  cases hbraces : groupBraces (read' true) nodes with
  | error fault => rfl
  | ok grouped =>
    have hgrouped := length_le_of_groupBraces hbraces
    change applyMarkers grouped >>= _ >>= _ >>= _ = applyMarkers grouped >>= _ >>= _ >>= _
    cases hmarkers : applyMarkers grouped with
    | error fault => rfl
    | ok timed =>
      have htimed := length_le_of_applyMarkersFrom hmarkers
      have hshort : ∀ ns : List Node, ns.length < (tagHolds timed).length →
          read false ns = read' false ns := by
        intro ns hns
        rw [length_tagHolds] at hns
        exact h false ns (by omega)
      change splitCommas (read false) (tagHolds timed) >>= _ =
        splitCommas (read' false) (tagHolds timed) >>= _
      rw [splitCommas, splitCommas, splitAt_congr hshort]
      cases hcommas :
          splitAt "," (fun parts => .simul parts none) (read' false) (tagHolds timed) with
      | error fault => rfl
      | ok parted =>
        change splitPeriods (read false) parted = splitPeriods (read' false) parted
        rcases splitAt_eq_ok hcommas with ⟨parts, rfl⟩ | rfl
        · rfl
        · exact splitAt_congr hshort

/-- Every bound above the number of elements gives the same reading. -/
theorem readLevelWithin_eq {bound bound' : Nat} {isExplicit : Bool} {nodes : List Node}
    (h : nodes.length < bound) (h' : nodes.length < bound') :
    readLevelWithin bound isExplicit nodes = readLevelWithin bound' isExplicit nodes := by
  induction bound generalizing bound' isExplicit nodes with
  | zero => cases h
  | succ bound ih =>
    cases bound' with
    | zero => cases h'
    | succ bound' =>
      have hinner : passes (readLevelWithin bound) nodes = passes (readLevelWithin bound') nodes :=
        passes_congr fun isExplicit ns hns => ih (by omega) (by omega)
      rw [readLevelWithin, readLevelWithin, hinner]

/-- A level is read by passing over it, the levels inside it being read in the same way. -/
theorem readLevel_eq (isExplicit : Bool) (nodes : List Node) :
    readLevel isExplicit nodes = (do return wrapLevel isExplicit (← passes readLevel nodes)) := by
  have hinner : passes (readLevelWithin nodes.length) nodes = passes readLevel nodes :=
    passes_congr fun isExplicit ns hns => readLevelWithin_eq hns (Nat.lt_succ_self _)
  rw [readLevel, readLevelWithin, hinner]

/-! ## Whole texts -/

/-- The symbol for a token, at the tempo of the text. -/
def Token.symbol (t : Token) : Node := .symbol ⟨t.content, some t.position, 1, none, none⟩

/-- The tree that a list of tokens writes, before durations are known. -/
def build (tokens : List Token) : Except Fault Node := readLevel false (tokens.map Token.symbol)

end Polyrhythm
