import Polyrhythm.Level
import Polyrhythm.Proofs.Grammar.Parts
import Polyrhythm.Proofs.Token.Lines
import Polyrhythm.Proofs.Tree.Tempo

/-!
# Building up to positions

No pass over a level looks at a position: positions are carried along, into the leaves of the tree
or into the fault. So tokens at other positions are built into the tree with its positions moved in
the same way, or refused with the position of the fault moved (`build_moved`), and what is built
from tokens depends on their contents alone, up to positions (`unplaced_build`).
-/

namespace Polyrhythm

open Traversal

variable {f : Position → Position}

/-! ## Moved trees -/

namespace Node

mutual
/-- A tree with the position of every leaf moved. -/
def moved (f : Position → Position) : Node → Node
  | symbol s => symbol { s with position := s.position.map f }
  | hold h => hold { h with position := h.position.map f }
  | group content isExplicit duration => group (movedEach f content) isExplicit duration
  | simul content duration => simul (movedEach f content) duration
  | sequence content => sequence (movedEach f content)
  | held content h => held (moved f content) { h with position := h.position.map f }
  | foreign kind => foreign kind

/-- `moved` over the elements of a list. -/
def movedEach (f : Position → Position) : List Node → List Node
  | [] => []
  | n :: ns => moved f n :: movedEach f ns
end

@[simp]
theorem movedEach_eq_map (f : Position → Position) (ns : List Node) :
    movedEach f ns = ns.map (moved f) := by
  induction ns with
  | nil => rfl
  | cons n ns ih => rw [movedEach, ih, List.map_cons]

@[simp]
theorem isSymbol_moved (f : Position → Position) (content : String) (n : Node) :
    (n.moved f).isSymbol content = n.isSymbol content := by
  cases n <;> rfl

@[simp]
theorem marker?_moved (f : Position → Position) (n : Node) : (n.moved f).marker? = n.marker? := by
  cases n <;> rfl

@[simp]
theorem contentText_moved (f : Position → Position) (n : Node) :
    (n.moved f).contentText = n.contentText := by
  cases n <;> rfl

@[simp]
theorem position?_moved (f : Position → Position) (n : Node) :
    (n.moved f).position? = n.position?.map f := by
  cases n <;> rfl

/-- The tempo of a leaf has nothing to do with its position. -/
theorem scaleTempo_moved (f : Position → Position) (factor : Rat) (n : Node) :
    (n.moved f).scaleTempo factor = (n.scaleTempo factor).moved f := by
  have each {content : List Node}
      (ih : ∀ c ∈ content, (c.moved f).scaleTempo factor = (c.scaleTempo factor).moved f) :
      (content.map (moved f)).map (scaleTempo factor) =
        (content.map (scaleTempo factor)).map (moved f) := by
    rw [List.map_map, List.map_map]
    exact List.map_congr_left ih
  induction n with
  | symbol | hold | foreign => rfl
  | group content isExplicit duration ih =>
    simp only [moved, movedEach_eq_map, scaleTempo, scaleTempoAll_eq_map, each ih]
  | simul content duration ih =>
    simp only [moved, movedEach_eq_map, scaleTempo, scaleTempoAll_eq_map, each ih]
  | sequence content ih =>
    simp only [moved, movedEach_eq_map, scaleTempo, scaleTempoAll_eq_map, each ih]
  | held content h ih => simp only [moved, scaleTempo, ih]

/-- A tree has the same foreign elements. -/
theorem firstForeign_moved (f : Position → Position) (n : Node) :
    (n.moved f).firstForeign = n.firstForeign := by
  have each {content : List Node}
      (ih : ∀ c ∈ content, (c.moved f).firstForeign = c.firstForeign) :
      firstForeignOf (content.map (moved f)) = firstForeignOf content := by
    induction content with
    | nil => rfl
    | cons c cs ihcs =>
      rw [List.map_cons, firstForeignOf, firstForeignOf, ih c List.mem_cons_self,
        ihcs fun d hd => ih d (List.mem_cons_of_mem _ hd)]
  induction n with
  | symbol | hold | foreign => rfl
  | group content isExplicit duration ih =>
    simp only [moved, movedEach_eq_map, firstForeign, each ih]
  | simul content duration ih => simp only [moved, movedEach_eq_map, firstForeign, each ih]
  | sequence content ih => simp only [moved, movedEach_eq_map, firstForeign, each ih]
  | held content h ih => simp only [moved, firstForeign, ih]

/-- Changing the tempo of a moved tree changes that of the tree, or fails alike. -/
theorem adjustTempo_moved (f : Position → Position) (factor : Rat) (n : Node) :
    (n.moved f).adjustTempo factor = bimap (Fault.moved f) (moved f) (n.adjustTempo factor) := by
  rw [adjustTempo, adjustTempo, afterWalk, afterWalk, firstForeign_moved, scaleTempo_moved]
  cases n.firstForeign <;> rfl

/-- An underscore becomes a hold wherever it stands. -/
theorem tagHold_moved (f : Position → Position) (n : Node) :
    (n.moved f).tagHold = n.tagHold.moved f := by
  cases n with
  | symbol s =>
    rw [moved, tagHold, tagHold]
    split <;> rfl
  | _ => rfl

end Node

open Node

/-! ## Blocks -/

/-- A part with its positions moved. -/
def Part.moved (f : Position → Position) : Part → Part
  | .single n => .single (n.moved f)
  | .block content => .block (content.map (Node.moved f))

/-- A cut with its positions moved. -/
def Cut.moved (f : Position → Position) (cut : Cut) : Cut :=
  ⟨cut.parts.map (Part.moved f), cut.fault.map (Fault.moved f)⟩

/-- An open block with its positions moved. -/
def OpenBlock.moved (f : Position → Position) (block : OpenBlock) : OpenBlock :=
  ⟨block.openedAt.map f, block.inner, block.content.map (Node.moved f)⟩

/-- A level is cut at the same braces. -/
theorem cutFrom_moved (f : Position → Position) (state : Option OpenBlock) (nodes : List Node) :
    cutFrom (state.map (OpenBlock.moved f)) (nodes.map (moved f)) =
      (cutFrom state nodes).moved f := by
  induction nodes generalizing state with
  | nil => cases state <;> rfl
  | cons n rest ih =>
    cases state with
    | none =>
      rw [List.map_cons, Option.map_none, cutFrom, cutFrom, isSymbol_moved, isSymbol_moved,
        position?_moved]
      split
      · exact ih (some ⟨n.position?, 0, []⟩)
      · split
        · rfl
        · exact congrArg (Cut.add _) (ih none)
    | some block =>
      rw [List.map_cons, Option.map_some, cutFrom, cutFrom, isSymbol_moved, isSymbol_moved]
      split
      · exact ih (some ⟨block.openedAt, block.inner + 1, n :: block.content⟩)
      · split
        · obtain ⟨openedAt, inner, content⟩ := block
          cases inner with
          | zero =>
            have hcontent : (content.map (moved f)).reverse = content.reverse.map (moved f) :=
              List.map_reverse.symm
            exact congrArg₂ (fun ns => Cut.add (.block ns)) hcontent (ih none)
          | succ inner => exact ih (some ⟨openedAt, inner, n :: content⟩)
        · exact ih (some (block.push n))

/-- Blocks are read alike if their contents are. -/
theorem groupBraces_moved {read : List Node → Except Fault Node}
    (h : ∀ ns, read (ns.map (moved f)) = bimap (Fault.moved f) (moved f) (read ns))
    (nodes : List Node) :
    groupBraces read (nodes.map (moved f)) =
      bimap (Fault.moved f) (List.map (moved f)) (groupBraces read nodes) := by
  have hcut : cutBlocks (nodes.map (moved f)) = (cutBlocks nodes).moved f :=
    cutFrom_moved f none nodes
  have hpart (part : Part) :
      (part.moved f).read read = bimap (Fault.moved f) (moved f) (part.read read) := by
    cases part with
    | single n => rfl
    | block content => exact h content
  have hfault : ((cutBlocks nodes).moved f).fault = (cutBlocks nodes).fault.map (Fault.moved f) :=
    rfl
  rw [groupBraces, groupBraces, hcut]
  refine bind_eq_bimap (mapM_eq_bimap fun part _ => hpart part) fun elements => ?_
  rw [hfault]
  cases (cutBlocks nodes).fault <;> rfl

/-! ## Markers and separators -/

/-- A marker is refused alike. -/
theorem refusal_moved (f : Position → Position) (marker : Marker) (content : String)
    (position : Option Position) :
    (marker.refusal content position).moved f = marker.refusal content (position.map f) := by
  rw [Marker.refusal, Marker.refusal]
  split <;> rfl

/-- Markers are taken out alike. -/
theorem applyMarkersFrom_moved (f : Position → Position) (tempo : Rat) (nodes : List Node) :
    applyMarkersFrom tempo (nodes.map (moved f)) =
      bimap (Fault.moved f) (List.map (moved f)) (applyMarkersFrom tempo nodes) := by
  induction nodes generalizing tempo with
  | nil => rfl
  | cons n rest ih =>
    rw [List.map_cons, applyMarkersFrom, applyMarkersFrom, marker?_moved, contentText_moved,
      position?_moved]
    split
    · split
      · exact congrArg Except.error (refusal_moved f ..).symm
      · exact ih _
    · exact bind_eq_bimap (adjustTempo_moved f tempo n) fun m =>
        bind_eq_bimap (ih tempo) fun ms => rfl

/-- Underscores become holds alike. -/
theorem tagHolds_moved (f : Position → Position) (nodes : List Node) :
    tagHolds (nodes.map (moved f)) = (tagHolds nodes).map (moved f) := by
  rw [tagHolds, tagHolds, List.map_map, List.map_map]
  exact List.map_congr_left fun n _ => tagHold_moved f n

/-- A level is split alike if its parts are read and joined alike. -/
theorem splitAt_moved {separator : String} {join : List Node → Node}
    {read : List Node → Except Fault Node}
    (hjoin : ∀ ns, join (ns.map (moved f)) = (join ns).moved f)
    (hread : ∀ ns, read (ns.map (moved f)) = bimap (Fault.moved f) (moved f) (read ns))
    (nodes : List Node) :
    splitAt separator join read (nodes.map (moved f)) =
      bimap (Fault.moved f) (List.map (moved f)) (splitAt separator join read nodes) := by
  have hsame : isSymbol separator ∘ moved f = isSymbol separator :=
    funext (isSymbol_moved f separator)
  rw [splitAt, splitAt, List.any_map, hsame, chunks_eq_partsBetween, chunks_eq_partsBetween,
    partsBetween_map, hsame]
  split
  · refine bind_eq_bimap (mapM_eq_bimap fun chunk _ => hread chunk) fun parts => ?_
    exact congrArg (fun n => Except.ok [n]) (hjoin parts)
  · rfl

/-! ## Levels -/

/-- A level is passed over alike if the levels inside it are read alike. -/
theorem passes_moved {read : Bool → List Node → Except Fault Node}
    (h : ∀ isExplicit ns,
      read isExplicit (ns.map (moved f)) = bimap (Fault.moved f) (moved f) (read isExplicit ns))
    (nodes : List Node) :
    passes read (nodes.map (moved f)) =
      bimap (Fault.moved f) (List.map (moved f)) (passes read nodes) := by
  have hsimul (ns : List Node) : simul (ns.map (moved f)) none = (simul ns none).moved f := by
    rw [moved, movedEach_eq_map]
  have hsequence (ns : List Node) : sequence (ns.map (moved f)) = (sequence ns).moved f := by
    rw [moved, movedEach_eq_map]
  -- The passes one after another, the last first: each of them is passed over alike.
  refine bind_eq_bimap ?_ (splitAt_moved hsequence (h false))
  refine bind_eq_bimap ?_ (splitAt_moved hsimul (h false))
  refine bind_eq_bimap ?_ fun ns => congrArg Except.ok (tagHolds_moved f ns)
  exact bind_eq_bimap (groupBraces_moved (h true) nodes) (applyMarkersFrom_moved f 1)

/-- A level of one element is that element wherever it stands. -/
theorem wrapLevel_moved (f : Position → Position) (isExplicit : Bool) (nodes : List Node) :
    wrapLevel isExplicit (nodes.map (moved f)) = (wrapLevel isExplicit nodes).moved f := by
  rcases nodes with - | ⟨n, - | ⟨m, rest⟩⟩
  · rfl
  · rfl
  · simp [wrapLevel, moved]

/-- A level is read alike, whatever the bound: every level inside is read in the same way. -/
theorem readLevelWithin_moved (f : Position → Position) (bound : Nat) (isExplicit : Bool)
    (nodes : List Node) :
    readLevelWithin bound isExplicit (nodes.map (moved f)) =
      bimap (Fault.moved f) (moved f) (readLevelWithin bound isExplicit nodes) := by
  induction bound generalizing isExplicit nodes with
  | zero => exact congrArg Except.ok (wrapLevel_moved f isExplicit nodes)
  | succ bound ih =>
    refine bind_eq_bimap (passes_moved ih nodes) fun out => ?_
    exact congrArg Except.ok (wrapLevel_moved f isExplicit out)

/-! ## Texts -/

/-- Moved tokens are built into the moved tree, or refused with a moved fault. -/
theorem build_moved (f : Position → Position) (tokens : List Token) :
    build (tokens.map (Token.moved f)) = bimap (Fault.moved f) (moved f) (build tokens) := by
  have hsymbols : (tokens.map (Token.moved f)).map Token.symbol =
      (tokens.map Token.symbol).map (moved f) := by
    rw [List.map_map, List.map_map]
    rfl
  rw [build, build, hsymbols, readLevel, List.length_map]
  exact readLevelWithin_moved f _ false _

/-- What is built, up to positions: all of them are moved to the start of the text. -/
def unplaced (built : Except Fault Node) : Except Fault Node :=
  bimap (Fault.moved fun _ => .start) (moved fun _ => .start) built

/-- Tokens with the same contents are built into the same tree, or refused for the same reason, up
to positions. -/
theorem unplaced_build {tokens tokens' : List Token}
    (h : tokens.map Token.content = tokens'.map Token.content) :
    unplaced (build tokens) = unplaced (build tokens') := by
  have hplaced (ts : List Token) : ts.map (Token.moved fun _ => .start) =
      (ts.map Token.content).map (Token.mk · .start) := by
    rw [List.map_map]
    rfl
  rw [unplaced, unplaced, ← build_moved, ← build_moved, hplaced, hplaced, h]

end Polyrhythm
