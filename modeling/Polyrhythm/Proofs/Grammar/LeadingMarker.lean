import Polyrhythm.Proofs.Grammar.Numeral
import Polyrhythm.Proofs.Grammar.Scope
import Polyrhythm.Proofs.Timing.Faster
import Polyrhythm.Proofs.Tree.Written

/-!
# A marker in front of a text

A marker in front of a text reaches every leaf of it. It is taken out with the other markers, once
the blocks have been read, and is in the way of no fault before that (`taken_cons_marker`). So the
text with the marker is built into the tree without it at another tempo, or is refused for the same
reason (`build_cons_marker`), and it is annotated to the same tree played faster
(`annotate_of_marker`).
-/

namespace Polyrhythm

open Traversal Node

variable {t : Token} {tokens : List Token} {marker : Marker}

/-! ## Blocks and markers -/

/-- Starting from another tempo changes the tempo of all that is left, and the same markers are
refused. -/
theorem applyMarkersFrom_mul (tempo r : Rat) (nodes : List Node) :
    applyMarkersFrom (tempo * r) nodes =
      (applyMarkersFrom tempo nodes).map (List.map (scaleTempo r)) := by
  induction nodes generalizing tempo with
  | nil => rfl
  | cons n rest ih =>
    have hadjust : n.adjustTempo (tempo * r) = (n.adjustTempo tempo).map (scaleTempo r) := by
      rw [adjustTempo, adjustTempo, afterWalk, afterWalk, ← scaleTempo_scaleTempo]
      cases n.firstForeign <;> rfl
    rw [applyMarkersFrom, applyMarkersFrom]
    split
    · split
      · rfl
      · rw [mul_right_comm]
        exact ih _
    · exact bind_eq_map hadjust fun m => bind_eq_map (ih tempo) fun ms => rfl

/-! ## Building -/

/-- The elements of a text once its blocks are read and its markers are taken out. -/
def taken (tokens : List Token) : Except Fault (List Node) :=
  groupBraces (readLevel true) (tokens.map Token.symbol) >>= applyMarkers

/-- What goes wrong before the text is split is what goes wrong with the text. -/
theorem build_of_taken {fault : Fault} (h : taken tokens = .error fault) :
    build tokens = .error fault := by
  unfold taken at h
  rw [build, readLevel_eq, passes, h]
  rfl

/-- A marker in front of a text changes the tempo of all its elements. -/
theorem taken_cons_marker (h : t.marker? = some marker) (hrefused : marker.isRefused = false) :
    taken (t :: tokens) = (taken tokens).map (List.map (scaleTempo marker.rate)) := by
  obtain ⟨ho, hc⟩ := Token.not_brace_of_marker h
  have hsymbol : t.symbol.marker? = some marker := h
  refine bind_eq_map (groupBraces_cons ho hc _ _) fun grouped => ?_
  rw [applyMarkers, applyMarkersFrom, hsymbol]
  simp only [hrefused, Bool.false_eq_true, if_false]
  exact applyMarkersFrom_mul 1 marker.rate grouped

/-- A text with a marker in front is built into the tree of the text at another tempo, or refused
for the same reason. -/
theorem build_cons_marker (h : t.marker? = some marker) (hrefused : marker.isRefused = false) :
    build (t :: tokens) = (build tokens).map (scaleTempo marker.rate) := by
  have htaken : taken (t :: tokens) = (taken tokens).map (List.map (scaleTempo marker.rate)) :=
    taken_cons_marker h hrefused
  cases hrun : taken tokens with
  | error fault =>
    rw [hrun] at htaken
    rw [build_of_taken hrun, build_of_taken htaken]
    rfl
  | ok timed =>
    obtain ⟨grouped, hgrouped, htimed⟩ := bind_eq_ok.1 hrun
    obtain ⟨hmatch, hrates⟩ := readable_of_markers hgrouped htimed
    obtain ⟨items, hitems⟩ := exists_spells_of_bracesMatch hmatch
    have hmarker : t.isRefused = false := by rw [Token.isRefused, h]; exact hrefused
    obtain ⟨ho, hc⟩ := Token.not_brace_of_marker h
    have hspells : Spells (t :: tokens) (.leaf t :: items) := .leaf ho hc hitems
    rw [hspells.build (List.forall_mem_cons.2 ⟨hmarker, hrates⟩), hitems.build hrates]
    refine congrArg Except.ok ?_
    rw [scaleTempo_assemble, assemble_eq_arrange, Item.pieces, Item.piece,
      Token.piece_of_marker h, pace_marker, one_mul]

/-- A text with a marker in front that cannot be read is refused: for the fault of a block, which
the text without the marker is refused for as well, or for the marker. -/
theorem build_cons_unreadable {numeral : Numeral} (h : t.marker? = some marker)
    (hexcess : marker.excess? = some numeral) (tokens : List Token) :
    (∃ fault, build tokens = .error fault ∧ build (t :: tokens) = .error fault) ∨
      build (t :: tokens) = .error (.unreadableNumeral numeral.length) := by
  obtain ⟨ho, hc⟩ := Token.not_brace_of_marker h
  have hgroup := groupBraces_cons ho hc (readLevel true) (tokens.map Token.symbol)
  cases hgrouped : groupBraces (readLevel true) (tokens.map Token.symbol) with
  | error fault =>
    have htaken : taken tokens = .error fault := by rw [taken, hgrouped]; rfl
    have htaken' : taken (t :: tokens) = .error fault := by
      rw [taken, List.map_cons, hgroup, hgrouped]
      rfl
    exact .inl ⟨fault, build_of_taken htaken, build_of_taken htaken'⟩
  | ok grouped =>
    have hsymbol : t.symbol.marker? = some marker := h
    have hrefused : marker.isRefused = true := by rw [Marker.isRefused, hexcess]; rfl
    refine .inr (build_of_taken ?_)
    rw [taken, List.map_cons, hgroup, hgrouped]
    change applyMarkersFrom 1 (t.symbol :: grouped) = _
    rw [applyMarkersFrom, hsymbol]
    simp only [hrefused, if_true, Marker.refusal, hexcess]

/-! ## Annotating -/

/-- A text with a marker in front is timed to the tree of the text played faster by the rate of the
marker: every tempo multiplied, every duration and slot divided, and all else as it is. If the text
is refused, so is the text with the marker, with the same fault. It is the same for annotating
exactly if both trees, or neither, can be written. All this takes a marker that can be read: the
text with another one in front is always refused. -/
theorem annotate_of_marker (h : t.marker? = some marker) (hvoid : marker.isVoid = false)
    (tokens : List Token) :
    (marker.excess? = none →
      (build (t :: tokens) >>= timed) = (build tokens >>= timed).map (faster marker.rate) ∧
      ((build (t :: tokens) >>= annotate) =
          (build tokens >>= annotate).map (faster marker.rate) ↔
        ∀ tree, (build tokens >>= timed) = .ok tree →
          (tree.faster marker.rate).isWritable = tree.isWritable)) ∧
    ∀ numeral, marker.excess? = some numeral →
      (∃ fault, build tokens = .error fault ∧ build (t :: tokens) = .error fault) ∨
        build (t :: tokens) = .error (.unreadableNumeral numeral.length) := by
  refine ⟨fun hread => ?_, fun numeral hexcess => build_cons_unreadable h hexcess tokens⟩
  have hrefused : marker.isRefused = false := by
    rw [Marker.isRefused, hread, hvoid]
    rfl
  rw [build_cons_marker h hrefused]
  cases hroot : build tokens with
  | error fault =>
    refine ⟨rfl, fun _ tree htree => ?_, fun _ => rfl⟩
    cases htree
  | ok root =>
    have hwritten := written_of_build hroot
    have hrate := Marker.rate_pos hvoid
    have htimed := timed_scaleTempo hrate hwritten
    refine ⟨htimed, ?_⟩
    change (root.scaleTempo marker.rate).annotate = root.annotate.map (faster marker.rate) ↔
      ∀ tree, root.timed = .ok tree → _
    rw [annotate_eq (hwritten.scaleTempo hrate), annotate_eq hwritten, htimed]
    cases root.timed with
    | error fault =>
      refine ⟨fun _ tree htree => ?_, fun _ => rfl⟩
      cases htree
    | ok tree =>
      change (tree.faster marker.rate).writable = tree.writable.map (faster marker.rate) ↔ _
      rw [writable, writable]
      cases hfaster : (tree.faster marker.rate).isWritable <;> cases htree : tree.isWritable <;>
        simp [Except.map, hfaster, htree]

/-- A marker in front of a text with a hold, an empty block and a part that is fitted to another. -/
theorem annotate_of_marker_held :
    ∃ t marker tokens tree, t.content = "/3*2" ∧ t.marker? = some marker ∧ marker.rate = 3 / 2 ∧
      tokens.map Token.content = ["a", "_", ".", "\x7b", "\x7d", ",", "/5", "b"] ∧
      (build tokens >>= annotate) = .ok tree ∧
      (build (t :: tokens) >>= annotate) = .ok (tree.faster (3 / 2)) := by
  obtain ⟨t, marker, tokens, hcontent, hmarker, hrate, hvoid, hread, hcontents, hrun, hwritable⟩ :
      ∃ (t : Token) (marker : Marker) (tokens : List Token), t.content = "/3*2" ∧
        t.marker? = some marker ∧ marker.rate = 3 / 2 ∧ marker.isVoid = false ∧
        marker.excess? = none ∧
        tokens.map Token.content = ["a", "_", ".", "\x7b", "\x7d", ",", "/5", "b"] ∧
        (build tokens >>= annotate).isOk ∧
        (build tokens >>= timed).toOption.map (fun tree =>
          ((tree.faster (3 / 2)).isWritable, tree.isWritable)) = some (true, true) :=
    ⟨⟨"/3*2", .start⟩, ⟨⟨3, 1⟩, ⟨2, 1⟩⟩,
      ["a", "_", ".", "\x7b", "\x7d", ",", "/5", "b"].map (Token.mk · .start), rfl,
      by decide +kernel, by decide +kernel, rfl, rfl, rfl, by decide +kernel, by decide +kernel⟩
  obtain ⟨tree, htree⟩ := exists_of_isOk hrun
  have hsame : ∀ tree, (build tokens >>= timed) = .ok tree →
      (tree.faster marker.rate).isWritable = tree.isWritable := by
    intro tree htimed
    rw [htimed] at hwritable
    obtain ⟨hfaster, hplain⟩ := Prod.mk.inj (Option.some.inj hwritable)
    rw [hrate, hfaster, hplain]
  have hfaster := (((annotate_of_marker hmarker hvoid tokens).1 hread).2).2 hsame
  rw [htree, hrate] at hfaster
  exact ⟨t, marker, tokens, tree, hcontent, hmarker, hrate, hcontents, htree, hfaster⟩

/-- A marker with a digit too many in front of a note, which is read and written without it. -/
theorem annotate_of_marker_fails :
    ∃ marker tree, (Token.tenfold Number.digitLimit).marker? = some marker ∧
      marker.isVoid = false ∧ (build [⟨"a", .start⟩] >>= annotate) = .ok tree ∧
      build [.tenfold Number.digitLimit, ⟨"a", .start⟩] =
        .error (.unreadableNumeral (Number.digitLimit + 1)) := by
  obtain ⟨tree, htree⟩ := exists_of_isOk (x := build [⟨"a", .start⟩] >>= annotate)
    (by decide +kernel)
  have hmarker := Token.marker?_tenfold Number.digitLimit
  refine ⟨_, tree, hmarker, Marker.isVoid_tenfold _, htree, ?_⟩
  obtain ⟨fault, hbuild, -⟩ | hbuild :=
    build_cons_unreadable hmarker (Marker.excess?_tenfold le_rfl) [⟨"a", .start⟩]
  · rw [hbuild] at htree
    cases htree
  · exact hbuild

end Polyrhythm
