import Polyrhythm.Proofs.Grammar.Nesting
import Polyrhythm.Proofs.Grammar.Parts
import Polyrhythm.Proofs.Tree.Tempo

/-!
# One reading for all passes

The five passes run over every level, every part between commas and every segment between periods,
on lists in which finished elements stand beside symbols. After the first three passes nothing is
left for them to do: a list is quiet (`Node.Quiet`), and running them again changes nothing
(`passes_of_quiet`). What a level becomes, read again or not, is what its pieces are arranged into
(`split_of_quiet`, `readLevel_items`), and so balanced tokens without refused markers are read in
one descent of the grammar (`Spells.build`).
-/

namespace Polyrhythm

open Traversal Node

/-! ## Quiet lists -/

/-- An element that the first three passes leave alone: no brace, no marker, no underscore, and
nothing foreign in it. -/
structure Node.Quiet (n : Node) : Prop where
  opening : n.isSymbol openingBrace = false
  closing : n.isSymbol closingBrace = false
  marker : n.marker? = none
  underscore : n.isSymbol "_" = false
  native : n.firstForeign = none

/-- An element that all five passes leave alone. -/
structure Node.IsElement (n : Node) : Prop extends Quiet n where
  comma : n.isSymbol "," = false
  period : n.isSymbol "." = false

section
variable {nodes : List Node} {read : Bool → List Node → Except Fault Node} {n : Node}

/-- Grouping leaves a list without braces alone. -/
theorem groupBraces_of_quiet {read : List Node → Except Fault Node}
    (h : ∀ n ∈ nodes, n.Quiet) : groupBraces read nodes = .ok nodes := by
  have hcut : cutFrom none nodes = ⟨nodes.map Part.single, none⟩ := by
    induction nodes with
    | nil => rfl
    | cons n rest ih =>
      obtain ⟨hn, hrest⟩ := List.forall_mem_cons.1 h
      rw [cutFrom, hn.opening, hn.closing, ih hrest]
      rfl
  have hread : (nodes.map Part.single).mapM (Part.read read) = .ok nodes := by
    rw [List.mapM_map]
    exact (mapM_of_forall fun _ _ => rfl).trans (by rw [List.map_id'])
  rw [groupBraces, cutBlocks, hcut]
  simp only [hread]
  rfl

/-- Taking markers out leaves a list without markers alone. -/
theorem applyMarkers_of_quiet (h : ∀ n ∈ nodes, n.Quiet) : applyMarkers nodes = .ok nodes := by
  rw [applyMarkers]
  induction nodes with
  | nil => rfl
  | cons n rest ih =>
    obtain ⟨hn, hrest⟩ := List.forall_mem_cons.1 h
    rw [applyMarkersFrom, hn.marker]
    simp only [adjustTempo_eq_ok hn.native, scaleTempo_one, ih hrest, bind, Except.bind, pure,
      Except.pure]

theorem Node.tagHold_of_quiet (h : n.Quiet) : n.tagHold = n := by
  cases n with
  | symbol s =>
    have hs : s.content ≠ "_" := of_decide_eq_false h.underscore
    rw [tagHold, if_neg hs]
  | _ => rfl

/-- Turning underscores into holds leaves a list without underscores alone. -/
theorem tagHolds_of_quiet (h : ∀ n ∈ nodes, n.Quiet) : tagHolds nodes = nodes := by
  rw [tagHolds, List.map_congr_left fun n hn => tagHold_of_quiet (h n hn), List.map_id']

/-- Once blocks are read and markers taken out, only the splitting is left. -/
theorem passes_of_timed {grouped timed : List Node}
    (hgrouped : groupBraces (read true) nodes = .ok grouped)
    (htimed : applyMarkers grouped = .ok timed) :
    passes read nodes =
      (splitCommas (read false) (tagHolds timed) >>= splitPeriods (read false)) := by
  rw [passes, hgrouped]
  change (applyMarkers grouped >>= fun nodes => .ok (tagHolds nodes)) >>= _ >>= _ = _
  rw [htimed]
  rfl

/-- Of the five passes over a quiet list only the splitting is left. -/
theorem passes_of_quiet (h : ∀ n ∈ nodes, n.Quiet) :
    passes read nodes = (splitCommas (read false) nodes >>= splitPeriods (read false)) := by
  rw [passes_of_timed (groupBraces_of_quiet h) (applyMarkers_of_quiet h), tagHolds_of_quiet h]

/-- Splitting leaves a list without the separator alone. -/
theorem splitAt_of_absent {separator : String} {join : List Node → Node}
    {read : List Node → Except Fault Node} (h : ∀ n ∈ nodes, n.isSymbol separator = false) :
    splitAt separator join read nodes = .ok nodes := by
  have hany : nodes.any (Node.isSymbol separator) = false := by simpa using h
  rw [splitAt, hany]
  rfl

/-- A level of finished elements is wrapped and no more. -/
theorem readLevel_of_elements (isExplicit : Bool) (h : ∀ n ∈ nodes, n.IsElement) :
    readLevel isExplicit nodes = .ok (wrapLevel isExplicit nodes) := by
  rw [readLevel_eq, passes_of_quiet fun n hn => (h n hn).toQuiet, splitCommas,
    splitAt_of_absent fun n hn => (h n hn).comma]
  change (do return wrapLevel isExplicit (← splitPeriods (readLevel false) nodes)) = _
  rw [splitPeriods, splitAt_of_absent fun n hn => (h n hn).period]
  rfl

/-! ## From elements to pieces -/

/-- The piece that an element of a quiet list is. -/
def Node.piece (n : Node) : Piece :=
  if n.isSymbol "," then .comma else if n.isSymbol "." then .period else .element n

theorem Node.isSymbol_period_of_comma (h : n.isSymbol "," = true) : n.isSymbol "." = false := by
  cases n with
  | symbol s =>
    have hs : s.content = "," := of_decide_eq_true h
    exact decide_eq_false (by rw [hs]; decide)
  | _ => rfl

theorem Node.isComma_piece (n : Node) : n.piece.isComma = n.isSymbol "," := by
  rw [piece]
  split
  · next h => rw [h]; rfl
  · next h =>
    rw [Bool.eq_false_iff.2 h]
    split <;> rfl

theorem Node.isPeriod_piece (n : Node) : n.piece.isPeriod = n.isSymbol "." := by
  rw [piece]
  split
  · next h => rw [isSymbol_period_of_comma h]; rfl
  · split
    · next h => rw [h]; rfl
    · next h => rw [Bool.eq_false_iff.2 h]; rfl

/-- A finished element is its own piece. -/
theorem Node.IsElement.piece (h : n.IsElement) : n.piece = .element n := by
  rw [Node.piece, h.comma, h.period]
  rfl

theorem filterMap_element?_piece (h : ∀ n ∈ nodes, n.IsElement) :
    (nodes.map Node.piece).filterMap Piece.element? = nodes := by
  induction nodes with
  | nil => rfl
  | cons n rest ih =>
    obtain ⟨hn, hrest⟩ := List.forall_mem_cons.1 h
    rw [List.map_cons, hn.piece, List.filterMap_cons, ih hrest]
    rfl

/-! ## What a quiet list becomes -/

/-- The element for the pieces of a level from which the markers have been taken. -/
def arrange (isExplicit : Bool) (pieces : List Piece) : Node :=
  if pieces.any Piece.isComma then
    .simul ((partsBetween Piece.isComma pieces).map (assemblePart false)) none
  else assemblePart isExplicit pieces

theorem assemble_eq_arrange (isExplicit : Bool) (pieces : List Piece) :
    assemble isExplicit pieces = arrange isExplicit (pace 1 pieces) := rfl

theorem any_isComma_piece (nodes : List Node) :
    (nodes.map Node.piece).any Piece.isComma = nodes.any (Node.isSymbol ",") := by
  rw [List.any_map]
  exact congrArg (List.any nodes) (funext isComma_piece)

theorem any_isPeriod_piece (nodes : List Node) :
    (nodes.map Node.piece).any Piece.isPeriod = nodes.any (Node.isSymbol ".") := by
  rw [List.any_map]
  exact congrArg (List.any nodes) (funext isPeriod_piece)

theorem partsBetween_isComma_piece (nodes : List Node) :
    partsBetween Piece.isComma (nodes.map Node.piece) =
      (chunks "," nodes).map (List.map Node.piece) := by
  rw [partsBetween_map, chunks_eq_partsBetween]
  exact congrArg (fun p => (partsBetween p nodes).map _) (funext isComma_piece)

theorem partsBetween_isPeriod_piece (nodes : List Node) :
    partsBetween Piece.isPeriod (nodes.map Node.piece) =
      (chunks "." nodes).map (List.map Node.piece) := by
  rw [partsBetween_map, chunks_eq_partsBetween]
  exact congrArg (fun p => (partsBetween p nodes).map _) (funext isPeriod_piece)

/-- A quiet list without commas becomes a sequence of its segments, or is wrapped. -/
theorem splitPeriods_of_quiet (isExplicit : Bool) (h : ∀ n ∈ nodes, n.Quiet)
    (hcomma : ∀ n ∈ nodes, n.isSymbol "," = false) :
    ∃ out, splitPeriods (readLevel false) nodes = .ok out ∧
      wrapLevel isExplicit out = assemblePart isExplicit (nodes.map Node.piece) := by
  rw [assemblePart, any_isPeriod_piece]
  cases hany : nodes.any (Node.isSymbol ".") with
  | false =>
    have hperiod : ∀ n ∈ nodes, n.isSymbol "." = false := by simpa using hany
    refine ⟨nodes, splitAt_of_absent hperiod, ?_⟩
    rw [filterMap_element?_piece fun n hn => ⟨h n hn, hcomma n hn, hperiod n hn⟩]
    rfl
  | true =>
    have hchunks : ∀ chunk ∈ chunks "." nodes, ∀ n ∈ chunk, n.IsElement := by
      intro chunk hchunk n hn
      rw [chunks_eq_partsBetween] at hchunk
      obtain ⟨hn, hperiod⟩ := mem_of_mem_partsBetween hchunk hn
      exact ⟨h n hn, hcomma n hn, hperiod⟩
    have hread : (chunks "." nodes).mapM (readLevel false) =
        .ok ((chunks "." nodes).map (wrapLevel false)) :=
      mapM_of_forall fun chunk hchunk => readLevel_of_elements false (hchunks chunk hchunk)
    have hsegments : ((chunks "." nodes).map (List.map Node.piece)).map
        (fun segment => wrapLevel false (segment.filterMap Piece.element?)) =
        (chunks "." nodes).map (wrapLevel false) := by
      rw [List.map_map]
      exact List.map_congr_left fun chunk hchunk =>
        congrArg (wrapLevel false) (filterMap_element?_piece (hchunks chunk hchunk))
    refine ⟨[.sequence ((chunks "." nodes).map (wrapLevel false))], ?_, ?_⟩
    · rw [splitPeriods, splitAt, hany, if_pos rfl, hread]
      rfl
    · rw [if_pos rfl, partsBetween_isPeriod_piece, hsegments]
      rfl

/-- A quiet list becomes what its pieces are arranged into. -/
theorem split_of_quiet (isExplicit : Bool) (h : ∀ n ∈ nodes, n.Quiet) :
    ∃ out, (splitCommas (readLevel false) nodes >>= splitPeriods (readLevel false)) = .ok out ∧
      wrapLevel isExplicit out = arrange isExplicit (nodes.map Node.piece) := by
  rw [arrange, any_isComma_piece]
  cases hany : nodes.any (Node.isSymbol ",") with
  | false =>
    have hcomma : ∀ n ∈ nodes, n.isSymbol "," = false := by simpa using hany
    rw [splitCommas, splitAt_of_absent hcomma]
    exact splitPeriods_of_quiet isExplicit h hcomma
  | true =>
    have hpart : ∀ chunk ∈ chunks "," nodes,
        readLevel false chunk = .ok (assemblePart false (chunk.map Node.piece)) := by
      intro chunk hchunk
      rw [chunks_eq_partsBetween] at hchunk
      have hquiet : ∀ n ∈ chunk, n.Quiet := fun n hn => h n (mem_of_mem_partsBetween hchunk hn).1
      have hcomma : ∀ n ∈ chunk, n.isSymbol "," = false :=
        fun n hn => (mem_of_mem_partsBetween hchunk hn).2
      obtain ⟨out, hout, hwrap⟩ := splitPeriods_of_quiet false hquiet hcomma
      rw [readLevel_eq, passes_of_quiet hquiet, splitCommas, splitAt_of_absent hcomma]
      change (do return wrapLevel false (← splitPeriods (readLevel false) chunk)) = _
      rw [hout, ← hwrap]
      rfl
    have hread := mapM_of_forall hpart
    let parts := (chunks "," nodes).map fun chunk => assemblePart false (chunk.map Node.piece)
    refine ⟨[.simul parts none], ?_, ?_⟩
    · rw [splitCommas, splitAt, hany, if_pos rfl, hread]
      change splitPeriods (readLevel false) [.simul parts none] = _
      exact splitAt_of_absent (List.forall_mem_singleton.2 rfl)
    · rw [if_pos rfl, partsBetween_isComma_piece, List.map_map]
      rfl

end

/-! ## Finished elements -/

section
variable {nodes : List Node} {pieces : List Piece} {n : Node} {isExplicit : Bool}

/-- Whatever is no symbol is a finished element if nothing in it is foreign. -/
theorem Node.isElement_of_native (hn : ∀ s, n ≠ .symbol s) (h : n.firstForeign = none) :
    n.IsElement := by
  cases n with
  | symbol s => exact absurd rfl (hn s)
  | _ => exact ⟨⟨rfl, rfl, rfl, rfl, h⟩, rfl, rfl⟩

theorem Node.marker?_scaleTempo (factor : Rat) (n : Node) :
    (n.scaleTempo factor).marker? = n.marker? := by
  cases n <;> rfl

/-- A change of tempo leaves an element finished. -/
theorem Node.IsElement.scaleTempo (h : n.IsElement) (factor : Rat) :
    (n.scaleTempo factor).IsElement where
  opening := (isSymbol_scaleTempo ..).trans h.opening
  closing := (isSymbol_scaleTempo ..).trans h.closing
  marker := (marker?_scaleTempo factor n).trans h.marker
  underscore := (isSymbol_scaleTempo ..).trans h.underscore
  native := (firstForeign_scaleTempo ..).trans h.native
  comma := (isSymbol_scaleTempo ..).trans h.comma
  period := (isSymbol_scaleTempo ..).trans h.period

/-- Wrapping finished elements gives a finished element. -/
theorem isElement_wrapLevel (h : ∀ n ∈ nodes, n.IsElement) :
    (wrapLevel isExplicit nodes).IsElement := by
  rw [wrapLevel.eq_def]
  split
  · exact h _ (List.mem_singleton_self _)
  · exact isElement_of_native nofun (firstForeignOf_eq_none_iff.2 fun n hn => (h n hn).native)

theorem mem_of_mem_filterMap_element? (h : n ∈ pieces.filterMap Piece.element?) :
    .element n ∈ pieces := by
  obtain ⟨piece, hpiece, hn⟩ := List.mem_filterMap.1 h
  cases piece with
  | element m => cases hn; exact hpiece
  | comma | period | marker => cases hn

/-- A part of finished elements is assembled into a finished element. -/
theorem isElement_assemblePart (h : ∀ n, .element n ∈ pieces → n.IsElement) :
    (assemblePart isExplicit pieces).IsElement := by
  rw [assemblePart]
  split
  · refine isElement_of_native nofun (firstForeignOf_eq_none_iff.2 (List.forall_mem_map.2 ?_))
    intro segment hsegment
    refine (isElement_wrapLevel fun n hn => h n ?_).native
    exact (mem_of_mem_partsBetween hsegment (mem_of_mem_filterMap_element? hn)).1
  · exact isElement_wrapLevel fun n hn => h n (mem_of_mem_filterMap_element? hn)

/-- A level of finished elements is arranged into a finished element. -/
theorem isElement_arrange (h : ∀ n, .element n ∈ pieces → n.IsElement) :
    (arrange isExplicit pieces).IsElement := by
  rw [arrange]
  split
  · refine isElement_of_native nofun (firstForeignOf_eq_none_iff.2 (List.forall_mem_map.2 ?_))
    intro part hpart
    exact (isElement_assemblePart fun n hn => h n (mem_of_mem_partsBetween hpart hn).1).native
  · exact isElement_assemblePart h

/-- The elements among the pieces of a quiet list are finished. -/
theorem isElement_of_mem_map_piece (h : ∀ n ∈ nodes, n.Quiet)
    (hn : .element n ∈ nodes.map Node.piece) : n.IsElement := by
  obtain ⟨m, hm, hpiece⟩ := List.mem_map.1 hn
  have hquiet := h m hm
  rw [Node.piece] at hpiece
  split at hpiece
  · cases hpiece
  · next hcomma =>
    split at hpiece
    · cases hpiece
    · next hperiod =>
      cases hpiece
      exact ⟨hquiet, Bool.eq_false_iff.2 hcomma, Bool.eq_false_iff.2 hperiod⟩

end

/-! ## Items on a level -/

/-- The marker that a token writes, if it writes one. -/
def Token.marker? (t : Token) : Option Marker := Marker.read? t.content.toList

/-- Whether a token writes a marker that multiplies or divides by zero. -/
def Token.isVoid (t : Token) : Bool := t.marker?.any Marker.isVoid

/-- The first numeral of more digits than can be read in the marker that a token writes. -/
def Token.excess? (t : Token) : Option Numeral := t.marker?.bind Marker.excess?

/-- Whether a token writes a marker that cannot be used. -/
def Token.isRefused (t : Token) : Bool := t.marker?.any Marker.isRefused

/-- The fault of a token that writes a marker that cannot be used. -/
def Token.refusal (t : Token) : Fault :=
  match t.excess? with
  | some numeral => .unreadableNumeral numeral.length
  | none => .invalidMarker t.content (some t.position)

theorem Token.refusal_eq {t : Token} {marker : Marker} (h : t.marker? = some marker) :
    t.refusal = marker.refusal t.content (some t.position) := by
  rw [refusal, excess?, h]
  rfl

/-- A marker is not refused for a brace. -/
theorem Token.refusal_ne (t : Token) (p : Option Position) :
    t.refusal ≠ .unopenedBlock p ∧ t.refusal ≠ .unclosedBlock p := by
  rw [refusal]
  split <;> exact ⟨nofun, nofun⟩

/-- A marker is refused for a zero in it or for too many digits. -/
theorem Token.isRefused_eq (t : Token) : t.isRefused = (t.excess?.isSome || t.isVoid) := by
  rw [isRefused, excess?, isVoid]
  cases t.marker? <;> rfl

/-- What stands on a level for an item once the blocks of the level have been read. -/
def Item.node : Item → Node
  | .leaf t => t.symbol
  | .block content => assemble true (Item.pieces content)

/-- A marker is no brace. -/
theorem Token.not_brace_of_marker {t : Token} {marker : Marker} (h : t.marker? = some marker) :
    t.content ≠ openingBrace ∧ t.content ≠ closingBrace := by
  refine ⟨?_, ?_⟩
  · intro hbrace
    rw [marker?, hbrace] at h
    cases h
  · intro hbrace
    rw [marker?, hbrace] at h
    cases h

/-- A marker does not change whether braces match. -/
theorem bracesMatch_cons_marker {t : Token} {marker : Marker} (h : t.marker? = some marker)
    (tokens : List Token) : BracesMatch (t :: tokens) ↔ BracesMatch tokens := by
  obtain ⟨ho, hc⟩ := Token.not_brace_of_marker h
  rw [BracesMatch, openAfter_cons_plain ho hc, BracesMatch]

/-- A brace is no marker. -/
theorem Token.isRefused_of_brace {t : Token}
    (h : t.content = openingBrace ∨ t.content = closingBrace) : t.isRefused = false := by
  rw [isRefused, marker?]
  rcases h with h | h <;> rw [h] <;> rfl

/-- An item that the passes after grouping can take: a token that is neither a brace nor a
refused marker, or a block that has become a finished element. -/
def Item.Proper : Item → Prop
  | .leaf t => t.content ≠ openingBrace ∧ t.content ≠ closingBrace ∧ t.isRefused = false
  | .block content => (assemble true (Item.pieces content)).IsElement

/-- A piece with the tempo of an element changed. -/
def Piece.scaleTempo (tempo : Rat) : Piece → Piece
  | .element n => .element (n.scaleTempo tempo)
  | piece => piece

section
variable {item : Item} {items : List Item} {t : Token} {tokens : List Token} {tempo : Rat}

theorem pace_marker (tempo rate : Rat) (pieces : List Piece) :
    pace tempo (.marker rate :: pieces) = pace (tempo * rate) pieces := rfl

/-- Any piece but a marker stays, an element at another tempo. -/
theorem pace_cons (tempo : Rat) {piece : Piece} (h : ∀ rate, piece ≠ .marker rate)
    (pieces : List Piece) :
    pace tempo (piece :: pieces) = piece.scaleTempo tempo :: pace tempo pieces := by
  cases piece with
  | marker rate => exact absurd rfl (h rate)
  | _ => rfl

theorem Token.piece_of_marker {marker : Marker} (h : t.marker? = some marker) :
    t.piece = .marker marker.rate := by
  rw [marker?] at h
  rw [piece, h]

/-- A token without a marker becomes, on a level, the piece that it is. -/
theorem Token.piece_tagHold (h : t.marker? = none) (tempo : Rat) :
    (∀ rate, t.piece ≠ .marker rate) ∧
      (t.symbol.scaleTempo tempo).tagHold.piece = t.piece.scaleTempo tempo := by
  rw [marker?] at h
  rw [piece, h]
  by_cases hcomma : t.content = ","
  · simp [hcomma, symbol, Node.scaleTempo, tagHold, Node.piece, isSymbol, Piece.scaleTempo]
  · by_cases hperiod : t.content = "."
    · simp [hperiod, symbol, Node.scaleTempo, tagHold, Node.piece, isSymbol, Piece.scaleTempo]
    · by_cases hunder : t.content = "_"
      · simp [hunder, symbol, Node.scaleTempo, tagHold, Node.piece, isSymbol, Piece.scaleTempo]
      · simp [hcomma, hperiod, hunder, symbol, Node.scaleTempo, tagHold, Node.piece, isSymbol,
          Piece.scaleTempo]

/-- A token that is no brace and no marker is quiet once underscores are holds. -/
theorem Token.quiet_tagHold (ho : t.content ≠ openingBrace) (hc : t.content ≠ closingBrace)
    (h : t.marker? = none) (tempo : Rat) : (t.symbol.scaleTempo tempo).tagHold.Quiet := by
  rw [symbol, Node.scaleTempo, tagHold]
  split
  · exact ⟨rfl, rfl, rfl, rfl, rfl⟩
  · next hunder =>
    exact ⟨decide_eq_false ho, decide_eq_false hc, h, decide_eq_false hunder, rfl⟩

/-- After the markers are taken out and underscores are holds, a level is quiet, and its pieces are
those of the items at their tempos. -/
theorem applyMarkersFrom_items (h : ∀ item ∈ items, item.Proper) (tempo : Rat) :
    ∃ timed, applyMarkersFrom tempo (items.map Item.node) = .ok timed ∧
      (∀ n ∈ tagHolds timed, n.Quiet) ∧
      (tagHolds timed).map Node.piece = pace tempo (Item.pieces items) := by
  induction items generalizing tempo with
  | nil => exact ⟨[], rfl, List.forall_mem_nil _, rfl⟩
  | cons item items ih =>
    obtain ⟨hitem, hitems⟩ := List.forall_mem_cons.1 h
    -- an element that no marker is takes its place in front of what the rest becomes
    have placed (hmarker : item.node.marker? = none) (hnative : item.node.firstForeign = none)
        (hquiet : (item.node.scaleTempo tempo).tagHold.Quiet)
        (hplain : ∀ rate, item.piece ≠ .marker rate)
        (hpiece : (item.node.scaleTempo tempo).tagHold.piece = item.piece.scaleTempo tempo) :
        ∃ timed, applyMarkersFrom tempo ((item :: items).map Item.node) = .ok timed ∧
          (∀ n ∈ tagHolds timed, n.Quiet) ∧
          (tagHolds timed).map Node.piece = pace tempo (Item.pieces (item :: items)) := by
      obtain ⟨timed, htimed, hquiets, hpieces⟩ := ih hitems tempo
      refine ⟨item.node.scaleTempo tempo :: timed, ?_, ?_, ?_⟩
      · rw [List.map_cons, applyMarkersFrom, hmarker]
        simp only [adjustTempo_eq_ok hnative, htimed]
        rfl
      · exact List.forall_mem_cons.2 ⟨hquiet, hquiets⟩
      · rw [Item.pieces, pace_cons tempo hplain, ← hpieces, ← hpiece]
        rfl
    cases item with
    | leaf t =>
      obtain ⟨ho, hc, hrefused⟩ := hitem
      cases hmarker : t.marker? with
      | none =>
        obtain ⟨hplain, hpiece⟩ := Token.piece_tagHold hmarker tempo
        exact placed hmarker rfl (Token.quiet_tagHold ho hc hmarker tempo) hplain hpiece
      | some marker =>
        have hnode : (Item.node (.leaf t)).marker? = some marker := hmarker
        have hrate : marker.isRefused = false := by
          rw [Token.isRefused, hmarker] at hrefused
          exact hrefused
        rw [List.map_cons, applyMarkersFrom, hnode, Item.pieces, Item.piece,
          Token.piece_of_marker hmarker, pace_marker]
        simp only [hrate, Bool.false_eq_true, if_false]
        exact ih hitems (tempo * marker.rate)
    | block content =>
      have hscaled : (Node.scaleTempo tempo (assemble true (Item.pieces content))).IsElement :=
        hitem.scaleTempo tempo
      have htagged := tagHold_of_quiet hscaled.toQuiet
      refine placed hitem.marker hitem.native ?_ (fun _ h => by cases h) ?_
      · rw [Item.node, htagged]
        exact hscaled.toQuiet
      · rw [Item.node, htagged, hscaled.piece]
        rfl

/-- A level whose blocks have been read becomes what its items are assembled into. -/
theorem readLevel_items {nodes : List Node} (h : ∀ item ∈ items, item.Proper)
    (hnodes : groupBraces (readLevel true) nodes = .ok (items.map Item.node)) (isExplicit : Bool) :
    readLevel isExplicit nodes = .ok (assemble isExplicit (Item.pieces items)) ∧
      (assemble isExplicit (Item.pieces items)).IsElement := by
  obtain ⟨timed, htimed, hquiet, hpieces⟩ := applyMarkersFrom_items h 1
  obtain ⟨out, hout, hwrap⟩ := split_of_quiet isExplicit hquiet
  rw [assemble_eq_arrange, ← hpieces]
  refine ⟨?_, isElement_arrange fun n hn => isElement_of_mem_map_piece hquiet hn⟩
  rw [readLevel_eq, passes_of_timed hnodes htimed, hout, ← hwrap]
  rfl

/-! ## Tokens as a whole -/

/-- A level is grouped if its parts can be read and no brace is to blame. -/
theorem groupBraces_eq_ok {read : List Node → Except Fault Node} {nodes out : List Node} :
    groupBraces read nodes = .ok out ↔
      (cutBlocks nodes).parts.mapM (Part.read read) = .ok out ∧ (cutBlocks nodes).fault = none := by
  rw [groupBraces, bind_eq_ok]
  cases (cutBlocks nodes).fault with
  | some fault =>
    refine iff_of_false ?_ (fun h => by cases h.2)
    rintro ⟨elements, -, h⟩
    cases h
  | none =>
    constructor
    · rintro ⟨elements, helements, h⟩
      cases h
      exact ⟨helements, rfl⟩
    · rintro ⟨helements, -⟩
      exact ⟨out, helements, rfl⟩

/-- A part in front of a level is read before the rest of the level is grouped. -/
theorem groupBraces_add {nodes rest : List Node} {part : Part}
    (hcut : cutBlocks nodes = (cutBlocks rest).add part)
    (read : List Node → Except Fault Node) :
    groupBraces read nodes =
      (part.read read >>= fun n => (groupBraces read rest).map (n :: ·)) := by
  rw [groupBraces, groupBraces, hcut, Cut.add, List.mapM_cons]
  cases part.read read with
  | error fault => rfl
  | ok n =>
    cases (cutBlocks rest).parts.mapM (Part.read read) with
    | error fault => rfl
    | ok elements =>
      cases (cutBlocks rest).fault with
      | some fault => rfl
      | none => rfl

/-- A token outside all blocks stays in front of what the rest of the level becomes, and a fault in
the rest stays the same. -/
theorem groupBraces_cons (ho : t.content ≠ openingBrace) (hc : t.content ≠ closingBrace)
    (read : List Node → Except Fault Node) (nodes : List Node) :
    groupBraces read (t.symbol :: nodes) = (groupBraces read nodes).map (t.symbol :: ·) :=
  groupBraces_add (cutFrom_none_plain ho hc) read

/-- A level with one more part in front can be grouped if the part can be read and the rest of the
level can be grouped. -/
theorem groupBraces_add_eq_ok {read : List Node → Except Fault Node} {nodes rest out : List Node}
    {part : Part} (hcut : cutBlocks nodes = (cutBlocks rest).add part) :
    groupBraces read nodes = .ok out ↔
      ∃ n more, part.read read = .ok n ∧ groupBraces read rest = .ok more ∧ out = n :: more := by
  rw [groupBraces_add hcut, bind_eq_ok]
  refine exists_congr fun n => ?_
  cases groupBraces read rest with
  | error fault => simp [Except.map]
  | ok more => simp [Except.map, eq_comm]

/-- A block in front of a level is read before the rest of the level is grouped. -/
theorem Spells.groupBraces_block {o c : Token} {inner : List Token} {content : List Item}
    (h : Spells inner content) (ho : o.content = openingBrace) (hc : c.content = closingBrace)
    (read : List Node → Except Fault Node) (nodes : List Node) :
    groupBraces read (o.symbol :: (inner.map Token.symbol ++ c.symbol :: nodes)) =
      (read (inner.map Token.symbol) >>= fun n => (groupBraces read nodes).map (n :: ·)) :=
  groupBraces_add (h.cutFrom_block ho hc nodes) read

/-- The tokens of a block, as elements of a level. -/
theorem map_symbol_block (o c : Token) (inner rest : List Token) :
    (o :: (inner ++ c :: rest)).map Token.symbol =
      o.symbol :: (inner.map Token.symbol ++ c.symbol :: rest.map Token.symbol) := by
  rw [List.map_cons, List.map_append, List.map_cons]

/-- The blocks of tokens that write items are read into the elements for the items. -/
theorem Spells.groupBraces (h : Spells tokens items)
    (hrefused : ∀ t ∈ tokens, t.isRefused = false) :
    groupBraces (readLevel true) (tokens.map Token.symbol) = .ok (items.map Item.node) ∧
      ∀ item ∈ items, item.Proper := by
  induction h with
  | nil => exact ⟨rfl, nofun⟩
  | @leaf t ts items ho hc _ ih =>
    obtain ⟨ht, hts⟩ := List.forall_mem_cons.1 hrefused
    obtain ⟨hgroup, hproper⟩ := ih hts
    refine ⟨?_, List.forall_mem_cons.2 ⟨⟨ho, hc, ht⟩, hproper⟩⟩
    rw [List.map_cons, groupBraces_cons ho hc, hgroup]
    rfl
  | @block o c inner rest content items ho hc hinner _ ihinner ihrest =>
    have hinnerRefused : ∀ t ∈ inner, t.isRefused = false := fun t ht => hrefused t (by simp [ht])
    have hrestRefused : ∀ t ∈ rest, t.isRefused = false := fun t ht => hrefused t (by simp [ht])
    obtain ⟨hgroup, hproper⟩ := ihinner hinnerRefused
    obtain ⟨hread, helement⟩ := readLevel_items hproper hgroup true
    obtain ⟨hgroup, hproper⟩ := ihrest hrestRefused
    refine ⟨?_, List.forall_mem_cons.2 ⟨helement, hproper⟩⟩
    rw [map_symbol_block, hinner.groupBraces_block ho hc, hread, hgroup]
    rfl

/-- Tokens that write items are read into what the items are assembled into. -/
theorem Spells.build (h : Spells tokens items) (hrefused : ∀ t ∈ tokens, t.isRefused = false) :
    build tokens = .ok (assemble false (Item.pieces items)) := by
  obtain ⟨hgroup, hproper⟩ := h.groupBraces hrefused
  exact (readLevel_items hproper hgroup false).1

/-- A level that is read is grouped and freed of markers on the way. -/
theorem exists_of_readLevel {isExplicit : Bool} {nodes : List Node} {n : Node}
    (h : readLevel isExplicit nodes = .ok n) :
    ∃ grouped timed, groupBraces (readLevel true) nodes = .ok grouped ∧
      applyMarkers grouped = .ok timed := by
  rw [readLevel_eq] at h
  obtain ⟨out, hout, -⟩ := bind_eq_ok.1 h
  obtain ⟨parted, hparted, -⟩ := bind_eq_ok.1 hout
  obtain ⟨tagged, htagged, -⟩ := bind_eq_ok.1 hparted
  obtain ⟨timed, htimed, -⟩ := bind_eq_ok.1 htagged
  obtain ⟨grouped, hgrouped, htimed⟩ := bind_eq_ok.1 htimed
  exact ⟨grouped, timed, hgrouped, htimed⟩

/-- An element that is read before others is no refused marker, and the others are read at some
tempo. -/
theorem applyMarkersFrom_cons {n : Node} {nodes timed : List Node}
    (h : applyMarkersFrom tempo (n :: nodes) = .ok timed) :
    n.marker?.any Marker.isRefused = false ∧
      ∃ next rest, applyMarkersFrom next nodes = .ok rest := by
  rw [applyMarkersFrom] at h
  split at h
  · next marker hmarker =>
    split at h
    · cases h
    · next hrefused => exact ⟨by rw [hmarker]; exact Bool.eq_false_iff.2 hrefused, _, timed, h⟩
  · next hmarker =>
    obtain ⟨m, -, h⟩ := bind_eq_ok.1 h
    obtain ⟨rest, hrest, -⟩ := bind_eq_ok.1 h
    exact ⟨by rw [hmarker]; rfl, tempo, rest, hrest⟩

/-- Tokens that write items are read only if no marker among them is refused, in no block. -/
theorem Spells.not_isRefused (h : Spells tokens items) {grouped timed : List Node}
    (hgrouped : Polyrhythm.groupBraces (readLevel true) (tokens.map Token.symbol) = .ok grouped)
    (htimed : applyMarkersFrom tempo grouped = .ok timed) : ∀ t ∈ tokens, t.isRefused = false := by
  induction h generalizing tempo grouped timed with
  | nil => exact List.forall_mem_nil _
  | @leaf t ts items ho hc _ ih =>
    obtain ⟨n, more, hn, hmore, rfl⟩ :=
      (groupBraces_add_eq_ok (cutFrom_none_plain ho hc)).1 hgrouped
    cases hn
    obtain ⟨hrefused, next, rest, hrest⟩ := applyMarkersFrom_cons htimed
    exact List.forall_mem_cons.2 ⟨hrefused, ih hmore hrest⟩
  | @block o c inner rest content items ho hc hinner _ ihinner ihrest =>
    rw [map_symbol_block] at hgrouped
    obtain ⟨n, more, hn, hmore, rfl⟩ :=
      (groupBraces_add_eq_ok (hinner.cutFrom_block ho hc _)).1 hgrouped
    obtain ⟨grouped', timed', hgrouped', htimed'⟩ := exists_of_readLevel hn
    obtain ⟨-, next, others, hothers⟩ := applyMarkersFrom_cons htimed
    refine List.forall_mem_cons.2 ⟨Token.isRefused_of_brace (.inl ho), fun t ht => ?_⟩
    rcases List.mem_append.1 ht with ht | ht
    · exact ihinner hgrouped' htimed' t ht
    · rcases List.mem_cons.1 ht with rfl | ht
      · exact Token.isRefused_of_brace (.inr hc)
      · exact ihrest hmore hothers t ht

/-- The blocks of tokens can be read and the markers taken out only if the tokens are balanced and
no marker among them is refused. -/
theorem readable_of_markers {grouped timed : List Node}
    (hgrouped : Polyrhythm.groupBraces (readLevel true) (tokens.map Token.symbol) = .ok grouped)
    (htimed : applyMarkersFrom tempo grouped = .ok timed) :
    BracesMatch tokens ∧ ∀ t ∈ tokens, t.isRefused = false := by
  have hmatch : BracesMatch tokens := by
    have hnone : (cutFrom none (tokens.map Token.symbol)).fault = none :=
      (groupBraces_eq_ok.1 hgrouped).2
    exact fault_cutFrom_eq_none_iff.1 hnone
  obtain ⟨items, hitems⟩ := exists_spells_of_bracesMatch hmatch
  exact ⟨hmatch, hitems.not_isRefused hgrouped htimed⟩

/-- Tokens are built only if they are balanced and no marker among them is refused. -/
theorem readable_of_build {root : Node} (h : Polyrhythm.build tokens = .ok root) :
    BracesMatch tokens ∧ ∀ t ∈ tokens, t.isRefused = false := by
  obtain ⟨grouped, timed, hgrouped, htimed⟩ := exists_of_readLevel h
  exact readable_of_markers hgrouped htimed

end

end Polyrhythm
