import Polyrhythm.Proofs.Grammar.Stuck

/-!
# Holds that lead a part

A text is refused if a part between commas, a block or the text itself starts with an underscore:
the hold has nothing before it that it could lengthen. So it is meant, and so it is for every part
that leaves a list of its own behind (`Item.Confined`, `parse_of_led`). But parts and blocks of one
element leave none, and neither does a block that is spliced into a sequence. The hold then ends up
in the list around, and lengthens what stands before the comma or before the brace
(`parse_of_led_fails`).
-/

namespace Polyrhythm

open Traversal Node

/-! ## Levels and parts -/

namespace Item

/-- Whether an item is a marker. -/
def isMarker : Item → Bool
  | leaf t => t.marker?.isSome
  | block _ => false

/-- Whether an item is a comma. -/
def isComma : Item → Bool
  | leaf t => t.content = ","
  | block _ => false

/-- Whether an item is a period. -/
def isPeriod : Item → Bool
  | leaf t => t.content = "."
  | block _ => false

/-- Whether an item is an underscore. -/
def isUnderscore : Item → Bool
  | leaf t => t.content = "_"
  | block _ => false

/-- The levels of a text: its items outside blocks, and the items of every block (`isExplicit`). -/
inductive IsLevel (text : List Item) : Bool → List Item → Prop
  /-- The text itself. -/
  | text : IsLevel text false text
  /-- A block of a level. -/
  | block {isExplicit : Bool} {level content : List Item} :
    IsLevel text isExplicit level → .block content ∈ level → IsLevel text true content

/-- The items of a level other than markers. -/
def unmarked (level : List Item) : List Item := level.filter fun item => !item.isMarker

/-- The parts of a level between commas, without markers and without empty parts; a level without
commas is a single part. -/
def commaParts (level : List Item) : List (List Item) := partsBetween isComma (unmarked level)

/-- Whether an underscore is the first item of a part, periods aside. -/
def isLed (part : List Item) : Bool := (part.dropWhile isPeriod).head?.any isUnderscore

/-- A part leaves a list of its own behind, or is the first of such a list: it is between commas and
has more than one item or none before it; or it is the whole text; or it is the whole of a block,
and has more than one item but no period. -/
def Confined (isExplicit : Bool) (level part : List Item) : Prop :=
  if (unmarked level).any isComma then 2 ≤ part.length ∨ (commaParts level).head? = some part
  else isExplicit = true → 2 ≤ part.length ∧ part.any isPeriod = false

end Item

section
variable {text level part : List Item} {item : Item} {piece : Piece} {isExplicit : Bool}

theorem pieces_eq_map (items : List Item) : Item.pieces items = items.map Item.piece := by
  induction items with
  | nil => rfl
  | cons item items ih => rw [Item.pieces, ih, List.map_cons]

/-- A text with a stuck level is stuck. -/
theorem stuck_of_isLevel (hlevel : Item.IsLevel text isExplicit level)
    (h : (assemble isExplicit (Item.pieces level)).Stuck) :
    (assemble false (Item.pieces text)).Stuck := by
  induction hlevel with
  | text => exact h
  | block _ hcontent ih =>
    refine ih (stuck_assemble ?_ h)
    rw [pieces_eq_map]
    exact List.mem_map_of_mem hcontent

/-! ## From items to pieces -/

/-- An item other than a marker and what becomes of it once the markers are taken out. -/
def Plays (item : Item) (piece : Piece) : Prop :=
  item.isMarker = false ∧ ∃ tempo, piece = item.piece.scaleTempo tempo

/-- What remains of a level without its markers are its other items. -/
theorem forall₂_plays (level : List Item) (tempo : Rat) :
    List.Forall₂ Plays (Item.unmarked level) (pace tempo (Item.pieces level)) := by
  induction level generalizing tempo with
  | nil => exact .nil
  | cons item level ih =>
    have plain (hmarker : item.isMarker = false) (hpiece : ∀ rate, item.piece ≠ .marker rate) :
        List.Forall₂ Plays (Item.unmarked (item :: level))
          (pace tempo (Item.pieces (item :: level))) := by
      rw [Item.unmarked, List.filter_cons_of_pos (by simp [hmarker]), Item.pieces,
        pace_cons tempo hpiece]
      exact .cons ⟨hmarker, tempo, rfl⟩ (ih tempo)
    cases item with
    | block content => exact plain rfl fun _ h => by cases h
    | leaf t =>
      cases hmarker : t.marker? with
      | none => exact plain (by rw [Item.isMarker, hmarker]; rfl) (Token.piece_tagHold hmarker 1).1
      | some marker =>
        have hleaf : (Item.leaf t).isMarker = true := by rw [Item.isMarker, hmarker]; rfl
        rw [Item.unmarked, List.filter_cons_of_neg (by simp [hleaf]), Item.pieces, Item.piece,
          Token.piece_of_marker hmarker, pace_marker]
        exact ih _

/-- What an item other than a marker becomes: a separator or an element, a hold for an underscore.
-/
theorem Plays.cases (h : Plays item piece) :
    (item.isComma = true ∧ item.isPeriod = false ∧ item.isUnderscore = false ∧ piece = .comma) ∨
      (item.isComma = false ∧ item.isPeriod = true ∧ item.isUnderscore = false ∧
        piece = .period) ∨
      item.isComma = false ∧ item.isPeriod = false ∧
        ∃ n, piece = .element n ∧ (item.isUnderscore = true → n.isHold = true) := by
  obtain ⟨hmarker, tempo, rfl⟩ := h
  cases item with
  | block content => exact .inr (.inr ⟨rfl, rfl, _, rfl, nofun⟩)
  | leaf t =>
    have hread : Marker.read? t.content.toList = none :=
      Option.isNone_iff_eq_none.1 (Option.isSome_eq_false_iff.1 hmarker)
    rw [Item.piece, Token.piece, hread]
    simp only [Item.isComma, Item.isPeriod, Item.isUnderscore]
    by_cases hcomma : t.content = ","
    · exact .inl (by simp [hcomma, Piece.scaleTempo])
    · by_cases hperiod : t.content = "."
      · exact .inr (.inl (by simp [hperiod, Piece.scaleTempo]))
      · refine .inr (.inr ?_)
        by_cases hunder : t.content = "_"
        · simp [hunder, Piece.scaleTempo, scaleTempo, isHold]
        · simp [hcomma, hperiod, hunder, Piece.scaleTempo]

theorem Plays.isComma (h : Plays item piece) : item.isComma = piece.isComma := by
  rcases h.cases with ⟨hcomma, -, -, rfl⟩ | ⟨hcomma, -, -, rfl⟩ | ⟨hcomma, -, n, rfl, -⟩ <;>
    exact hcomma

theorem Plays.isPeriod (h : Plays item piece) : item.isPeriod = piece.isPeriod := by
  rcases h.cases with ⟨-, hperiod, -, rfl⟩ | ⟨-, hperiod, -, rfl⟩ | ⟨-, hperiod, n, rfl, -⟩ <;>
    exact hperiod

/-- An underscore becomes a hold. -/
theorem Plays.hold (h : Plays item piece) (hunder : item.isUnderscore = true) :
    ∃ s, piece = .element (.hold s) := by
  rcases h.cases with ⟨-, -, hnot, -⟩ | ⟨-, -, hnot, -⟩ | ⟨-, -, n, rfl, hhold⟩
  · rw [hunder] at hnot
    cases hnot
  · rw [hunder] at hnot
    cases hnot
  · cases n with
    | hold s => exact ⟨s, rfl⟩
    | _ => cases hhold hunder

/-- If an underscore leads a part, a hold leads what becomes of the part. -/
theorem exists_dropWhile_of_isLed {pieces : List Piece} (h : List.Forall₂ Plays part pieces)
    (hled : Item.isLed part = true) :
    ∃ s rest, pieces.dropWhile Piece.isPeriod = .element (.hold s) :: rest := by
  induction h with
  | nil => cases hled
  | @cons item piece part pieces hplays _ ih =>
    have hsame := hplays.isPeriod
    cases hperiod : item.isPeriod with
    | true =>
      rw [Item.isLed, List.dropWhile_cons_of_pos hperiod] at hled
      rw [List.dropWhile_cons_of_pos (hsame ▸ hperiod)]
      exact ih hled
    | false =>
      rw [Item.isLed, List.dropWhile_cons_of_neg (by simp [hperiod])] at hled
      obtain ⟨s, rfl⟩ := hplays.hold hled
      exact ⟨s, pieces, List.dropWhile_cons_of_neg (by simp [Piece.isPeriod])⟩

end

/-! ## Parts with a leading hold -/

section
variable {pieces rest : List Piece} {s : Hold}

/-- A part with periods that a hold leads becomes a list that a hold leads. -/
theorem lead_of_period (hled : pieces.dropWhile Piece.isPeriod = .element (.hold s) :: rest)
    (hperiod : pieces.any Piece.isPeriod = true) (isExplicit : Bool) :
    ∃ s', leadingHold? (assemblePart isExplicit pieces).skeleton.children = some s' := by
  obtain ⟨more, others, hparts⟩ := partsBetween_of_dropWhile hled
  rw [assemblePart, if_pos hperiod, hparts]
  have hfirst : (Piece.element (.hold s) :: more).filterMap Piece.element? =
      .hold s :: more.filterMap Piece.element? := rfl
  rw [List.map_cons, hfirst]
  cases more.filterMap Piece.element? with
  | nil => exact ⟨_, rfl⟩
  | cons n nodes => exact ⟨_, rfl⟩

/-- Pieces that are all elements are the pieces of a list of elements. -/
theorem exists_map_element (h : ∀ piece ∈ pieces, ∃ n, piece = .element n) :
    ∃ nodes : List Node, pieces = nodes.map .element := by
  induction pieces with
  | nil => exact ⟨[], rfl⟩
  | cons piece pieces ih =>
    obtain ⟨⟨n, rfl⟩, hpieces⟩ := List.forall_mem_cons.1 h
    obtain ⟨nodes, rfl⟩ := ih hpieces
    exact ⟨n :: nodes, rfl⟩

/-- A part without periods that a hold leads is wrapped with the hold in front. -/
theorem assemblePart_of_unbroken
    (hled : pieces.dropWhile Piece.isPeriod = .element (.hold s) :: rest)
    (hperiod : pieces.any Piece.isPeriod = false)
    (helements : ∀ piece ∈ pieces, piece.isPeriod = false → ∃ n, piece = .element n)
    (isExplicit : Bool) :
    ∃ nodes, assemblePart isExplicit pieces = wrapLevel isExplicit (.hold s :: nodes) ∧
      pieces.length = nodes.length + 1 := by
  have hnone : ∀ piece ∈ pieces, piece.isPeriod = false := by simpa using hperiod
  obtain ⟨nodes, rfl⟩ := exists_map_element fun piece hpiece =>
    helements piece hpiece (hnone piece hpiece)
  have hnodes (nodes : List Node) : (nodes.map Piece.element).filterMap Piece.element? = nodes := by
    rw [List.filterMap_map]
    exact List.filterMap_some
  cases nodes with
  | nil => cases hled
  | cons n nodes =>
    rw [List.map_cons, List.dropWhile_cons_of_neg (by simp [Piece.isPeriod])] at hled
    cases hled
    refine ⟨nodes, ?_, by simp⟩
    rw [assemblePart, hperiod, if_neg Bool.false_ne_true, hnodes]

/-- A part of more than one piece that a hold leads becomes a list that a hold leads. -/
theorem lead_of_length (hled : pieces.dropWhile Piece.isPeriod = .element (.hold s) :: rest)
    (helements : ∀ piece ∈ pieces, piece.isPeriod = false → ∃ n, piece = .element n)
    (hlength : 2 ≤ pieces.length) (isExplicit : Bool) :
    ∃ s', leadingHold? (assemblePart isExplicit pieces).skeleton.children = some s' := by
  cases hperiod : pieces.any Piece.isPeriod with
  | true => exact lead_of_period hled hperiod isExplicit
  | false =>
    obtain ⟨nodes, hwrap, hcount⟩ := assemblePart_of_unbroken hled hperiod helements isExplicit
    rw [hwrap]
    cases nodes with
    | nil => exact absurd hlength (by simp [hcount])
    | cons n nodes => exact ⟨_, rfl⟩

end

/-! ## Confined parts -/

section
variable {text level part : List Item} {isExplicit : Bool}

/-- No marker is left once the markers are taken out. -/
theorem ne_marker_of_mem_pace {pieces : List Piece} {piece : Piece} {tempo : Rat}
    (h : piece ∈ pace tempo pieces) (rate : Rat) : piece ≠ .marker rate := by
  induction pieces generalizing tempo with
  | nil => cases h
  | cons first pieces ih =>
    cases first with
    | marker rate' => exact ih h
    | element n =>
      rcases List.mem_cons.1 h with rfl | hlater
      · nofun
      · exact ih hlater
    | comma | period =>
      rcases List.mem_cons.1 h with rfl | hlater
      · nofun
      · exact ih hlater

/-- Between commas, whatever is no period is an element. -/
theorem element_of_mem_pace {pieces : List Piece} {piece : Piece} {tempo : Rat}
    (h : piece ∈ pace tempo pieces) (hcomma : piece.isComma = false)
    (hperiod : piece.isPeriod = false) : ∃ n, piece = .element n := by
  cases piece with
  | element n => exact ⟨n, rfl⟩
  | comma => cases hcomma
  | period => cases hperiod
  | marker rate => exact absurd rfl (ne_marker_of_mem_pace h rate)

/-- In a level without commas, whatever is no period is an element. -/
theorem element_of_unparted {pieces : List Piece} {tempo : Rat}
    (hcomma : (pace tempo pieces).any Piece.isComma = false) :
    ∀ piece ∈ pace tempo pieces, piece.isPeriod = false → ∃ n, piece = .element n := by
  intro piece hpiece hperiod
  have hnone : ∀ piece ∈ pace tempo pieces, piece.isComma = false := by simpa using hcomma
  exact element_of_mem_pace hpiece (hnone piece hpiece) hperiod

variable {pieces : List Piece}

/-- A level with commas is stuck if a hold leads a part of more than one piece. -/
theorem stuck_of_part {part : List Piece} {s : Hold} {rest : List Piece}
    (hcomma : pieces.any Piece.isComma = true) (hpart : part ∈ partsBetween Piece.isComma pieces)
    (helements : ∀ piece ∈ part, piece.isPeriod = false → ∃ n, piece = .element n)
    (hled : part.dropWhile Piece.isPeriod = .element (.hold s) :: rest)
    (hlength : 2 ≤ part.length) : (arrange isExplicit pieces).Stuck := by
  obtain ⟨s', hlead⟩ := lead_of_length hled helements hlength false
  rw [arrange, if_pos hcomma]
  exact stuck_simul (List.mem_map_of_mem hpart) (looseHolds_ne_nil_of_lead hlead)

/-- A level with commas is stuck if its first part is a hold. -/
theorem stuck_of_first {s : Hold} {others : List (List Piece)}
    (hcomma : pieces.any Piece.isComma = true)
    (hfirst : partsBetween Piece.isComma pieces = [.element (.hold s)] :: others) :
    (arrange isExplicit pieces).Stuck := by
  rw [arrange, if_pos hcomma, hfirst]
  exact stuck_of_loose rfl (looseHolds_ne_nil_of_lead rfl)

/-- A level with commas is stuck if an underscore leads a part of more than one item, or the first
part. -/
theorem stuck_of_comma (hcomma : (Item.unmarked level).any Item.isComma = true)
    (hpart : part ∈ Item.commaParts level) (hled : Item.isLed part = true)
    (hown : 2 ≤ part.length ∨ (Item.commaParts level).head? = some part) :
    (assemble isExplicit (Item.pieces level)).Stuck := by
  have hplays := forall₂_plays level 1
  have hparts : List.Forall₂ (List.Forall₂ Plays) (Item.commaParts level)
      (partsBetween Piece.isComma (pace 1 (Item.pieces level))) :=
    forall₂_partsBetween hplays fun _ _ h => h.isComma
  rw [any_eq_of_forall₂ hplays fun _ _ h => h.isComma] at hcomma
  have helements {pieces : List Piece}
      (hpieces : pieces ∈ partsBetween Piece.isComma (pace 1 (Item.pieces level))) :
      ∀ piece ∈ pieces, piece.isPeriod = false → ∃ n, piece = .element n := by
    intro piece hpiece hperiod
    obtain ⟨hmem, hplain⟩ := mem_of_mem_partsBetween hpieces hpiece
    exact element_of_mem_pace hmem hplain hperiod
  have long {pieces : List Piece}
      (hpieces : pieces ∈ partsBetween Piece.isComma (pace 1 (Item.pieces level)))
      (hrelated : List.Forall₂ Plays part pieces) (hlength : 2 ≤ part.length) :
      (assemble isExplicit (Item.pieces level)).Stuck := by
    obtain ⟨s, rest, hdrop⟩ := exists_dropWhile_of_isLed hrelated hled
    exact stuck_of_part hcomma hpieces (helements hpieces) hdrop (hrelated.length_eq ▸ hlength)
  rcases hown with hlength | hfirst
  · obtain ⟨pieces, hpieces, hrelated⟩ := exists_mem_of_forall₂ hparts hpart
    exact long hpieces hrelated hlength
  · obtain ⟨others, hothers⟩ := List.head?_eq_some_iff.1 hfirst
    rw [hothers] at hparts
    obtain ⟨pieces, others', hrelated, -, hpieces⟩ := List.forall₂_cons_left_iff.1 hparts
    by_cases hlength : 2 ≤ part.length
    · exact long (hpieces ▸ List.mem_cons_self) hrelated hlength
    · obtain ⟨s, rest, hdrop⟩ := exists_dropWhile_of_isLed hrelated hled
      rw [hrelated.length_eq] at hlength
      rw [eq_singleton_of_dropWhile hdrop (by omega)] at hpieces
      exact stuck_of_first hcomma hpieces

/-- A block without commas and periods is stuck if an underscore leads it and is not alone. -/
theorem stuck_of_unbroken (hcomma : (Item.unmarked level).any Item.isComma = false)
    (hled : Item.isLed (Item.unmarked level) = true) (hlength : 2 ≤ (Item.unmarked level).length)
    (hperiod : (Item.unmarked level).any Item.isPeriod = false) :
    (assemble true (Item.pieces level)).Stuck := by
  have hplays := forall₂_plays level 1
  obtain ⟨s, rest, hdrop⟩ := exists_dropWhile_of_isLed hplays hled
  rw [hplays.length_eq] at hlength
  rw [any_eq_of_forall₂ hplays fun _ _ h => h.isPeriod] at hperiod
  rw [any_eq_of_forall₂ hplays fun _ _ h => h.isComma] at hcomma
  obtain ⟨nodes, hwrap, hcount⟩ :=
    assemblePart_of_unbroken hdrop hperiod (element_of_unparted hcomma) true
  rw [assemble_eq_arrange, arrange, hcomma, if_neg Bool.false_ne_true, hwrap]
  cases nodes with
  | nil => exact absurd hlength (by simp [hcount])
  | cons n nodes => exact stuck_of_loose rfl (looseHolds_ne_nil_of_lead rfl)

/-- A text without commas has a loose hold if an underscore leads it. -/
theorem loose_of_unparted (hcomma : (Item.unmarked text).any Item.isComma = false)
    (hled : Item.isLed (Item.unmarked text) = true) :
    (assemble false (Item.pieces text)).skeleton.looseInTree ≠ [] := by
  have hplays := forall₂_plays text 1
  obtain ⟨s, rest, hdrop⟩ := exists_dropWhile_of_isLed hplays hled
  rw [any_eq_of_forall₂ hplays fun _ _ h => h.isComma] at hcomma
  rw [assemble_eq_arrange, arrange, hcomma, if_neg Bool.false_ne_true]
  have inside {n : Node} (h : ∃ s, leadingHold? n.skeleton.children = some s) :
      n.skeleton.looseInTree ≠ [] := by
    obtain ⟨s, hlead⟩ := h
    exact looseAmong_ne_nil (List.mem_singleton_self _) (looseHolds_ne_nil_of_lead hlead)
  cases hperiod : (pace 1 (Item.pieces text)).any Piece.isPeriod with
  | true => exact inside (lead_of_period hdrop hperiod false)
  | false =>
    obtain ⟨nodes, hwrap, -⟩ :=
      assemblePart_of_unbroken hdrop hperiod (element_of_unparted hcomma) false
    rw [hwrap]
    cases nodes with
    | nil => exact looseAmong_ne_nil_of_lead rfl
    | cons n nodes => exact inside ⟨_, rfl⟩

/-- A level without commas is a single part. -/
theorem eq_unmarked_of_mem_commaParts (hcomma : (Item.unmarked level).any Item.isComma = false)
    (hpart : part ∈ Item.commaParts level) : part = Item.unmarked level := by
  have hnone : ∀ item ∈ Item.unmarked level, item.isComma = false := by simpa using hcomma
  rw [Item.commaParts, partsBetween, List.splitOnP_eq_singleton hnone] at hpart
  exact List.mem_singleton.1 (List.mem_of_mem_filter hpart)

/-- A text in which an underscore leads a confined part has a loose hold. -/
theorem loose_of_confined (hlevel : Item.IsLevel text isExplicit level)
    (hpart : part ∈ Item.commaParts level) (hled : Item.isLed part = true)
    (hconfined : Item.Confined isExplicit level part) :
    (assemble false (Item.pieces text)).skeleton.looseInTree ≠ [] := by
  have stuck (h : (assemble isExplicit (Item.pieces level)).Stuck) :
      (assemble false (Item.pieces text)).skeleton.looseInTree ≠ [] :=
    looseAmong_ne_nil (List.mem_singleton_self _) (stuck_of_isLevel hlevel h).loose
  rw [Item.Confined] at hconfined
  split at hconfined
  · next hcomma => exact stuck (stuck_of_comma hcomma hpart hled hconfined)
  · next hcomma =>
    have hcomma := Bool.eq_false_iff.2 hcomma
    rw [eq_unmarked_of_mem_commaParts hcomma hpart] at hled hconfined
    cases isExplicit with
    | true =>
      obtain ⟨hlength, hperiod⟩ := hconfined rfl
      exact stuck (stuck_of_unbroken hcomma hled hlength hperiod)
    | false =>
      cases hlevel
      exact loose_of_unparted hcomma hled

end

/-! ## Texts -/

/-- A text that can be built is refused for a hold exactly if the skeleton of the tree has a loose
hold; and so it is if an underscore leads a confined part of it. -/
theorem parse_of_led {text : String} {tokens : List Token} {root : Node}
    (htokens : tokenize text = .ok tokens) (hroot : build tokens = .ok root) :
    ((∃ p, parse text = .error (.nothingToHold p)) ↔ root.skeleton.looseInTree ≠ []) ∧
      ∀ items, Item.ofTokens? tokens = some items →
        ∀ isExplicit level part, Item.IsLevel items isExplicit level →
          part ∈ Item.commaParts level → Item.isLed part = true →
          Item.Confined isExplicit level part →
          ∃ p, parse text = .error (.nothingToHold p) := by
  have hparse : parse text = root.annotate := by
    rw [parse, htokens]
    change (build tokens >>= annotate) = _
    rw [hroot]
    rfl
  have hfails : (∃ p, parse text = .error (.nothingToHold p)) ↔ root.skeleton.looseInTree ≠ [] := by
    rw [hparse, ← (failsAt_skeleton (written_of_build hroot)).fails_iff]
    refine exists_congr fun p => (annotate_eq_error (written_of_build hroot)).trans ?_
    exact or_iff_left fun h => nomatch h.1
  refine ⟨hfails, ?_⟩
  intro items hitems isExplicit level part hlevel hpart hled hconfined
  obtain ⟨hmatch, hrefused⟩ := readable_of_build hroot
  obtain ⟨items', hspells⟩ := exists_spells_of_bracesMatch hmatch
  cases hspells.ofTokens?.symm.trans hitems
  cases (hspells.build hrefused).symm.trans hroot
  exact hfails.2 (loose_of_confined hlevel hpart hled hconfined)

/-- A part after a comma that an underscore leads is refused if there is more in it. -/
theorem parse_of_led_part :
    ∃ tokens root items part p, tokenize "a , _ b" = .ok tokens ∧ build tokens = .ok root ∧
      Item.ofTokens? tokens = some items ∧ part ∈ Item.commaParts items ∧
      Item.isLed part = true ∧ parse "a , _ b" = .error (.nothingToHold p) := by
  have htokens : tokenize "a , _ b" =
      .ok [⟨"a", 0, 0⟩, ⟨",", 0, 2⟩, ⟨"_", 0, 4⟩, ⟨"b", 0, 6⟩] := by decide +kernel
  obtain ⟨root, hroot⟩ : ∃ root,
      build [⟨"a", 0, 0⟩, ⟨",", 0, 2⟩, ⟨"_", 0, 4⟩, ⟨"b", 0, 6⟩] = .ok root := ⟨_, rfl⟩
  have hparts : Item.commaParts
      [.leaf ⟨"a", 0, 0⟩, .leaf ⟨",", 0, 2⟩, .leaf ⟨"_", 0, 4⟩, .leaf ⟨"b", 0, 6⟩] =
        [[.leaf ⟨"a", 0, 0⟩], [.leaf ⟨"_", 0, 4⟩, .leaf ⟨"b", 0, 6⟩]] := rfl
  have hpart := List.mem_of_getLast? (congrArg List.getLast? hparts)
  have hconfined : Item.Confined false
      [.leaf ⟨"a", 0, 0⟩, .leaf ⟨",", 0, 2⟩, .leaf ⟨"_", 0, 4⟩, .leaf ⟨"b", 0, 6⟩]
      [.leaf ⟨"_", 0, 4⟩, .leaf ⟨"b", 0, 6⟩] := .inl (Nat.le_refl 2)
  obtain ⟨p, hp⟩ := (parse_of_led htokens hroot).2 _ rfl false _ _ .text hpart rfl hconfined
  exact ⟨_, root, _, _, p, htokens, hroot, rfl, hpart, rfl, hp⟩

/-- A hold that is a part of its own lengthens what stands before the comma. So does one that is a
block of its own, or leads a block with periods between periods, for what stands before the brace.
-/
theorem parse_of_led_fails :
    (∃ tokens root items part tree, tokenize "a , _" = .ok tokens ∧ build tokens = .ok root ∧
      Item.ofTokens? tokens = some items ∧ part ∈ Item.commaParts items ∧
      Item.isLed part = true ∧ parse "a , _" = .ok tree) ∧
    (∃ tree, parse "a \x7b_\x7d" = .ok tree) ∧
    ∃ tree, parse "a . \x7b_ . b\x7d" = .ok tree := by
  have accepted {text : String} (h : (parse text).isOk = true) : ∃ tree, parse text = .ok tree := by
    cases htree : parse text with
    | error fault =>
      rw [htree] at h
      cases h
    | ok tree => exact ⟨tree, rfl⟩
  refine ⟨?_, accepted (by decide +kernel), accepted (by decide +kernel)⟩
  have htokens : tokenize "a , _" = .ok [⟨"a", 0, 0⟩, ⟨",", 0, 2⟩, ⟨"_", 0, 4⟩] := by
    decide +kernel
  obtain ⟨root, hroot⟩ : ∃ root,
      build [⟨"a", 0, 0⟩, ⟨",", 0, 2⟩, ⟨"_", 0, 4⟩] = .ok root := ⟨_, rfl⟩
  have hparts : Item.commaParts [.leaf ⟨"a", 0, 0⟩, .leaf ⟨",", 0, 2⟩, .leaf ⟨"_", 0, 4⟩] =
      [[.leaf ⟨"a", 0, 0⟩], [.leaf ⟨"_", 0, 4⟩]] := rfl
  have hpart := List.mem_of_getLast? (congrArg List.getLast? hparts)
  obtain ⟨tree, htree⟩ : ∃ tree, parse "a , _" = .ok tree := accepted (by decide +kernel)
  exact ⟨_, root, _, _, tree, htokens, hroot, rfl, hpart, rfl, htree⟩

end Polyrhythm
