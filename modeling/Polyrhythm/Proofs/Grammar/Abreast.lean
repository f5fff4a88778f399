import Mathlib.Algebra.Order.BigOperators.Ring.Finset
import Polyrhythm.Proofs.Grammar.Excess
import Polyrhythm.Proofs.Grammar.Leading
import Polyrhythm.Proofs.Grammar.Numeral
import Polyrhythm.Proofs.Timing.Faster

/-!
# Parts between commas

A text of several parts is a simul of what the parts are by themselves (`build_joined`). Markers
outlast a comma, so the leaves of a part are sped up by the markers of all parts before it
(`Abreast`). But every part after the first is to last as long as the first does, and then it lasts
so at whatever tempo it is written. So a part after the first can be replaced without any effect on
the others but that the parts after it are written at another tempo (`annotate_joined`). This is so
as long as the limit of digits is kept.
-/

namespace Polyrhythm

open Traversal Node

/-! ## Texts of parts -/

/-- No comma stands outside all blocks. -/
def CommasInside (tokens : List Token) : Prop :=
  ∀ i < tokens.length, tokens[i]?.map Token.content = some "," →
    openAfter 0 (tokens.take i) ≠ some 0

instance (tokens : List Token) : Decidable (CommasInside tokens) :=
  inferInstanceAs (Decidable (∀ i < tokens.length, _ → _))

/-- Tokens that can stand between commas as one part without holds: their braces match, no comma
cuts them, no marker has a zero, and not all of them are markers. -/
structure IsPart (tokens : List Token) : Prop where
  matched : BracesMatch tokens
  uncut : CommasInside tokens
  proper : ∀ t ∈ tokens, t.isVoid = false
  holdless : ∀ t ∈ tokens, t.content ≠ "_"
  plain : ∃ t ∈ tokens, t.marker? = none

/-- A part whose markers can all be read. -/
structure IsReadablePart (tokens : List Token) : Prop extends IsPart tokens where
  readable : ∀ t ∈ tokens, t.excess? = none

instance (tokens : List Token) : Decidable (IsPart tokens) :=
  decidable_of_iff
    (BracesMatch tokens ∧ CommasInside tokens ∧ (∀ t ∈ tokens, t.isVoid = false) ∧
      (∀ t ∈ tokens, t.content ≠ "_") ∧ ∃ t ∈ tokens, t.marker? = none)
    ⟨fun ⟨hmatched, huncut, hproper, hholdless, hplain⟩ =>
      ⟨hmatched, huncut, hproper, hholdless, hplain⟩,
      fun h => ⟨h.matched, h.uncut, h.proper, h.holdless, h.plain⟩⟩

/-- The tokens of a text of parts, every part but the first standing after a comma. -/
def joined (first : List Token) (rest : List (Token × List Token)) : List Token :=
  first ++ rest.flatMap fun part => part.1 :: part.2

/-- What the parts after some commas are in a text, given the tempo before the first of these
commas: each is what it is by itself, sped up by the markers of the parts before it. -/
inductive Abreast : Rat → List (Token × List Token) → List Node → Prop
  /-- No commas, no parts. -/
  | nil {tempo : Rat} : Abreast tempo [] []
  /-- A part is sped up, and its own markers speed up the parts after it. -/
  | cons {tempo : Rat} {comma : Token} {part : List Token} {rest : List (Token × List Token)}
    {n : Node} {ns : List Node} :
    build part = .ok n → Abreast (tempo * tempoAfter part) rest ns →
    Abreast tempo ((comma, part) :: rest) (n.scaleTempo tempo :: ns)

variable {tokens part : List Token} {items : List Item} {t : Token} {tempo : Rat}
  {rest : List (Token × List Token)} {ns : List Node}

/-! ## Tokens of one part -/

/-- No comma cuts what follows balanced tokens if none cuts the whole. -/
theorem CommasInside.of_append (h : CommasInside (part ++ tokens)) (hmatch : BracesMatch part) :
    CommasInside tokens := by
  intro i hi hcomma hdepth
  have hlength : part.length + i < (part ++ tokens).length := by
    rw [List.length_append]
    omega
  refine h (part.length + i) hlength ?_ ?_
  · rw [List.getElem?_append_right (Nat.le_add_right _ _), Nat.add_sub_cancel_left]
    exact hcomma
  · rw [List.take_length_add_append, openAfter_append, hmatch, Option.bind_some]
    exact hdepth

/-- The items of tokens that no comma cuts are no commas. -/
theorem Spells.isComma_eq_false (h : Spells tokens items) (huncut : CommasInside tokens) :
    ∀ item ∈ items, item.isComma = false := by
  induction h with
  | nil => exact List.forall_mem_nil _
  | @leaf t ts items ho hc _ ih =>
    have hcomma : t.content ≠ "," := by
      intro hcomma
      exact huncut 0 (Nat.succ_pos _) (by simp [hcomma]) rfl
    have hlater : CommasInside ts :=
      CommasInside.of_append (show CommasInside ([t] ++ ts) from huncut)
        (Spells.leaf ho hc .nil).bracesMatch
    exact List.forall_mem_cons.2 ⟨decide_eq_false hcomma, ih hlater⟩
  | @block o c inner rest content items ho hc hinner _ _ ihrest =>
    have hsplit : o :: (inner ++ c :: rest) = o :: (inner ++ [c]) ++ rest := by simp
    have hlater : CommasInside rest :=
      CommasInside.of_append (hsplit ▸ huncut) (Spells.block ho hc hinner .nil).bracesMatch
    exact List.forall_mem_cons.2 ⟨rfl, ihrest hlater⟩

/-- If a token is no marker, neither are all the items. -/
theorem Spells.exists_not_isMarker (h : Spells tokens items) (ht : t ∈ tokens)
    (hplain : t.marker? = none) : ∃ item ∈ items, item.isMarker = false := by
  induction h with
  | nil => cases ht
  | @leaf t' ts items _ _ _ ih =>
    rcases List.mem_cons.1 ht with rfl | ht
    · exact ⟨.leaf t, List.mem_cons_self, by rw [Item.isMarker, hplain]; rfl⟩
    · obtain ⟨item, hitem, hnot⟩ := ih ht
      exact ⟨item, List.mem_cons_of_mem _ hitem, hnot⟩
  | @block o c inner rest content items _ _ _ _ _ _ =>
    exact ⟨.block content, List.mem_cons_self, rfl⟩

/-- A tempo is positive if no marker has a zero. -/
theorem tempoAfter_pos (h : ∀ t ∈ tokens, t.isVoid = false) : 0 < tempoAfter tokens := by
  rw [tempoAfter, scopedTempo]
  refine Finset.prod_pos fun i _ => ?_
  rw [rateAt]
  cases hi : tokens[i]? with
  | none => exact one_pos
  | some t =>
    have ht := h t (List.mem_of_getElem? hi)
    rw [Token.isVoid] at ht
    rw [Option.elim_some, Token.rate]
    cases hmarker : t.marker? with
    | none => exact one_pos
    | some marker =>
      rw [hmarker] at ht
      exact Marker.rate_pos ht

/-- The pieces of items in a row are those of the first and then those of the others. -/
theorem Item.pieces_append (items items' : List Item) :
    Item.pieces (items ++ items') = Item.pieces items ++ Item.pieces items' := by
  rw [pieces_eq_map, pieces_eq_map, pieces_eq_map, List.map_append]

/-- The pieces of tokens in a row: those of the others start from the tempo after the first. -/
theorem Spells.pace_append (h : Spells tokens items) (tempo : Rat) (more : List Piece) :
    pace tempo (Item.pieces items ++ more) =
      pace tempo (Item.pieces items) ++ pace (tempo * tempoAfter tokens) more := by
  induction h generalizing tempo with
  | nil => rw [tempoAfter_nil, mul_one]; rfl
  | @leaf t ts items ho hc hts ih =>
    have htempo : tempoAfter (t :: ts) = t.rate * tempoAfter ts := by
      rw [← tempoAfter_singleton hc]
      exact hts.tempoAfter_append [t]
    rw [htempo, ← mul_assoc, Item.pieces, Item.piece, List.cons_append]
    cases hmarker : t.marker? with
    | none =>
      have hrate : t.rate = 1 := by rw [Token.rate, hmarker]; rfl
      have hplain := (Token.piece_tagHold hmarker 1).1
      rw [pace_cons tempo hplain, pace_cons tempo hplain, ih, hrate, mul_one, List.cons_append]
    | some marker =>
      have hrate : t.rate = marker.rate := by rw [Token.rate, hmarker]; rfl
      rw [Token.piece_of_marker hmarker, pace_marker, pace_marker, ih, hrate]
  | @block o c inner rest content items ho hc hinner hrest _ ihrest =>
    have htempo : tempoAfter (o :: (inner ++ c :: rest)) = tempoAfter rest := by
      have hblock : tempoAfter (o :: (inner ++ [c])) = 1 :=
        @tempoAfter_append_block [] inner o c ho hc hinner.bracesMatch
      have hall := hrest.tempoAfter_append (o :: (inner ++ [c]))
      rw [hblock, one_mul, List.cons_append, List.append_assoc] at hall
      exact hall
    rw [htempo, Item.pieces, Item.piece, List.cons_append, pace, pace, ihrest, List.cons_append]

/-- No marker of a part that can be read is refused. -/
theorem IsReadablePart.isRefused_eq_false (h : IsReadablePart part) :
    ∀ t ∈ part, t.isRefused = false :=
  not_isRefused_of_readable h.proper h.readable

/-- A part becomes pieces without commas. It is built, and at another tempo it is assembled from its
pieces at that tempo. -/
theorem IsReadablePart.exists_pieces (h : IsReadablePart part) :
    ∃ items n, Spells part items ∧ build part = .ok n ∧
      ∀ tempo, pace tempo (Item.pieces items) ≠ [] ∧
        (∀ piece ∈ pace tempo (Item.pieces items), piece.isComma = false) ∧
        assemblePart false (pace tempo (Item.pieces items)) = n.scaleTempo tempo := by
  obtain ⟨items, hitems⟩ := exists_spells_of_bracesMatch h.matched
  refine ⟨items, assemble false (Item.pieces items), hitems,
    hitems.build h.isRefused_eq_false, ?_⟩
  intro tempo
  have hplays := forall₂_plays items tempo
  have hnone : (pace tempo (Item.pieces items)).any Piece.isComma = false := by
    rw [← any_eq_of_forall₂ hplays fun _ _ h => h.isComma, List.any_eq_false]
    intro item hitem
    rw [hitems.isComma_eq_false h.uncut item (List.mem_of_mem_filter hitem)]
    exact Bool.false_ne_true
  refine ⟨?_, by simpa using hnone, ?_⟩
  · intro hempty
    obtain ⟨t, ht, hplain⟩ := h.plain
    obtain ⟨item, hitem, hnot⟩ := hitems.exists_not_isMarker ht hplain
    rw [hempty, List.forall₂_nil_right_iff] at hplays
    have hmem : item ∈ Item.unmarked items := List.mem_filter.2 ⟨hitem, by simp [hnot]⟩
    rw [hplays] at hmem
    cases hmem
  · rw [scaleTempo_assemble, arrange, hnone, if_neg Bool.false_ne_true]

/-! ## Parts in a row -/

/-- At another tempo the parts after some commas are the same parts at another tempo. -/
theorem Abreast.scaleTempo (h : Abreast tempo rest ns) (r : Rat) :
    Abreast (tempo * r) rest (ns.map (Node.scaleTempo r)) := by
  induction h with
  | nil => exact .nil
  | @cons tempo comma part rest n ns hn _ ih =>
    rw [List.map_cons, scaleTempo_scaleTempo]
    refine .cons hn ?_
    rw [mul_right_comm]
    exact ih

/-- Every part is built, and all of them together leave a tempo to the parts after them. -/
theorem exists_abreast (h : ∀ part ∈ rest, IsReadablePart part.2) (tempo : Rat) :
    ∃ ns next, ns.length = rest.length ∧
      ∀ later ms, Abreast next later ms → Abreast tempo (rest ++ later) (ns ++ ms) := by
  induction rest generalizing tempo with
  | nil => exact ⟨[], tempo, rfl, fun _ _ hlater => hlater⟩
  | cons part rest ih =>
    obtain ⟨hpart, hrest⟩ := List.forall_mem_cons.1 h
    obtain ⟨items, n, -, hn, -⟩ := hpart.exists_pieces
    obtain ⟨ns, next, hlength, habreast⟩ := ih hrest (tempo * tempoAfter part.2)
    exact ⟨n.scaleTempo tempo :: ns, next, by rw [List.length_cons, hlength, List.length_cons],
      fun later ms hlater => .cons hn (habreast later ms hlater)⟩

/-- If a part in a row is replaced, the parts before it stay as they are, and the parts after it are
what they were at another tempo. -/
theorem exists_abreast_replaced {before after : List (Token × List Token)} {comma : Token}
    {p q : List Token} {np nq : Node} (hp : ∀ t ∈ p, t.isVoid = false) (hnp : build p = .ok np)
    (hnq : build q = .ok nq) (hrest : ∀ part ∈ before ++ after, IsReadablePart part.2)
    (tempo : Rat) :
    ∃ ns ms next, ns.length = before.length ∧ ms.length = after.length ∧
      Abreast tempo (before ++ (comma, p) :: after) (ns ++ np.scaleTempo next :: ms) ∧
      Abreast tempo (before ++ (comma, q) :: after)
        (ns ++ nq.scaleTempo next :: ms.map (Node.scaleTempo (tempoAfter q / tempoAfter p))) := by
  obtain ⟨hbefore, hafter⟩ := List.forall_mem_append.1 hrest
  obtain ⟨ns, next, hns, hearlier⟩ := exists_abreast hbefore tempo
  obtain ⟨ms, last, hms, hlater⟩ := exists_abreast hafter (next * tempoAfter p)
  have hlater := hlater [] [] .nil
  rw [List.append_nil, List.append_nil] at hlater
  have hlater' := hlater.scaleTempo (tempoAfter q / tempoAfter p)
  rw [mul_assoc, mul_div_cancel₀ _ (tempoAfter_pos hp).ne'] at hlater'
  exact ⟨ns, ms, next, hns, hms, hearlier _ _ (.cons hnp hlater), hearlier _ _ (.cons hnq hlater')⟩

/-- The pieces of the parts after some commas are cut at these commas, whatever part is before the
first of them. -/
theorem exists_spells_rest (h : ∀ part ∈ rest, part.1.content = "," ∧ IsReadablePart part.2) :
    ∃ items, Spells (rest.flatMap fun part => part.1 :: part.2) items ∧
      ∀ tempo ns, Abreast tempo rest ns →
        (rest ≠ [] → (pace tempo (Item.pieces items)).any Piece.isComma = true) ∧
        ∀ pieces, pieces ≠ [] → (∀ piece ∈ pieces, piece.isComma = false) →
          (partsBetween Piece.isComma (pieces ++ pace tempo (Item.pieces items))).map
            (assemblePart false) = assemblePart false pieces :: ns := by
  induction rest with
  | nil =>
    refine ⟨[], .nil, fun tempo ns habreast => ⟨fun hne => absurd rfl hne, ?_⟩⟩
    intro pieces hne hcomma
    cases habreast
    rw [Item.pieces, pace, List.append_nil, partsBetween_of_absent hcomma hne]
    rfl
  | cons part rest ih =>
    obtain ⟨⟨hseparator, hpart⟩, hrest⟩ := List.forall_mem_cons.1 h
    obtain ⟨comma, part⟩ := part
    obtain ⟨items, n, hitems, hn, hpieces⟩ := hpart.exists_pieces
    obtain ⟨later, hlater, habreast⟩ := ih hrest
    have hopen : comma.content ≠ openingBrace := by rw [hseparator]; decide
    have hclose : comma.content ≠ closingBrace := by rw [hseparator]; decide
    have hpiece : comma.piece = .comma := by rw [Token.piece, hseparator]; rfl
    have hpace (tempo : Rat) : pace tempo (Item.pieces (.leaf comma :: (items ++ later))) =
        .comma :: (pace tempo (Item.pieces items) ++
          pace (tempo * tempoAfter part) (Item.pieces later)) := by
      rw [Item.pieces, Item.piece, hpiece, Item.pieces_append]
      change .comma :: pace tempo (Item.pieces items ++ Item.pieces later) = _
      rw [hitems.pace_append]
    refine ⟨.leaf comma :: (items ++ later), .leaf hopen hclose (hitems.append hlater), ?_⟩
    intro tempo ns h
    cases h with
    | cons hn' hns =>
      cases hn.symm.trans hn'
      obtain ⟨hne, hplain, hassemble⟩ := hpieces tempo
      rw [hpace]
      refine ⟨fun _ => rfl, ?_⟩
      intro pieces hpiecesNe hpiecesComma
      rw [partsBetween_append_cons hpiecesComma hpiecesNe rfl, List.map_cons,
        (habreast _ _ hns).2 _ hne hplain, hassemble]

/-- What holds of the tokens of all parts and of the commas holds of the tokens of a text. -/
theorem forall_mem_joined {p : Token → Prop} {first : List Token} (hfirst : ∀ t ∈ first, p t)
    (hrest : ∀ part ∈ rest, p part.1 ∧ ∀ t ∈ part.2, p t) : ∀ t ∈ joined first rest, p t := by
  intro t ht
  rcases List.mem_append.1 ht with ht | ht
  · exact hfirst t ht
  · obtain ⟨part, hpart, ht⟩ := List.mem_flatMap.1 ht
    rcases List.mem_cons.1 ht with rfl | ht
    · exact (hrest part hpart).1
    · exact (hrest part hpart).2 t ht

/-- What holds of the tokens of a text holds of the tokens of its parts. -/
theorem forall_mem_of_joined {p : Token → Prop} {first : List Token}
    (h : ∀ t ∈ joined first rest, p t) :
    (∀ t ∈ first, p t) ∧ ∀ part ∈ rest, ∀ t ∈ part.2, p t :=
  ⟨fun t ht => h t (List.mem_append_left _ ht), fun part hpart t ht =>
    h t (List.mem_append_right _ (List.mem_flatMap.2 ⟨part, hpart, List.mem_cons_of_mem _ ht⟩))⟩

/-- A text of parts is the simul of what the parts are by themselves, sped up by the markers of the
parts before them. -/
theorem build_joined {first : List Token} {n : Node} (hfirst : IsReadablePart first)
    (hn : build first = .ok n)
    (hrest : ∀ part ∈ rest, part.1.content = "," ∧ IsReadablePart part.2) (hne : rest ≠ [])
    (h : Abreast (tempoAfter first) rest ns) :
    build (joined first rest) = .ok (.simul (n :: ns) none) := by
  obtain ⟨items, n', hitems, hn', hpieces⟩ := hfirst.exists_pieces
  cases hn.symm.trans hn'
  obtain ⟨later, hlater, habreast⟩ := exists_spells_rest hrest
  obtain ⟨hcomma, hparts⟩ := habreast _ _ h
  obtain ⟨hpiecesNe, hplain, hassemble⟩ := hpieces 1
  have hproper : ∀ t ∈ joined first rest, t.isRefused = false := by
    refine forall_mem_joined hfirst.isRefused_eq_false fun part hpart => ?_
    obtain ⟨hseparator, hpart⟩ := hrest part hpart
    exact ⟨by rw [Token.isRefused, Token.marker?, hseparator]; rfl, hpart.isRefused_eq_false⟩
  rw [joined] at hproper ⊢
  rw [(hitems.append hlater).build hproper, assemble_eq_arrange, Item.pieces_append,
    hitems.pace_append, one_mul, arrange, List.any_append, hcomma hne, Bool.or_true, if_pos rfl,
    hparts _ hpiecesNe hplain, hassemble, scaleTempo_one]

/-- The braces of a text of parts match, and no marker in it has a zero. -/
theorem proper_joined {first : List Token} (hfirst : IsPart first)
    (hrest : ∀ part ∈ rest, part.1.content = "," ∧ IsPart part.2) :
    BracesMatch (joined first rest) ∧ ∀ t ∈ joined first rest, t.isVoid = false := by
  refine ⟨?_, forall_mem_joined hfirst.proper fun part hpart => ?_⟩
  · rw [BracesMatch, joined, openAfter_append, hfirst.matched, Option.bind_some]
    induction rest with
    | nil => rfl
    | cons part rest ih =>
      obtain ⟨⟨hseparator, hpart⟩, hrest⟩ := List.forall_mem_cons.1 hrest
      have hopen : part.1.content ≠ openingBrace := by rw [hseparator]; decide
      have hclose : part.1.content ≠ closingBrace := by rw [hseparator]; decide
      rw [List.flatMap_cons, List.cons_append, openAfter_cons_plain hopen hclose,
        openAfter_append, hpart.matched, Option.bind_some]
      exact ih hrest
  · obtain ⟨hseparator, hpart⟩ := hrest part hpart
    exact ⟨by rw [Token.isVoid, Token.marker?, hseparator]; rfl, hpart.proper⟩

/-! ## Annotating -/

/-- A text of parts is annotated by giving every part the duration of the first. -/
theorem annotate_joined_eq {first : List Token} {n : Node} (hfirst : IsReadablePart first)
    (hn : build first = .ok n)
    (hrest : ∀ part ∈ rest, part.1.content = "," ∧ IsReadablePart part.2)
    (hne : rest ≠ []) (h : Abreast (tempoAfter first) rest ns) :
    (build (joined first rest) >>= annotate) =
      (simul ((n :: ns).map (laidAs n.natural 1)) (some n.natural)).writable := by
  have hbuild := build_joined hfirst hn hrest hne h
  have hwritten := written_of_build hbuild
  have hholdless : ∀ t ∈ joined first rest, t.content ≠ "_" := by
    refine forall_mem_joined hfirst.holdless fun part hpart => ?_
    obtain ⟨hseparator, hpart⟩ := hrest part hpart
    exact ⟨by rw [hseparator]; decide, hpart.holdless⟩
  have htimed := timed_of_holdless hwritten (isHold_of_build hholdless hbuild)
  rw [laid, laidTo_eq_map, naturalFirst, one_mul] at htimed
  have hannotate := annotate_eq hwritten
  rw [htimed] at hannotate
  rw [hbuild]
  exact hannotate

/-- A text of parts with a marker that cannot be read is refused for one. -/
theorem build_joined_unreadable {first : List Token} (hfirst : IsPart first)
    (hrest : ∀ part ∈ rest, part.1.content = "," ∧ IsPart part.2)
    (h : ∃ t ∈ joined first rest, t.excess? ≠ none) :
    ∃ t ∈ joined first rest, ∃ numeral, t.excess? = some numeral ∧
      build (joined first rest) = .error (.unreadableNumeral numeral.length) := by
  obtain ⟨hmatch, hvoid⟩ := proper_joined hfirst hrest
  exact build_of_excess hmatch hvoid h

/-- The parts around one that is replaced, if all markers can be read. -/
theorem annotate_joined_readable {first p q : List Token} {before after : List (Token × List Token)}
    {comma : Token} (hfirst : IsReadablePart first) (hp : IsReadablePart p)
    (hq : IsReadablePart q) (hcomma : comma.content = ",")
    (hrest : ∀ part ∈ before ++ after, part.1.content = "," ∧ IsReadablePart part.2) :
    ∃ earlier x y later d, earlier.length = before.length + 1 ∧ later.length = after.length ∧
      (build (joined first (before ++ (comma, p) :: after)) >>= annotate) =
        (simul (earlier ++ x :: later) d).writable ∧
      (build (joined first (before ++ (comma, q) :: after)) >>= annotate) =
        (simul (earlier ++ y :: later.map (scaleTempo (tempoAfter q / tempoAfter p)))
          d).writable := by
  have hratio : tempoAfter q / tempoAfter p ≠ 0 :=
    (div_pos (tempoAfter_pos hq.proper) (tempoAfter_pos hp.proper)).ne'
  obtain ⟨-, n, -, hn, -⟩ := hfirst.exists_pieces
  obtain ⟨-, np, -, hnp, -⟩ := hp.exists_pieces
  obtain ⟨-, nq, -, hnq, -⟩ := hq.exists_pieces
  obtain ⟨ns, ms, next, hns, hms, hrow, hrow'⟩ :=
    exists_abreast_replaced hp.proper hnp hnq (fun part hpart => (hrest part hpart).2)
      (tempoAfter first)
  have hall {part : List Token} (hpart : IsReadablePart part) :
      ∀ other ∈ before ++ (comma, part) :: after,
        other.1.content = "," ∧ IsReadablePart other.2 := by
    rw [List.forall_mem_append] at hrest ⊢
    exact ⟨hrest.1, List.forall_mem_cons.2 ⟨⟨hcomma, hpart⟩, hrest.2⟩⟩
  have hne (part : List Token) : before ++ (comma, part) :: after ≠ [] := by simp
  have hmap (m : Node) (ms : List Node) : (n :: (ns ++ m :: ms)).map (laidAs n.natural 1) =
      (n :: ns).map (laidAs n.natural 1) ++
        laidAs n.natural 1 m :: ms.map (laidAs n.natural 1) := by
    rw [← List.cons_append, List.map_append]
    rfl
  refine ⟨(n :: ns).map (laidAs n.natural 1), laidAs n.natural 1 (np.scaleTempo next),
    laidAs n.natural 1 (nq.scaleTempo next), ms.map (laidAs n.natural 1), some n.natural,
    ?_, ?_, ?_, ?_⟩
  · rw [List.length_map, List.length_cons, hns]
  · rw [List.length_map, hms]
  · rw [annotate_joined_eq hfirst hn (hall hp) (hne p) hrow, hmap]
  · -- what the parts after the replaced one are laid out to does not depend on their tempo
    have hsame : (ms.map (Node.scaleTempo (tempoAfter q / tempoAfter p))).map
        (laidAs n.natural 1) =
          (ms.map (laidAs n.natural 1)).map (Node.scaleTempo (tempoAfter q / tempoAfter p)) := by
      rw [List.map_map, List.map_map]
      exact List.map_congr_left fun m _ => laidAs_scaleTempo hratio m n.natural 1
    rw [annotate_joined_eq hfirst hn (hall hq) (hne q) hrow', hmap, hsame]

/-- If a part after the first is replaced, the parts before it stay as they are, and the parts after
it change their tempo and nothing else. The two trees are what annotating yields, unless a number in
them cannot be written. All this takes markers that can be read: a text with another one is refused
for it. -/
theorem annotate_joined {first p q : List Token} {before after : List (Token × List Token)}
    {comma : Token} (hfirst : IsPart first) (hp : IsPart p) (hq : IsPart q)
    (hcomma : comma.content = ",")
    (hrest : ∀ part ∈ before ++ after, part.1.content = "," ∧ IsPart part.2) :
    ((∀ part ∈ [p, q], ∀ t ∈ joined first (before ++ (comma, part) :: after), t.excess? = none) →
      ∃ earlier x y later d, earlier.length = before.length + 1 ∧ later.length = after.length ∧
        (build (joined first (before ++ (comma, p) :: after)) >>= annotate) =
          (simul (earlier ++ x :: later) d).writable ∧
        (build (joined first (before ++ (comma, q) :: after)) >>= annotate) =
          (simul (earlier ++ y :: later.map (scaleTempo (tempoAfter q / tempoAfter p)))
            d).writable) ∧
    ∀ part ∈ [p, q],
      (∃ t ∈ joined first (before ++ (comma, part) :: after), t.excess? ≠ none) →
        ∃ t ∈ joined first (before ++ (comma, part) :: after), ∃ numeral,
          t.excess? = some numeral ∧
          build (joined first (before ++ (comma, part) :: after)) =
            .error (.unreadableNumeral numeral.length) := by
  have hall {part : List Token} (hpart : IsPart part) :
      ∀ other ∈ before ++ (comma, part) :: after, other.1.content = "," ∧ IsPart other.2 := by
    rw [List.forall_mem_append] at hrest ⊢
    exact ⟨hrest.1, List.forall_mem_cons.2 ⟨⟨hcomma, hpart⟩, hrest.2⟩⟩
  refine ⟨fun hread => ?_, List.forall_mem_cons.2 ⟨build_joined_unreadable hfirst (hall hp),
    List.forall_mem_singleton.2 (build_joined_unreadable hfirst (hall hq))⟩⟩
  obtain ⟨hwithP, hwithQ⟩ := List.forall_mem_cons.1 hread
  obtain ⟨hfirstRead, hpRead⟩ := forall_mem_of_joined hwithP
  obtain ⟨-, hqRead⟩ := forall_mem_of_joined (List.forall_mem_singleton.1 hwithQ)
  rw [List.forall_mem_append, List.forall_mem_cons] at hpRead hqRead
  refine annotate_joined_readable ⟨hfirst, hfirstRead⟩ ⟨hp, hpRead.2.1⟩ ⟨hq, hqRead.2.1⟩ hcomma ?_
  intro part hpart
  refine ⟨(hrest part hpart).1, (hrest part hpart).2, ?_⟩
  exact (List.mem_append.1 hpart).elim (hpRead.1 part) (hpRead.2.2 part)

/-- A part of an empty block is replaced by one with a sequence and a simul in a block. The marker
in front of the new part, like that of the old one, speeds up the part after it. -/
theorem annotate_joined_leaking :
    ∃ tokens tokens' earlier x y later d,
      tokens.map Token.content = ["a", ",", "/5", "\x7b", "\x7d", ",", "b", "c"] ∧
      tokens'.map Token.content =
        ["a", ",", "/2", "d", ".", "\x7b", "e", ",", "f", "\x7d", ",", "b", "c"] ∧
      (build tokens >>= annotate) = .ok (simul (earlier ++ x :: later) d) ∧
      (build tokens' >>= annotate) =
        .ok (simul (earlier ++ y :: later.map (scaleTempo (2 / 5))) d) := by
  obtain ⟨earlier, x, y, later, d, -, -, hrun, hrun'⟩ :=
    (@annotate_joined (["a"].map (Token.mk · .start))
      (["/5", "\x7b", "\x7d"].map (Token.mk · .start))
      (["/2", "d", ".", "\x7b", "e", ",", "f", "\x7d"].map (Token.mk · .start))
      [] [(⟨",", .start⟩, ["b", "c"].map (Token.mk · .start))] ⟨",", .start⟩
      (by decide) (by decide) (by decide) rfl
      (List.forall_mem_singleton.2 ⟨rfl, by decide⟩)).1 (by decide)
  have hratio : tempoAfter (["/2", "d", ".", "\x7b", "e", ",", "f", "\x7d"].map
      (Token.mk · .start)) / tempoAfter (["/5", "\x7b", "\x7d"].map (Token.mk · .start)) =
        2 / 5 := by decide +kernel
  rw [hratio] at hrun'
  exact ⟨_, _, earlier, x, y, later, d, rfl, rfl, eq_ok_of_writable hrun (by decide +kernel),
    eq_ok_of_writable hrun' (by decide +kernel)⟩

/-- A part is replaced by one with a marker that has a digit too many. -/
theorem annotate_joined_fails :
    IsPart [⟨"a", .start⟩] ∧ IsPart [⟨"b", .start⟩] ∧
      IsPart [.tenfold Number.digitLimit, ⟨"b", .start⟩] ∧
      (build (joined [⟨"a", .start⟩] [(⟨",", .start⟩, [⟨"b", .start⟩])]) >>= annotate).isOk ∧
      build (joined [⟨"a", .start⟩]
          [(⟨",", .start⟩, [.tenfold Number.digitLimit, ⟨"b", .start⟩])]) =
        .error (.unreadableNumeral (Number.digitLimit + 1)) := by
  have hmarker := Token.marker?_tenfold Number.digitLimit
  have hother {content : String} (h : Marker.read? content.toList = none) :
      (Token.tenfold Number.digitLimit).content ≠ content := by
    rintro rfl
    cases h.symm.trans hmarker
  have hpart : IsPart [.tenfold Number.digitLimit, ⟨"b", .start⟩] := by
    refine ⟨(bracesMatch_cons_marker hmarker _).2 (by decide), ?_, ?_, ?_, ?_⟩
    · intro i hi hcomma
      obtain _ | _ | i := i
      · exact absurd (Option.some.inj hcomma) (hother (by decide +kernel))
      · exact absurd hcomma (by decide)
      · exact absurd hi (by simp)
    · exact List.forall_mem_cons.2 ⟨Token.isVoid_tenfold _, by decide⟩
    · exact List.forall_mem_cons.2 ⟨hother (by decide +kernel), by decide⟩
    · exact ⟨⟨"b", .start⟩, by simp, by decide⟩
  refine ⟨by decide, by decide, hpart, by decide +kernel, ?_⟩
  have hrest : ∀ part ∈ [((⟨",", .start⟩ : Token), [.tenfold Number.digitLimit, ⟨"b", .start⟩])],
      part.1.content = "," ∧ IsPart part.2 := List.forall_mem_singleton.2 ⟨rfl, hpart⟩
  have hfirst : IsPart [⟨"a", .start⟩] := by decide
  refine build_of_tenfold le_rfl (proper_joined hfirst hrest).1 ?_ (by simp [joined])
  exact forall_mem_joined (List.forall_mem_singleton.2 (.inr (by decide)))
    (List.forall_mem_singleton.2 ⟨.inr (by decide), List.forall_mem_cons.2
      ⟨.inl rfl, List.forall_mem_singleton.2 (.inr (by decide))⟩⟩)

end Polyrhythm
