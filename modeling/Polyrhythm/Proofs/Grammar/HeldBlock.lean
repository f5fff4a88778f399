import Polyrhythm.Proofs.Grammar.Abreast
import Polyrhythm.Proofs.Grammar.Enclosing

/-!
# Holding a block after a period

A block, a period and an underscore: the hold is to extend the block as a whole, as it does without
the period. It does if the block is still one element when the segments are put into one list. But
a block that is a sequence of its own has turned into a group without braces by then, and its
segments are spliced into the list (`Node.isSpliced`); the hold extends the last of them
(`Node.not_held_of_isSpliced`, `annotate_held_block_fails`). So the block is held as a whole exactly
if it is no sequence, as long as twice its duration can be written (`annotate_held_block`).
-/

namespace Polyrhythm

open Traversal

namespace Node

/-- Whether an element is replaced by what it holds when the segments of a sequence are put into one
list: a group without braces, or a sequence, which turns into one. -/
def isSpliced : Node → Bool
  | group _ isExplicit _ => !isExplicit
  | sequence _ => true
  | _ => false

variable {n root tree B : Node} {segments content : List Node} {h s : Hold} {d : Rat}

/-! ## Segments and a hold -/

theorem laid_of_isSpliced (hspliced : n.isSpliced = true) (factor : Rat) :
    ∃ content duration, n.laid factor = group content false duration := by
  cases n with
  | group content isExplicit duration =>
    cases isExplicit with
    | false => exact ⟨_, _, rfl⟩
    | true => cases hspliced
  | sequence content => exact ⟨_, _, rfl⟩
  | _ => cases hspliced

/-- An element that is not spliced stays one element. -/
theorem splice_laid (hwhole : n.isSpliced = false) (factor : Rat) :
    splice [n.laid factor] = [n.laid factor] := by
  cases n with
  | group content isExplicit duration =>
    cases isExplicit with
    | false => cases hwhole
    | true => rfl
  | sequence => cases hwhole
  | _ => rfl

/-- A hold after some segments lasts as long as the first of them, and stays after what they are
spliced into. -/
theorem laid_append_hold (hne : segments ≠ []) (h : Hold) :
    (sequence (segments ++ [hold h])).laid 1 =
      group (splice (segments.map (laidAs (naturalFirst segments) 1)) ++
        [hold { h with duration := some (1 * naturalFirst segments) }]) false
          (some (1 * ((segments ++ [hold h]).length * naturalFirst segments))) := by
  have hfirst : naturalFirst (segments ++ [hold h]) = naturalFirst segments := by
    cases segments with
    | nil => exact absurd rfl hne
    | cons => rfl
  rw [laid, laidTo_eq_map, hfirst, List.map_append, splice, List.flatMap_append]
  rfl

/-- A segment by itself is laid out as it would be alone. -/
theorem map_laidAs_singleton (hroot : root.Written) :
    [root].map (laidAs (naturalFirst [root]) 1) = [root.laid 1] := by
  rw [List.map_singleton, naturalFirst, laidAs_natural hroot]

/-! ## The hold extends the whole -/

/-- An element and a hold in a group are gathered to the element held over two slots. -/
theorem gather_hold {L : Node} (hL : L.gather = .ok B) (hd : L.duration? = some d)
    (hs : s.duration = some d) (duration : Option Rat) :
    (group [L, hold s] false duration).gather =
      .ok (group [held B ⟨none, 1, some [d, d], some (d + d)⟩] false duration) := by
  obtain ⟨hhold, hinside⟩ := gather_eq_ok hL
  have hB : B.duration? = some d := (duration?_gatherInside hinside).trans hd
  have hrun : (⟨B, [some d]⟩ : Run) = openRun B [] := by
    rw [openRun, extent_of_duration? hB]
    rfl
  have hheld : B.heldOver [d] = held B ⟨none, 1, some [d, d], some (d + d)⟩ := by
    rw [heldOver, extent_of_duration? hB]
    simp
  have hlast : gatherFrom (some ⟨B, [some d]⟩) [hold s] =
      .ok [held B ⟨none, 1, some [d, d], some (d + d)⟩] := by
    rw [hrun, gatherFrom_hold hs [], List.nil_append, gatherFrom, closeRun, close_openRun, hheld]
    rfl
  have hcontent : gatherFrom none [L, hold s] =
      .ok [held B ⟨none, 1, some [d, d], some (d + d)⟩] :=
    (gatherFrom_cons_eq_ok hhold).2
      ⟨B, [], some d, _, hinside, rfl, durationPart_of_duration? hB, hlast, rfl⟩
  rw [gather, gatherAll, gatherFrom_cons rfl, gatherInside, hcontent]
  rfl

/-- A group of an element alone, held over twice its duration. -/
def heldTwice (B : Node) (d : Rat) : Node :=
  group [held B ⟨none, 1, some [d, d], some (d + d)⟩] false (some (d + d))

/-- If an element can be written, twice its duration is all that may have too many digits in a group
where it is held over it. -/
theorem writable_heldTwice (hB : B.isWritable = true) (hd : B.duration? = some d) :
    (heldTwice B d).writable =
      if Number.isWritableRatio (d + d) then .ok (heldTwice B d) else .error .unwritableNumber := by
  have hduration := isWritableRatio_of_duration? hB hd
  have hwritable : (heldTwice B d).isWritable = Number.isWritableRatio (d + d) := by
    rw [heldTwice, isWritable_eq, children, List.all_cons, isWritable_eq (held B _), children,
      List.all_cons, hB]
    simp [numbers, hduration]
  rw [writable, hwritable]

/-- A hold after a segment that is not spliced extends all of it. -/
theorem annotate_append_hold (hroot : root.Written) (hh : (hold h).Written)
    (hB : root.annotate = .ok B) (hwhole : root.isSpliced = false) :
    ∃ d, B.duration? = some d ∧ (sequence ([root] ++ [hold h])).annotate =
      if Number.isWritableRatio (d + d) then .ok (heldTwice B d)
      else .error .unwritableNumber := by
  have hwritten : (sequence ([root] ++ [hold h])).Written :=
    every_sequence.2 ⟨trivial, List.forall_mem_append.2
      ⟨List.forall_mem_singleton.2 hroot, List.forall_mem_singleton.2 hh⟩⟩
  obtain ⟨hB, hwritable⟩ := (annotate_eq_ok hroot).1 hB
  rw [timed_eq_gather hroot] at hB
  have hd := duration?_laid hroot 1
  have hduration := (duration?_gatherInside (gather_eq_ok hB).2).trans hd
  refine ⟨1 * root.natural, hduration, ?_⟩
  have htotal : 1 * ((([root] ++ [hold h]).length : Rat) * naturalFirst [root]) =
      1 * root.natural + 1 * root.natural := by
    simp only [List.length_append, List.length_singleton, naturalFirst]
    push_cast
    ring
  have htimed : (sequence ([root] ++ [hold h])).timed = .ok (heldTwice B (1 * root.natural)) := by
    rw [timed_eq_gather hwritten, laid_append_hold (List.cons_ne_nil root []), htotal,
      map_laidAs_singleton hroot, splice_laid hwhole]
    exact gather_hold hB hd rfl _
  rw [annotate_eq hwritten, htimed, ← writable_heldTwice hwritable hduration]
  rfl

/-! ## The hold extends less -/

/-- What stands in the content of a group that is gathered is not the whole group, held or not. -/
theorem not_heldOver_mem (slots : List Rat) (isExplicit : Bool) (duration : Option Rat) :
    (group content isExplicit duration).heldOver slots ∉ content := by
  intro hmem
  have hlt := List.sizeOf_lt_of_mem hmem
  have hle : sizeOf (group content isExplicit duration) ≤
      sizeOf ((group content isExplicit duration).heldOver slots) := by
    rw [heldOver]
    split
    · exact Nat.le_refl _
    · simp only [held.sizeOf_spec]
      omega
  simp only [group.sizeOf_spec] at hle
  omega

/-- If a group is spliced into the list before the hold, the hold does not extend the whole group.
Otherwise the group would be one of its own elements. -/
theorem not_held_of_splice {duration g g' : Option Rat}
    (hB : (group content false duration).gather = .ok B)
    (hsettled : (group (content ++ [hold s]) false g).Every Settled)
    (h : (group (content ++ [hold s]) false g).gather = .ok (group [held B h] false g')) :
    False := by
  have hknown : ∀ n ∈ content ++ [hold s], n.duration? = some n.extent :=
    fun n hn => (hsettled.child hn).self.1.duration?
  obtain ⟨inner, hinner, hgroup⟩ := bind_eq_ok.1 (gather_eq_ok hB).2
  cases hgroup
  obtain ⟨out, hout, hgroup⟩ := bind_eq_ok.1 (gather_eq_ok h).2
  cases hgroup
  have hinnerRuns := runs_of_gatherFrom (fun n hn => hknown n (by simp [hn])) hinner
  obtain ⟨n, hn, m, slots, hhold, hm, hheld, -⟩ :=
    (runs_of_gatherFrom hknown hout).exists_of_mem (List.mem_singleton_self _)
  have hcontent : n ∈ content := by
    rcases List.mem_append.1 hn with hn | hn
    · exact hn
    · rw [List.mem_singleton.1 hn] at hhold
      cases hhold
  -- what the hold extends is the whole group, so the group comes of one of its elements
  have hwhole : m = group inner false duration := by
    rw [heldOver] at hheld
    split at hheld
    · subst hheld
      have := (hsettled.child hn).self.2
      cases n with
      | held => cases this
      | group | simul =>
        obtain ⟨_, -, hm⟩ := bind_eq_ok.1 hm
        cases hm
      | _ => cases hm
    · cases hheld
      rfl
  obtain ⟨m', slots', hm', hmem⟩ := hinnerRuns.exists_heldOver hcontent hhold
  obtain rfl : m = m' := Except.ok.inj (hm.symm.trans hm')
  rw [hwhole] at hmem
  exact not_heldOver_mem slots' false duration hmem

/-- A hold after segments does not extend all of what they are without it, if that is spliced: it is
the sequence of the segments, or a single segment that is spliced itself. -/
theorem not_held_of_isSpliced {g : Option Rat} (hroot : root.Written) (hh : (hold h).Written)
    (hB : root.annotate = .ok B) (hne : segments ≠ [])
    (hsegments : segments = [root] ∨ root = sequence segments) (hspliced : root.isSpliced = true) :
    (sequence (segments ++ [hold h])).annotate ≠ .ok (group [held B s] false g) := by
  have hwritten : (sequence (segments ++ [hold h])).Written := by
    refine every_sequence.2
      ⟨trivial, List.forall_mem_append.2 ⟨?_, List.forall_mem_singleton.2 hh⟩⟩
    rcases hsegments with rfl | rfl
    · exact List.forall_mem_singleton.2 hroot
    · exact fun n hn => hroot.child hn
  have hlaid : ∃ duration, root.laid 1 =
      group (splice (segments.map (laidAs (naturalFirst segments) 1))) false duration := by
    rcases hsegments with rfl | rfl
    · obtain ⟨content, duration, hcontent⟩ := laid_of_isSpliced hspliced 1
      refine ⟨duration, ?_⟩
      rw [map_laidAs_singleton hroot, hcontent, splice, List.flatMap_singleton]
    · exact ⟨_, by rw [laid, laidTo_eq_map]⟩
  obtain ⟨duration, hlaid⟩ := hlaid
  intro hheld
  obtain ⟨hB, -⟩ := (annotate_eq_ok hroot).1 hB
  obtain ⟨hheld, -⟩ := (annotate_eq_ok hwritten).1 hheld
  rw [timed_eq_gather hroot, hlaid] at hB
  rw [timed_eq_gather hwritten, laid_append_hold hne] at hheld
  exact not_held_of_splice hB (laid_append_hold hne h ▸ settled_laid hwritten 1) hheld

end Node

open Node

section
variable {o c p u t : Token} {X tokens : List Token} {items content : List Item}
  {pieces : List Piece} {n : Node} {B : Node}

/-! ## A text, a period and an underscore -/

/-- A hold in a segment of its own after a level. -/
theorem build_append_hold (h : Spells tokens items) (hrefused : ∀ t ∈ tokens, t.isRefused = false)
    (hp : p.content = ".") (hu : u.content = "_") :
    build (tokens ++ [p, u]) = .ok (arrange false (pace 1 (Item.pieces items) ++
      [.period, .element (.hold ⟨some u.position, tempoAfter tokens, none, none⟩)])) := by
  have hlast : Spells [p, u] [.leaf p, .leaf u] := by
    refine .leaf ?_ ?_ (.leaf ?_ ?_ .nil)
    · rw [hp]; decide
    · rw [hp]; decide
    · rw [hu]; decide
    · rw [hu]; decide
  have hlastRefused : ∀ t ∈ [p, u], t.isRefused = false := by
    simp only [List.forall_mem_cons, Token.isRefused, Token.marker?, hp, hu]
    exact ⟨rfl, rfl, List.forall_mem_nil _⟩
  have hpieces : Item.pieces [.leaf p, .leaf u] =
      [.period, .element (.hold ⟨some u.position, 1, none, none⟩)] := by
    simp only [Item.pieces, Item.piece, Token.piece, hp, hu]
    rfl
  have hpace (tempo : Rat) :
      pace tempo [.period, .element (.hold ⟨some u.position, 1, none, none⟩)] =
        [.period, .element (.hold ⟨some u.position, tempo, none, none⟩)] := by
    change [Piece.period, .element (.hold ⟨some u.position, 1 * tempo, none, none⟩)] = _
    rw [one_mul]
  rw [(h.append hlast).build (List.forall_mem_append.2 ⟨hrefused, hlastRefused⟩),
    assemble_eq_arrange, Item.pieces_append, h.pace_append, hpieces, hpace, one_mul]

/-- A level with a comma stays a simul. -/
theorem arrange_append_of_comma (h : pieces.any Piece.isComma = true) (more : List Piece) :
    ∃ parts, arrange false (pieces ++ more) = .simul parts none := by
  rw [arrange, List.any_append, h, Bool.true_or, if_pos rfl]
  exact ⟨_, rfl⟩

/-- A level without commas and a hold after a period: the segments of the level, or all of it as one
segment, and the hold as the last segment. -/
theorem exists_segments (hcomma : pieces.any Piece.isComma = false) (hn : .element n ∈ pieces)
    (h : Hold) :
    ∃ segments, segments ≠ [] ∧
      arrange false (pieces ++ [Piece.period, .element (.hold h)]) =
        .sequence (segments ++ [.hold h]) ∧
      (segments = [arrange false pieces] ∨ arrange false pieces = .sequence segments) := by
  let wrap (segment : List Piece) : Node := wrapLevel false (segment.filterMap Piece.element?)
  have hcut : partsBetween Piece.isPeriod (pieces ++ [Piece.period, .element (.hold h)]) =
      partsBetween Piece.isPeriod pieces ++ [[.element (.hold h)]] :=
    partsBetween_append_separator rfl pieces [.element (.hold h)]
  have hroot : arrange false pieces = assemblePart false pieces := by
    rw [arrange, hcomma, if_neg Bool.false_ne_true]
  refine ⟨(partsBetween Piece.isPeriod pieces).map wrap, ?_, ?_, ?_⟩
  · obtain ⟨part, hpart, -⟩ := exists_mem_partsBetween (p := Piece.isPeriod) hn rfl
    exact fun hnil => List.ne_nil_of_mem (List.mem_map_of_mem hpart) hnil
  · have hcomma' : (pieces ++ [Piece.period, .element (.hold h)]).any Piece.isComma = false := by
      rw [List.any_append, hcomma]
      rfl
    have hperiod : (pieces ++ [Piece.period, .element (.hold h)]).any Piece.isPeriod = true := by
      rw [List.any_append]
      exact Bool.or_true _
    rw [arrange, hcomma', if_neg Bool.false_ne_true, assemblePart, hperiod, if_pos rfl, hcut,
      List.map_append]
    rfl
  · rw [hroot, assemblePart]
    cases hperiod : pieces.any Piece.isPeriod with
    | true => exact .inr rfl
    | false =>
      have habsent : ∀ piece ∈ pieces, piece.isPeriod = false := by simpa using hperiod
      left
      rw [partsBetween_of_absent habsent (List.ne_nil_of_mem hn)]
      rfl

/-- A level of several elements without commas is a sequence or a group. -/
theorem isSpliced_arrange (hcomma : pieces.any Piece.isComma = false)
    (hlength : 2 ≤ (pieces.filterMap Piece.element?).length) :
    (arrange false pieces).isSpliced = true := by
  rw [arrange, hcomma, if_neg Bool.false_ne_true, assemblePart]
  split
  · rfl
  · rw [wrapLevel.eq_def]
    split
    · next hsingle =>
      rw [hsingle] at hlength
      exact absurd hlength (by simp)
    · rfl

/-! ## Blocks -/

/-- Items of a text with a closing brace have a block among them. -/
theorem Spells.exists_block (h : Spells tokens items) (ht : t ∈ tokens)
    (hc : t.content = closingBrace) : ∃ content, .block content ∈ items := by
  induction h with
  | nil => cases ht
  | leaf _ hplain _ ih =>
    rcases List.mem_cons.1 ht with rfl | ht
    · exact absurd hc hplain
    · obtain ⟨content, hmem⟩ := ih ht
      exact ⟨content, List.mem_cons_of_mem _ hmem⟩
  | block => exact ⟨_, List.mem_cons_self⟩

/-- Tokens between two braces are the content of a block, or the braces are those of different
blocks. -/
theorem Spells.of_enclosed (h : Spells (o :: (X ++ [c])) items) (ho : o.content = openingBrace)
    (hc : c.content = closingBrace) :
    BracesMatch X ∨ ∃ first rest later, items = .block first :: rest ∧ .block later ∈ rest := by
  generalize htokens : o :: (X ++ [c]) = tokens at h
  cases h with
  | nil => cases htokens
  | leaf hplain =>
    cases htokens
    exact absurd ho hplain
  | @block _ c' inner rest content items _ _ hinner hrest =>
    obtain ⟨-, hX⟩ := List.cons.inj htokens
    rcases List.eq_nil_or_concat rest with rfl | ⟨more, last, rfl⟩
    · obtain ⟨rfl, -⟩ := List.append_inj' hX rfl
      exact .inl hinner.bracesMatch
    · rw [List.concat_eq_append, ← List.cons_append, ← List.append_assoc] at hX
      obtain ⟨-, hlast⟩ := List.append_inj' hX rfl
      cases hlast
      obtain ⟨later, hlater⟩ := hrest.exists_block (t := c) (by simp) hc
      exact .inr ⟨content, items, later, rfl, hlater⟩

/-- A block among the items of a level is an element among its paced pieces. -/
theorem exists_element_of_block (h : .block content ∈ items) (tempo : Rat) :
    ∃ n, .element n ∈ pace tempo (Item.pieces items) := by
  have hmem : Item.block content ∈ Item.unmarked items := List.mem_filter.2 ⟨h, rfl⟩
  obtain ⟨piece, hpiece, -, factor, rfl⟩ :=
    exists_mem_of_forall₂ (forall₂_plays items tempo) hmem
  exact ⟨_, hpiece⟩

/-- A text of several blocks without commas is a sequence or a group. -/
theorem isSpliced_of_blocks {first later : List Item} (h : .block later ∈ items)
    (hcomma : (pace 1 (Item.pieces (.block first :: items))).any Piece.isComma = false) :
    (assemble false (Item.pieces (.block first :: items))).isSpliced = true := by
  obtain ⟨n, hn⟩ := exists_element_of_block h 1
  have hmem : n ∈ (pace 1 (Item.pieces items)).filterMap Piece.element? :=
    List.mem_filterMap.2 ⟨_, hn, rfl⟩
  exact isSpliced_arrange hcomma (Nat.succ_le_succ (List.length_pos_of_mem hmem))

/-- What a block becomes is spliced only if it is a sequence. -/
theorem exists_of_isSpliced (hn : n.bracketed = n) (h : n.isSpliced = true) :
    ∃ segments, n = .sequence segments := by
  cases n with
  | sequence segments => exact ⟨segments, rfl⟩
  | group =>
    rw [← hn] at h
    cases h
  | _ => cases h

/-! ## What the hold extends -/

/-- A hold after a simul leaves it a simul. -/
theorem annotate_simul_ne {parts elements : List Node} {g : Option Rat}
    (h : (simul parts none).Written) :
    (simul parts none).annotate ≠ .ok (.group elements false g) := by
  intro htree
  obtain ⟨out, -, hgroup⟩ := bind_eq_ok.1 (gatherInside_of_annotate h htree).2
  cases hgroup

/-- A period and an underscore after a text without commas extend all of it, if it is not spliced
into the segments, and less of it otherwise. -/
theorem build_append_hold_of_uncut {root : Node} (h : Spells tokens items)
    (hroot : build tokens = .ok root) (hB : root.annotate = .ok B) (hp : p.content = ".")
    (hu : u.content = "_") (hn : .element n ∈ pace 1 (Item.pieces items))
    (hcomma : (pace 1 (Item.pieces items)).any Piece.isComma = false) :
    (root.isSpliced = false → ∃ d, B.duration? = some d ∧
      (build (tokens ++ [p, u]) >>= annotate) =
        if Number.isWritableRatio (d + d) then .ok (heldTwice B d)
        else .error .unwritableNumber) ∧
    (root.isSpliced = true → ∀ s g,
      (build (tokens ++ [p, u]) >>= annotate) ≠ .ok (.group [.held B s] false g)) := by
  have hwritten := written_of_build hroot
  have hrefused := (readable_of_build hroot).2
  have hhold : (Node.hold ⟨some u.position, tempoAfter tokens, none, none⟩).Written :=
    every_hold.2 ⟨tempoAfter_pos fun t ht => (isRefused_eq_false_iff.1 (hrefused t ht)).1, rfl⟩
  have hassemble : arrange false (pace 1 (Item.pieces items)) = root :=
    Except.ok.inj ((h.build hrefused).symm.trans hroot)
  obtain ⟨segments, hne, hsequence, hsegments⟩ := exists_segments hcomma hn
    ⟨some u.position, tempoAfter tokens, none, none⟩
  rw [hassemble] at hsegments
  rw [build_append_hold h hrefused hp hu, hsequence]
  refine ⟨fun hwhole => ?_, fun hspliced s g =>
    not_held_of_isSpliced hwritten hhold hB hne hsegments hspliced⟩
  rcases hsegments with rfl | rfl
  · exact annotate_append_hold hwritten hhold hB hwhole
  · cases hwhole

/-- A block, a period and an underscore are a group of the block alone, held as a whole over twice
its duration, exactly if the outer braces are those of one block and the block is no sequence, and
twice the duration does not exceed the limit of digits. -/
theorem annotate_held_block (ho : o.content = openingBrace) (hc : c.content = closingBrace)
    (hp : p.content = ".") (hu : u.content = "_")
    (hB : (build (o :: (X ++ [c])) >>= annotate) = .ok B) :
    ((BracesMatch X ∧ ∀ segments, build (o :: (X ++ [c])) ≠ .ok (.sequence segments)) →
      ∃ d, B.duration? = some d ∧ (build (o :: (X ++ [c, p, u])) >>= annotate) =
        if Number.isWritableRatio (d + d) then
          .ok (.group [.held B ⟨none, 1, some [d, d], some (d + d)⟩] false (some (d + d)))
        else .error .unwritableNumber) ∧
    ((∃ s g, (build (o :: (X ++ [c, p, u])) >>= annotate) = .ok (.group [.held B s] false g)) →
      BracesMatch X ∧ ∀ segments, build (o :: (X ++ [c])) ≠ .ok (.sequence segments)) := by
  obtain ⟨root, hroot, hB⟩ := bind_eq_ok.1 hB
  obtain ⟨hmatch, hrefused⟩ := readable_of_build hroot
  have htokens : o :: (X ++ [c, p, u]) = o :: (X ++ [c]) ++ [p, u] := by simp
  rw [hroot, htokens]
  by_cases hX : BracesMatch X
  · obtain ⟨content, hcontent⟩ := exists_spells_of_bracesMatch hX
    have hitems : Spells (o :: (X ++ [c])) [.block content] := .block ho hc hcontent .nil
    obtain ⟨hwhole, hless⟩ := build_append_hold_of_uncut hitems hroot hB hp hu
      List.mem_cons_self rfl
    have hblock : root = assemble true (Item.pieces content) :=
      (Except.ok.inj (hroot.symm.trans (hitems.build hrefused))).trans (assemble_element false _)
    have hbracketed : root.bracketed = root := by
      rw [hblock, assemble_true fun n hn => hcontent.bracketed_of_mem hn, bracketed_bracketed]
    refine ⟨fun ⟨_, hsequence⟩ => hwhole ?_, fun ⟨s, g, hheld⟩ => ⟨hX, ?_⟩⟩
    · rw [Bool.eq_false_iff]
      intro hspliced
      obtain ⟨segments, rfl⟩ := exists_of_isSpliced hbracketed hspliced
      exact hsequence segments rfl
    · rintro segments hsequence
      cases hsequence
      exact hless rfl s g hheld
  · refine ⟨fun ⟨hmatched, _⟩ => absurd hmatched hX, fun ⟨s, g, hheld⟩ => ?_⟩
    obtain ⟨items, hitems⟩ := exists_spells_of_bracesMatch hmatch
    obtain hmatched | ⟨first, rest, later, rfl, hlater⟩ := hitems.of_enclosed ho hc
    · exact absurd hmatched hX
    · cases hcomma : (pace 1 (Item.pieces (.block first :: rest))).any Piece.isComma with
      | true =>
        obtain ⟨parts, hparts⟩ := arrange_append_of_comma hcomma
          [.period, .element (.hold ⟨some u.position, tempoAfter (o :: (X ++ [c])), none, none⟩)]
        have hbuild := build_append_hold hitems hrefused hp hu
        rw [hparts] at hbuild
        rw [hbuild] at hheld
        exact absurd hheld (annotate_simul_ne (written_of_build hbuild))
      | false =>
        have hspliced := isSpliced_of_blocks hlater hcomma
        rw [← Except.ok.inj (hroot.symm.trans (hitems.build hrefused))] at hspliced
        exact absurd hheld ((build_append_hold_of_uncut hitems hroot hB hp hu
          List.mem_cons_self hcomma).2 hspliced s g)

/-- A block of two notes is held as a whole. -/
theorem annotate_held_block_notes :
    ∃ (o c p u : Token) (X : List Token) (B : Node) (d : Rat),
      (o :: (X ++ [c, p, u])).map Token.content =
        ["\x7b", "a", "b", "\x7d", ".", "_"] ∧ X.length = 2 ∧
      (build (o :: (X ++ [c])) >>= annotate) = .ok B ∧ B.duration? = some d ∧
      (build (o :: (X ++ [c, p, u])) >>= annotate) =
        .ok (.group [.held B ⟨none, 1, some [d, d], some (d + d)⟩] false (some (d + d))) := by
  obtain ⟨o, c, p, u, X, hcontents, hlength, ho, hc, hp, hu, hmatch, ⟨content, hbuild⟩, hrun,
      hheld⟩ :
      ∃ (o c p u : Token) (X : List Token),
        (o :: (X ++ [c, p, u])).map Token.content = ["\x7b", "a", "b", "\x7d", ".", "_"] ∧
        X.length = 2 ∧ o.content = openingBrace ∧ c.content = closingBrace ∧ p.content = "." ∧
        u.content = "_" ∧ BracesMatch X ∧
        (∃ content, build (o :: (X ++ [c])) = .ok (.group content true none)) ∧
        (build (o :: (X ++ [c])) >>= annotate).isOk = true ∧
        (build (o :: (X ++ [c, p, u])) >>= annotate).isOk = true :=
    ⟨⟨"\x7b", .start⟩, ⟨"\x7d", .start⟩, ⟨".", .start⟩, ⟨"_", .start⟩,
      ["a", "b"].map (Token.mk · .start), rfl, rfl, rfl, rfl, rfl, rfl, by decide, ⟨_, rfl⟩,
      by decide +kernel, by decide +kernel⟩
  obtain ⟨B, hB⟩ := exists_of_isOk hrun
  have hsequence : ∀ segments, build (o :: (X ++ [c])) ≠ .ok (.sequence segments) := by
    intro segments hsegments
    cases hbuild.symm.trans hsegments
  obtain ⟨d, hd, hrun⟩ := (annotate_held_block ho hc hp hu hB).1 ⟨hmatch, hsequence⟩
  obtain ⟨tree, htree⟩ := exists_of_isOk hheld
  rw [htree] at hrun
  split at hrun
  · exact ⟨o, c, p, u, X, B, d, hcontents, hlength, hB, hd, htree.trans hrun⟩
  · cases hrun

/-- A block of two segments is not held: its segments are spliced, and the hold extends the second
of them. -/
theorem annotate_held_block_fails :
    ∃ (o c p u : Token) (X : List Token) (B tree : Node),
      (o :: (X ++ [c, p, u])).map Token.content =
        ["\x7b", "a", ".", "b", "\x7d", ".", "_"] ∧ X.length = 3 ∧
      (build (o :: (X ++ [c])) >>= annotate) = .ok B ∧
      (build (o :: (X ++ [c, p, u])) >>= annotate) = .ok tree ∧
      ∀ s g, tree ≠ .group [.held B s] false g := by
  obtain ⟨o, c, p, u, X, hcontents, hlength, hblock, hrun, hcount⟩ :
      ∃ (o c p u : Token) (X : List Token),
        (o :: (X ++ [c, p, u])).map Token.content = ["\x7b", "a", ".", "b", "\x7d", ".", "_"] ∧
        X.length = 3 ∧ (build (o :: (X ++ [c])) >>= annotate).isOk = true ∧
        (build (o :: (X ++ [c, p, u])) >>= annotate).isOk = true ∧
        (build (o :: (X ++ [c, p, u])) >>= annotate).toOption.map
          (fun tree => tree.children.length) = some 2 :=
    ⟨⟨"\x7b", .start⟩, ⟨"\x7d", .start⟩, ⟨".", .start⟩, ⟨"_", .start⟩,
      ["a", ".", "b"].map (Token.mk · .start), rfl, rfl, by decide +kernel, by decide +kernel,
      by decide +kernel⟩
  obtain ⟨B, hB⟩ := exists_of_isOk hblock
  obtain ⟨tree, htree⟩ := exists_of_isOk hrun
  refine ⟨o, c, p, u, X, B, tree, hcontents, hlength, hB, htree, ?_⟩
  rintro s g rfl
  rw [htree] at hcount
  cases hcount

end

end Polyrhythm
