import Mathlib.Algebra.BigOperators.Group.Finset.Basic
import Polyrhythm.Proofs.Grammar.Reading

/-!
# The scope of tempo markers

A marker reaches the tokens after it that are in every block it is in (`InScope`). The tempo of a
leaf is the product of the rates of the markers that reach its token, each counted once, however
often the parts around the leaf are read again (`leaves_of_readable`). The product is followed from
the left: a token multiplies what reaches the place after it by its own rate
(`tempoAfter_append_singleton`), and a closed block leaves what reached its opening brace
(`tempoAfter_append_block`). On the side of the tree, a level at another tempo is arranged from its
pieces at that tempo (`scaleTempo_assemble`).
-/

namespace Polyrhythm

open Node

/-! ## Blocks and scopes -/

/-- The tokens at `o` and `c` are the braces of a block. -/
def IsBlock (tokens : List Token) (o c : Nat) : Prop :=
  tokens[o]?.map Token.content = some openingBrace ∧
    tokens[c]?.map Token.content = some closingBrace ∧
      o < c ∧ BracesMatch ((tokens.take c).drop (o + 1))

instance (tokens : List Token) (o c : Nat) : Decidable (IsBlock tokens o c) :=
  inferInstanceAs (Decidable (_ ∧ _ ∧ _ ∧ _))

/-- The tokens at `o` and `c` are the braces of a block around place `i`. -/
def Encloses (tokens : List Token) (o c i : Nat) : Prop := IsBlock tokens o c ∧ o < i ∧ i < c

instance (tokens : List Token) (o c i : Nat) : Decidable (Encloses tokens o c i) :=
  inferInstanceAs (Decidable (_ ∧ _ ∧ _))

/-- Place `j` comes after place `i` and is in every block that place `i` is in. -/
def InScope (tokens : List Token) (i j : Nat) : Prop :=
  i < j ∧ ∀ o < tokens.length, ∀ c < tokens.length, Encloses tokens o c i → Encloses tokens o c j

instance (tokens : List Token) (i j : Nat) : Decidable (InScope tokens i j) :=
  inferInstanceAs (Decidable (_ ∧ ∀ o < tokens.length, ∀ c < tokens.length, _ → _))

/-- What a token multiplies the tempo by. -/
def Token.rate (t : Token) : Rat := t.marker?.elim 1 Marker.rate

/-- What the token at a place multiplies the tempo by. -/
def rateAt (tokens : List Token) (i : Nat) : Rat := tokens[i]?.elim 1 Token.rate

/-- The product of the rates of the markers in whose scope a place is. -/
def scopedTempo (tokens : List Token) (j : Nat) : Rat :=
  ∏ i ∈ Finset.range j with InScope tokens i j, rateAt tokens i

/-- The leaf that a token makes at a tempo, unless it is a brace, a separator or a marker. -/
def Token.leaf? (tempo : Rat) (t : Token) : Option Node :=
  if t.content = openingBrace ∨ t.content = closingBrace ∨ t.content = "," ∨ t.content = "." ∨
      t.marker?.isSome then none
  else if t.content = "_" then some (.hold ⟨some t.position, tempo, none, none⟩)
  else some (.symbol ⟨t.content, some t.position, tempo, none, none⟩)

variable {tokens before after inner ts : List Token} {t opening closing : Token} {i j o c : Nat}

/-! ## Blocks of a longer text -/

theorem IsBlock.lt_length (h : IsBlock tokens o c) : o < tokens.length ∧ c < tokens.length := by
  obtain ⟨ho, hc, -, -⟩ := h
  have some_lt {k : Nat} {content : String} (h : tokens[k]?.map Token.content = some content) :
      k < tokens.length := by
    obtain ⟨t, ht, -⟩ := Option.map_eq_some_iff.1 h
    exact (List.getElem?_eq_some_iff.1 ht).1
  exact ⟨some_lt ho, some_lt hc⟩

/-- The blocks that are closed in the first tokens of a text are those of the first tokens. -/
theorem isBlock_append_left (hc : c < before.length) :
    IsBlock (before ++ after) o c ↔ IsBlock before o c := by
  by_cases ho : o < c
  · rw [IsBlock, IsBlock, List.getElem?_append_left (ho.trans hc), List.getElem?_append_left hc,
      List.take_append_of_le_length hc.le]
  · exact iff_of_false (fun h => ho h.2.2.1) (fun h => ho h.2.2.1)

/-- A block ends at a closing brace. -/
theorem IsBlock.ne_length (h : IsBlock (before ++ t :: after) o c)
    (ht : t.content ≠ closingBrace) : c ≠ before.length := by
  rintro rfl
  have hclose := h.2.1
  rw [List.getElem?_append_right (Nat.le_refl _), Nat.sub_self] at hclose
  exact ht (Option.some.inj hclose)

/-- The first part of balanced tokens opens blocks and closes none that were open before. -/
theorem BracesMatch.exists_openAfter_take (h : BracesMatch inner) (k depth : Nat) :
    ∃ d, openAfter depth (inner.take k) = some (depth + d) := by
  obtain ⟨d, hd, -⟩ := Polyrhythm.exists_openAfter_take h k
  exact ⟨d, openAfter_add hd depth⟩

/-- No block starts before an opening brace and ends in the block that the brace opens. -/
theorem not_isBlock_across (hopening : opening.content = openingBrace) (hinner : BracesMatch inner)
    (ho : o < before.length) (hc : before.length < c)
    (hc' : c ≤ before.length + inner.length + 1) :
    ¬IsBlock (before ++ opening :: (inner ++ closing :: after)) o c := by
  intro h
  obtain ⟨k, rfl⟩ : ∃ k, c = before.length + (k + 1) := ⟨c - before.length - 1, by omega⟩
  have hk : k ≤ inner.length := by omega
  have hbetween : ((before ++ opening :: (inner ++ closing :: after)).take
      (before.length + (k + 1))).drop (o + 1) =
        before.drop (o + 1) ++ opening :: inner.take k := by
    rw [List.take_length_add_append, List.take_succ_cons, List.take_append_of_le_length hk,
      List.drop_append_of_le_length ho]
  have hmatch := h.2.2.2
  rw [hbetween, BracesMatch, openAfter_append] at hmatch
  obtain ⟨d, -, hd⟩ := Option.bind_eq_some_iff.1 hmatch
  obtain ⟨e, he⟩ := hinner.exists_openAfter_take k (d + 1)
  rw [openAfter_cons_opening hopening, he] at hd
  have hzero := Option.some.inj hd
  omega

/-! ## What reaches the end of a text -/

/-- What reaches the end of a text is in no block that is closed. -/
theorem inScope_length_iff : InScope before i before.length ↔
    i < before.length ∧ ∀ o c, ¬Encloses before o c i := by
  refine and_congr_right fun _ => ⟨?_, ?_⟩
  · intro h o c hin
    obtain ⟨ho, hc⟩ := hin.1.lt_length
    exact absurd (h o ho c hc hin).2.2 (by omega)
  · intro h o _ c _ hin
    exact absurd hin (h o c)

/-- What reaches a token other than a closing brace is what reaches the end of the tokens before
it. -/
theorem inScope_append_iff (ht : t.content ≠ closingBrace) :
    InScope (before ++ t :: after) i before.length ↔ InScope before i before.length := by
  rw [inScope_length_iff]
  refine and_congr_right fun hi => ⟨?_, ?_⟩
  · rintro h o c ⟨hblock, hin⟩
    have hc := hblock.lt_length.2
    have hblock : IsBlock (before ++ t :: after) o c := (isBlock_append_left hc).2 hblock
    obtain ⟨ho', hc'⟩ := hblock.lt_length
    exact absurd (h o ho' c hc' ⟨hblock, hin⟩).2.2 (by omega)
  · rintro h o - c - ⟨hblock, hin⟩
    have hne := hblock.ne_length ht
    by_cases hc : c < before.length
    · exact absurd ⟨(isBlock_append_left hc).1 hblock, hin⟩ (h o c)
    · exact ⟨hblock, by omega, by omega⟩

/-- A token other than a closing brace closes no block, and it is in none itself that is closed. -/
theorem inScope_append_singleton (ht : t.content ≠ closingBrace) :
    InScope (before ++ [t]) i (before ++ [t]).length ↔
      InScope before i before.length ∨ i = before.length := by
  have hblocks {o c : Nat} : Encloses (before ++ [t]) o c i ↔ Encloses before o c i := by
    refine and_congr_left fun hin => ⟨fun h => ?_, fun h => ?_⟩
    · have hlt := h.lt_length.2
      have hne := h.ne_length ht
      rw [List.length_append, List.length_singleton] at hlt
      exact (isBlock_append_left (by omega)).1 h
    · exact (isBlock_append_left h.lt_length.2).2 h
  rw [inScope_length_iff, inScope_length_iff, List.length_append, List.length_singleton]
  simp only [hblocks]
  constructor
  · rintro ⟨hi, h⟩
    rcases Nat.lt_or_eq_of_le (Nat.le_of_lt_succ hi) with hi | hi
    · exact .inl ⟨hi, h⟩
    · exact .inr hi
  · rintro (⟨hi, h⟩ | rfl)
    · exact ⟨by omega, h⟩
    · refine ⟨by omega, fun o c h => ?_⟩
      obtain ⟨hblock, -, hc⟩ := h
      exact absurd hblock.lt_length.2 (by omega)

/-- What reaches the end of a block reached its opening brace, or is one of its braces. -/
theorem inScope_append_block (hopening : opening.content = openingBrace)
    (hclosing : closing.content = closingBrace) (hinner : BracesMatch inner) :
    InScope (before ++ opening :: (inner ++ [closing])) i
        (before ++ opening :: (inner ++ [closing])).length ↔
      InScope before i before.length ∨ i = before.length ∨
        i = before.length + inner.length + 1 := by
  have hlength : (before ++ opening :: (inner ++ [closing])).length =
      before.length + inner.length + 2 := by simp; omega
  have hblock : IsBlock (before ++ opening :: (inner ++ [closing])) before.length
      (before.length + (inner.length + 1)) := by
    refine ⟨by simp [hopening], ?_, by omega, ?_⟩
    · rw [List.getElem?_append_right (by omega), Nat.add_sub_cancel_left, List.getElem?_cons_succ]
      simp [hclosing]
    · have hbetween : ((before ++ opening :: (inner ++ [closing])).take
          (before.length + (inner.length + 1))).drop (before.length + 1) = inner := by
        rw [List.take_length_add_append, List.take_succ_cons, List.take_left]
        simp
      rw [hbetween]
      exact hinner
  have hnever {o c : Nat} (ho : o < before.length) (hc : before.length < c) :
      ¬IsBlock (before ++ opening :: (inner ++ [closing])) o c := by
    intro h
    have hlt := h.lt_length.2
    exact not_isBlock_across hopening hinner ho hc (by omega) h
  rw [inScope_length_iff, inScope_length_iff, hlength]
  constructor
  · rintro ⟨hi, h⟩
    have hout : ¬(before.length < i ∧ i < before.length + (inner.length + 1)) :=
      fun hin => h _ _ ⟨hblock, hin⟩
    rcases Nat.lt_trichotomy i before.length with hlt | rfl | hlt
    · refine .inl ⟨hlt, fun o c hin => h o c ⟨?_, hin.2⟩⟩
      exact (isBlock_append_left hin.1.lt_length.2).2 hin.1
    · exact .inr (.inl rfl)
    · exact .inr (.inr (by omega))
  · rintro (⟨hi, h⟩ | rfl | rfl)
    · refine ⟨by omega, ?_⟩
      rintro o c ⟨hin, ho, hc⟩
      have hne : c ≠ before.length := hin.ne_length (hopening ▸ closingBrace_ne_openingBrace.symm)
      by_cases hbefore : c < before.length
      · exact h o c ⟨(isBlock_append_left hbefore).1 hin, ho, hc⟩
      · exact hnever (by omega) (by omega) hin
    · refine ⟨by omega, ?_⟩
      rintro o c ⟨hin, ho, hc⟩
      exact hnever ho hc hin
    · refine ⟨by omega, ?_⟩
      rintro o c ⟨hin, -, hc⟩
      exact absurd hin.lt_length.2 (by omega)

/-! ## The tempo from left to right -/

/-- The tempo of what follows some tokens. -/
def tempoAfter (before : List Token) : Rat := scopedTempo before before.length

theorem Token.rate_of_brace (h : t.content = openingBrace ∨ t.content = closingBrace) :
    t.rate = 1 := by
  rw [rate, marker?]
  rcases h with h | h <;> rw [h] <;> rfl

theorem rateAt_append_left (hi : i < before.length) :
    rateAt (before ++ after) i = rateAt before i := by
  rw [rateAt, rateAt, List.getElem?_append_left hi]

theorem rateAt_length : rateAt (before ++ t :: after) before.length = t.rate := by
  rw [rateAt, List.getElem?_append_right (Nat.le_refl _), Nat.sub_self]
  rfl

/-- A token other than a closing brace is played at the tempo of what follows the tokens before
it. -/
theorem scopedTempo_append (ht : t.content ≠ closingBrace) :
    scopedTempo (before ++ t :: after) before.length = tempoAfter before := by
  rw [tempoAfter, scopedTempo, scopedTempo]
  refine Finset.prod_congr ?_ ?_
  · exact Finset.filter_congr fun i _ => inScope_append_iff ht
  · intro i hi
    exact rateAt_append_left (Finset.mem_range.1 (Finset.mem_filter.1 hi).1)

theorem tempoAfter_nil : tempoAfter [] = 1 := rfl

/-- More tokens change the tempo of what follows by the rates of those of them that reach it, if
they leave the scopes of the tokens before them as they were. -/
theorem tempoAfter_append {new : Finset Nat} (hnew : ∀ i ∈ new, before.length ≤ i)
    (hscope : ∀ i, InScope (before ++ after) i (before ++ after).length ↔
      InScope before i before.length ∨ i ∈ new) :
    tempoAfter (before ++ after) = tempoAfter before * ∏ i ∈ new, rateAt (before ++ after) i := by
  have hunion : (Finset.range (before ++ after).length).filter
      (fun i => InScope (before ++ after) i (before ++ after).length) =
        (Finset.range before.length).filter (fun i => InScope before i before.length) ∪ new := by
    ext i
    rw [Finset.mem_filter, hscope, Finset.mem_union, Finset.mem_filter, Finset.mem_range,
      Finset.mem_range]
    constructor
    · rintro ⟨-, h | h⟩
      · exact .inl ⟨h.1, h⟩
      · exact .inr h
    · rintro (⟨-, h⟩ | h)
      · exact ⟨((hscope i).2 (.inl h)).1, .inl h⟩
      · exact ⟨((hscope i).2 (.inr h)).1, .inr h⟩
  have hdisjoint : Disjoint
      ((Finset.range before.length).filter fun i => InScope before i before.length) new := by
    refine Finset.disjoint_left.2 fun i hi hinew => ?_
    have hlt := Finset.mem_range.1 (Finset.mem_filter.1 hi).1
    exact absurd (hnew i hinew) (by omega)
  rw [tempoAfter, scopedTempo, hunion, Finset.prod_union hdisjoint, tempoAfter, scopedTempo]
  refine congrArg (· * _) (Finset.prod_congr rfl fun i hi => ?_)
  exact rateAt_append_left (Finset.mem_range.1 (Finset.mem_filter.1 hi).1)

/-- A token other than a closing brace changes the tempo of what follows by its rate. -/
theorem tempoAfter_append_singleton (ht : t.content ≠ closingBrace) :
    tempoAfter (before ++ [t]) = tempoAfter before * t.rate := by
  have hscope (i : Nat) : InScope (before ++ [t]) i (before ++ [t]).length ↔
      InScope before i before.length ∨ i ∈ ({before.length} : Finset Nat) := by
    rw [Finset.mem_singleton]
    exact inScope_append_singleton ht
  rw [tempoAfter_append (by simp) hscope, Finset.prod_singleton, rateAt_length]

/-- A block leaves the tempo of what follows as it was before the block. -/
theorem tempoAfter_append_block (hopening : opening.content = openingBrace)
    (hclosing : closing.content = closingBrace) (hinner : BracesMatch inner) :
    tempoAfter (before ++ opening :: (inner ++ [closing])) = tempoAfter before := by
  have hscope (i : Nat) : InScope (before ++ opening :: (inner ++ [closing])) i
      (before ++ opening :: (inner ++ [closing])).length ↔
        InScope before i before.length ∨
          i ∈ ({before.length, before.length + inner.length + 1} : Finset Nat) := by
    rw [Finset.mem_insert, Finset.mem_singleton]
    exact inScope_append_block hopening hclosing hinner
  have hfirst : rateAt (before ++ opening :: (inner ++ [closing])) before.length = 1 := by
    rw [rateAt_length, Token.rate_of_brace (.inl hopening)]
  have hlast : rateAt (before ++ opening :: (inner ++ [closing]))
      (before.length + inner.length + 1) = 1 := by
    have hsplit : before ++ opening :: (inner ++ [closing]) =
        (before ++ opening :: inner) ++ closing :: [] := by simp
    have hlength : before.length + inner.length + 1 = (before ++ opening :: inner).length := by
      rw [List.length_append, List.length_cons, Nat.add_assoc]
    rw [hsplit, hlength, rateAt_length, Token.rate_of_brace (.inr hclosing)]
  have hnew : ∀ i ∈ ({before.length, before.length + inner.length + 1} : Finset Nat),
      before.length ≤ i := by
    intro i hi
    rw [Finset.mem_insert, Finset.mem_singleton] at hi
    omega
  have hne : before.length ≠ before.length + inner.length + 1 := by omega
  rw [tempoAfter_append hnew hscope, Finset.prod_pair hne, hfirst, hlast, mul_one, mul_one]

theorem tempoAfter_singleton (ht : t.content ≠ closingBrace) : tempoAfter [t] = t.rate := by
  have h : tempoAfter ([] ++ [t]) = tempoAfter [] * t.rate := tempoAfter_append_singleton ht
  rwa [tempoAfter_nil, one_mul] at h

/-- The tempo after balanced tokens is the tempo before them times what they alone make of it. -/
theorem Spells.tempoAfter_append {items : List Item} (h : Spells ts items) (before : List Token) :
    tempoAfter (before ++ ts) = tempoAfter before * tempoAfter ts := by
  have hfactor : ∃ r, ∀ before, tempoAfter (before ++ ts) = tempoAfter before * r := by
    induction h with
    | nil => exact ⟨1, fun before => by rw [List.append_nil, mul_one]⟩
    | @leaf t ts items _ hc _ ih =>
      obtain ⟨r, hr⟩ := ih
      refine ⟨t.rate * r, fun before => ?_⟩
      rw [List.append_cons, hr, tempoAfter_append_singleton hc, mul_assoc]
    | @block o c inner rest content items ho hc hinner _ _ ihrest =>
      obtain ⟨r, hr⟩ := ihrest
      refine ⟨r, fun before => ?_⟩
      have hsplit : before ++ o :: (inner ++ c :: rest) =
          before ++ o :: (inner ++ [c]) ++ rest := by simp
      rw [hsplit, hr, tempoAfter_append_block ho hc hinner.bracesMatch]
  obtain ⟨r, hr⟩ := hfactor
  have halone := hr []
  rw [List.nil_append, tempoAfter_nil, one_mul] at halone
  rw [hr, halone]

/-! ## Tempos of levels -/

theorem scaleTempo_wrapLevel (factor : Rat) (isExplicit : Bool) (nodes : List Node) :
    (wrapLevel isExplicit nodes).scaleTempo factor =
      wrapLevel isExplicit (nodes.map (scaleTempo factor)) := by
  cases nodes with
  | nil => rfl
  | cons n rest =>
    cases rest with
    | nil => rfl
    | cons => simp only [wrapLevel, scaleTempo, scaleTempoAll_eq_map, List.map_cons]

theorem filterMap_element?_scaleTempo (factor : Rat) (pieces : List Piece) :
    (pieces.map (Piece.scaleTempo factor)).filterMap Piece.element? =
      (pieces.filterMap Piece.element?).map (scaleTempo factor) := by
  rw [List.filterMap_map, List.map_filterMap]
  refine congrArg (List.filterMap · pieces) (funext fun piece => ?_)
  cases piece <;> rfl

/-- A change of tempo leaves separators as they are. -/
theorem isComma_scaleTempo (factor : Rat) :
    Piece.isComma ∘ Piece.scaleTempo factor = Piece.isComma := by
  funext piece
  cases piece <;> rfl

theorem isPeriod_scaleTempo (factor : Rat) :
    Piece.isPeriod ∘ Piece.scaleTempo factor = Piece.isPeriod := by
  funext piece
  cases piece <;> rfl

theorem scaleTempo_assemblePart (factor : Rat) (isExplicit : Bool) (pieces : List Piece) :
    (assemblePart isExplicit pieces).scaleTempo factor =
      assemblePart isExplicit (pieces.map (Piece.scaleTempo factor)) := by
  rw [assemblePart, assemblePart, List.any_map, isPeriod_scaleTempo]
  split
  · rw [partsBetween_map, isPeriod_scaleTempo, scaleTempo, scaleTempoAll_eq_map, List.map_map,
      List.map_map]
    refine congrArg _ (List.map_congr_left fun segment _ => ?_)
    rw [Function.comp_apply, scaleTempo_wrapLevel, ← filterMap_element?_scaleTempo]
    rfl
  · rw [scaleTempo_wrapLevel, filterMap_element?_scaleTempo]

theorem scaleTempo_arrange (factor : Rat) (isExplicit : Bool) (pieces : List Piece) :
    (arrange isExplicit pieces).scaleTempo factor =
      arrange isExplicit (pieces.map (Piece.scaleTempo factor)) := by
  rw [arrange, arrange, List.any_map, isComma_scaleTempo]
  split
  · rw [partsBetween_map, isComma_scaleTempo, scaleTempo, scaleTempoAll_eq_map, List.map_map,
      List.map_map]
    refine congrArg (Node.simul · none) (List.map_congr_left fun part _ => ?_)
    exact scaleTempo_assemblePart factor false part
  · exact scaleTempo_assemblePart factor isExplicit pieces

/-- Changing the tempo of paced pieces is pacing from the changed tempo. -/
theorem map_scaleTempo_pace (tempo factor : Rat) (pieces : List Piece) :
    (pace tempo pieces).map (Piece.scaleTempo factor) = pace (tempo * factor) pieces := by
  induction pieces generalizing tempo with
  | nil => rfl
  | cons piece pieces ih =>
    cases piece with
    | marker rate => rw [pace_marker, pace_marker, ih, mul_right_comm]
    | element n =>
      rw [pace, pace, List.map_cons, ih, Piece.scaleTempo, scaleTempo_scaleTempo]
    | comma | period => exact congrArg (List.cons _) (ih tempo)

/-- A level at another tempo is arranged from its pieces at that tempo. -/
theorem scaleTempo_assemble (factor : Rat) (isExplicit : Bool) (pieces : List Piece) :
    (assemble isExplicit pieces).scaleTempo factor = arrange isExplicit (pace factor pieces) := by
  rw [assemble_eq_arrange, scaleTempo_arrange, map_scaleTempo_pace, one_mul]

/-! ## The leaves of assembled pieces -/

/-- The leaves of a piece. -/
def Piece.leaves : Piece → List Node
  | .element n => n.leaves
  | _ => []

theorem leaves_wrapLevel (isExplicit : Bool) (nodes : List Node) :
    (wrapLevel isExplicit nodes).leaves = nodes.flatMap Node.leaves := by
  rw [wrapLevel.eq_def]
  split
  · simp
  · exact leaves_group _ _ _

theorem flatMap_filterMap_element? (pieces : List Piece) :
    (pieces.filterMap Piece.element?).flatMap Node.leaves = pieces.flatMap Piece.leaves := by
  induction pieces with
  | nil => rfl
  | cons piece pieces ih =>
    cases piece with
    | element n => exact congrArg (n.leaves ++ ·) ih
    | comma | period | marker => exact ih

theorem leaves_assemblePart (isExplicit : Bool) (pieces : List Piece) :
    (assemblePart isExplicit pieces).leaves = pieces.flatMap Piece.leaves := by
  rw [assemblePart]
  split
  · have hsegment (segment : List Piece) :
        (wrapLevel false (segment.filterMap Piece.element?)).leaves =
          segment.flatMap Piece.leaves := by
      rw [leaves_wrapLevel, flatMap_filterMap_element?]
    rw [leaves_sequence, List.flatMap_map]
    simp only [hsegment]
    refine flatMap_partsBetween ?_ pieces
    intro piece hpiece
    cases piece with
    | period => rfl
    | _ => cases hpiece
  · rw [leaves_wrapLevel, flatMap_filterMap_element?]

theorem leaves_arrange (isExplicit : Bool) (pieces : List Piece) :
    (arrange isExplicit pieces).leaves = pieces.flatMap Piece.leaves := by
  rw [arrange]
  split
  · rw [leaves_simul, List.flatMap_map]
    simp only [leaves_assemblePart]
    refine flatMap_partsBetween ?_ _
    intro piece hpiece
    cases piece with
    | comma => rfl
    | _ => cases hpiece
  · exact leaves_assemblePart _ _

/-- The leaves of a level are those of its paced pieces. -/
theorem leaves_assemble (isExplicit : Bool) (pieces : List Piece) :
    (assemble isExplicit pieces).leaves = (pace 1 pieces).flatMap Piece.leaves :=
  leaves_arrange isExplicit (pace 1 pieces)

/-- A token without a marker makes the leaf of its piece. -/
theorem Token.leaves_piece (ho : t.content ≠ openingBrace) (hc : t.content ≠ closingBrace)
    (hmarker : t.marker? = none) (tempo : Rat) :
    (t.piece.scaleTempo tempo).leaves = (t.leaf? tempo).toList := by
  have hread : Marker.read? t.content.toList = none := hmarker
  rw [piece, leaf?, hread, hmarker]
  by_cases hcomma : t.content = ","
  · simp [hcomma, Piece.scaleTempo, Piece.leaves]
  · by_cases hperiod : t.content = "."
    · simp [hperiod, Piece.scaleTempo, Piece.leaves]
    · by_cases hunder : t.content = "_"
      · simp [hunder, Piece.scaleTempo, Piece.leaves, scaleTempo, openingBrace, closingBrace]
      · simp [ho, hc, hcomma, hperiod, hunder, Piece.scaleTempo, Piece.leaves, symbol, scaleTempo]

theorem Token.leaf?_of_brace (h : t.content = openingBrace ∨ t.content = closingBrace)
    (tempo : Rat) : t.leaf? tempo = none := by
  rw [leaf?, if_pos]
  exact h.imp_right .inl

theorem Token.leaf?_of_marker (h : t.marker?.isSome) (tempo : Rat) : t.leaf? tempo = none := by
  rw [leaf?, if_pos]
  exact .inr (.inr (.inr (.inr h)))

/-! ## Tokens as a whole -/

/-- Tokens that write items, paced from the tempo of what follows the tokens before them, make their
leaves at the tempos of their scopes. The induction is on the items; a block starts from the same
tempo inside and leaves it as it was. -/
theorem Spells.leaves_pace {items : List Item} (h : Spells ts items) (before after : List Token)
    (htokens : tokens = before ++ (ts ++ after)) :
    (pace (tempoAfter before) (Item.pieces items)).flatMap Piece.leaves =
      (ts.zipIdx before.length).flatMap fun p => (p.1.leaf? (scopedTempo tokens p.2)).toList := by
  induction h generalizing before after with
  | nil => rfl
  | @leaf t ts items ho hc _ ih =>
    have htempo : scopedTempo tokens before.length = tempoAfter before := by
      rw [htokens]
      exact scopedTempo_append hc
    have hrest := ih (before ++ [t]) after (by simp [htokens])
    rw [tempoAfter_append_singleton hc, List.length_append, List.length_singleton] at hrest
    rw [List.zipIdx_cons, List.flatMap_cons, ← hrest, htempo, Item.pieces, Item.piece]
    cases hmarker : t.marker? with
    | none =>
      have hrate : t.rate = 1 := by rw [Token.rate, hmarker]; rfl
      rw [pace_cons _ (Token.piece_tagHold hmarker 1).1, List.flatMap_cons,
        Token.leaves_piece ho hc hmarker, hrate, mul_one]
    | some marker =>
      have hrate : t.rate = marker.rate := by rw [Token.rate, hmarker]; rfl
      rw [Token.piece_of_marker hmarker, pace_marker, Token.leaf?_of_marker (by simp [hmarker]),
        hrate]
      rfl
  | @block o c inner rest content items ho hc hinner _ ihinner ihrest =>
    have hoc : o.content ≠ closingBrace := ho ▸ closingBrace_ne_openingBrace.symm
    have hcontent := ihinner (before ++ [o]) (c :: (rest ++ after)) (by simp [htokens])
    rw [tempoAfter_append_singleton hoc, Token.rate_of_brace (.inl ho), mul_one,
      List.length_append, List.length_singleton] at hcontent
    have hrest := ihrest (before ++ o :: (inner ++ [c])) after (by simp [htokens])
    have hlength :
        (before ++ o :: (inner ++ [c])).length = before.length + 1 + inner.length + 1 := by
      simp only [List.length_append, List.length_cons, List.length_nil]
      omega
    rw [tempoAfter_append_block ho hc hinner.bracesMatch, hlength] at hrest
    have hblock : ((assemble true (Item.pieces content)).scaleTempo (tempoAfter before)).leaves =
        (pace (tempoAfter before) (Item.pieces content)).flatMap Piece.leaves := by
      rw [scaleTempo_assemble, leaves_arrange]
    rw [List.zipIdx_cons, List.zipIdx_append, List.zipIdx_cons, List.flatMap_cons,
      List.flatMap_append, List.flatMap_cons, ← hcontent, ← hrest, ← hblock,
      Token.leaf?_of_brace (.inl ho), Token.leaf?_of_brace (.inr hc)]
    rfl

/-- The leaves of what is built from balanced tokens without refused markers are, in their order,
those of the tokens, each at the product of the rates of the markers in whose scope it is. -/
theorem leaves_of_readable (hmatch : BracesMatch tokens)
    (hrefused : ∀ t ∈ tokens, t.isRefused = false) :
    ∃ root, build tokens = .ok root ∧
      root.leaves = tokens.zipIdx.filterMap fun (t, j) => t.leaf? (scopedTempo tokens j) := by
  obtain ⟨items, hitems⟩ := exists_spells_of_bracesMatch hmatch
  have hleaves := hitems.leaves_pace [] [] (List.append_nil tokens).symm
  rw [tempoAfter_nil] at hleaves
  refine ⟨assemble false (Item.pieces items), hitems.build hrefused, ?_⟩
  rw [leaves_assemble, List.filterMap_eq_flatMap_toList]
  exact hleaves

end Polyrhythm
