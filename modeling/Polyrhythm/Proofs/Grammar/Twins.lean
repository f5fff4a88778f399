import Polyrhythm.Proofs.Grammar.Reading
import Polyrhythm.Proofs.Sound.Restruck

/-!
# Levels with holds that are struck again

Two built elements are twins (`Node.Twin`) if, however they are stretched, they are performed in one
way: as elements of a list, and as segments that are spliced into one. Levels of twins are twins,
for each way in which a level is put together: groups, sequences, whose segments hand on what an
underscore at the start of the next one repeats, and simuls (`Node.twin_arrange`).
-/

namespace Polyrhythm

open Traversal

namespace Node

variable {table : Table} {u common factor : Rat} {s t : Option Heading} {n n' : Node}
  {ns ns' : List Node} {isExplicit : Bool}

/-! ## Stretched composites -/

theorem laidAs_group (content : List Node) (isExplicit : Bool) (duration : Option Rat) :
    (group content isExplicit duration).laidAs common factor =
      group (content.map (laid (factor * (common / (group content isExplicit duration).natural))))
        isExplicit (some (factor * common)) := by
  rw [laidAs, laid, laidEach_eq_map]
  rfl

theorem laidAs_simul (content : List Node) (duration : Option Rat) :
    (simul content duration).laidAs common factor =
      simul (content.map (laidAs (naturalFirst content)
        (factor * (common / (simul content duration).natural)))) (some (factor * common)) := by
  rw [laidAs, laid, laidTo_eq_map]
  rfl

theorem laidAs_sequence (content : List Node) :
    (sequence content).laidAs common factor =
      group (splice (content.map (laidAs (naturalFirst content)
        (factor * (common / (sequence content).natural))))) false (some (factor * common)) := by
  rw [laidAs, laid, laidTo_eq_map]
  rfl

@[simp]
theorem isLeaf_laidAs (n : Node) : (n.laidAs common factor).isLeaf = n.isLeaf := by
  cases n <;> rfl

/-- Whatever a stretched element holds is proportioned. -/
theorem proportioned_of_mem_laidAs (h : n.Written) {c : Node}
    (hc : c ∈ (n.laidAs common factor).children) : c.Proportioned :=
  ((settled_laidAs h common factor).child hc).self.1

/-! ## Twins -/

/-- Elements of two built trees that last as long by nature. -/
structure Matched (n n' : Node) : Prop where
  written : n.Written
  written' : n'.Written
  natural_eq : n.natural = n'.natural

/-- Segments of two built trees that, however they are stretched, are performed in one way once they
are spliced into the lists around them. -/
structure SegmentTwin (table : Table) (u : Rat) (s : Option Heading) (n n' : Node)
    (t : Option Heading) : Prop extends Matched n n' where
  spliced : ∀ {common factor : Rat}, 0 ≤ common → 0 ≤ factor →
    Threaded (Restruck table u) s (splice [n.laidAs common factor])
      (splice [n'.laidAs common factor]) t

/-- Elements of two built trees that, however they are stretched, are performed in one way, also if
they are spliced. -/
structure Twin (table : Table) (u : Rat) (s : Option Heading) (n n' : Node)
    (t : Option Heading) : Prop extends SegmentTwin table u s n n' t where
  restruck : ∀ {common factor : Rat}, 0 ≤ common → 0 ≤ factor →
    Restruck table u s (n.laidAs common factor) (n'.laidAs common factor) t

/-- Twins that are handed nothing are twins as well if they are handed something. -/
theorem weakens_twin : Weakens (Twin table u) := by
  intro n n' t h s
  exact ⟨⟨h.toMatched,
      fun hcommon hfactor => (h.spliced hcommon hfactor).weaken weakens_restruck s⟩,
    fun hcommon hfactor => weakens_restruck (h.restruck hcommon hfactor) s⟩

/-- What segments hand on may be dropped. -/
theorem SegmentTwin.keep {mid : Option Heading} (h : SegmentTwin table u s n n' mid)
    (hkept : Kept mid t) : SegmentTwin table u s n n' t :=
  ⟨h.toMatched, fun hcommon hfactor => (h.spliced hcommon hfactor).keep hkept⟩

/-- What twins hand on may be dropped. -/
theorem Twin.keep {mid : Option Heading} (h : Twin table u s n n' mid) (hkept : Kept mid t) :
    Twin table u s n n' t :=
  ⟨h.toSegmentTwin.keep hkept, fun hcommon hfactor => (h.restruck hcommon hfactor).keep hkept⟩

/-- Elements that are not spliced are twins if they are performed in one way. -/
theorem twin_of_not_spliced (h : Matched n n')
    (hn : ∀ common factor, splice [n.laidAs common factor] = [n.laidAs common factor])
    (hn' : ∀ common factor, splice [n'.laidAs common factor] = [n'.laidAs common factor])
    (hrestruck : ∀ {common factor : Rat}, 0 ≤ common → 0 ≤ factor →
      Restruck table u s (n.laidAs common factor) (n'.laidAs common factor) t) :
    Twin table u s n n' t := by
  refine ⟨⟨h, fun hcommon hfactor => ?_⟩, hrestruck⟩
  rw [hn, hn']
  exact .singleton (hrestruck hcommon hfactor)

/-- Twins stretched by a factor are performed in one way. -/
theorem Twin.laid (h : Twin table u s n n' t) (hfactor : 0 ≤ factor) :
    Restruck table u s (n.laid factor) (n'.laid factor) t := by
  rw [← laidAs_natural h.written, ← laidAs_natural h.written', ← h.natural_eq]
  exact h.restruck (natural_nonneg h.written) hfactor

/-- The factor that stretches an element to a duration is not negative. -/
theorem stretch_nonneg (h : n.Written) (hcommon : 0 ≤ common) (hfactor : 0 ≤ factor) :
    0 ≤ factor * (common / n.natural) :=
  mul_nonneg hfactor (div_nonneg hcommon (natural_nonneg h))

/-- Composites that last as long are performed in one way if they sound alike when stretched. -/
theorem Matched.composite (h : Matched n n') (hleaf : n.isLeaf = false) (hleaf' : n'.isLeaf = false)
    (hcommon : 0 ≤ common) (hfactor : 0 ≤ factor)
    (hlike : SoundsLike table u (n.laidAs common factor) (n'.laidAs common factor)) :
    Restruck table u s (n.laidAs common factor) (n'.laidAs common factor) none :=
  .composite (by rw [isLeaf_laidAs, hleaf]) (by rw [isLeaf_laidAs, hleaf'])
    (duration?_laidAs h.written common factor) (duration?_laidAs h.written' common factor)
    (mul_nonneg hfactor hcommon) hlike

/-- Elements that become groups when they are stretched are performed in one way if the contents of
the groups are. -/
theorem Matched.restruck_of_content (h : Matched n n') (hleaf : n.isLeaf = false)
    (hleaf' : n'.isLeaf = false) (hcommon : 0 ≤ common) (hfactor : 0 ≤ factor)
    {content content' : List Node} {isExplicit' : Bool} {d d' : Option Rat}
    (hn : n.laidAs common factor = group content isExplicit d)
    (hn' : n'.laidAs common factor = group content' isExplicit' d')
    (hcontent : Threaded (Restruck table u) none content content' t) :
    Restruck table u s (n.laidAs common factor) (n'.laidAs common factor) none := by
  refine h.composite hleaf hleaf' hcommon hfactor ?_
  have hns : ∀ c ∈ (n.laidAs common factor).children, c.Proportioned :=
    fun _ hc => proportioned_of_mem_laidAs h.written hc
  have hns' : ∀ c ∈ (n'.laidAs common factor).children, c.Proportioned :=
    fun _ hc => proportioned_of_mem_laidAs h.written' hc
  rw [hn] at hns ⊢
  rw [hn'] at hns' ⊢
  exact soundsLike_group hcontent hns hns'

/-! ## Groups and sequences -/

/-- Twins stretched by a factor, one after another. -/
theorem threaded_laid (h : Threaded (Twin table u) s ns ns' t) (hfactor : 0 ≤ factor) :
    Threaded (Restruck table u) s (ns.map (laid factor)) (ns'.map (laid factor)) t :=
  h.map fun hn => hn.laid hfactor

/-- Segments stretched to a common duration and spliced, one after another. -/
theorem threaded_spliced (h : Threaded (SegmentTwin table u) s ns ns' t) (hcommon : 0 ≤ common)
    (hfactor : 0 ≤ factor) :
    Threaded (Restruck table u) s (splice (ns.map (laidAs common factor)))
      (splice (ns'.map (laidAs common factor))) t := by
  have hsplice (ns : List Node) :
      splice (ns.map (laidAs common factor)) =
        ns.flatMap fun n => splice [n.laidAs common factor] := by
    induction ns with
    | nil => rfl
    | cons n ns ih => rw [List.map_cons, splice_cons, ih, List.flatMap_cons]
  rw [hsplice, hsplice]
  exact h.flatMap weakens_restruck fun hn => hn.spliced hcommon hfactor

theorem splice_group (content : List Node) (d : Option Rat) :
    splice [group content false d] = content := by
  simp [splice]

theorem matched_group (h : Threaded (Twin table u) s ns ns' t) (isExplicit : Bool) :
    Matched (group ns isExplicit none) (group ns' isExplicit none) := by
  obtain ⟨hns, hns'⟩ := h.forall_mem fun hn => ⟨hn.written, hn.written'⟩
  refine ⟨every_group.2 ⟨trivial, hns⟩, every_group.2 ⟨trivial, hns'⟩, ?_⟩
  rw [natural, natural, naturalSum_eq_sum, naturalSum_eq_sum, h.map_eq fun hn => hn.natural_eq]

/-- Groups of twins without braces, as segments, hand on what the last of the twins does. -/
theorem segmentTwin_group (h : Threaded (Twin table u) s ns ns' t) :
    SegmentTwin table u s (group ns false none) (group ns' false none) t := by
  have hmatched := matched_group h false
  refine ⟨hmatched, fun hcommon hfactor => ?_⟩
  rw [laidAs_group, laidAs_group, splice_group, splice_group, ← hmatched.natural_eq]
  exact threaded_laid h (stretch_nonneg hmatched.written hcommon hfactor)

/-- Groups of twins are twins. -/
theorem twin_group (h : Threaded (Twin table u) none ns ns' t) (isExplicit : Bool) :
    Twin table u none (group ns isExplicit none) (group ns' isExplicit none) none := by
  have hmatched := matched_group h isExplicit
  have hrestruck {common factor : Rat} (hcommon : 0 ≤ common) (hfactor : 0 ≤ factor) :
      Restruck table u none ((group ns isExplicit none).laidAs common factor)
        ((group ns' isExplicit none).laidAs common factor) none := by
    have hstretch := stretch_nonneg hmatched.written hcommon hfactor
    have hcontent := threaded_laid h hstretch
    have hlaid' : (group ns' isExplicit none).laidAs common factor = _ := laidAs_group ..
    rw [← hmatched.natural_eq] at hlaid'
    exact hmatched.restruck_of_content rfl rfl hcommon hfactor (laidAs_group ..) hlaid' hcontent
  cases isExplicit with
  | false => exact ⟨(segmentTwin_group h).keep (.inl rfl), hrestruck⟩
  | true =>
    refine twin_of_not_spliced hmatched (fun _ _ => ?_) (fun _ _ => ?_) hrestruck
    · rw [laidAs_group]; rfl
    · rw [laidAs_group]; rfl

/-- The natural duration of the first element of a list is the first of the natural durations. -/
theorem naturalFirst_eq_headD (content : List Node) :
    naturalFirst content = (content.map natural).headD 0 := by
  cases content <;> rfl

/-- Sequences of segments that are performed in one way are twins. -/
theorem twin_sequence (h : Threaded (SegmentTwin table u) none ns ns' t) :
    Twin table u none (sequence ns) (sequence ns') none := by
  obtain ⟨hns, hns'⟩ := h.forall_mem fun hn => ⟨hn.written, hn.written'⟩
  have hnaturals := h.map_eq fun hn => hn.natural_eq
  have hfirst : naturalFirst ns = naturalFirst ns' := by
    rw [naturalFirst_eq_headD, naturalFirst_eq_headD, hnaturals]
  have hlength : ns.length = ns'.length := by
    simpa using congrArg List.length hnaturals
  have hmatched : Matched (sequence ns) (sequence ns') := by
    refine ⟨every_sequence.2 ⟨trivial, hns⟩, every_sequence.2 ⟨trivial, hns'⟩, ?_⟩
    rw [natural, natural, hfirst, hlength]
  have hfirstNonneg : 0 ≤ naturalFirst ns :=
    naturalFirst_nonneg fun c hc => natural_nonneg (hns c hc)
  have hcontent {common factor : Rat} (hcommon : 0 ≤ common) (hfactor : 0 ≤ factor) :
      Threaded (Restruck table u) none
        (splice (ns.map (laidAs (naturalFirst ns) (factor * (common / (sequence ns).natural)))))
        (splice (ns'.map (laidAs (naturalFirst ns') (factor * (common / (sequence ns').natural)))))
        t := by
    rw [← hmatched.natural_eq, ← hfirst]
    exact threaded_spliced h hfirstNonneg (stretch_nonneg hmatched.written hcommon hfactor)
  refine ⟨⟨hmatched, fun hcommon hfactor => ?_⟩, fun hcommon hfactor => ?_⟩
  · rw [laidAs_sequence, laidAs_sequence, splice_group, splice_group]
    exact (hcontent hcommon hfactor).keep (.inl rfl)
  · exact hmatched.restruck_of_content rfl rfl hcommon hfactor (laidAs_sequence ..)
      (laidAs_sequence ..) (hcontent hcommon hfactor)

/-! ## Simuls -/

/-- Simuls of twins are twins, if nothing is handed on between these. -/
theorem twin_simul (h : List.Forall₂ (fun n n' => Twin table u none n n' none) ns ns') :
    Twin table u none (simul ns none) (simul ns' none) none := by
  have hthread := Threaded.of_forall₂ h
  obtain ⟨hns, hns'⟩ := hthread.forall_mem fun hn => ⟨hn.written, hn.written'⟩
  have hfirst : naturalFirst ns = naturalFirst ns' := by
    rw [naturalFirst_eq_headD, naturalFirst_eq_headD, hthread.map_eq fun hn => hn.natural_eq]
  have hmatched : Matched (simul ns none) (simul ns' none) :=
    ⟨every_simul.2 ⟨trivial, hns⟩, every_simul.2 ⟨trivial, hns'⟩, hfirst⟩
  have hfirstNonneg : 0 ≤ naturalFirst ns :=
    naturalFirst_nonneg fun c hc => natural_nonneg (hns c hc)
  refine twin_of_not_spliced hmatched (fun _ _ => ?_) (fun _ _ => ?_) fun hcommon hfactor => ?_
  · rw [laidAs_simul]; rfl
  · rw [laidAs_simul]; rfl
  · refine hmatched.composite rfl rfl hcommon hfactor ?_
    have hstretch := stretch_nonneg hmatched.written hcommon hfactor
    rw [laidAs_simul, laidAs_simul, ← hmatched.natural_eq, ← hfirst]
    refine soundsLike_simul ?_ ?_ ?_
    · exact List.forall₂_map_left_iff.2 (List.forall₂_map_right_iff.2
        (h.imp fun _ _ hn => hn.restruck hfirstNonneg hstretch))
    · exact List.forall_mem_map.2 fun c hc => (settled_laidAs (hns c hc) _ _).self.1
    · exact List.forall_mem_map.2 fun c hc => (settled_laidAs (hns' c hc) _ _).self.1

/-! ## Levels -/

/-- Twins are wrapped into segments that hand on what the last of the twins does. -/
theorem segmentTwin_wrapLevel (h : Threaded (Twin table u) s ns ns' t) :
    SegmentTwin table u s (wrapLevel false ns) (wrapLevel false ns') t := by
  have hgroup := segmentTwin_group h
  cases h with
  | nil => exact hgroup
  | cons hn hrest =>
    cases hrest with
    | nil ht => exact hn.toSegmentTwin.keep ht
    | cons => exact hgroup

/-- Twins are wrapped into twins. -/
theorem twin_wrapLevel (h : Threaded (Twin table u) none ns ns' t) (isExplicit : Bool) :
    Twin table u none (wrapLevel isExplicit ns) (wrapLevel isExplicit ns') none := by
  have hgroup := twin_group h isExplicit
  cases h with
  | nil => exact hgroup
  | cons hn hrest =>
    cases hrest with
    | nil => exact hn.keep (.inl rfl)
    | cons => exact hgroup

end Node

open Node

/-- Pieces of two levels that are twins, or the same separator. A period leaves what is handed on, a
comma does not. -/
inductive Piece.Twin (table : Table) (u : Rat) :
    Option Heading → Piece → Piece → Option Heading → Prop
  | comma {s : Option Heading} : Twin table u s .comma .comma none
  | period {s : Option Heading} : Twin table u s .period .period s
  | element {s t : Option Heading} {n n' : Node} :
    n.Twin table u s n' t → Twin table u s (.element n) (.element n') t

section
variable {table : Table} {u : Rat} {s t : Option Heading} {pieces pieces' : List Piece}
  {isExplicit : Bool}

/-- The elements among twin pieces are twins. -/
theorem threaded_elements (h : Threaded (Piece.Twin table u) s pieces pieces' t) :
    Threaded (Node.Twin table u) s (pieces.filterMap Piece.element?)
      (pieces'.filterMap Piece.element?) t := by
  induction h with
  | nil hs => exact .nil hs
  | cons hpiece _ ih =>
    cases hpiece with
    | comma => exact ih.weaken weakens_twin _
    | period => exact ih
    | element hn => exact .cons hn ih

/-- Twin pieces are separators of the same kind or none. -/
theorem Piece.Twin.isComma_eq {piece piece' : Piece} (h : Piece.Twin table u s piece piece' t) :
    piece.isComma = piece'.isComma := by
  cases h <;> rfl

theorem Piece.Twin.isPeriod_eq {piece piece' : Piece} (h : Piece.Twin table u s piece piece' t) :
    piece.isPeriod = piece'.isPeriod := by
  cases h <;> rfl

/-- A period leaves what is handed on. -/
theorem Piece.Twin.eq_of_isPeriod {piece piece' : Piece} (h : Piece.Twin table u s piece piece' t)
    (hperiod : piece.isPeriod = true) : t = s := by
  cases h with
  | period => rfl
  | comma | element => cases hperiod

/-- Nothing is handed on after a comma. -/
theorem Piece.Twin.eq_none_of_isComma {piece piece' : Piece}
    (h : Piece.Twin table u s piece piece' t) (hcomma : piece.isComma = true) : t = none := by
  cases h with
  | comma => rfl
  | period | element => cases hcomma

/-- A part of twin pieces is assembled into twins. -/
theorem twin_assemblePart (h : Threaded (Piece.Twin table u) none pieces pieces' t)
    (isExplicit : Bool) :
    (assemblePart isExplicit pieces).Twin table u none (assemblePart isExplicit pieces') none := by
  rw [assemblePart, assemblePart, ← h.any_eq fun h => h.isPeriod_eq]
  split
  · have hparts := threaded_partsBetween id (fun h => h.isPeriod_eq)
      (fun h hperiod => h.eq_of_isPeriod hperiod) (fun _ => rfl) rfl h
    refine twin_sequence (hparts.map ?_)
    rintro s part part' t ⟨mid, hpart, rfl⟩
    exact segmentTwin_wrapLevel (threaded_elements hpart)
  · exact twin_wrapLevel (threaded_elements h) isExplicit

/-- A level of twin pieces is arranged into twins. -/
theorem twin_arrange (h : Threaded (Piece.Twin table u) none pieces pieces' t) (isExplicit : Bool) :
    (arrange isExplicit pieces).Twin table u none (arrange isExplicit pieces') none := by
  rw [arrange, arrange, ← h.any_eq fun h => h.isComma_eq]
  split
  · have hparts := threaded_partsBetween (fun _ => none) (fun h => h.isComma_eq)
      (fun h hcomma => h.eq_none_of_isComma hcomma) (fun _ => rfl) rfl h
    have hforall := hparts.forall₂ fun h => h.choose_spec.2
    refine twin_simul (List.forall₂_map_left_iff.2 (List.forall₂_map_right_iff.2 (hforall.imp ?_)))
    rintro part part' ⟨mid, hpart, -⟩
    exact twin_assemblePart hpart false
  · exact twin_assemblePart h isExplicit

end

end Polyrhythm
