import Polyrhythm.Proofs.Grammar.Reading

/-!
# Braces around a whole text

Braces around a text make a group of it explicit and change nothing else (`Node.bracketed`), and
more of them change nothing at all. Between the braces the text is assembled as the content of a
block, which differs from a text only in the mark of the group that it may become
(`assemble_true`); outside them it is a single element, and such a level is that element
(`assemble_element`). Read again, the element is left as it is (`build_enclosed`): nothing that is
built can be taken for a brace, a marker, an underscore or a separator.
-/

namespace Polyrhythm

open Node

/-- The element that braces around a text make of what the text is without them: a group becomes
explicit. -/
def Node.bracketed : Node → Node
  | .group content _ duration => .group content true duration
  | n => n

section
variable {n root : Node} {pieces : List Piece} {items : List Item} {t o c : Token}
  {tokens opens closes : List Token}

/-! ## Levels and blocks -/

theorem Node.bracketed_bracketed (n : Node) : n.bracketed.bracketed = n.bracketed := by
  cases n <;> rfl

/-- A change of tempo leaves the mark of a group as it is. -/
theorem Node.bracketed_scaleTempo (factor : Rat) (n : Node) :
    (n.scaleTempo factor).bracketed = n.bracketed.scaleTempo factor := by
  cases n <;> rfl

/-- A single element is what it is in a block as well, if it is no implicit group. -/
theorem wrapLevel_true {nodes : List Node} (h : ∀ n ∈ nodes, n.bracketed = n) :
    wrapLevel true nodes = (wrapLevel false nodes).bracketed := by
  match nodes, h with
  | [], _ => rfl
  | [n], h => exact (h n (List.mem_singleton_self n)).symm
  | _ :: _ :: _, _ => rfl

theorem assemblePart_true (h : ∀ n, .element n ∈ pieces → n.bracketed = n) :
    assemblePart true pieces = (assemblePart false pieces).bracketed := by
  rw [assemblePart, assemblePart]
  split
  · rfl
  · exact wrapLevel_true fun n hn => h n (mem_of_mem_filterMap_element? hn)

theorem arrange_true (h : ∀ n, .element n ∈ pieces → n.bracketed = n) :
    arrange true pieces = (arrange false pieces).bracketed := by
  rw [arrange, arrange]
  split
  · rfl
  · exact assemblePart_true h

/-- The elements among paced pieces are elements at another tempo. -/
theorem exists_of_element_mem_pace {tempo : Rat} (h : .element n ∈ pace tempo pieces) :
    ∃ m factor, .element m ∈ pieces ∧ n = m.scaleTempo factor := by
  induction pieces generalizing tempo with
  | nil => cases h
  | cons piece pieces ih =>
    have later {tempo : Rat} (h : .element n ∈ pace tempo pieces) :
        ∃ m factor, .element m ∈ piece :: pieces ∧ n = m.scaleTempo factor := by
      obtain ⟨m, factor, hm, hn⟩ := ih h
      exact ⟨m, factor, List.mem_cons_of_mem _ hm, hn⟩
    cases piece with
    | marker rate => exact later h
    | element m =>
      rcases List.mem_cons.1 h with hhead | h
      · cases hhead
        exact ⟨m, tempo, List.mem_cons_self, rfl⟩
      · exact later h
    | comma | period =>
      rcases List.mem_cons.1 h with hhead | h
      · cases hhead
      · exact later h

/-- The content of a block is assembled as a text is, but for the mark of the group. -/
theorem assemble_true (h : ∀ n, .element n ∈ pieces → n.bracketed = n) :
    assemble true pieces = (assemble false pieces).bracketed := by
  refine arrange_true fun n hn => ?_
  obtain ⟨m, factor, hm, rfl⟩ := exists_of_element_mem_pace hn
  rw [bracketed_scaleTempo, h m hm]

/-- A level of one element is that element. -/
theorem assemble_element (isExplicit : Bool) (n : Node) :
    assemble isExplicit [.element n] = n := by
  have hpace : pace 1 [.element n] = [.element n] := by rw [pace, scaleTempo_one, pace]
  rw [assemble, hpace]
  rfl

/-! ## Tokens in braces -/

/-- No token is an implicit group. -/
theorem Token.bracketed_of_piece (h : t.piece = .element n) : n.bracketed = n := by
  rw [piece] at h
  split at h
  · cases h
  · split at h
    · cases h
    · split at h
      · cases h
      · split at h
        · cases h; rfl
        · cases h; rfl

/-- No element of a level is an implicit group: it is a leaf, or what a block has become. -/
theorem Spells.bracketed_of_mem (h : Spells tokens items) (hn : .element n ∈ Item.pieces items) :
    n.bracketed = n := by
  induction h generalizing n with
  | nil => cases hn
  | leaf _ _ _ ih =>
    rcases List.mem_cons.1 hn with hleaf | hn
    · exact Token.bracketed_of_piece hleaf.symm
    · exact ih hn
  | block _ _ _ _ ihinner ihrest =>
    rcases List.mem_cons.1 hn with hblock | hn
    · cases hblock
      rw [assemble_true fun m hm => ihinner hm, bracketed_bracketed]
    · exact ihrest hn

/-- Tokens in as many pairs of braces as there are write a level that is a block with the content
of the tokens. -/
theorem Spells.exists_of_enclosed (h : Spells tokens items)
    (hopens : ∀ o ∈ opens, o.content = openingBrace)
    (hcloses : ∀ c ∈ closes, c.content = closingBrace) (hlength : opens.length = closes.length) :
    ∃ outer, Spells (opens ++ (tokens ++ closes)) outer ∧
      assemble true (Item.pieces outer) = assemble true (Item.pieces items) ∧
      (opens ≠ [] → assemble false (Item.pieces outer) = assemble true (Item.pieces items)) := by
  induction opens generalizing closes with
  | nil =>
    rw [List.eq_nil_of_length_eq_zero hlength.symm, List.append_nil]
    exact ⟨items, h, rfl, fun hne => absurd rfl hne⟩
  | cons o opens ih =>
    obtain ⟨ho, hopens⟩ := List.forall_mem_cons.1 hopens
    rcases List.eq_nil_or_concat closes with rfl | ⟨closes, c, rfl⟩
    · cases hlength
    · rw [List.concat_eq_append] at hcloses hlength ⊢
      obtain ⟨hcloses, hc⟩ := List.forall_mem_append.1 hcloses
      have hlength : opens.length = closes.length := by simpa using hlength
      obtain ⟨outer, houter, hassemble, -⟩ := ih hopens hcloses hlength
      have hspells := Spells.block ho (hc c (List.mem_singleton_self c)) houter .nil
      have hblock (isExplicit : Bool) :
          assemble isExplicit (Item.pieces [.block outer]) = assemble true (Item.pieces items) :=
        (assemble_element isExplicit _).trans hassemble
      refine ⟨[.block outer], ?_, hblock true, fun _ => hblock false⟩
      rw [List.append_assoc, List.append_assoc] at hspells
      exact hspells

/-- Braces around a text that can be built mark it as explicit if it is a group, and change nothing
otherwise; so do any number of pairs of braces. A level that holds only the tree of a text, be it a
block or not, is that tree. -/
theorem build_enclosed (h : build tokens = .ok root) :
    (∀ opens closes : List Token, opens ≠ [] → opens.length = closes.length →
      (∀ o ∈ opens, o.content = openingBrace) → (∀ c ∈ closes, c.content = closingBrace) →
      build (opens ++ (tokens ++ closes)) = .ok root.bracketed) ∧
    ∀ isExplicit, readLevel isExplicit [root] = .ok root := by
  obtain ⟨hmatch, hrefused⟩ := readable_of_build h
  obtain ⟨items, hitems⟩ := exists_spells_of_bracesMatch hmatch
  have hroot : root = assemble false (Item.pieces items) :=
    Except.ok.inj (h.symm.trans (hitems.build hrefused))
  constructor
  · intro opens closes hne hlength hopens hcloses
    obtain ⟨outer, houter, -, hassemble⟩ := hitems.exists_of_enclosed hopens hcloses hlength
    have houterRefused : ∀ t ∈ opens ++ (tokens ++ closes), t.isRefused = false := by
      intro t ht
      rcases List.mem_append.1 ht with ht | ht
      · exact Token.isRefused_of_brace (.inl (hopens t ht))
      · rcases List.mem_append.1 ht with ht | ht
        · exact hrefused t ht
        · exact Token.isRefused_of_brace (.inr (hcloses t ht))
    rw [houter.build houterRefused, hassemble hne, hroot,
      assemble_true fun n hn => hitems.bracketed_of_mem hn]
  · intro isExplicit
    obtain ⟨hgroup, hproper⟩ := hitems.groupBraces hrefused
    have helement := (readLevel_items hproper hgroup false).2
    rw [← hroot] at helement
    exact readLevel_of_elements isExplicit (List.forall_mem_singleton.2 helement)

/-- Two pairs of braces around a group of a note and a block. -/
theorem build_enclosed_twice :
    ∃ (tokens : List Token) (content : List Node),
      tokens.map Token.content = ["a", "\x7b", "b", ".", "\x7d"] ∧ content.length = 2 ∧
      build tokens = .ok (.group content false none) ∧
      build (["\x7b", "\x7b"].map (Token.mk · .start) ++
        (tokens ++ ["\x7d", "\x7d"].map (Token.mk · .start))) =
          .ok (.group content true none) ∧
      readLevel true [.group content false none] = .ok (.group content false none) := by
  obtain ⟨content, hlength, hbuild⟩ : ∃ content : List Node, content.length = 2 ∧
      build (["a", "\x7b", "b", ".", "\x7d"].map (Token.mk · .start)) =
        .ok (.group content false none) := ⟨_, rfl, rfl⟩
  obtain ⟨hbraces, hagain⟩ := build_enclosed hbuild
  exact ⟨_, content, rfl, hlength, hbuild,
    hbraces _ _ (by decide) rfl (by decide) (by decide), hagain true⟩

end

end Polyrhythm
