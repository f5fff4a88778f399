import Polyrhythm.Proofs.Grammar.Refused
import Polyrhythm.Proofs.Grammar.Scope

/-!
# What building makes of any marker

A marker can be refused for two reasons: for a zero in it, and for more digits than can be read.
Balanced tokens none of whose markers has a zero are built into the tree that one descent of the
grammar reads (`build_eq_readGrammar`), with leaves at the tempos of the markers in whose scope they
are (`leaves_of_build`), if all markers can be read. Otherwise one that cannot be read is what they
are refused for (`build_of_excess`), and no other fault comes up.
-/

namespace Polyrhythm

open Node

variable {tokens : List Token}

/-- A marker without a zero is refused exactly if it cannot be read. -/
theorem Token.isRefused_of_not_isVoid {t : Token} (h : t.isVoid = false) :
    t.isRefused = t.excess?.isSome := by
  rw [isRefused_eq, h, Bool.or_false]

/-- No marker is refused if none has a zero and all can be read. -/
theorem not_isRefused_of_readable (hvoid : ∀ t ∈ tokens, t.isVoid = false)
    (h : ∀ t ∈ tokens, t.excess? = none) : ∀ t ∈ tokens, t.isRefused = false := by
  intro t ht
  rw [Token.isRefused_of_not_isVoid (hvoid t ht), h t ht]
  rfl

/-- Balanced tokens without zeros in their markers are refused for a marker that cannot be read, if
there is one. -/
theorem build_of_excess (hmatch : BracesMatch tokens) (hvoid : ∀ t ∈ tokens, t.isVoid = false)
    (h : ∃ t ∈ tokens, t.excess? ≠ none) :
    ∃ t ∈ tokens, ∃ numeral, t.excess? = some numeral ∧
      build tokens = .error (.unreadableNumeral numeral.length) := by
  obtain ⟨u, hu, hexcess⟩ := h
  have hrefused : u.isRefused = true := by
    rwa [Token.isRefused_of_not_isVoid (hvoid u hu), Option.isSome_iff_ne_none]
  obtain ⟨i, t, hfirst, hbuild⟩ := build_of_refused hmatch ⟨u, hu, hrefused⟩
  have ht := List.mem_of_getElem? hfirst.get
  have hsome := hfirst.refused
  rw [Token.isRefused_of_not_isVoid (hvoid t ht)] at hsome
  obtain ⟨numeral, hnumeral⟩ := Option.isSome_iff_exists.1 hsome
  refine ⟨t, ht, numeral, hnumeral, ?_⟩
  rw [hbuild, Token.refusal, hnumeral]

/-- Balanced tokens are refused for a power of ten that cannot be read, if it is their only marker.
-/
theorem build_of_tenfold {n : Nat} (hn : Number.digitLimit ≤ n) (hmatch : BracesMatch tokens)
    (htokens : ∀ t ∈ tokens, t = .tenfold n ∨ t.marker? = none) (h : .tenfold n ∈ tokens) :
    build tokens = .error (.unreadableNumeral (n + 1)) := by
  have hvoid : ∀ t ∈ tokens, t.isVoid = false := by
    intro t ht
    rcases htokens t ht with rfl | hmarker
    · exact Token.isVoid_tenfold _
    · rw [Token.isVoid, hmarker]
      rfl
  obtain ⟨t, ht, numeral, hnumeral, hbuild⟩ := build_of_excess hmatch hvoid
    ⟨_, h, by rw [Token.excess?_tenfold hn]; exact Option.some_ne_none _⟩
  rcases htokens t ht with rfl | hmarker
  · rw [Token.excess?_tenfold hn] at hnumeral
    rw [hbuild, ← Option.some.inj hnumeral]
  · rw [Token.excess?, hmarker] at hnumeral
    cases hnumeral

/-! ## The grammar -/

/-- Balanced tokens none of whose markers has a zero are built into the tree that one descent of the
grammar reads, unless a marker has more digits than can be read. They are refused for it then. -/
theorem build_eq_readGrammar (hmatch : BracesMatch tokens)
    (hvoid : ∀ t ∈ tokens, t.isVoid = false) :
    (∃ root, readGrammar? tokens = some root ∧
      ((∀ t ∈ tokens, t.excess? = none) → build tokens = .ok root)) ∧
      ((∃ t ∈ tokens, t.excess? ≠ none) → ∃ t ∈ tokens, ∃ numeral, t.excess? = some numeral ∧
        build tokens = .error (.unreadableNumeral numeral.length)) := by
  refine ⟨?_, build_of_excess hmatch hvoid⟩
  obtain ⟨items, hitems⟩ := exists_spells_of_bracesMatch hmatch
  refine ⟨assemble false (Item.pieces items), ?_, fun hread =>
    hitems.build (not_isRefused_of_readable hvoid hread)⟩
  rw [readGrammar?, hitems.ofTokens?]
  rfl

/-- The two readings of a block with a marker and a period beside a part with a comma. -/
theorem build_eq_readGrammar_nested :
    ∃ root,
      readGrammar? (["/2", "a", ",", "\x7b", "/3*2", "b", ".", "_", "\x7d", "c"].map
        (Token.mk · .start)) = some root ∧
      build (["/2", "a", ",", "\x7b", "/3*2", "b", ".", "_", "\x7d", "c"].map
        (Token.mk · .start)) = .ok root := by
  let tokens := ["/2", "a", ",", "\x7b", "/3*2", "b", ".", "_", "\x7d", "c"].map (Token.mk · .start)
  have hmatch : BracesMatch tokens := by decide
  have hvoid : ∀ t ∈ tokens, t.isVoid = false := by decide
  obtain ⟨root, hroot, hbuild⟩ := (build_eq_readGrammar hmatch hvoid).1
  exact ⟨root, hroot, hbuild (by decide)⟩

/-- A marker with a digit too many, and nothing else: the grammar has a tree for it. -/
theorem build_eq_readGrammar_fails :
    ∃ tokens root, BracesMatch tokens ∧ (∀ t ∈ tokens, t.isVoid = false) ∧
      readGrammar? tokens = some root ∧
      build tokens = .error (.unreadableNumeral (Number.digitLimit + 1)) := by
  have hmatch : BracesMatch [.tenfold Number.digitLimit] :=
    (bracesMatch_cons_marker (Token.marker?_tenfold _) []).2 rfl
  obtain ⟨items, hitems⟩ := exists_spells_of_bracesMatch hmatch
  refine ⟨_, assemble false (Item.pieces items), hmatch,
    List.forall_mem_singleton.2 (Token.isVoid_tenfold _), ?_,
    build_of_tenfold le_rfl hmatch (List.forall_mem_singleton.2 (.inl rfl)) List.mem_cons_self⟩
  rw [readGrammar?, hitems.ofTokens?]
  rfl

/-! ## Leaves and their tempos -/

/-- The leaves of what is built from balanced tokens none of whose markers has a zero are, in their
order, those of the tokens, each at the product of the rates of the markers in whose scope it is;
unless a marker has more digits than can be read. The tokens are refused for it then. -/
theorem leaves_of_build (hmatch : BracesMatch tokens) (hvoid : ∀ t ∈ tokens, t.isVoid = false) :
    ((∀ t ∈ tokens, t.excess? = none) → ∃ root, build tokens = .ok root ∧
      root.leaves = tokens.zipIdx.filterMap fun (t, j) => t.leaf? (scopedTempo tokens j)) ∧
      ((∃ t ∈ tokens, t.excess? ≠ none) → ∃ t ∈ tokens, ∃ numeral, t.excess? = some numeral ∧
        build tokens = .error (.unreadableNumeral numeral.length)) :=
  ⟨fun hread => leaves_of_readable hmatch (not_isRefused_of_readable hvoid hread),
    build_of_excess hmatch hvoid⟩

/-- A marker reaches over a period and into a block, and one in a block ends with it. -/
theorem leaves_of_build_scoped :
    ∃ tokens root, tokens.map Token.content = ["/2", "a", ".", "\x7b", "/3", "b", "\x7d", "_"] ∧
      build tokens = .ok root ∧
      root.leaves = tokens.zipIdx.filterMap (fun (t, j) => t.leaf? (scopedTempo tokens j)) ∧
      [1, 5, 7].map (scopedTempo tokens) = [2, 6, 2] := by
  let tokens := ["/2", "a", ".", "\x7b", "/3", "b", "\x7d", "_"].map (Token.mk · .start)
  have hmatch : BracesMatch tokens := by decide
  have hvoid : ∀ t ∈ tokens, t.isVoid = false := by decide
  obtain ⟨root, hroot, hleaves⟩ := (leaves_of_build hmatch hvoid).1 (by decide)
  exact ⟨tokens, root, rfl, hroot, hleaves, by decide +kernel⟩

/-- A marker with a digit too many in front of a note: there is no tree to have the leaf. -/
theorem leaves_of_build_fails :
    ∃ tokens : List Token, BracesMatch tokens ∧ (∀ t ∈ tokens, t.isVoid = false) ∧
      tokens[1]?.map Token.content = some "a" ∧
      build tokens = .error (.unreadableNumeral (Number.digitLimit + 1)) := by
  have hmatch : BracesMatch [.tenfold Number.digitLimit, ⟨"a", .start⟩] :=
    (bracesMatch_cons_marker (Token.marker?_tenfold _) _).2 (by decide)
  have htokens : ∀ t ∈ [Token.tenfold Number.digitLimit, ⟨"a", .start⟩],
      t = .tenfold Number.digitLimit ∨ t.marker? = none :=
    List.forall_mem_cons.2 ⟨.inl rfl, List.forall_mem_singleton.2 (.inr (by decide))⟩
  exact ⟨_, hmatch, List.forall_mem_cons.2 ⟨Token.isVoid_tenfold _,
      List.forall_mem_singleton.2 (by decide)⟩, rfl,
    build_of_tenfold le_rfl hmatch htokens List.mem_cons_self⟩

end Polyrhythm
