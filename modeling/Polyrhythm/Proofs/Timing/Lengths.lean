import Polyrhythm.Proofs.Timing.Annotation

/-!
# The lengths of leaves

A settled tree has the leaves of the tree it was built from, in their order, and every leaf has its
length in the sense of `Node.lengths`: one unit divided by its tempo, multiplied by the ratio of
natural durations wherever a later part of a simul or a later segment of a sequence around it is
fitted to the first (`Node.leaves_laid`). The tree itself lasts its natural duration, and gathering
leaves that alone. None of this excludes empty blocks, whose natural duration is zero.
-/

namespace Polyrhythm

namespace Node

open Traversal

/-- A leaf as settling leaves it: with its pitch taken apart, and with a length. -/
def settledLeaf : Node → Rat → Node
  | symbol s, length => symbol { s.splitPitch with duration := some length }
  | hold h, length => hold { h with duration := some length }
  | n, _ => n

variable {n : Node}

/-! ## Leaves of laid out trees -/

/-- Replacing the duration of a composite leaves its leaves. -/
theorem leaves_lasting (h : n.isLeaf = false) (d : Rat) : (n.lasting d).leaves = n.leaves := by
  cases n with
  | symbol | hold => cases h
  | group | simul | held => rw [lasting, leaves_eq_flatMap rfl, leaves_eq_flatMap rfl]; rfl
  | sequence | foreign => rfl

/-- Laying out makes leaves of leaves only. -/
theorem isLeaf_laid (n : Node) (factor : Rat) : (n.laid factor).isLeaf = n.isLeaf := by
  cases n <;> rfl

/-- Giving an element a common duration does to its leaves what stretching it does. -/
theorem leaves_laidAs (h : n.Written) (common factor : Rat) :
    (n.laidAs common factor).leaves = (n.laid (factor * (common / n.natural))).leaves := by
  rw [laidAs]
  cases hleaf : n.isLeaf with
  | false => exact leaves_lasting ((isLeaf_laid n _).trans hleaf) _
  | true =>
    have hnatural : n.natural ≠ 0 := by
      cases n with
      | symbol s => exact (one_div_pos.2 h.symbol.1).ne'
      | hold s => exact (one_div_pos.2 h.hold.1).ne'
      | _ => cases hleaf
    rw [lasting_eq_self]
    rw [duration?_laid h, mul_assoc, div_mul_cancel₀ _ hnatural]

/-- Splicing moves leaves out of groups and changes nothing about them. -/
theorem leaves_splice (ns : List Node) : (splice ns).flatMap leaves = ns.flatMap leaves := by
  induction ns with
  | nil => rfl
  | cons n ns ih =>
    have hone : (splice [n]).flatMap leaves = n.leaves := by
      cases n with
      | group content isExplicit duration => cases isExplicit <;> simp [splice]
      | _ => simp [splice]
    rw [splice_cons, List.flatMap_append, ih, hone, List.flatMap_cons]

/-! ## Lengths -/

theorem lengthsEach_eq_flatMap (factor : Rat) (ns : List Node) :
    lengthsEach factor ns = ns.flatMap (lengths factor) := by
  induction ns with
  | nil => rfl
  | cons n ns ih => rw [lengthsEach, ih, List.flatMap_cons]

theorem lengthsLike_eq_flatMap (common factor : Rat) (ns : List Node) :
    lengthsLike common factor false ns =
      ns.flatMap fun n => n.lengths (factor * (common / n.natural)) := by
  induction ns with
  | nil => rfl
  | cons n ns ih => rw [lengthsLike, ih, List.flatMap_cons]; rfl

/-- The leaves of laid out elements, each by a factor of its own, are those of the elements at the
lengths for these factors, if that is so for each element. -/
theorem leaves_laid_of {content : List Node} (stretch : Node → Rat)
    (h : ∀ c ∈ content, ∀ factor, (c.lengths factor).length = c.leaves.length ∧
      (c.laid factor).leaves = c.leaves.zipWith settledLeaf (c.lengths factor)) :
    (content.flatMap fun c => c.lengths (stretch c)).length = (content.flatMap leaves).length ∧
      (content.flatMap fun c => (c.laid (stretch c)).leaves) =
        (content.flatMap leaves).zipWith settledLeaf
          (content.flatMap fun c => c.lengths (stretch c)) := by
  induction content with
  | nil => exact ⟨rfl, rfl⟩
  | cons c cs ih =>
    obtain ⟨hlength, hleaves⟩ := h c (List.mem_cons_self ..) (stretch c)
    obtain ⟨ihlength, ihleaves⟩ := ih fun m hm => h m (List.mem_cons_of_mem _ hm)
    simp only [List.flatMap_cons, List.length_append]
    exact ⟨by rw [hlength, ihlength], by rw [List.zipWith_append hlength.symm, hleaves, ihleaves]⟩

/-- The leaves of parts that are given the natural duration of the first part. -/
theorem leaves_laidAs_of {content : List Node} (factor : Rat) (hcontent : ∀ c ∈ content, c.Written)
    (h : ∀ c ∈ content, ∀ factor, (c.lengths factor).length = c.leaves.length ∧
      (c.laid factor).leaves = c.leaves.zipWith settledLeaf (c.lengths factor)) :
    (lengthsLike (naturalFirst content) factor true content).length =
        (content.flatMap leaves).length ∧
      (content.map (laidAs (naturalFirst content) factor)).flatMap leaves =
        (content.flatMap leaves).zipWith settledLeaf
          (lengthsLike (naturalFirst content) factor true content) := by
  cases content with
  | nil => exact ⟨rfl, rfl⟩
  | cons first rest =>
    obtain ⟨hfirst, hrest⟩ := List.forall_mem_cons.1 hcontent
    obtain ⟨hlength, hleaves⟩ := h first (List.mem_cons_self ..) factor
    obtain ⟨hlengths, hleaves'⟩ := leaves_laid_of
      (fun c => factor * (first.natural / c.natural)) fun c hc => h c (List.mem_cons_of_mem _ hc)
    have hparts : (rest.map (laidAs first.natural factor)).flatMap leaves =
        rest.flatMap fun c => (c.laid (factor * (first.natural / c.natural))).leaves := by
      rw [List.flatMap_map]
      exact List.flatMap_congr fun c hc => leaves_laidAs (hrest c hc) _ _
    simp only [lengthsLike, lengthsLike_eq_flatMap, naturalFirst, List.map_cons, List.flatMap_cons,
      laidAs_natural hfirst, hparts, if_true, List.length_append]
    exact ⟨by rw [hlength, hlengths], by
      rw [List.zipWith_append hlength.symm, hleaves, hleaves']⟩

/-- The leaves of a tree that is laid out are those of the tree, each at its length. -/
theorem leaves_laid (h : n.Written) (factor : Rat) :
    (n.lengths factor).length = n.leaves.length ∧
      (n.laid factor).leaves = n.leaves.zipWith settledLeaf (n.lengths factor) := by
  induction n generalizing factor with
  | symbol | hold => exact ⟨rfl, rfl⟩
  | group content isExplicit duration ih =>
    have heach := leaves_laid_of (fun _ => factor) fun c hc => ih c hc (h.child hc)
    rw [laid, laidEach_eq_map, leaves_group, leaves_group, List.flatMap_map, lengths,
      lengthsEach_eq_flatMap]
    exact heach
  | simul content duration ih =>
    rw [laid, laidTo_eq_map, leaves_simul, leaves_simul, lengths]
    exact leaves_laidAs_of factor (fun c hc => h.child hc) fun c hc => ih c hc (h.child hc)
  | sequence content ih =>
    rw [laid, laidTo_eq_map, leaves_group, leaves_sequence, leaves_splice, lengths]
    exact leaves_laidAs_of factor (fun c hc => h.child hc) fun c hc => ih c hc (h.child hc)
  | held => exact absurd h not_written_held
  | foreign => exact absurd h not_written_foreign

end Node

open Node

/-- A tree that is built is settled without a fault. The settled tree has the leaves of the built
one in their order, each at its length, and it lasts its natural duration, which is also the
duration of the annotated tree. -/
theorem leaves_of_settleAll {tokens : List Token} {root : Node} (h : build tokens = .ok root) :
    ∃ settled, settleAll [root] = .ok [settled] ∧
      (root.lengths 1).length = root.leaves.length ∧
      settled.leaves = root.leaves.zipWith settledLeaf (root.lengths 1) ∧
      settled.duration? = some root.natural ∧
      ∀ tree, root.annotate = .ok tree → tree.duration? = some root.natural := by
  have hroot := written_of_build h
  have hduration : (root.laid 1).duration? = some root.natural := by
    rw [duration?_laid hroot, one_mul]
  obtain ⟨hlength, hleaves⟩ := leaves_laid hroot 1
  refine ⟨root.laid 1, settleAll_singleton hroot, hlength, hleaves, hduration, ?_⟩
  intro tree htree
  have hinside := (gatherInside_of_annotate hroot htree).2
  rw [duration?_gatherInside hinside, hduration]

/-- An empty block and a group of two leaves, both fitted to a single leaf. -/
theorem leaves_of_settleAll_empty_block :
    ∃ root settled,
      build (["a", ",", openingBrace, closingBrace, ",", "b", "/2", "c"].map
          (Token.mk · .start)) = .ok root ∧
        settleAll [root] = .ok [settled] ∧
        settled.leaves = root.leaves.zipWith settledLeaf [1, 2 / 3, 1 / 3] ∧
        settled.duration? = some 1 := by
  obtain ⟨root, hroot, hlengths, hnatural⟩ :
      ∃ root, build (["a", ",", openingBrace, closingBrace, ",", "b", "/2", "c"].map
          (Token.mk · .start)) = .ok root ∧
        root.lengths 1 = [1, 2 / 3, 1 / 3] ∧ root.natural = 1 :=
    ⟨_, rfl, by decide +kernel, by decide +kernel⟩
  obtain ⟨settled, hsettled, -, hleaves, hduration, -⟩ := leaves_of_settleAll hroot
  exact ⟨root, settled, hroot, hsettled, hlengths ▸ hleaves, hnatural ▸ hduration⟩

end Polyrhythm
