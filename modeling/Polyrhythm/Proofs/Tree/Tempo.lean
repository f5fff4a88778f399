import Mathlib.Algebra.Order.Field.Rat
import Polyrhythm.Proofs.Tree.Walk

/-!
# Changes of tempo

A marker multiplies the tempo of every leaf after it, also inside finished elements. Two changes in
a row are one change by the product (`Node.scaleTempo_scaleTempo`), and a change by one is none
(`Node.scaleTempo_one`). A change reaches every leaf (`Node.leaves_scaleTempo`), and it is possible
in every tree without foreign elements (`Node.adjustTempo_eq_ok`).
-/

namespace Polyrhythm.Node

variable {p : Node → Prop} {n : Node}

/-! ## Composition -/

/-- A change of tempo by one changes nothing. -/
theorem scaleTempo_one (n : Node) : n.scaleTempo 1 = n := by
  have each {content : List Node} (ih : ∀ c ∈ content, c.scaleTempo 1 = c) :
      content.map (scaleTempo 1) = content := by
    rw [List.map_congr_left ih, List.map_id']
  induction n with
  | symbol s => simp [scaleTempo]
  | hold h => simp [scaleTempo]
  | group content isExplicit duration ih => simp [scaleTempo, each ih]
  | simul content duration ih => simp [scaleTempo, each ih]
  | sequence content ih => simp [scaleTempo, each ih]
  | held content h ih => simp [scaleTempo, ih]
  | foreign kind => rfl

/-- Two changes of tempo in a row are one change by the product. -/
theorem scaleTempo_scaleTempo (factor next : Rat) (n : Node) :
    (n.scaleTempo factor).scaleTempo next = n.scaleTempo (factor * next) := by
  have each {content : List Node}
      (ih : ∀ c ∈ content, (c.scaleTempo factor).scaleTempo next = c.scaleTempo (factor * next)) :
      (content.map (scaleTempo factor)).map (scaleTempo next) =
        content.map (scaleTempo (factor * next)) := by
    rw [List.map_map]
    exact List.map_congr_left ih
  induction n with
  | symbol s => simp [scaleTempo, mul_assoc]
  | hold h => simp [scaleTempo, mul_assoc]
  | group content isExplicit duration ih => simp only [scaleTempo, scaleTempoAll_eq_map, each ih]
  | simul content duration ih => simp only [scaleTempo, scaleTempoAll_eq_map, each ih]
  | sequence content ih => simp only [scaleTempo, scaleTempoAll_eq_map, each ih]
  | held content h ih => simp only [scaleTempo, ih]
  | foreign kind => rfl

/-- A change of tempo reaches every leaf. -/
theorem leaves_scaleTempo (factor : Rat) (n : Node) :
    (n.scaleTempo factor).leaves = n.leaves.map (scaleTempo factor) := by
  have hleaf : (isLeaf : Node → Bool) ∘ scaleTempo factor = isLeaf := by
    funext m
    cases m <;> rfl
  rw [leaves, walk_scaleTempo, List.filter_map, hleaf]
  rfl

/-! ## What a change of tempo leaves -/

@[simp]
theorem isSymbol_scaleTempo (factor : Rat) (content : String) (n : Node) :
    (n.scaleTempo factor).isSymbol content = n.isSymbol content := by
  cases n <;> rfl

/-! ## Foreign elements -/

theorem firstForeignOf_eq_none_iff {content : List Node} :
    firstForeignOf content = none ↔ ∀ c ∈ content, c.firstForeign = none := by
  induction content with
  | nil => simp [firstForeignOf]
  | cons c cs ih => simp [firstForeignOf, ih]

/-- A tree has no foreign element if every element has a property that no foreign one has. -/
theorem firstForeign_eq_none (h : n.Every p) (hp : ∀ kind, ¬p (foreign kind)) :
    n.firstForeign = none := by
  induction n with
  | symbol | hold => rfl
  | group content isExplicit duration ih =>
    exact firstForeignOf_eq_none_iff.2 fun c hc => ih c hc (h.child hc)
  | simul content duration ih =>
    exact firstForeignOf_eq_none_iff.2 fun c hc => ih c hc (h.child hc)
  | sequence content ih => exact firstForeignOf_eq_none_iff.2 fun c hc => ih c hc (h.child hc)
  | held content s ih => exact ih (every_held.1 h).2
  | foreign kind => exact absurd h.self (hp kind)

@[simp]
theorem firstForeign_scaleTempo (factor : Rat) (n : Node) :
    (n.scaleTempo factor).firstForeign = n.firstForeign := by
  have each {content : List Node}
      (ih : ∀ c ∈ content, (c.scaleTempo factor).firstForeign = c.firstForeign) :
      firstForeignOf (content.map (scaleTempo factor)) = firstForeignOf content := by
    induction content with
    | nil => rfl
    | cons c cs ihcs =>
      rw [List.map_cons, firstForeignOf, firstForeignOf, ih c (List.mem_cons_self ..),
        ihcs fun d hd => ih d (List.mem_cons_of_mem _ hd)]
  induction n with
  | symbol | hold | foreign => rfl
  | group content isExplicit duration ih =>
    simp only [scaleTempo, scaleTempoAll_eq_map, firstForeign, each ih]
  | simul content duration ih => simp only [scaleTempo, scaleTempoAll_eq_map, firstForeign, each ih]
  | sequence content ih => simp only [scaleTempo, scaleTempoAll_eq_map, firstForeign, each ih]
  | held content h ih => simp only [scaleTempo, firstForeign, ih]

/-- The tempo of a tree without foreign elements can be changed. -/
theorem adjustTempo_eq_ok (h : n.firstForeign = none) (factor : Rat) :
    n.adjustTempo factor = .ok (n.scaleTempo factor) := by
  rw [adjustTempo, afterWalk, h]

end Polyrhythm.Node
