import Polyrhythm.Proofs.Timing.Loose
import Polyrhythm.Proofs.Tree.Tempo

/-!
# The lists that gathering finds

Whether a hold has an element before it depends on the lists of the tree that is laid out: a
sequence has become a group by then, and the groups without braces among its segments have been
spliced into it. The skeleton of a tree has the same lists without any durations, tempos and names
(`Node.skeleton_laid`). So a tree that is built can be annotated exactly if its skeleton has no
loose hold (`Node.failsAt_skeleton`).
-/

namespace Polyrhythm

/-- Only the positions of loose holds matter for a step that fails at them. -/
theorem FailsAt.congr {α : Type} {loose loose' : List Hold} {x : Except Fault α}
    (h : loose.map Hold.position = loose'.map Hold.position) (hx : FailsAt loose x) :
    FailsAt loose' x := by
  cases loose with
  | nil =>
    cases loose' with
    | nil => exact hx
    | cons s rest => cases h
  | cons s rest =>
    cases loose' with
    | nil => cases h
    | cons s' rest' =>
      have hposition : s.position = s'.position := (List.cons.inj h).1
      have hx : x = .error (.nothingToHold s.position) := hx
      rw [hx, hposition]
      rfl

namespace Node

mutual
/-- The lists of a tree as gathering finds them, with the holds in them. -/
def skeleton : Node → Node
  | symbol _ => symbol ⟨"", none, 1, none, none⟩
  | hold h => hold ⟨h.position, 1, none, none⟩
  | group content isExplicit _ => group (skeletonEach content) isExplicit none
  | simul content _ => simul (skeletonEach content) none
  | sequence content => group (splice (skeletonEach content)) false none
  | held content _ => held (skeleton content) ⟨none, 1, none, none⟩
  | foreign kind => foreign kind

/-- `skeleton` over the elements of a list. -/
def skeletonEach : List Node → List Node
  | [] => []
  | n :: ns => skeleton n :: skeletonEach ns
end

theorem skeletonEach_eq_map (ns : List Node) : skeletonEach ns = ns.map skeleton := by
  induction ns with
  | nil => rfl
  | cons n ns ih => rw [skeletonEach, ih, List.map_cons]

variable {n : Node} {ns : List Node}

/-! ## What does not change it -/

@[simp]
theorem skeleton_lasting (n : Node) (d : Rat) : (n.lasting d).skeleton = n.skeleton := by
  cases n <;> rfl

@[simp]
theorem skeleton_scaleTempo (factor : Rat) (n : Node) :
    (n.scaleTempo factor).skeleton = n.skeleton := by
  have each {content : List Node}
      (ih : ∀ c ∈ content, (c.scaleTempo factor).skeleton = c.skeleton) :
      (content.map (scaleTempo factor)).map skeleton = content.map skeleton := by
    rw [List.map_map]
    exact List.map_congr_left ih
  induction n with
  | symbol | hold | foreign => rfl
  | group content isExplicit duration ih =>
    simp only [scaleTempo, scaleTempoAll_eq_map, skeleton, skeletonEach_eq_map, each ih]
  | simul content duration ih =>
    simp only [scaleTempo, scaleTempoAll_eq_map, skeleton, skeletonEach_eq_map, each ih]
  | sequence content ih =>
    simp only [scaleTempo, scaleTempoAll_eq_map, skeleton, skeletonEach_eq_map, each ih]
  | held content s ih => simp only [scaleTempo, skeleton, ih]

/-- The groups without braces of a timed list are those of its skeleton. -/
theorem map_skeleton_splice (h : ∀ n ∈ ns, n.Timed) :
    (splice ns).map skeleton = splice (ns.map skeleton) := by
  refine map_splice fun n hn => ?_
  have htimed := h n hn
  cases n with
  | group content isExplicit duration =>
    cases isExplicit <;> simp [splice, skeleton, skeletonEach_eq_map]
  | symbol | hold | simul => rfl
  | sequence | held | foreign => exact htimed.elim

/-- A tree keeps its skeleton when it is laid out. -/
theorem skeleton_laid (h : n.Written) (factor : Rat) : (n.laid factor).skeleton = n.skeleton := by
  have likewise {content : List Node} (common factor : Rat)
      (ih : ∀ c ∈ content, ∀ factor, (c.laid factor).skeleton = c.skeleton) :
      (content.map (laidAs common factor)).map skeleton = content.map skeleton := by
    rw [List.map_map]
    refine List.map_congr_left fun c hc => ?_
    rw [Function.comp_apply, laidAs, skeleton_lasting, ih c hc]
  induction n generalizing factor with
  | symbol | hold => rfl
  | group content isExplicit duration ih =>
    have heach : (content.map (laid factor)).map skeleton = content.map skeleton := by
      rw [List.map_map]
      exact List.map_congr_left fun c hc => ih c hc (h.child hc) factor
    simp only [laid, laidEach_eq_map, skeleton, skeletonEach_eq_map, heach]
  | simul content duration ih =>
    simp only [laid, laidTo_eq_map, skeleton, skeletonEach_eq_map,
      likewise _ _ fun c hc => ih c hc (h.child hc)]
  | sequence content ih =>
    have htimed : ∀ m ∈ content.map (laidAs (naturalFirst content) factor), m.Timed :=
      List.forall_mem_map.2 fun c hc => (settled_laidAs (h.child hc) _ _).self.timed
    simp only [laid, laidTo_eq_map, skeleton, skeletonEach_eq_map, map_skeleton_splice htimed,
      likewise _ _ fun c hc => ih c hc (h.child hc)]
  | held => exact absurd h not_written_held
  | foreign => exact absurd h not_written_foreign

/-! ## The same loose holds -/

/-- The loose holds of the elements of a list stand where those of their skeletons stand. -/
theorem positions_looseAmong_skeleton (h : ∀ n ∈ ns, n.Timed)
    (ih : ∀ n ∈ ns,
      n.skeleton.looseHolds.map Hold.position = n.looseHolds.map Hold.position) :
    (looseAmong (ns.map skeleton)).map Hold.position = (looseAmong ns).map Hold.position := by
  have hlead : (leadingHold? (ns.map skeleton)).toList.map Hold.position =
      (leadingHold? ns).toList.map Hold.position := by
    cases ns with
    | nil => rfl
    | cons n rest => cases n <;> rfl
  have heach : ((ns.map skeleton).flatMap looseHolds).map Hold.position =
      (ns.flatMap looseHolds).map Hold.position := by
    rw [List.flatMap_map, List.map_flatMap, List.map_flatMap]
    exact List.flatMap_congr ih
  rw [looseAmong, looseAmong, List.map_append, List.map_append, hlead, heach]

/-- The loose holds of a timed tree stand where those of its skeleton stand. -/
theorem positions_looseHolds_skeleton (h : n.Every Timed) :
    n.skeleton.looseHolds.map Hold.position = n.looseHolds.map Hold.position := by
  induction n with
  | symbol | hold => rfl
  | group content isExplicit duration ih =>
    rw [skeleton, skeletonEach_eq_map, looseHolds_eq, looseHolds_eq]
    exact positions_looseAmong_skeleton (fun c hc => (h.child hc).self)
      fun c hc => ih c hc (h.child hc)
  | simul content duration ih =>
    rw [skeleton, skeletonEach_eq_map, looseHolds_eq, looseHolds_eq]
    exact positions_looseAmong_skeleton (fun c hc => (h.child hc).self)
      fun c hc => ih c hc (h.child hc)
  | sequence | held | foreign => exact h.self.elim

/-- Timing a tree of notation fails at the first loose hold of its skeleton. -/
theorem failsAt_skeleton (h : n.Written) : FailsAt n.skeleton.looseInTree n.timed := by
  have htimed : (n.laid 1).Every Timed := (settled_laid h 1).imp fun _ hm => hm.timed
  refine (failsAt_timed h).congr ?_
  have hpositions := positions_looseAmong_skeleton (List.forall_mem_singleton.2 htimed.self)
    (List.forall_mem_singleton.2 (positions_looseHolds_skeleton htimed))
  rw [List.map_singleton, skeleton_laid h] at hpositions
  exact hpositions.symm

end Node

end Polyrhythm
