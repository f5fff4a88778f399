import Polyrhythm.Proofs.Grammar.Reading
import Polyrhythm.Proofs.Timing.Skeleton

/-!
# Stuck elements

An element is stuck (`Node.Stuck`) if a hold inside it stays without an element before it wherever
the element is put. Groups, simuls and sequences of what is stuck are stuck, and so a level with a
stuck element is stuck (`stuck_assemble`): one such block is enough for a text to be refused.
-/

namespace Polyrhythm

open Traversal Node

/-! ## Elements with a loose hold -/

namespace Node

variable {n m c : Node} {ns content : List Node} {s : Hold} {duration : Option Rat}
  {isExplicit : Bool}

/-- Some hold inside an element has no element before it whatever list the element is put into, even
if the element is spliced into that list. -/
def Stuck (n : Node) : Prop := ∃ m ∈ splice [n.skeleton], m.looseHolds ≠ []

theorem looseAmong_ne_nil (hm : m ∈ ns) (h : m.looseHolds ≠ []) : looseAmong ns ≠ [] := by
  intro hnil
  have hflat : ns.flatMap looseHolds = [] := (List.append_eq_nil_iff.1 hnil).2
  exact h (List.flatMap_eq_nil_iff.1 hflat m hm)

theorem looseAmong_ne_nil_of_lead (h : leadingHold? ns = some s) : looseAmong ns ≠ [] := by
  rw [looseAmong, h]
  exact List.cons_ne_nil _ _

/-- A hold that leads the list of an element is loose in it. -/
theorem looseHolds_ne_nil_of_lead (h : leadingHold? n.children = some s) : n.looseHolds ≠ [] := by
  rw [looseHolds_eq]
  exact looseAmong_ne_nil_of_lead h

/-- A hold that is loose in a child is loose in the element. -/
theorem looseHolds_ne_nil_of_child (hc : c ∈ n.children) (h : c.looseHolds ≠ []) :
    n.looseHolds ≠ [] := by
  rw [looseHolds_eq]
  exact looseAmong_ne_nil hc h

/-- A stuck element has a loose hold. -/
theorem Stuck.loose (h : n.Stuck) : n.skeleton.looseHolds ≠ [] := by
  obtain ⟨m, hm, hloose⟩ := h
  rcases mem_of_mem_splice hm with hm | ⟨content, duration, hgroup, hm⟩
  · rwa [List.mem_singleton.1 hm] at hloose
  · rw [← List.mem_singleton.1 hgroup]
    exact looseHolds_ne_nil_of_child hm hloose

/-- Splicing a list splices every element of it. -/
theorem mem_splice_of_mem (hc : c ∈ ns) (hm : m ∈ splice [c]) : m ∈ splice ns := by
  obtain ⟨d, hd, hm⟩ := List.mem_flatMap.1 hm
  rw [List.mem_singleton.1 hd] at hm
  exact List.mem_flatMap.2 ⟨c, hc, hm⟩

/-- An element that is not spliced is stuck if its list has a loose hold. -/
theorem stuck_of_loose (hn : splice [n.skeleton] = [n.skeleton]) (h : n.skeleton.looseHolds ≠ []) :
    n.Stuck := ⟨n.skeleton, by rw [hn]; exact List.mem_singleton_self _, h⟩

theorem mem_skeleton_children_group (hc : c ∈ content) :
    c.skeleton ∈ (group content isExplicit duration).skeleton.children := by
  rw [skeleton, skeletonEach_eq_map]
  exact List.mem_map_of_mem hc

theorem mem_skeleton_children_simul (hc : c ∈ content) :
    c.skeleton ∈ (simul content duration).skeleton.children := by
  rw [skeleton, skeletonEach_eq_map]
  exact List.mem_map_of_mem hc

/-- A group of an element with a loose hold is stuck. -/
theorem stuck_group (hc : c ∈ content) (h : c.skeleton.looseHolds ≠ []) :
    (group content isExplicit duration).Stuck := by
  have hchild : c.skeleton ∈ (group content isExplicit duration).skeleton.children :=
    mem_skeleton_children_group hc
  cases isExplicit with
  | true => exact stuck_of_loose rfl (looseHolds_ne_nil_of_child hchild h)
  | false =>
    refine ⟨c.skeleton, ?_, h⟩
    have hsplice : splice [(group content false duration).skeleton] = skeletonEach content := by
      simp [splice, skeleton]
    rw [hsplice, skeletonEach_eq_map]
    exact List.mem_map_of_mem hc

/-- A simul of an element with a loose hold is stuck. -/
theorem stuck_simul (hc : c ∈ content) (h : c.skeleton.looseHolds ≠ []) :
    (simul content duration).Stuck :=
  stuck_of_loose rfl (looseHolds_ne_nil_of_child (mem_skeleton_children_simul hc) h)

/-- A sequence of a stuck segment is stuck. -/
theorem stuck_sequence (hc : c ∈ content) (h : c.Stuck) : (sequence content).Stuck := by
  obtain ⟨m, hm, hloose⟩ := h
  refine ⟨m, ?_, hloose⟩
  have hsplice : splice [(sequence content).skeleton] = splice (content.map skeleton) := by
    simp [splice, skeleton, skeletonEach_eq_map]
  rw [hsplice]
  exact mem_splice_of_mem (List.mem_map_of_mem hc) hm

/-- An element at another tempo is as stuck as it was. -/
theorem Stuck.scaleTempo (h : n.Stuck) (factor : Rat) : (n.scaleTempo factor).Stuck := by
  rw [Stuck, skeleton_scaleTempo]
  exact h

end Node

/-! ## Levels with a stuck element -/

section
variable {n : Node} {nodes : List Node} {pieces : List Piece} {isExplicit : Bool}

theorem stuck_wrapLevel (hn : n ∈ nodes) (h : n.Stuck) : (wrapLevel isExplicit nodes).Stuck := by
  rw [wrapLevel.eq_def]
  split
  · rwa [List.mem_singleton.1 hn] at h
  · exact stuck_group hn h.loose

theorem stuck_assemblePart (hn : .element n ∈ pieces) (h : n.Stuck) :
    (assemblePart isExplicit pieces).Stuck := by
  have helement {pieces : List Piece} (hn : .element n ∈ pieces) :
      n ∈ pieces.filterMap Piece.element? := List.mem_filterMap.2 ⟨_, hn, rfl⟩
  rw [assemblePart]
  split
  · obtain ⟨segment, hsegment, hn⟩ := exists_mem_partsBetween (p := Piece.isPeriod) hn rfl
    exact stuck_sequence (List.mem_map_of_mem hsegment) (stuck_wrapLevel (helement hn) h)
  · exact stuck_wrapLevel (helement hn) h

theorem stuck_arrange (hn : .element n ∈ pieces) (h : n.Stuck) :
    (arrange isExplicit pieces).Stuck := by
  rw [arrange]
  split
  · obtain ⟨part, hpart, hn⟩ := exists_mem_partsBetween (p := Piece.isComma) hn rfl
    exact stuck_simul (List.mem_map_of_mem hpart) (stuck_assemblePart hn h).loose
  · exact stuck_assemblePart hn h

/-- Every element of a level is there at some tempo once the markers are taken out. -/
theorem exists_mem_pace (hn : .element n ∈ pieces) (tempo : Rat) :
    ∃ factor, .element (n.scaleTempo factor) ∈ pace tempo pieces := by
  induction pieces generalizing tempo with
  | nil => cases hn
  | cons piece pieces ih =>
    rcases List.mem_cons.1 hn with rfl | hlater
    · exact ⟨tempo, List.mem_cons_self⟩
    · cases piece with
      | marker rate => exact ih hlater (tempo * rate)
      | element m =>
        obtain ⟨factor, hmem⟩ := ih hlater tempo
        exact ⟨factor, List.mem_cons_of_mem _ hmem⟩
      | comma | period =>
        obtain ⟨factor, hmem⟩ := ih hlater tempo
        exact ⟨factor, List.mem_cons_of_mem _ hmem⟩

/-- A level with a stuck element is stuck. -/
theorem stuck_assemble (hn : .element n ∈ pieces) (h : n.Stuck) :
    (assemble isExplicit pieces).Stuck := by
  obtain ⟨factor, hmem⟩ := exists_mem_pace hn 1
  rw [assemble_eq_arrange]
  exact stuck_arrange hmem (h.scaleTempo factor)

end

end Polyrhythm
