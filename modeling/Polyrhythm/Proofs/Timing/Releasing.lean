import Polyrhythm.Proofs.Timing.Loose
import Polyrhythm.Proofs.Timing.WellFormed
import Polyrhythm.Timing.Release

/-!
# Gathering loses nothing

Gathering is looked at here for every tree whose durations are known, also for one that no text is
built into. It is refused exactly if one of the lists of the tree (`Node.lists`) begins with a hold,
and at the first such hold. Otherwise every held element can be written out again, and this gives
back the tree that was gathered, only that the holds have forgotten where they stood and at which
tempo (`Node.bare`). Both ways the lists last as long as they did (`Node.release_of_gather`).
-/

namespace Polyrhythm.Node

open Traversal

/-! ## Lists of a tree -/

/-- The lists that the groups and simuls of a tree hold, in the order of the text. -/
def contents (n : Node) : List (List Node) := (n.walk.filter isComposed).map children

/-- The lists of a tree: the root by itself, and those that its groups and simuls hold. -/
def lists (root : Node) : List (List Node) := [root] :: root.contents

mutual
/-- A tree with nothing known of its holds but how long they last. Slots they have none until they
are gathered. -/
def bare : Node → Node
  | symbol s => symbol s
  | hold h => hold ⟨none, 1, none, h.duration⟩
  | group content isExplicit duration => group (bareEach content) isExplicit duration
  | simul content duration => simul (bareEach content) duration
  | sequence content => sequence (bareEach content)
  | held content h => held (bare content) h
  | foreign kind => foreign kind

/-- `bare` over the elements of a list. -/
def bareEach : List Node → List Node
  | [] => []
  | n :: ns => bare n :: bareEach ns
end

theorem bareEach_eq_map (ns : List Node) : bareEach ns = ns.map bare := by
  induction ns with
  | nil => rfl
  | cons n ns ih => rw [bareEach, ih, List.map_cons]

variable {n m tree : Node} {ns out content : List Node}

@[simp]
theorem contents_group (content : List Node) (isExplicit : Bool) (duration : Option Rat) :
    (group content isExplicit duration).contents = content :: content.flatMap contents := by
  rw [contents, walk_eq_cons, List.filter_cons_of_pos rfl, List.map_cons, List.filter_flatMap,
    List.map_flatMap]
  rfl

@[simp]
theorem contents_simul (content : List Node) (duration : Option Rat) :
    (simul content duration).contents = content :: content.flatMap contents := by
  rw [contents, walk_eq_cons, List.filter_cons_of_pos rfl, List.map_cons, List.filter_flatMap,
    List.map_flatMap]
  rfl

/-- An element holds the same lists when it is held. -/
@[simp]
theorem contents_heldOver (n : Node) (slots : List Rat) :
    (n.heldOver slots).contents = n.contents := by
  rw [heldOver]
  split
  · rfl
  · rw [contents, walk_eq_cons, List.filter_cons_of_neg (by simp [isComposed])]
    simp [children, contents]

/-! ## Lists that begin with a hold -/

theorem isSome_leadingHold? (ns : List Node) : (leadingHold? ns).isSome = isLed ns := by
  cases ns with
  | nil => rfl
  | cons n ns => cases n <;> rfl

/-- The holds that the lists of a timed tree begin with are its loose holds. -/
theorem filterMap_lists (h : n.Every Timed) :
    n.lists.filterMap leadingHold? = n.looseInTree := by
  have hcontents : n.contents.filterMap leadingHold? = n.looseHolds := by
    rw [contents, looseHolds, List.filterMap_map, List.filterMap_filter]
    refine List.filterMap_congr fun m hm => ?_
    have htimed := h m hm
    cases m with
    | symbol | hold | group | simul => rfl
    | sequence | held | foreign => exact htimed.elim
  rw [lists, looseInTree, looseAmong, List.flatMap_singleton, List.filterMap_cons, hcontents]
  cases leadingHold? [n] <;> rfl

/-- A tree has a list that begins with a hold if the root is one, or if an element begins with
one. -/
theorem exists_isLed_iff (n : Node) :
    n.looseInTree ≠ [] ↔ n.isHold = true ∨ ∃ m ∈ n.walk, isLed m.children = true := by
  have hroot : (leadingHold? [n]).isSome = n.isHold := by
    rw [isSome_leadingHold?, isLed]
    rfl
  have hinside : n.looseHolds ≠ [] ↔ ∃ m ∈ n.walk, isLed m.children = true := by
    simp only [looseHolds, ne_eq, List.filterMap_eq_nil_iff, not_forall, exists_prop,
      ← isSome_leadingHold?, Option.isSome_iff_ne_none]
  rw [looseInTree, looseAmong, List.flatMap_singleton, ne_eq, List.append_eq_nil_iff,
    Classical.not_and_iff_not_or_not, ← ne_eq n.looseHolds, hinside, ← hroot]
  cases leadingHold? [n] <;> simp

/-! ## From runs to trees -/

/-- What relates every element of a list of runs to what it becomes may be weakened. -/
theorem Runs.imp {inside inside' : Node → Node → Prop} (h : Runs inside ns out)
    (himp : ∀ n ∈ ns, ∀ m, n.isHold = false → inside n m → inside' n m) : Runs inside' ns out := by
  induction h with
  | nil => exact .nil
  | @cons n m holds slots rest out hn hnm hslots _ ih =>
    refine .cons hn (himp n List.mem_cons_self m hn hnm) hslots (ih fun c hc => himp c ?_)
    exact List.mem_cons_of_mem _ (List.mem_append_right _ hc)

/-- A timed element is related to what it becomes when it is gathered, if symbols are related to
themselves and composites are related whenever their lists are as runs. -/
theorem related_of_gatherInside (related : Node → Node → Prop)
    (symbol : ∀ s, related (symbol s) (symbol s))
    (group : ∀ (content out : List Node) (isExplicit : Bool) (duration : Option Rat),
      (∀ c ∈ content, c.Timed) →
      Runs (fun n m => related n m ∧ m.duration? = n.duration?) content out →
      related (group content isExplicit duration) (group out isExplicit duration))
    (simul : ∀ (content out : List Node) (duration : Option Rat), (∀ c ∈ content, c.Timed) →
      Runs (fun n m => related n m ∧ m.duration? = n.duration?) content out →
      related (simul content duration) (simul out duration))
    (h : n.Every Timed) (hhold : n.isHold = false) (hm : n.gatherInside = .ok m) :
    related n m := by
  have runs {content out : List Node} (h : ∀ c ∈ content, c.Every Timed)
      (ih : ∀ c ∈ content, ∀ m, c.isHold = false → c.gatherInside = .ok m → related c m)
      (hout : gatherFrom none content = .ok out) :
      Runs (fun n m => related n m ∧ m.duration? = n.duration?) content out := by
    refine (runs_of_gatherFrom (fun c hc => (h c hc).self.duration?) hout).imp ?_
    intro c hc m hhold hm
    exact ⟨ih c hc m hhold hm, duration?_gatherInside hm⟩
  induction n generalizing m with
  | symbol s =>
    cases hm
    exact symbol s
  | hold => cases hhold
  | group content isExplicit duration ih =>
    obtain ⟨out, hout, hm⟩ := bind_eq_ok.1 hm
    cases hm
    refine group content out isExplicit duration (fun c hc => (h.child hc).self) ?_
    exact runs (fun c hc => h.child hc) (fun c hc _ hhold hm => ih c hc (h.child hc) hhold hm) hout
  | simul content duration ih =>
    obtain ⟨out, hout, hm⟩ := bind_eq_ok.1 hm
    cases hm
    refine simul content out duration (fun c hc => (h.child hc).self) ?_
    exact runs (fun c hc => h.child hc) (fun c hc _ hhold hm => ih c hc (h.child hc) hhold hm) hout
  | sequence | held | foreign => exact h.self.elim

/-! ## Writing holds out -/

/-- An element that is held is written out with a hold for each slot after its own. -/
theorem release_heldOver (n : Node) (slots : List Rat) :
    (n.heldOver slots).release = n.release ++ slots.map bareHold := by
  rw [heldOver]
  split
  · next hslots => rw [List.isEmpty_iff.1 hslots, List.map_nil, List.append_nil]
  · rfl

/-- Runs whose elements can be written out are written out to the list they come from. -/
theorem Runs.releaseAll {inside : Node → Node → Prop} (h : Runs inside ns out)
    (hinside : ∀ n m, inside n m → m.release = [n.bare]) :
    Node.releaseAll out = ns.map bare := by
  induction h with
  | nil => rfl
  | @cons n m holds slots rest out _ hnm hslots _ ih =>
    have hholds : (holds.map hold).map bare = slots.map bareHold := calc
      (holds.map hold).map bare =
          (holds.map Hold.duration).map fun d => hold ⟨none, 1, none, d⟩ := by
        simp only [List.map_map]
        rfl
      _ = slots.map bareHold := by
        rw [hslots, List.map_map]
        rfl
    rw [Node.releaseAll, release_heldOver, hinside n m hnm, ih, List.map_cons, List.map_append,
      hholds, List.append_assoc]
    rfl

/-- Writing out the holds of what a timed element is gathered to gives back the element. -/
theorem release_gatherInside (h : n.Every Timed) (hhold : n.isHold = false)
    (hm : n.gatherInside = .ok m) : m.release = [n.bare] := by
  refine related_of_gatherInside (fun n m => m.release = [n.bare]) (fun _ => rfl) ?_ ?_ h hhold hm
  · intro content out isExplicit duration _ hruns
    rw [release, hruns.releaseAll fun _ _ h => h.1, bare, bareEach_eq_map]
  · intro content out duration _ hruns
    rw [release, hruns.releaseAll fun _ _ h => h.1, bare, bareEach_eq_map]

/-! ## What is left of holds -/

/-- An element that is held has no holds inside if it had none before. -/
theorem holdless_heldOver (h : n.Every fun m => m.isHold = false) (slots : List Rat) :
    (n.heldOver slots).Every fun m => m.isHold = false := by
  rw [heldOver]
  split
  · exact h
  · exact every_held.2 ⟨rfl, h⟩

/-- No holds are left in what a timed element is gathered to. -/
theorem holdless_gatherInside (h : n.Every Timed) (hhold : n.isHold = false)
    (hm : n.gatherInside = .ok m) : m.Every fun m => m.isHold = false := by
  have each {content out : List Node}
      (hruns : Runs (fun n m => (m.Every fun m => m.isHold = false) ∧
        m.duration? = n.duration?) content out) :
      ∀ o ∈ out, o.Every fun m => m.isHold = false := by
    intro o ho
    obtain ⟨c, -, m, slots, -, ⟨hm, -⟩, rfl, -⟩ := hruns.exists_of_mem ho
    exact holdless_heldOver hm slots
  refine related_of_gatherInside (fun _ m => m.Every fun m => m.isHold = false)
    (fun _ => every_symbol.2 rfl) ?_ ?_ h hhold hm
  · intro content out isExplicit duration _ hruns
    exact every_group.2 ⟨rfl, each hruns⟩
  · intro content out duration _ hruns
    exact every_simul.2 ⟨rfl, each hruns⟩

/-! ## How long the lists last -/

/-- An element whose duration is known, held or not, has a duration to be added up. -/
theorem knownDuration_heldOver (h : n.duration? = some n.extent) (slots : List Rat) :
    (n.heldOver slots).knownDuration = .ok (n.heldOver slots).extent := by
  rw [heldOver]
  split
  · exact knownDuration_of_duration? h
  · rfl

/-- A list lasts as long as what its runs become, and so do the lists inside, if they do for every
element. -/
theorem Runs.totals
    (h : Runs (fun n m => m.contents.map totalDuration = n.contents.map totalDuration ∧
      m.duration? = n.duration?) ns out) (hns : ∀ n ∈ ns, n.Timed) :
    totalDuration out = totalDuration ns ∧
      (out.flatMap contents).map totalDuration = (ns.flatMap contents).map totalDuration := by
  refine ⟨?_, ?_⟩
  · have hout : ∀ o ∈ out, o.knownDuration = .ok o.extent := by
      intro o ho
      obtain ⟨n, hn, m, slots, -, ⟨-, hm⟩, rfl, -⟩ := h.exists_of_mem ho
      have hd : m.duration? = some n.extent := hm.trans (hns n hn).duration?
      exact knownDuration_heldOver (hd.trans (by rw [extent_of_duration? hd])) slots
    rw [totalDuration_eq_ok hout, totalDuration_eq_ok fun n hn =>
      knownDuration_of_duration? (hns n hn).duration?]
    exact congrArg Except.ok (h.sum_extent fun n m hnm => by rw [extent, hnm.2]; rfl)
  · clear hns
    induction h with
    | nil => rfl
    | @cons n m holds slots rest out _ hnm _ _ ih =>
      have hholds : (holds.map hold).flatMap contents = [] :=
        List.flatMap_eq_nil_iff.2 (List.forall_mem_map.2 fun _ _ => rfl)
      rw [List.flatMap_cons, contents_heldOver, List.map_append, hnm.1, ih, List.flatMap_cons,
        List.flatMap_append, hholds, List.nil_append, List.map_append]

/-- The lists in what a timed element is gathered to last as long as those in the element. -/
theorem totals_gatherInside (h : n.Every Timed) (hhold : n.isHold = false)
    (hm : n.gatherInside = .ok m) :
    m.contents.map totalDuration = n.contents.map totalDuration := by
  refine related_of_gatherInside
    (fun n m => m.contents.map totalDuration = n.contents.map totalDuration)
    (fun _ => rfl) ?_ ?_ h hhold hm
  · intro content out isExplicit duration htimed hruns
    obtain ⟨htotal, hinside⟩ := hruns.totals htimed
    rw [contents_group, contents_group, List.map_cons, List.map_cons, htotal, hinside]
  · intro content out duration htimed hruns
    obtain ⟨htotal, hinside⟩ := hruns.totals htimed
    rw [contents_simul, contents_simul, List.map_cons, List.map_cons, htotal, hinside]

/-! ## Whole trees -/

/-- Gathering a timed tree fails exactly if the root is a hold or a group or simul begins with one,
and at the first hold that a list of the tree begins with. Otherwise no holds are left, writing out
those that were gathered gives back the tree, and every list lasts as long as before. -/
theorem release_of_gather (h : n.Every Timed) :
    ((∃ fault, n.gather = .error fault) ↔
      n.isHold = true ∨ ∃ m ∈ n.walk, isLed m.children = true) ∧
    (∀ fault, n.gather = .error fault → ∃ s later,
      n.lists.filterMap leadingHold? = s :: later ∧ fault = .nothingToHold s.position) ∧
    ∀ tree, n.gather = .ok tree →
      tree.release = [n.bare] ∧ (tree.Every fun m => m.isHold = false) ∧
        tree.lists.map totalDuration = n.lists.map totalDuration := by
  have hfails := failsAt_gather h
  refine ⟨?_, ?_, ?_⟩
  · rw [← exists_isLed_iff, ← hfails.fails_iff]
    constructor
    · rintro ⟨fault, hfault⟩
      obtain ⟨s, -, rfl⟩ := hfails.error hfault
      exact ⟨_, hfault⟩
    · rintro ⟨p, hp⟩
      exact ⟨_, hp⟩
  · intro fault hfault
    rw [filterMap_lists h]
    cases hloose : n.looseInTree with
    | nil =>
      rw [hloose] at hfails
      obtain ⟨tree, htree⟩ := hfails
      cases htree.symm.trans hfault
    | cons s later =>
      rw [hloose] at hfails
      exact ⟨s, later, rfl, Except.error.inj (hfault.symm.trans hfails)⟩
  · intro tree htree
    obtain ⟨hhold, hinside⟩ := gather_eq_ok htree
    refine ⟨release_gatherInside h hhold hinside, holdless_gatherInside h hhold hinside, ?_⟩
    have hd : tree.duration? = some n.extent :=
      (duration?_gatherInside hinside).trans h.self.duration?
    have hroot : totalDuration [tree] = totalDuration [n] := by
      rw [totalDuration, totalDuration, List.foldlM_cons, List.foldlM_cons,
        knownDuration_of_duration? hd, knownDuration_of_duration? h.self.duration?]
    rw [lists, lists, List.map_cons, List.map_cons, hroot, totals_gatherInside h hhold hinside]

/-- A note with a hold and a block with two of them are gathered; a simul of a hold is not. -/
theorem release_of_gather_nested :
    (∃ n tree : Node, n.Every Timed ∧ n.gather = .ok tree ∧
      (n.lists.map List.length, tree.lists.map List.length) = ([1, 3, 3], [1, 2, 1]) ∧
      tree.release = [n.bare] ∧ (tree.Every fun m => m.isHold = false) ∧
      tree.lists.map totalDuration = n.lists.map totalDuration) ∧
    ∃ (n : Node) (fault : Fault), n.Every Timed ∧ n.gather = .error fault ∧ n.isHold = false ∧
      ∃ s later, n.lists.filterMap leadingHold? = s :: later ∧
        fault = .nothingToHold s.position := by
  let note : Node := symbol ⟨"a", none, 1, none, some 1⟩
  let rest : Node := hold ⟨some .start, 2, none, some (1 / 2)⟩
  have hnote : note.Every Timed := every_symbol.2 ⟨1, rfl⟩
  have hrest : rest.Every Timed := every_hold.2 ⟨1 / 2, rfl⟩
  constructor
  · let block : Node := group [note, rest, rest] true (some 2)
    have hblock : block.Every Timed := every_group.2 ⟨⟨2, rfl⟩, by simp [hnote, hrest]⟩
    have h : (group [note, rest, block] false (some 4)).Every Timed :=
      every_group.2 ⟨⟨4, rfl⟩, by simp [hnote, hrest, hblock]⟩
    obtain ⟨tree, htree, hlengths⟩ : ∃ tree,
        (group [note, rest, block] false (some 4)).gather = .ok tree ∧
          tree.lists.map List.length = [1, 2, 1] := ⟨_, rfl, rfl⟩
    refine ⟨_, tree, h, htree, ?_, (release_of_gather h).2.2 tree htree⟩
    rw [hlengths]
    rfl
  · have h : (simul [note, simul [rest] (some 1)] (some 1)).Every Timed :=
      every_simul.2 ⟨⟨1, rfl⟩, by simp [Timed, hnote, hrest]⟩
    exact ⟨_, _, h, rfl, rfl, (release_of_gather h).2.1 _ rfl⟩

end Polyrhythm.Node
