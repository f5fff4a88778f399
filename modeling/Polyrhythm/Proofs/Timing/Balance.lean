import Mathlib.Algebra.BigOperators.Ring.List
import Polyrhythm.Proofs.Timing.Annotation

/-!
# Balanced trees

A composite is balanced if it lasts what its elements say: a group as long as all of them, a simul
as long as each (`Node.Balanced`). Laying out balances every composite as long as nothing that lasts
no time has to be stretched (`Node.balanced_laid`), and gathering keeps the balance as long as no
hold stands directly in a simul (`Node.gatherable_balanced`). Trees without empty composites leave
nothing of that kind to be stretched, and every duration in them is positive (`Node.positive_laid`,
`Node.gatherable_positive`).
-/

namespace Polyrhythm

namespace Node

open Traversal

/-- A group lasts as long as its elements together, a simul as long as every one of them, and no
time if it has none. -/
def Balanced : Node → Prop
  | group content _ duration => duration = some (content.map extent).sum
  | simul content duration =>
    (content = [] → duration = some 0) ∧ ∀ c ∈ content, c.duration? = duration
  | _ => True

/-- An element lasts some time, and so does every slot that it has. -/
def Positive : Node → Prop
  | held _ h =>
    (∃ d, h.duration = some d ∧ 0 < d) ∧ ∀ slots, h.slots = some slots → ∀ slot ∈ slots, 0 < slot
  | n => ∃ d, n.duration? = some d ∧ 0 < d

/-- No element of a simul or a sequence lasts no time by itself and has to last some, because the
first one does. -/
def Stretchable : Node → Prop
  | simul content _ | sequence content =>
    ∀ c ∈ content, c.natural = 0 → naturalFirst content = 0
  | _ => True

variable {n m : Node}

theorem Positive.duration? (h : n.Positive) : ∃ d, n.duration? = some d ∧ 0 < d := by
  cases n with
  | held => exact h.1
  | _ => exact h

/-- A tree without empty composites has nothing to stretch that lasts no time. -/
theorem stretchable_of_hasContent (h : n.Written) (hcontent : n.Every HasContent) :
    n.Every Stretchable := by
  intro m hm
  have hpos : ∀ c ∈ m.children, 0 < c.natural := by
    intro c hc
    exact natural_pos (Every.child (h.every m hm) hc) ((hcontent.every m hm).child hc)
  cases m with
  | simul | sequence =>
    intro c hc hzero
    exact absurd hzero (hpos c hc).ne'
  | _ => trivial

/-! ## Trees that are laid out -/

/-- An element that can be stretched to a common duration is laid out by a factor of its own. -/
theorem laidAs_eq_laid {common : Rat} (h : n.Written) (hn : n.natural = 0 → common = 0)
    (factor : Rat) : n.laidAs common factor = n.laid (factor * (common / n.natural)) := by
  refine lasting_eq_self ?_
  rw [duration?_laid h]
  by_cases hzero : n.natural = 0
  · rw [hzero, hn hzero, mul_zero, mul_zero]
  · rw [mul_assoc, div_mul_cancel₀ _ hzero]

/-- Splicing keeps what all elements last together, if the groups are balanced. -/
theorem sum_extent_splice {ns : List Node} (h : ∀ n ∈ ns, n.Balanced) :
    ((splice ns).map extent).sum = (ns.map extent).sum := by
  induction ns with
  | nil => rfl
  | cons n ns ih =>
    obtain ⟨hn, hns⟩ := List.forall_mem_cons.1 h
    have hone : ((splice [n]).map extent).sum = n.extent := by
      cases n with
      | group content isExplicit duration =>
        cases isExplicit with
        | false =>
          have hd : (group content false duration).duration? = some (content.map extent).sum := hn
          simp [splice, extent_of_duration? hd]
        | true => simp [splice]
      | _ => simp [splice]
    rw [splice_cons, List.map_append, List.sum_append, hone, ih hns, List.map_cons, List.sum_cons]

/-- A tree that is laid out is balanced if nothing in it is stretched that lasts no time. -/
theorem balanced_laid (h : n.Written) (hn : n.Every Stretchable) (factor : Rat) :
    (n.laid factor).Every Balanced := by
  have likewise (content : List Node) (factor : Rat) (hcontent : ∀ c ∈ content, c.Written)
      (hstretch : ∀ c ∈ content, c.natural = 0 → naturalFirst content = 0)
      (ih : ∀ c ∈ content, ∀ factor, (c.laid factor).Every Balanced) :
      ∀ m ∈ content.map (laidAs (naturalFirst content) factor),
        m.duration? = some (factor * naturalFirst content) ∧ m.Every Balanced := by
    refine List.forall_mem_map.2 ?_
    intro c hc
    have hlaid := laidAs_eq_laid (hcontent c hc) (hstretch c hc) factor
    exact ⟨duration?_laidAs (hcontent c hc) _ _, hlaid ▸ ih c hc _⟩
  induction n generalizing factor with
  | symbol | hold => exact every_iff.2 ⟨trivial, nofun⟩
  | group content isExplicit duration ih =>
    rw [laid, laidEach_eq_map]
    refine every_group.2 ⟨congrArg some ?_, List.forall_mem_map.2 fun c hc =>
      ih c hc (h.child hc) (hn.child hc) factor⟩
    have hextents : (content.map (laid factor)).map extent = content.map (factor * natural ·) := by
      rw [List.map_map]
      exact List.map_congr_left fun c hc => extent_laid (h.child hc) factor
    rw [hextents, List.sum_map_mul_left, naturalSum_eq_sum]
  | simul content duration ih =>
    have hparts := likewise content factor (fun c hc => h.child hc) hn.self
      fun c hc => ih c hc (h.child hc) (hn.child hc)
    rw [laid, laidTo_eq_map]
    refine every_simul.2 ⟨⟨?_, fun m hm => (hparts m hm).1⟩, fun m hm => (hparts m hm).2⟩
    intro hnil
    rw [List.map_eq_nil_iff.1 hnil, naturalFirst, mul_zero]
  | sequence content ih =>
    have hparts := likewise content factor (fun c hc => h.child hc) hn.self
      fun c hc => ih c hc (h.child hc) (hn.child hc)
    rw [laid, laidTo_eq_map]
    refine every_group.2 ⟨congrArg some ?_, every_of_mem_splice fun m hm => (hparts m hm).2⟩
    have hextents : (content.map (laidAs (naturalFirst content) factor)).map extent =
        List.replicate content.length (factor * naturalFirst content) := by
      refine List.eq_replicate_iff.2 ⟨by simp, List.forall_mem_map.2 ?_⟩
      intro m hm
      exact extent_of_duration? (hparts m hm).1
    rw [sum_extent_splice fun m hm => (hparts m hm).2.self, hextents, List.sum_replicate,
      nsmul_eq_mul, mul_left_comm]
  | held => exact absurd h not_written_held
  | foreign => exact absurd h not_written_foreign

/-- An element without empty composites that is laid out by a positive factor lasts some time. -/
theorem Positive.laid (h : n.Written) (hcontent : n.Every HasContent) {factor : Rat}
    (hfactor : 0 < factor) : (n.laid factor).Positive := by
  have hpos : ∃ d, (n.laid factor).duration? = some d ∧ 0 < d :=
    ⟨_, duration?_laid h factor, mul_pos hfactor (natural_pos h hcontent)⟩
  cases n with
  | held => exact absurd h not_written_held
  | _ => exact hpos

/-- A tree without empty composites that is laid out by a positive factor lasts some time
everywhere. -/
theorem positive_laid (h : n.Written) (hcontent : n.Every HasContent) {factor : Rat}
    (hfactor : 0 < factor) : (n.laid factor).Every Positive := by
  have likewise {content : List Node} {factor : Rat} (hfactor : 0 < factor)
      (hwritten : ∀ c ∈ content, c.Written) (hcontent : ∀ c ∈ content, c.Every HasContent)
      (ih : ∀ c ∈ content, ∀ {factor : Rat}, 0 < factor → (c.laid factor).Every Positive) :
      ∀ m ∈ content.map (laidAs (naturalFirst content) factor), m.Every Positive := by
    refine List.forall_mem_map.2 ?_
    intro c hc
    have hnatural := natural_pos (hwritten c hc) (hcontent c hc)
    have hfirst : 0 < naturalFirst content := by
      cases content with
      | nil => cases hc
      | cons first rest =>
        exact natural_pos (hwritten _ (List.mem_cons_self ..)) (hcontent _ (List.mem_cons_self ..))
    rw [laidAs_eq_laid (hwritten c hc) fun hzero => absurd hzero hnatural.ne']
    exact ih c hc (mul_pos hfactor (div_pos hfirst hnatural))
  induction n generalizing factor with
  | symbol | hold => exact every_iff.2 ⟨Positive.laid h hcontent hfactor, nofun⟩
  | group content isExplicit duration ih =>
    refine every_iff.2 ⟨Positive.laid h hcontent hfactor, ?_⟩
    rw [laid, laidEach_eq_map]
    exact List.forall_mem_map.2 fun c hc => ih c hc (h.child hc) (hcontent.child hc) hfactor
  | simul content duration ih =>
    refine every_iff.2 ⟨Positive.laid h hcontent hfactor, ?_⟩
    rw [laid, laidTo_eq_map]
    exact likewise hfactor (fun c hc => h.child hc) (fun c hc => hcontent.child hc)
      fun c hc _ => ih c hc (h.child hc) (hcontent.child hc)
  | sequence content ih =>
    have hparts := likewise hfactor (fun c hc => h.child hc) (fun c hc => hcontent.child hc)
      fun c hc _ => ih c hc (h.child hc) (hcontent.child hc)
    refine every_iff.2 ⟨Positive.laid h hcontent hfactor, ?_⟩
    rw [laid, laidTo_eq_map]
    exact every_of_mem_splice hparts
  | held => exact absurd h not_written_held
  | foreign => exact absurd h not_written_foreign

/-- Laying out puts no hold directly in a simul if there was none. -/
theorem holdsApart_laid (h : n.Written) (hn : n.Every HoldsApart) (factor : Rat) :
    (n.laid factor).Every HoldsApart := by
  refine every_laid ?_ ?_ h hn factor
  · intro n factor hn
    cases n with
    | simul content =>
      rw [laid, laidTo_eq_map]
      refine List.forall_mem_map.2 ?_
      intro c hc
      rw [laidAs, isHold_lasting, isHold_laid]
      exact hn.self c hc
    | _ => trivial
  · intro n d h
    cases n with
    | simul => exact h
    | _ => trivial

/-! ## Trees that are gathered -/

/-- Gathering keeps the balance of composites: a run lasts as long as the element and the holds that
it consists of. Only holds directly in a simul would make a part of it longer. -/
theorem gatherable_balanced :
    Gatherable (fun n => n.Balanced ∧ n.HoldsApart) Balanced where
  symbol _ _ := trivial
  group _ _ hruns h := by
    have hextent : ∀ n m : Node, n.gatherInside = .ok m → m.extent = n.extent := by
      intro n m hm
      rw [extent, duration?_gatherInside hm, extent]
    rw [Balanced, hruns.sum_extent hextent]
    exact h.1
  simul _ hruns h := by
    refine ⟨?_, ?_⟩
    · intro hnil
      subst hnil
      cases hruns
      exact h.1.1 rfl
    · intro o ho
      obtain ⟨c, hc, m, slots, -, hm, rfl, hslots⟩ := hruns.exists_of_mem ho
      cases slots with
      | nil => exact (duration?_gatherInside hm).trans (h.1.2 c hc)
      | cons slot slots =>
        obtain ⟨s, hs, -⟩ := hslots slot (List.mem_cons_self ..)
        cases h.2 _ hs
  held _ _ := trivial

/-- Gathering keeps all durations positive. -/
theorem gatherable_positive : Gatherable Positive Positive where
  symbol _ h := h
  group _ _ _ h := h
  simul _ _ h := h
  held := by
    intro m slot slots hm hslots
    obtain ⟨d, hd, hpos⟩ := hm.duration?
    have hall : ∀ d ∈ m.extent :: slot :: slots, 0 < d := by
      refine List.forall_mem_cons.2 ⟨by rwa [extent_of_duration? hd], ?_⟩
      intro d hd
      obtain ⟨s, ⟨d', hd', hpos⟩, hslot⟩ := hslots d hd
      exact Option.some.inj (hd'.symm.trans hslot) ▸ hpos
    refine ⟨⟨_, rfl, List.sum_pos _ hall (List.cons_ne_nil _ _)⟩, ?_⟩
    intro slots' hslots'
    cases hslots'
    exact hall

/-! ## Whole trees -/

variable {tree : Node}

/-- An annotated tree is balanced if nothing had to be stretched that lasts no time and no hold
stood directly in a simul. -/
theorem balanced_of_annotate (h : n.Written) (hstretch : n.Every Stretchable)
    (hholds : n.Every HoldsApart) (htree : n.annotate = .ok tree) : tree.Every Balanced := by
  obtain ⟨hhold, hinside⟩ := gatherInside_of_annotate h htree
  have hbalanced := balanced_laid h hstretch 1
  have happart := holdsApart_laid h hholds 1
  exact gatherable_balanced.every (settled_laid h 1) hhold
    (fun m hm => ⟨hbalanced m hm, happart m hm⟩) hinside

end Node

open Node

/-- If no composite of a tree that is built is empty and no hold stands directly in a simul, then in
the annotated tree every duration and every slot is positive, the slots of a held element begin with
the duration of what is held and add up to that of the whole, a group lasts as long as its elements
together, and a simul as long as each of its elements. -/
theorem consistent_of_annotate {tokens : List Token} {root tree : Node}
    (h : build tokens = .ok root) (htree : root.annotate = .ok tree)
    (hcontent : root.Every HasContent) (hholds : root.Every HoldsApart) :
    tree.Every fun n => n.Positive ∧ n.Gathered ∧ n.Balanced := by
  have hroot := written_of_build h
  obtain ⟨hhold, hinside⟩ := gatherInside_of_annotate hroot htree
  have hpositive : tree.Every Positive :=
    gatherable_positive.every (settled_laid hroot 1) hhold (positive_laid hroot hcontent one_pos)
      hinside
  have hgathered := gathered_of_annotate hroot htree
  have hbalanced :=
    balanced_of_annotate hroot (stretchable_of_hasContent hroot hcontent) hholds htree
  intro m hm
  exact ⟨hpositive m hm, hgathered m hm, hbalanced m hm⟩

/-- A hold inside a segment that is fitted to the first one. -/
theorem consistent_of_annotate_fitted_hold :
    ∃ root tree,
      build (["a", ".", "/2", "b", "_", "c"].map (Token.mk · .start)) = .ok root ∧
        root.annotate = .ok tree ∧ root.Every HasContent ∧ root.Every HoldsApart ∧
        tree.Every fun n => n.Positive ∧ n.Gathered ∧ n.Balanced := by
  obtain ⟨root, hroot, hcontent, hholds, hannotate⟩ :
      ∃ root, build (["a", ".", "/2", "b", "_", "c"].map (Token.mk · .start)) = .ok root ∧
        root.Every HasContent ∧ root.Every HoldsApart ∧ root.annotate.isOk :=
    ⟨_, rfl, by decide +kernel, by decide +kernel, by decide +kernel⟩
  cases htree : root.annotate with
  | error fault => cases htree ▸ hannotate
  | ok tree =>
    exact ⟨root, tree, hroot, htree, hcontent, hholds,
      consistent_of_annotate hroot htree hcontent hholds⟩

end Polyrhythm
