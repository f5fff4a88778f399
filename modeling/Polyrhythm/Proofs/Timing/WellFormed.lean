import Mathlib.Algebra.Order.BigOperators.Group.List
import Polyrhythm.Proofs.Timing.Annotation

/-!
# Well-formed trees

An annotated tree is finished: no sequence and no loose hold is left in it, every duration is known
and not negative, a held element holds one that is not held itself, over at least two slots that
begin with its duration and add up to that of the whole, and whatever lasts no time has nothing in
it that lasts any (`Node.WellFormed`, `Node.wellFormed_of_formed`). Most of it is settled when the
tree is laid out (`Node.laidOut_laid`); gathering carries it over (`Node.gatherable_formed`) and
holds every element once (`Node.heldOnce_gatherInside`).
-/

namespace Polyrhythm.Node

open Traversal

/-! ## Elements -/

/-- A symbol is at a positive tempo. -/
def Paced : Node → Prop
  | symbol s => 0 < s.tempo
  | _ => True

/-- What an element is once it is laid out: settled, for a time that is not negative and at a
positive tempo. -/
def LaidOut (n : Node) : Prop := n.Settled ∧ 0 ≤ n.extent ∧ n.Paced

/-- What an element is once it is gathered: a symbol, a composite that holds nothing but elements of
no time if it lasts none, or an element that is held over at least two slots, the first of which it
fills itself. -/
def Formed : Node → Prop
  | symbol s => 0 < s.tempo ∧ ∃ d, s.duration = some d ∧ 0 ≤ d
  | group content _ duration | simul content duration =>
    ∃ d, duration = some d ∧ 0 ≤ d ∧ (d = 0 → ∀ c ∈ content, c.duration? = some 0)
  | held content h =>
    ∃ first second rest, content.duration? = some first ∧
      h.slots = some (first :: second :: rest) ∧
      h.duration = some (first :: second :: rest).sum ∧ ∀ slot ∈ first :: second :: rest, 0 ≤ slot
  | hold _ | sequence _ | foreign _ => False

/-- An element that is held is not held once more. -/
def HeldOnce : Node → Prop
  | held content _ => content.isHeld = false
  | _ => True

/-- The slots of an element; only one that is held has any. -/
def slots : Node → List Rat
  | held _ h => h.slots.getD []
  | _ => []

/-- An element and its slots last no time. -/
def Still (n : Node) : Prop := n.duration? = some 0 ∧ ∀ slot ∈ n.slots, slot = 0

/-- Whether an element is a group or a simul. -/
def isComposed : Node → Bool
  | group .. | simul .. => true
  | _ => false

/-- A finished tree. -/
structure WellFormed (tree : Node) : Prop where
  /-- No sequence is left, no hold that is not gathered, and nothing foreign. -/
  kinds : tree.Every fun n => (∃ s, n = symbol s) ∨ n.isComposed = true ∨ n.isHeld = true
  /-- Every duration is known and not negative. -/
  durations : tree.Every fun n => ∃ d, n.duration? = some d ∧ 0 ≤ d
  /-- No slot is negative. -/
  slots : tree.Every fun n => ∀ slot ∈ n.slots, 0 ≤ slot
  /-- Every symbol is at a positive tempo. -/
  tempos : ∀ s, symbol s ∈ tree.walk → 0 < s.tempo
  /-- The tree is not held. -/
  root : tree.isHeld = false
  /-- What holds a held element is a group or a simul. -/
  parents : tree.Every fun n => ∀ c ∈ n.children, c.isHeld = true → n.isComposed = true
  /-- Symbols, groups and simuls are held, over at least two slots that begin with their own
  duration and add up to that of the whole. -/
  held : ∀ content h, held content h ∈ tree.walk →
    ((∃ s, content = symbol s) ∨ content.isComposed = true) ∧
      ∃ first second rest, h.slots = some (first :: second :: rest) ∧
        content.duration? = some first ∧ h.duration = some (first :: second :: rest).sum
  /-- In what lasts no time, nothing lasts any. -/
  still : tree.Every fun n => n.duration? = some 0 → n.Every Still

variable {n m tree : Node}

/-! ## Trees that are laid out -/

/-- No duration is negative in a tree that is laid out by a factor that is not. -/
theorem extent_nonneg_laid (h : n.Written) {factor : Rat} (hfactor : 0 ≤ factor) :
    (n.laid factor).Every fun m => 0 ≤ m.extent := by
  have hself {n : Node} (h : n.Written) {factor : Rat} (hfactor : 0 ≤ factor) :
      0 ≤ (n.laid factor).extent := by
    rw [extent_laid h]
    exact mul_nonneg hfactor (natural_nonneg h)
  have likewise {content : List Node} {factor : Rat} (hfactor : 0 ≤ factor)
      (hwritten : ∀ c ∈ content, c.Written)
      (ih : ∀ c ∈ content, ∀ {factor : Rat}, 0 ≤ factor →
        (c.laid factor).Every fun m => 0 ≤ m.extent) :
      ∀ m ∈ content.map (laidAs (naturalFirst content) factor),
        m.Every fun m => 0 ≤ m.extent := by
    have hcommon : 0 ≤ naturalFirst content :=
      naturalFirst_nonneg fun c hc => natural_nonneg (hwritten c hc)
    refine List.forall_mem_map.2 fun c hc => ?_
    have hratio : 0 ≤ naturalFirst content / c.natural :=
      div_nonneg hcommon (natural_nonneg (hwritten c hc))
    refine (ih c hc (mul_nonneg hfactor hratio)).lasting ?_
    rw [← laidAs, extent_laidAs (hwritten c hc)]
    exact mul_nonneg hfactor hcommon
  induction n generalizing factor with
  | symbol => exact every_symbol.2 (hself h hfactor)
  | hold => exact every_hold.2 (hself h hfactor)
  | group content isExplicit duration ih =>
    refine every_iff.2 ⟨hself h hfactor, ?_⟩
    rw [laid, laidEach_eq_map]
    exact List.forall_mem_map.2 fun c hc => ih c hc (h.child hc) hfactor
  | simul content duration ih =>
    refine every_iff.2 ⟨hself h hfactor, ?_⟩
    rw [laid, laidTo_eq_map]
    exact likewise hfactor (fun c hc => h.child hc) fun c hc _ => ih c hc (h.child hc)
  | sequence content ih =>
    have hparts := likewise hfactor (fun c hc => h.child hc) fun c hc _ => ih c hc (h.child hc)
    refine every_iff.2 ⟨hself h hfactor, ?_⟩
    rw [laid, laidTo_eq_map]
    exact every_of_mem_splice hparts
  | held => exact absurd h not_written_held
  | foreign => exact absurd h not_written_foreign

/-- Laying out leaves the tempos of symbols. -/
theorem paced_laid (h : n.Written) (factor : Rat) : (n.laid factor).Every Paced := by
  refine every_laid (q := IsNotation) ?_ ?_ h h factor
  · intro n factor hn
    cases n with
    | symbol s =>
      change 0 < s.splitPitch.tempo
      rw [tempo_splitPitch]
      exact (every_symbol.1 hn).1
    | _ => trivial
  · intro n d hn
    cases n <;> exact hn

/-- What a tree of notation is once it is laid out. -/
theorem laidOut_laid (h : n.Written) : (n.laid 1).Every LaidOut := fun m hm =>
  ⟨settled_laid h 1 m hm, extent_nonneg_laid h zero_le_one m hm, paced_laid h 1 m hm⟩

/-! ## Trees that are gathered -/

/-- The duration of an element that is gathered is known and not negative. -/
theorem Formed.duration? (h : n.Formed) : ∃ d, n.duration? = some d ∧ 0 ≤ d := by
  cases n with
  | symbol => exact h.2
  | group | simul => exact h.imp fun _ h => ⟨h.1, h.2.1⟩
  | held =>
    obtain ⟨first, second, rest, -, -, hd, hnonneg⟩ := h
    exact ⟨_, hd, List.sum_nonneg hnonneg⟩
  | hold | sequence | foreign => exact h.elim

/-- An element that is gathered is proportioned: slots that are not negative and add up to no time
last none. -/
theorem Formed.proportioned (h : n.Formed) : n.Proportioned := by
  cases n with
  | symbol => exact h.2.imp fun _ h => h.1
  | group | simul => exact h.imp fun _ h => ⟨h.1, h.2.2⟩
  | held content s =>
    obtain ⟨first, second, rest, hfirst, hslots, hd, hnonneg⟩ := h
    refine ⟨_, _, hd, hslots, fun hzero => ?_⟩
    have hzeros : ∀ slot ∈ first :: second :: rest, slot = 0 := fun slot hslot =>
      List.all_zero_of_le_zero_le_of_sum_eq_zero hnonneg hzero hslot
    exact ⟨hzeros first (List.mem_cons_self ..) ▸ hfirst, hzeros⟩
  | hold | sequence | foreign => exact h.elim

/-- A list in which nothing lasts any time is gathered to one in which nothing does. -/
theorem duration?_of_runs {content out : List Node}
    (hruns : Runs (fun n m => n.gatherInside = .ok m) content out)
    (hzero : ∀ c ∈ content, c.duration? = some 0) : ∀ o ∈ out, o.duration? = some 0 := by
  intro o ho
  obtain ⟨c, hc, m, slots, -, hm, rfl, hslots⟩ := hruns.exists_of_mem ho
  have hduration : m.duration? = some 0 := (duration?_gatherInside hm).trans (hzero c hc)
  have hnone : ∀ slot ∈ slots, slot = 0 := by
    intro slot hslot
    obtain ⟨s, hs, hd⟩ := hslots slot hslot
    exact Option.some.inj (hd.symm.trans (hzero _ hs))
  have hsum : (m.extent :: slots).sum = 0 := by
    rw [List.sum_cons, extent_of_duration? hduration, zero_add]
    exact List.sum_eq_zero hnone
  rw [heldOver]
  split
  · exact hduration
  · exact congrArg some hsum

/-- Gathering carries over what an element is once it is laid out. -/
theorem gatherable_formed : Gatherable LaidOut Formed where
  symbol s h := by
    obtain ⟨⟨⟨d, hd⟩, -⟩, hnonneg, htempo⟩ := h
    have hextent : (Node.symbol s).extent = d := extent_of_duration? hd
    exact ⟨htempo, d, hd, hextent ▸ hnonneg⟩
  group _ _ hruns h := by
    obtain ⟨⟨⟨d, rfl, hchildren⟩, -⟩, hnonneg, -⟩ := h
    exact ⟨d, rfl, hnonneg, fun hzero => duration?_of_runs hruns (hchildren hzero)⟩
  simul _ hruns h := by
    obtain ⟨⟨⟨d, rfl, hchildren⟩, -⟩, hnonneg, -⟩ := h
    exact ⟨d, rfl, hnonneg, fun hzero => duration?_of_runs hruns (hchildren hzero)⟩
  held := by
    intro m slot slots hm hslots
    obtain ⟨d, hd, hnonneg⟩ := hm.duration?
    refine ⟨d, slot, slots, hd, by rw [extent_of_duration? hd], by rw [extent_of_duration? hd], ?_⟩
    refine List.forall_mem_cons.2 ⟨hnonneg, fun slot hslot => ?_⟩
    obtain ⟨s, ⟨-, hnonneg, -⟩, hd⟩ := hslots slot hslot
    have hextent : (hold s).extent = slot := extent_of_duration? hd
    exact hextent ▸ hnonneg

/-- Gathering inside an element leaves its kind. -/
theorem isHeld_gatherInside (h : n.gatherInside = .ok m) : m.isHeld = n.isHeld := by
  cases n with
  | group | simul =>
    obtain ⟨content, -, h⟩ := bind_eq_ok.1 h
    cases h
    rfl
  | _ => cases h; rfl

/-- Gathering a settled tree holds every element once. That an element is not held when a run of it
is closed is known of the element before gathering, so this is no case of `Gatherable`. -/
theorem heldOnce_gatherInside (h : n.Every Settled) (hhold : n.isHold = false)
    (hm : n.gatherInside = .ok m) : m.Every HeldOnce := by
  have likewise {content out : List Node} (hcontent : ∀ c ∈ content, c.Every Settled)
      (ih : ∀ c ∈ content, ∀ m, c.isHold = false → c.gatherInside = .ok m → m.Every HeldOnce)
      (hout : gatherFrom none content = .ok out) : ∀ o ∈ out, o.Every HeldOnce := by
    intro o ho
    have hruns := runs_of_gatherFrom (fun c hc => (hcontent c hc).self.1.duration?) hout
    obtain ⟨c, hc, m, slots, hhold, hm, rfl, -⟩ := hruns.exists_of_mem ho
    have honce := ih c hc m hhold hm
    rw [heldOver]
    split
    · exact honce
    · refine every_held.2 ⟨?_, honce⟩
      exact (isHeld_gatherInside hm).trans (hcontent c hc).self.2
  induction n generalizing m with
  | symbol s =>
    cases hm
    exact every_symbol.2 trivial
  | hold => cases hhold
  | group content isExplicit duration ih =>
    obtain ⟨out, hout, hm⟩ := bind_eq_ok.1 hm
    cases hm
    exact every_group.2 ⟨trivial, likewise (fun c hc => h.child hc)
      (fun c hc _ hhold hm => ih c hc (h.child hc) hhold hm) hout⟩
  | simul content duration ih =>
    obtain ⟨out, hout, hm⟩ := bind_eq_ok.1 hm
    cases hm
    exact every_simul.2 ⟨trivial, likewise (fun c hc => h.child hc)
      (fun c hc _ hhold hm => ih c hc (h.child hc) hhold hm) hout⟩
  | sequence => exact h.self.1.elim
  | held => cases h.self.2
  | foreign => exact h.self.1.elim

/-! ## Whole trees -/

/-- In a proportioned tree that lasts no time, nothing lasts any. -/
theorem still_of_proportioned (h : n.Every Proportioned) (hzero : n.duration? = some 0) :
    n.Every Still := by
  induction n with
  | symbol => exact every_symbol.2 ⟨hzero, nofun⟩
  | hold => exact every_hold.2 ⟨hzero, nofun⟩
  | group content isExplicit duration ih =>
    obtain ⟨⟨d, rfl, hchildren⟩, hcontent⟩ := every_group.1 h
    cases hzero
    exact every_group.2 ⟨⟨rfl, nofun⟩, fun c hc => ih c hc (hcontent c hc) (hchildren rfl c hc)⟩
  | simul content duration ih =>
    obtain ⟨⟨d, rfl, hchildren⟩, hcontent⟩ := every_simul.1 h
    cases hzero
    exact every_simul.2 ⟨⟨rfl, nofun⟩, fun c hc => ih c hc (hcontent c hc) (hchildren rfl c hc)⟩
  | held content s ih =>
    obtain ⟨⟨d, slots, hd, hslots, hchildren⟩, hcontent⟩ := every_held.1 h
    cases hd.symm.trans hzero
    obtain ⟨hown, hzeros⟩ := hchildren rfl
    refine every_held.2 ⟨⟨hzero, ?_⟩, ih hcontent hown⟩
    rw [Node.slots, hslots]
    exact hzeros
  | sequence | foreign => exact h.self.elim

/-- An annotated tree is gathered from a tree that was laid out. -/
theorem formed_of_annotate (h : n.Written) (htree : n.annotate = .ok tree) :
    tree.Every Formed ∧ tree.Every HeldOnce ∧ tree.isHeld = false := by
  obtain ⟨hhold, hinside⟩ := gatherInside_of_annotate h htree
  have hsettled := settled_laid h 1
  refine ⟨gatherable_formed.every hsettled hhold (laidOut_laid h) hinside,
    heldOnce_gatherInside hsettled hhold hinside, ?_⟩
  rw [isHeld_gatherInside hinside, hsettled.self.2]

/-- A gathered tree in which every element is held once is finished. -/
theorem wellFormed_of_formed (h : tree.Every Formed) (honce : tree.Every HeldOnce)
    (hroot : tree.isHeld = false) : tree.WellFormed where
  kinds := by
    refine h.imp fun n hn => ?_
    cases n with
    | symbol s => exact .inl ⟨s, rfl⟩
    | group | simul => exact .inr (.inl rfl)
    | held => exact .inr (.inr rfl)
    | hold | sequence | foreign => exact hn.elim
  durations := h.imp fun _ hn => hn.duration?
  slots := by
    refine h.imp fun n hn => ?_
    cases n with
    | held content s =>
      obtain ⟨first, second, rest, -, hslots, -, hnonneg⟩ := hn
      rw [Node.slots, hslots]
      exact hnonneg
    | _ => exact nofun
  tempos s hs := (h _ hs).1
  root := hroot
  parents := by
    intro n hn c hc hheld
    cases n with
    | group | simul => rfl
    | held content s =>
      cases List.mem_singleton.1 hc
      cases hheld.symm.trans (honce _ hn)
    | symbol | hold | foreign => cases hc
    | sequence => exact (h _ hn).elim
  held content s hs := by
    obtain ⟨first, second, rest, hfirst, hslots, hd, -⟩ := h _ hs
    have hcontent : content.Formed := (every_held.1 (h.every _ hs)).2.self
    have hnot : content.isHeld = false := honce _ hs
    refine ⟨?_, first, second, rest, hslots, hfirst, hd⟩
    cases content with
    | symbol s => exact .inl ⟨s, rfl⟩
    | group | simul => exact .inr rfl
    | held => cases hnot
    | hold | sequence | foreign => exact hcontent.elim
  still := by
    intro n hn hzero
    exact still_of_proportioned ((h.every n hn).imp fun _ hm => hm.proportioned) hzero

end Polyrhythm.Node
