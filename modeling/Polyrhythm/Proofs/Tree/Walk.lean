import Mathlib.Data.List.Basic
import Polyrhythm.Node

/-!
# Induction over trees

An element holds a list of elements, so a statement about all trees is proved from the statement
about the elements of that list (`Node.recTree`). What holds of an element and of everything inside
it is `Node.Every`; it is read off the element and its children (`Node.every_iff`). A change of
tempo changes every element in its place (`Node.walk_scaleTempo`).
-/

namespace Polyrhythm.Node

/-- Induction over a tree, with the statement for all elements of a list of content. -/
@[elab_as_elim, induction_eliminator]
theorem recTree {motive : Node → Prop}
    (symbol : ∀ s, motive (.symbol s))
    (hold : ∀ h, motive (.hold h))
    (group : ∀ content isExplicit duration, (∀ n ∈ content, motive n) →
      motive (.group content isExplicit duration))
    (simul : ∀ content duration, (∀ n ∈ content, motive n) → motive (.simul content duration))
    (sequence : ∀ content, (∀ n ∈ content, motive n) → motive (.sequence content))
    (held : ∀ content h, motive content → motive (.held content h))
    (foreign : ∀ kind, motive (.foreign kind)) : ∀ n, motive n
  | .symbol s => symbol s
  | .hold h => hold h
  | .group content isExplicit duration =>
    group content isExplicit duration fun n _ =>
      recTree symbol hold group simul sequence held foreign n
  | .simul content duration =>
    simul content duration fun n _ => recTree symbol hold group simul sequence held foreign n
  | .sequence content =>
    sequence content fun n _ => recTree symbol hold group simul sequence held foreign n
  | .held content h =>
    held content h (recTree symbol hold group simul sequence held foreign content)
  | .foreign kind => foreign kind

/-! ## Every element of a tree -/

/-- What holds of an element and of everything inside it. -/
def Every (p : Node → Prop) (n : Node) : Prop := ∀ m ∈ n.walk, p m

variable {p q : Node → Prop}

instance [DecidablePred p] (n : Node) : Decidable (n.Every p) :=
  inferInstanceAs (Decidable (∀ m ∈ n.walk, p m))

/-- A walk starts with the element and goes through its children one after another. -/
theorem walk_eq_cons (n : Node) : n.walk = n :: n.children.flatMap walk := by
  cases n <;> simp [walk, children]

/-- A property of every element is one of the element itself and of every element of its
children. -/
theorem every_iff {n : Node} : n.Every p ↔ p n ∧ ∀ c ∈ n.children, c.Every p := by
  rw [Every, walk_eq_cons, List.forall_mem_cons]
  refine and_congr_right fun _ => ⟨?_, ?_⟩
  · intro h c hc m hm
    exact h m (List.mem_flatMap.2 ⟨c, hc, hm⟩)
  · intro h m hm
    obtain ⟨c, hc, hm⟩ := List.mem_flatMap.1 hm
    exact h c hc m hm

@[simp]
theorem every_symbol {s : Symbol} : (symbol s).Every p ↔ p (symbol s) := by
  rw [every_iff]
  simp [children]

@[simp]
theorem every_hold {h : Hold} : (hold h).Every p ↔ p (hold h) := by
  rw [every_iff]
  simp [children]

@[simp]
theorem every_group {content : List Node} {isExplicit : Bool} {duration : Option Rat} :
    (group content isExplicit duration).Every p ↔
      p (group content isExplicit duration) ∧ ∀ c ∈ content, c.Every p :=
  every_iff

@[simp]
theorem every_simul {content : List Node} {duration : Option Rat} :
    (simul content duration).Every p ↔ p (simul content duration) ∧ ∀ c ∈ content, c.Every p :=
  every_iff

@[simp]
theorem every_sequence {content : List Node} :
    (sequence content).Every p ↔ p (sequence content) ∧ ∀ c ∈ content, c.Every p :=
  every_iff

@[simp]
theorem every_held {content : Node} {h : Hold} :
    (held content h).Every p ↔ p (held content h) ∧ content.Every p := by
  rw [every_iff]
  simp [children]

/-- A property of every element holds of the element itself. -/
theorem Every.self {n : Node} (h : n.Every p) : p n := (every_iff.1 h).1

/-- A property of every element holds of every element of a child. -/
theorem Every.child {n c : Node} (h : n.Every p) (hc : c ∈ n.children) : c.Every p :=
  (every_iff.1 h).2 c hc

/-- A property of every element holds of every element inside every element. -/
theorem Every.every {n : Node} (h : n.Every p) : n.Every (Every p) := by
  induction n with
  | symbol | hold | foreign => exact every_iff.2 ⟨h, nofun⟩
  | group content isExplicit duration ih =>
    exact every_iff.2 ⟨h, fun c hc => ih c hc (h.child hc)⟩
  | simul content duration ih => exact every_iff.2 ⟨h, fun c hc => ih c hc (h.child hc)⟩
  | sequence content ih => exact every_iff.2 ⟨h, fun c hc => ih c hc (h.child hc)⟩
  | held content s ih => exact every_held.2 ⟨h, ih (every_held.1 h).2⟩

/-- A weaker property holds of every element too. -/
theorem Every.imp {n : Node} (h : n.Every p) (hpq : ∀ m, p m → q m) : n.Every q :=
  fun m hm => hpq m (h m hm)

/-! ## Leaves -/

/-- The leaves of a composite are those of its children, one after another. -/
theorem leaves_eq_flatMap {n : Node} (h : n.isLeaf = false) :
    n.leaves = n.children.flatMap leaves := by
  rw [leaves, walk_eq_cons, List.filter_cons_of_neg (by simp [h]), List.filter_flatMap]
  rfl

@[simp]
theorem leaves_symbol (s : Symbol) : (symbol s).leaves = [symbol s] := rfl

@[simp]
theorem leaves_hold (h : Hold) : (hold h).leaves = [hold h] := rfl

@[simp]
theorem leaves_group (content : List Node) (isExplicit : Bool) (duration : Option Rat) :
    (group content isExplicit duration).leaves = content.flatMap leaves :=
  leaves_eq_flatMap rfl

@[simp]
theorem leaves_simul (content : List Node) (duration : Option Rat) :
    (simul content duration).leaves = content.flatMap leaves :=
  leaves_eq_flatMap rfl

@[simp]
theorem leaves_sequence (content : List Node) :
    (sequence content).leaves = content.flatMap leaves :=
  leaves_eq_flatMap rfl

/-! ## Walks of changed trees -/

/-- A change that changes the children of an element in their places changes the walk element by
element. -/
theorem walk_eq_map {f : Node → Node} (h : ∀ n, (f n).children = n.children.map f) (n : Node) :
    (f n).walk = n.walk.map f := by
  have step {n : Node} (ih : ∀ c ∈ n.children, (f c).walk = c.walk.map f) :
      (f n).walk = n.walk.map f := by
    rw [walk_eq_cons, walk_eq_cons n, h, List.map_cons, List.flatMap_map, List.map_flatMap]
    exact congrArg (f n :: ·) (List.flatMap_congr ih)
  induction n with
  | symbol | hold | foreign => exact step nofun
  | group content isExplicit duration ih => exact step ih
  | simul content duration ih => exact step ih
  | sequence content ih => exact step ih
  | held content h ih => exact step (List.forall_mem_singleton.2 ih)

/-- Changing the tempo of the leaves changes the walk element by element. -/
theorem walk_scaleTempo (factor : Rat) (n : Node) :
    (n.scaleTempo factor).walk = n.walk.map (scaleTempo factor) := by
  refine walk_eq_map (fun n => ?_) n
  cases n <;> simp [children, scaleTempo]

/-- A property of every element after a change of tempo is one of every element before it. -/
theorem every_scaleTempo {factor : Rat} {n : Node} :
    (n.scaleTempo factor).Every p ↔ n.Every fun m => p (m.scaleTempo factor) := by
  simp [Every, walk_scaleTempo]

end Polyrhythm.Node
