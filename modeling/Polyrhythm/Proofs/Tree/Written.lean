import Polyrhythm.Proofs.Tree.Build

/-!
# Trees of notation

A tree that is built consists of symbols and holds at positive tempos, in groups, simuls and
sequences (`Node.Written`, `written_of_build`). It has a hold only where an underscore was among the
tokens (`isHold_of_build`). Two more properties are asked of trees elsewhere: that no composite is
empty (`Node.HasContent`), and that no hold stands directly in a simul (`Node.HoldsApart`).
-/

namespace Polyrhythm

namespace Node

/-- What an element of a tree that is built is: a leaf at a positive tempo, with no pitch and no
slots yet, or a group, a simul or a sequence. -/
def IsNotation : Node → Prop
  | symbol s => 0 < s.tempo ∧ s.pitch = none
  | hold h => 0 < h.tempo ∧ h.slots = none
  | group .. | simul .. | sequence _ => True
  | held .. | foreign _ => False

/-- Every element of a tree is one that building makes. -/
def Written (n : Node) : Prop := n.Every IsNotation

/-- Whether an element is a hold that is not gathered. -/
def isHold : Node → Bool
  | hold _ => true
  | _ => false

/-- A composite is no hold. -/
theorem isHold_of_not_isLeaf {n : Node} (h : n.isLeaf = false) : n.isHold = false := by
  cases n with
  | hold => cases h
  | _ => rfl

/-- A composite holds at least one element. -/
def HasContent (n : Node) : Prop := n.isLeaf = false → n.children ≠ []

/-- A simul has no hold among its elements. -/
def HoldsApart : Node → Prop
  | simul content _ => ∀ c ∈ content, c.isHold = false
  | _ => True

instance : DecidablePred HasContent := fun n =>
  decidable_of_iff (n.isLeaf = false → n.children.isEmpty = false) (by simp [HasContent])

instance : DecidablePred HoldsApart
  | simul content _ => inferInstanceAs (Decidable (∀ c ∈ content, c.isHold = false))
  | symbol _ | hold _ | group .. | sequence _ | held .. | foreign _ => .isTrue trivial

variable {n : Node}

theorem Written.symbol {s : Symbol} (h : (symbol s).Written) : 0 < s.tempo ∧ s.pitch = none :=
  every_symbol.1 h

theorem Written.hold {h : Hold} (hn : (hold h).Written) : 0 < h.tempo ∧ h.slots = none :=
  every_hold.1 hn

/-- The children of a tree of notation are trees of notation. -/
theorem Written.child {c : Node} (h : n.Written) (hc : c ∈ n.children) : c.Written :=
  Every.child h hc

/-- A tree of notation has no held element. -/
theorem not_written_held {content : Node} {h : Hold} : ¬(held content h).Written :=
  fun hn => Every.self hn

/-- A tree of notation has no foreign element. -/
theorem not_written_foreign {kind : String} : ¬(foreign kind).Written := fun hn => Every.self hn

/-- A positive change of tempo leaves a tree of notation one. -/
theorem Written.scaleTempo {factor : Rat} (hfactor : 0 < factor) (h : n.Written) :
    (n.scaleTempo factor).Written := by
  refine every_scaleTempo.2 (Every.imp h ?_)
  intro m hm
  cases m with
  | symbol s => exact ⟨mul_pos hm.1 hfactor, hm.2⟩
  | hold h => exact ⟨mul_pos hm.1 hfactor, hm.2⟩
  | group | simul | sequence => trivial
  | held | foreign => exact hm

end Node

open Node

/-- Every step of building makes trees of notation from trees of notation. -/
theorem buildable_written : Buildable Written where
  hold _ hs _ := every_hold.2 ⟨hs.symbol.1, rfl⟩
  scaleTempo _ _ hfactor h := h.scaleTempo hfactor
  group _ _ h := every_group.2 ⟨trivial, h⟩
  simul _ h := every_simul.2 ⟨trivial, h⟩
  sequence _ h := every_sequence.2 ⟨trivial, h⟩

/-- What is built is a tree of notation. -/
theorem written_of_build {tokens : List Token} {root : Node} (h : build tokens = .ok root) :
    root.Written :=
  buildable_written.build (fun _ _ => every_symbol.2 ⟨one_pos, rfl⟩) h

/-- Neither a hold nor the underscore that would become one. -/
def Node.IsSounding (n : Node) : Prop := n.isHold = false ∧ n.isSymbol "_" = false

/-- No step of building makes a hold or an underscore. -/
theorem buildable_isSounding : Buildable (Every IsSounding) where
  hold s hs h := absurd (every_symbol.1 hs).2 (by simp [isSymbol, h])
  scaleTempo n factor _ h := by
    refine every_scaleTempo.2 (h.imp ?_)
    intro m hm
    cases m <;> exact hm
  group _ _ h := every_group.2 ⟨⟨rfl, rfl⟩, h⟩
  simul _ h := every_simul.2 ⟨⟨rfl, rfl⟩, h⟩
  sequence _ h := every_sequence.2 ⟨⟨rfl, rfl⟩, h⟩

/-- What is built from tokens without underscores has no holds. -/
theorem isHold_of_build {tokens : List Token} {root : Node}
    (htokens : ∀ t ∈ tokens, t.content ≠ "_") (h : build tokens = .ok root) :
    root.Every fun n => n.isHold = false := by
  have hsounding : root.Every IsSounding := by
    refine buildable_isSounding.build (fun t ht => every_symbol.2 ⟨rfl, ?_⟩) h
    simp [isSymbol, htokens t ht]
  exact hsounding.imp fun _ hm => hm.1

end Polyrhythm
