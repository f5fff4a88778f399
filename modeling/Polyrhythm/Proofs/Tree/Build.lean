import Mathlib.Algebra.Order.Field.Rat
import Mathlib.Tactic.Positivity
import Polyrhythm.Level
import Polyrhythm.Proofs.Tree.Walk

/-!
# What is built

The passes over a level take elements apart and put them together in few ways: an underscore
becomes a hold, a marker speeds up the elements after it, and elements are wrapped in groups, simuls
and sequences. A property that these steps keep (`Buildable`) holds of every tree that is built from
tokens whose symbols have it (`Buildable.build`), however often a level is read again.
-/

namespace Polyrhythm

open Traversal

/-- A property of elements that every step of building keeps. -/
structure Buildable (p : Node → Prop) : Prop where
  hold : ∀ s : Symbol, p (.symbol s) → s.content = "_" → p (.hold ⟨s.position, s.tempo, none, none⟩)
  scaleTempo : ∀ (n : Node) (factor : Rat), 0 < factor → p n → p (n.scaleTempo factor)
  group : ∀ (content : List Node) (isExplicit : Bool), (∀ n ∈ content, p n) →
    p (.group content isExplicit none)
  simul : ∀ content : List Node, (∀ n ∈ content, p n) → p (.simul content none)
  sequence : ∀ content : List Node, (∀ n ∈ content, p n) → p (.sequence content)

/-! ## Traversals -/

/-- What a traversal yields is what its step yields for some element of the list. -/
theorem forall_of_mapM {ε α β : Type} {f : α → Except ε β} {q : β → Prop} {xs : List α}
    {ys : List β} (h : xs.mapM f = .ok ys) (hf : ∀ x ∈ xs, ∀ y, f x = .ok y → q y) :
    ∀ y ∈ ys, q y := by
  induction xs generalizing ys with
  | nil => cases h; exact fun _ hy => nomatch hy
  | cons x xs ih =>
    obtain ⟨y, ys, hy, hys, rfl⟩ := mapM_cons_eq_ok.1 h
    refine List.forall_mem_cons.2 ⟨hf x (by simp) y hy, ?_⟩
    exact ih hys fun z hz => hf z (by simp [hz])

/-! ## The elements of parts -/

/-- The elements of a part. -/
def Part.elements : Part → List Node
  | single n => [n]
  | block content => content

/-- The elements of the open block. -/
def openElements : Option OpenBlock → List Node
  | none => []
  | some block => block.content

/-- Cutting makes no elements: those of the parts are those of the level and of the open block. -/
theorem mem_of_mem_cutFrom {state : Option OpenBlock} {nodes : List Node} {part : Part} {n : Node}
    (hpart : part ∈ (cutFrom state nodes).parts) (hn : n ∈ part.elements) :
    n ∈ openElements state ∨ n ∈ nodes := by
  induction nodes generalizing state with
  | nil => cases state <;> simp [cutFrom, Cut.empty, Cut.stopped] at hpart
  | cons m rest ih =>
    have later {state' : Option OpenBlock} (hpart : part ∈ (cutFrom state' rest).parts)
        (hopen : ∀ x ∈ openElements state', x ∈ openElements state ∨ x = m) :
        n ∈ openElements state ∨ n ∈ m :: rest := by
      rcases ih hpart with h | h
      · exact (hopen n h).imp_right fun h => by simp [h]
      · exact .inr (List.mem_cons_of_mem _ h)
    cases state with
    | none =>
      rw [cutFrom] at hpart
      split at hpart
      · exact later hpart (by simp [openElements])
      · split at hpart
        · simp [Cut.stopped] at hpart
        · rcases List.mem_cons.1 hpart with rfl | hpart
          · rw [List.mem_singleton.1 hn]
            exact .inr (List.mem_cons_self ..)
          · exact later hpart (by simp [openElements])
    | some block =>
      rw [cutFrom] at hpart
      split at hpart
      · exact later hpart (by simp [openElements, or_comm])
      · split at hpart
        · split at hpart
          · rcases List.mem_cons.1 hpart with rfl | hpart
            · exact .inl (by simpa [Part.elements, openElements] using hn)
            · exact later hpart (by simp [openElements])
          · exact later hpart (by simp [openElements, or_comm])
        · exact later hpart (by simp [openElements, OpenBlock.push, or_comm])

/-- The parts between separators consist of elements of the level. -/
theorem mem_of_mem_chunksFrom {separator : String} {current nodes chunk : List Node} {n : Node}
    (hchunk : chunk ∈ chunksFrom separator current nodes) (hn : n ∈ chunk) :
    n ∈ current ∨ n ∈ nodes := by
  induction nodes generalizing current with
  | nil =>
    rw [chunksFrom] at hchunk
    split at hchunk
    · cases hchunk
    · rw [List.mem_singleton.1 hchunk] at hn
      exact .inl (List.mem_reverse.1 hn)
  | cons m rest ih =>
    rw [chunksFrom] at hchunk
    have hsplit : chunk = current.reverse ∨ chunk ∈ chunksFrom separator [] rest ∨
        chunk ∈ chunksFrom separator (m :: current) rest := by
      split at hchunk
      · split at hchunk
        · exact .inr (.inl hchunk)
        · exact (List.mem_cons.1 hchunk).imp_right .inl
      · exact .inr (.inr hchunk)
    rcases hsplit with rfl | hchunk | hchunk
    · exact .inl (List.mem_reverse.1 hn)
    · rcases ih hchunk with h | h
      · cases h
      · exact .inr (List.mem_cons_of_mem _ h)
    · rcases ih hchunk with h | h
      · rcases List.mem_cons.1 h with rfl | h
        · exact .inr (List.mem_cons_self ..)
        · exact .inl h
      · exact .inr (List.mem_cons_of_mem _ h)

/-! ## Passes -/

section
variable {p : Node → Prop}

/-- A marker that is not void speeds up by a positive rate. -/
theorem Marker.rate_pos {marker : Marker} (h : marker.isVoid = false) : 0 < marker.rate := by
  obtain ⟨numerator, divisor⟩ := marker
  simp only [isVoid, Bool.or_eq_false_iff, decide_eq_false_iff_not] at h
  have hnumerator : (0 : Rat) < ((numerator.value : Int) : Rat) := by
    exact_mod_cast Nat.pos_of_ne_zero h.1
  have hdivisor : (0 : Rat) < ((divisor.value : Int) : Rat) := by
    exact_mod_cast Nat.pos_of_ne_zero h.2
  rw [rate, Rat.mkRat_eq_div]
  exact div_pos hnumerator hdivisor

/-- What reading a block keeps, grouping a level keeps. -/
theorem forall_of_groupBraces {read : List Node → Except Fault Node} {nodes out : List Node}
    (hread : ∀ ns n, (∀ m ∈ ns, p m) → read ns = .ok n → p n) (h : ∀ n ∈ nodes, p n)
    (hout : groupBraces read nodes = .ok out) : ∀ n ∈ out, p n := by
  obtain ⟨elements, helements, hout⟩ := bind_eq_ok.1 hout
  have hkept : ∀ n ∈ elements, p n := by
    refine forall_of_mapM helements ?_
    intro part hpart n hn
    have hin : ∀ m ∈ part.elements, p m := by
      intro m hm
      exact h m ((mem_of_mem_cutFrom hpart hm).resolve_left List.not_mem_nil)
    cases part with
    | single m => cases hn; exact hin _ (List.mem_singleton_self _)
    | block content => exact hread content n hin hn
  split at hout
  · cases hout
  · cases hout
    exact hkept

/-- A marker that can be used is not void. -/
theorem Marker.isVoid_of_isRefused {marker : Marker} (h : marker.isRefused = false) :
    marker.isVoid = false :=
  (Bool.or_eq_false_iff.1 h).2

/-- Taking markers out speeds elements up by positive rates only. -/
theorem Buildable.applyMarkersFrom (hp : Buildable p) {tempo : Rat} (htempo : 0 < tempo)
    {nodes out : List Node} (h : ∀ n ∈ nodes, p n)
    (hout : Polyrhythm.applyMarkersFrom tempo nodes = .ok out) : ∀ n ∈ out, p n := by
  induction nodes generalizing tempo out with
  | nil => cases hout; exact h
  | cons m rest ih =>
    obtain ⟨hm, hrest⟩ := List.forall_mem_cons.1 h
    rw [Polyrhythm.applyMarkersFrom] at hout
    split at hout
    · split at hout
      · cases hout
      · next hrefused =>
        have hrate := Marker.rate_pos (Marker.isVoid_of_isRefused (Bool.eq_false_iff.2 hrefused))
        exact ih (mul_pos htempo hrate) hrest hout
    · obtain ⟨m', hm', hout⟩ := bind_eq_ok.1 hout
      obtain ⟨rest', hrest', hout⟩ := bind_eq_ok.1 hout
      cases hout
      refine List.forall_mem_cons.2 ⟨?_, ih htempo hrest hrest'⟩
      rw [Node.adjustTempo, Node.afterWalk] at hm'
      split at hm'
      · cases hm'
      · cases hm'
        exact hp.scaleTempo m tempo htempo hm

/-- Turning underscores into holds keeps what a hold for an underscore has. -/
theorem Buildable.tagHolds (hp : Buildable p) {nodes : List Node} (h : ∀ n ∈ nodes, p n) :
    ∀ n ∈ Polyrhythm.tagHolds nodes, p n := by
  refine List.forall_mem_map.2 ?_
  intro n hn
  cases n with
  | symbol s =>
    rw [Node.tagHold]
    split
    · next hs => exact hp.hold s (h _ hn) hs
    · exact h _ hn
  | _ => exact h _ hn

/-- What joining parts and reading them keeps, splitting a level keeps. -/
theorem forall_of_splitAt {separator : String} {join : List Node → Node}
    {read : List Node → Except Fault Node} {nodes out : List Node}
    (hread : ∀ ns n, (∀ m ∈ ns, p m) → read ns = .ok n → p n)
    (hjoin : ∀ ns, (∀ n ∈ ns, p n) → p (join ns)) (h : ∀ n ∈ nodes, p n)
    (hout : splitAt separator join read nodes = .ok out) : ∀ n ∈ out, p n := by
  rw [splitAt] at hout
  split at hout
  · obtain ⟨parts, hparts, hout⟩ := bind_eq_ok.1 hout
    cases hout
    refine List.forall_mem_singleton.2 (hjoin parts (forall_of_mapM hparts ?_))
    intro chunk hchunk n hn
    have hin : ∀ m ∈ chunk, p m := by
      intro m hm
      exact h m ((mem_of_mem_chunksFrom hchunk hm).resolve_left List.not_mem_nil)
    exact hread chunk n hin hn
  · cases hout
    exact h

/-- The five passes keep what reading the levels inside keeps. -/
theorem Buildable.passes (hp : Buildable p) {read : Bool → List Node → Except Fault Node}
    {nodes out : List Node}
    (hread : ∀ isExplicit ns n, (∀ m ∈ ns, p m) → read isExplicit ns = .ok n → p n)
    (h : ∀ n ∈ nodes, p n) (hout : Polyrhythm.passes read nodes = .ok out) : ∀ n ∈ out, p n := by
  obtain ⟨parted, hparted, hout⟩ := bind_eq_ok.1 hout
  obtain ⟨tagged, htagged, hparted⟩ := bind_eq_ok.1 hparted
  obtain ⟨timed, htimed, htagged⟩ := bind_eq_ok.1 htagged
  obtain ⟨grouped, hgrouped, htimed⟩ := bind_eq_ok.1 htimed
  cases htagged
  have h₁ := forall_of_groupBraces (hread true) h hgrouped
  have h₂ := hp.applyMarkersFrom one_pos h₁ htimed
  have h₃ := forall_of_splitAt (hread false) hp.simul (hp.tagHolds h₂) hparted
  exact forall_of_splitAt (hread false) hp.sequence h₃ hout

/-- Wrapping a level adds at most a group. -/
theorem Buildable.wrapLevel (hp : Buildable p) {isExplicit : Bool} {nodes : List Node}
    (h : ∀ n ∈ nodes, p n) : p (Polyrhythm.wrapLevel isExplicit nodes) := by
  rw [Polyrhythm.wrapLevel.eq_def]
  split
  · exact h _ (List.mem_singleton_self _)
  · exact hp.group _ _ h

/-- Reading a level keeps the property, whatever the bound: every level inside is read in the same
way. -/
theorem Buildable.readLevelWithin (hp : Buildable p) {bound : Nat} {isExplicit : Bool}
    {nodes : List Node} {n : Node} (h : ∀ m ∈ nodes, p m)
    (hn : Polyrhythm.readLevelWithin bound isExplicit nodes = .ok n) : p n := by
  induction bound generalizing isExplicit nodes n with
  | zero => cases hn; exact hp.wrapLevel h
  | succ bound ih =>
    obtain ⟨out, hout, hn⟩ := bind_eq_ok.1 hn
    cases hn
    exact hp.wrapLevel (hp.passes (fun _ _ _ hns hm => ih hns hm) h hout)

/-- A tree that is built has every property that building keeps and the symbols of the tokens
have. -/
theorem Buildable.build (hp : Buildable p) {tokens : List Token} {root : Node}
    (h : ∀ t ∈ tokens, p t.symbol) (hroot : Polyrhythm.build tokens = .ok root) : p root :=
  hp.readLevelWithin (List.forall_mem_map.2 h) hroot

end

end Polyrhythm
