import Polyrhythm.Proofs.Grammar.Parts

/-!
# Lists related with a thread

Two lists can be related member by member while something is handed on from one pair to the next,
such as the name that an underscore would repeat (`Threaded`). What is handed on may be dropped
where a list ends, and a relation that can do without it does so anywhere (`Threaded.weaken`).
Cutting both lists at their separators cuts the thread into threads (`threaded_partsBetween`).
-/

namespace Polyrhythm

variable {σ τ α β γ δ : Type}

/-- What is left of something that is handed on: it, or nothing. -/
def Kept (before after : Option σ) : Prop := after = none ∨ after = before

/-- Two lists are related member by member, each pair being handed what the pair before it leaves.
-/
inductive Threaded (r : Option σ → α → β → Option σ → Prop) :
    Option σ → List α → List β → Option σ → Prop
  /-- Where both lists end, what was handed on is kept or dropped. -/
  | nil {s t : Option σ} : Kept s t → Threaded r s [] [] t
  /-- A pair, and the pairs after it. -/
  | cons {s t u : Option σ} {x : α} {y : β} {xs : List α} {ys : List β} :
    r s x y t → Threaded r t xs ys u → Threaded r s (x :: xs) (y :: ys) u

/-- A relation between members that are handed nothing holds as well if they are handed something.
-/
def Weakens (r : Option σ → α → β → Option σ → Prop) : Prop :=
  ∀ {x y t}, r none x y t → ∀ s, r s x y t

variable {r : Option σ → α → β → Option σ → Prop} {r' : Option σ → γ → δ → Option σ → Prop}
  {s t u : Option σ} {x : α} {y : β} {xs xs' : List α} {ys ys' : List β}

theorem Kept.refl (s : Option σ) : Kept s s := .inr rfl

theorem Kept.trans (h : Kept s t) (h' : Kept t u) : Kept s u := by
  rcases h' with rfl | rfl
  · exact .inl rfl
  · exact h

/-- Nothing is left of nothing. -/
theorem Kept.eq_none (h : Kept (none : Option σ) t) : t = none := h.elim id id

theorem Kept.map {f : σ → τ} (h : Kept s t) : Kept (s.map f) (t.map f) := by
  rcases h with rfl | rfl
  · exact .inl rfl
  · exact .refl _

namespace Threaded

theorem singleton (h : r s x y t) : Threaded r s [x] [y] t := .cons h (.nil (.refl t))

/-- What is left at the end may be dropped. -/
theorem keep (h : Threaded r s xs ys t) (ht : Kept t u) : Threaded r s xs ys u := by
  induction h with
  | nil hs => exact .nil (hs.trans ht)
  | cons hxy _ ih => exact .cons hxy (ih ht)

/-- Lists whose first pair is handed nothing are related as well if it is handed something. -/
theorem weaken (hr : Weakens r) (h : Threaded r none xs ys t) (s : Option σ) :
    Threaded r s xs ys t := by
  cases h with
  | nil ht => exact .nil (.inl ht.eq_none)
  | cons hxy h => exact .cons (hr hxy s) h

theorem append (hr : Weakens r) (h : Threaded r s xs ys t) (h' : Threaded r t xs' ys' u) :
    Threaded r s (xs ++ xs') (ys ++ ys') u := by
  induction h with
  | nil hs =>
    rcases hs with rfl | rfl
    · exact h'.weaken hr _
    · exact h'
  | cons hxy _ ih => exact .cons hxy (ih h')

/-- Members can be replaced by lists that are related with what the members hand on. -/
theorem flatMap {f : α → List γ} {g : β → List δ} (hr : Weakens r')
    (hfg : ∀ {s x y t}, r s x y t → Threaded r' s (f x) (g y) t) (h : Threaded r s xs ys t) :
    Threaded r' s (xs.flatMap f) (ys.flatMap g) t := by
  induction h with
  | nil hs => exact .nil hs
  | cons hxy _ ih => exact (hfg hxy).append hr ih

/-- Members can be replaced by others that are related likewise. -/
theorem map {f : α → γ} {g : β → δ} (hfg : ∀ {s x y t}, r s x y t → r' s (f x) (g y) t)
    (h : Threaded r s xs ys t) : Threaded r' s (xs.map f) (ys.map g) t := by
  induction h with
  | nil hs => exact .nil hs
  | cons hxy _ ih => exact .cons (hfg hxy) ih

/-- Members that have something in common have it place by place. -/
theorem map_eq {f : α → γ} {g : β → γ} (hfg : ∀ {s x y t}, r s x y t → f x = g y)
    (h : Threaded r s xs ys t) : xs.map f = ys.map g := by
  induction h with
  | nil => rfl
  | cons hxy _ ih => rw [List.map_cons, List.map_cons, hfg hxy, ih]

/-- Lists whose members are told apart by a test in the same places both have such members, or
neither has. -/
theorem any_eq {p : α → Bool} {q : β → Bool} (hpq : ∀ {s x y t}, r s x y t → p x = q y)
    (h : Threaded r s xs ys t) : xs.any p = ys.any q := by
  induction h with
  | nil => rfl
  | cons hxy _ ih => rw [List.any_cons, List.any_cons, hpq hxy, ih]

/-- What related members are known to be holds of all members of both lists. -/
theorem forall_mem {p : α → Prop} {q : β → Prop} (hpq : ∀ {s x y t}, r s x y t → p x ∧ q y)
    (h : Threaded r s xs ys t) : (∀ x ∈ xs, p x) ∧ ∀ y ∈ ys, q y := by
  induction h with
  | nil => exact ⟨nofun, nofun⟩
  | cons hxy _ ih =>
    obtain ⟨hx, hy⟩ := hpq hxy
    exact ⟨List.forall_mem_cons.2 ⟨hx, ih.1⟩, List.forall_mem_cons.2 ⟨hy, ih.2⟩⟩

/-- A list that is related to two lists in a row is itself two lists in a row. -/
theorem of_append {zs : List β} (h : Threaded r s (xs ++ xs') zs u) :
    ∃ t ys ys', zs = ys ++ ys' ∧ Threaded r s xs ys t ∧ Threaded r t xs' ys' u := by
  induction xs generalizing s zs with
  | nil => exact ⟨s, [], zs, rfl, .nil (.refl s), h⟩
  | cons x xs ih =>
    cases h with
    | @cons _ mid _ _ y _ _ hxy h =>
      obtain ⟨t, ys, ys', rfl, hys, hys'⟩ := ih h
      exact ⟨t, y :: ys, ys', rfl, .cons hxy hys, hys'⟩

/-- Lists in which nothing is ever handed on are related member by member. -/
theorem forall₂ (hnone : ∀ {s x y t}, r s x y t → t = none) (h : Threaded r none xs ys t) :
    List.Forall₂ (fun x y => r none x y none) xs ys := by
  induction xs generalizing ys with
  | nil => cases h; exact .nil
  | cons x xs ih =>
    cases h with
    | cons hxy h =>
      cases hnone hxy
      exact .cons hxy (ih h)

/-- Lists that are related member by member are related with nothing handed on. -/
theorem of_forall₂ (h : List.Forall₂ (fun x y => r none x y none) xs ys) :
    Threaded r none xs ys none := by
  induction h with
  | nil => exact .nil (.refl none)
  | cons hxy _ ih => exact .cons hxy ih

end Threaded

/-! ## Parts -/

/-- The pairs that were collected of a part: what they do in front of the pairs after them. -/
def Collected (r : Option σ → α → β → Option σ → Prop) (s : Option σ) (current : List α)
    (current' : List β) (t : Option σ) : Prop :=
  ∀ {more more' u}, Threaded r t more more' u →
    Threaded r s (current.reverse ++ more) (current'.reverse ++ more') u

theorem Collected.threaded {current : List α} {current' : List β}
    (h : Collected r s current current' t) : Threaded r s current.reverse current'.reverse t := by
  have hend := h (.nil (.refl t))
  rwa [List.append_nil, List.append_nil] at hend

theorem Collected.cons {current : List α} {current' : List β}
    (h : Collected r s current current' t) (hxy : r t x y u) :
    Collected r s (x :: current) (y :: current') u := by
  intro more more' v hmore
  rw [List.reverse_cons, List.reverse_cons, List.append_assoc, List.append_assoc]
  exact h (.cons hxy hmore)

section
variable {p : α → Bool} {q : β → Bool} {after : Option σ → Option σ}

/-- A part, and what it hands on: what a separator makes of what its last pair leaves. -/
def Handing (r : Option σ → α → β → Option σ → Prop) (after : Option σ → Option σ)
    (s : Option σ) (part : List α) (part' : List β) (t : Option σ) : Prop :=
  ∃ mid, Threaded r s part part' mid ∧ t = after mid

/-- Cutting related lists, some pairs of the current part being collected already. -/
theorem threaded_splitOnPPrepend (hsame : ∀ {s x y t}, r s x y t → p x = q y)
    (hafter : ∀ {s x y t}, r s x y t → p x = true → t = after s)
    (htwice : ∀ s, after (after s) = after s) {current : List α} {current' : List β}
    (hcollected : Collected r s current current' t)
    (hcurrent : current = [] ∧ current' = [] ∧ t = s ∧ after s = s ∨ current ≠ [] ∧ current' ≠ [])
    (h : Threaded r t xs ys u) :
    Threaded (Handing r after) s
      ((xs.splitOnPPrepend p current).filter fun part => !part.isEmpty)
      ((ys.splitOnPPrepend q current').filter fun part => !part.isEmpty) none := by
  induction xs generalizing ys s t current current' with
  | nil =>
    cases h
    rw [List.splitOnPPrepend_nil, List.splitOnPPrepend_nil]
    rcases hcurrent with ⟨rfl, rfl, -⟩ | ⟨hcurrent, hcurrent'⟩
    · exact .nil (.inl rfl)
    · rw [List.filter_cons_of_pos (by simpa using hcurrent),
        List.filter_cons_of_pos (by simpa using hcurrent')]
      exact .cons ⟨t, hcollected.threaded, rfl⟩ (.nil (.inl rfl))
  | cons x xs ih =>
    cases h with
    | @cons _ next _ _ y _ ys hxy h =>
      have hnothing {s : Option σ} : Collected r s [] [] s := fun h => h
      rw [List.splitOnPPrepend_cons_eq_if, List.splitOnPPrepend_cons_eq_if, ← hsame hxy]
      by_cases hx : p x = true
      · have hnext := hafter hxy hx
        have hstart : after next = next := hnext ▸ htwice t
        rw [if_pos hx, if_pos hx, List.splitOnP_eq_splitOnPPrepend,
          List.splitOnP_eq_splitOnPPrepend]
        rcases hcurrent with ⟨rfl, rfl, rfl, hs⟩ | ⟨hcurrent, hcurrent'⟩
        · rw [List.filter_cons_of_neg (by simp), List.filter_cons_of_neg (by simp)]
          obtain rfl := hnext.trans hs
          exact ih hnothing (.inl ⟨rfl, rfl, rfl, hs⟩) h
        · rw [List.filter_cons_of_pos (by simpa using hcurrent),
            List.filter_cons_of_pos (by simpa using hcurrent')]
          exact .cons ⟨t, hcollected.threaded, hnext⟩
            (ih hnothing (.inl ⟨rfl, rfl, rfl, hstart⟩) h)
      · rw [if_neg hx, if_neg hx]
        exact ih (hcollected.cons hxy) (.inr ⟨List.cons_ne_nil x _, List.cons_ne_nil y _⟩) h

/-- Cutting related lists at their separators gives related lists of parts, if the first part is
handed what a separator leaves as it is. -/
theorem threaded_partsBetween (after : Option σ → Option σ)
    (hsame : ∀ {s x y t}, r s x y t → p x = q y)
    (hafter : ∀ {s x y t}, r s x y t → p x = true → t = after s)
    (htwice : ∀ s, after (after s) = after s) (hs : after s = s) (h : Threaded r s xs ys u) :
    Threaded (Handing r after) s (partsBetween p xs) (partsBetween q ys) none := by
  have hnothing : Collected r s [] [] s := fun h => h
  rw [partsBetween, partsBetween, List.splitOnP_eq_splitOnPPrepend,
    List.splitOnP_eq_splitOnPPrepend]
  exact threaded_splitOnPPrepend (r := r) hsame hafter htwice hnothing
    (.inl ⟨rfl, rfl, rfl, hs⟩) h

end

end Polyrhythm
