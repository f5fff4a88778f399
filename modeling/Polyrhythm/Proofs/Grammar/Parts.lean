import Mathlib.Data.List.Basic
import Mathlib.Data.List.Forall2
import Polyrhythm.Level.Reading

/-!
# Parts between separators

`partsBetween` cuts a list at the members that satisfy a test and leaves empty parts out. The parts
hold exactly the other members (`mem_of_mem_partsBetween`, `exists_mem_partsBetween`), in their
order (`flatMap_partsBetween`); a list is cut at each of its separators
(`partsBetween_append_separator`), and changing or relating lists member by member changes or
relates their parts (`partsBetween_map`, `forall₂_partsBetween`). The chunks of a level are its
parts (`chunks_eq_partsBetween`).
-/

namespace Polyrhythm

variable {α β : Type} {p : α → Bool}

theorem splitOnPPrepend_map (f : β → α) (xs current : List β) :
    (xs.map f).splitOnPPrepend p (current.map f) =
      (xs.splitOnPPrepend (p ∘ f) current).map (List.map f) := by
  induction xs generalizing current with
  | nil => simp [List.splitOnPPrepend]
  | cons x xs ih =>
    have hnil := ih []
    have hcons := ih (x :: current)
    rw [List.map_nil] at hnil
    rw [List.map_cons] at hcons
    by_cases hx : p (f x) = true
    · simp [List.splitOnPPrepend, hx, hnil]
    · simp [List.splitOnPPrepend, hx, hcons]

/-- The parts of a changed list are the parts of the list, changed. -/
theorem partsBetween_map (f : β → α) (xs : List β) :
    partsBetween p (xs.map f) = (partsBetween (p ∘ f) xs).map (List.map f) := by
  have hsplit := splitOnPPrepend_map (p := p) f xs []
  rw [List.map_nil] at hsplit
  have hempty : (fun part : List α => !part.isEmpty) ∘ List.map f = fun part => !part.isEmpty := by
    funext part
    cases part <;> rfl
  rw [partsBetween, List.splitOnP_eq_splitOnPPrepend, hsplit, List.filter_map, hempty]
  rfl

/-- Cutting leaves the separators out. -/
theorem mem_of_mem_splitOnPPrepend {xs current part : List α} {x : α}
    (hcurrent : ∀ y ∈ current, p y = false) (hpart : part ∈ xs.splitOnPPrepend p current)
    (hx : x ∈ part) : (x ∈ current ∨ x ∈ xs) ∧ p x = false := by
  induction xs generalizing current with
  | nil =>
    rw [List.splitOnPPrepend_nil, List.mem_singleton] at hpart
    subst hpart
    have hx := List.mem_reverse.1 hx
    exact ⟨.inl hx, hcurrent x hx⟩
  | cons y ys ih =>
    rw [List.splitOnPPrepend_cons_eq_if] at hpart
    by_cases hy : p y = true
    · rw [if_pos hy, List.splitOnP_eq_splitOnPPrepend] at hpart
      rcases List.mem_cons.1 hpart with rfl | hpart
      · have hx := List.mem_reverse.1 hx
        exact ⟨.inl hx, hcurrent x hx⟩
      · obtain ⟨hmem, hpx⟩ := ih (List.forall_mem_nil _) hpart
        exact ⟨.inr (List.mem_cons_of_mem _ (hmem.resolve_left List.not_mem_nil)), hpx⟩
    · rw [if_neg hy] at hpart
      have hcollected : ∀ z ∈ y :: current, p z = false :=
        List.forall_mem_cons.2 ⟨Bool.eq_false_iff.2 hy, hcurrent⟩
      obtain ⟨hmem, hpx⟩ := ih hcollected hpart
      refine ⟨?_, hpx⟩
      rcases hmem with hmem | hmem
      · exact (List.mem_cons.1 hmem).symm.imp_right fun h => List.mem_cons.2 (.inl h)
      · exact .inr (List.mem_cons_of_mem _ hmem)

/-- The parts hold the members of a list that are no separators. -/
theorem mem_of_mem_partsBetween {xs part : List α} {x : α} (hpart : part ∈ partsBetween p xs)
    (hx : x ∈ part) : x ∈ xs ∧ p x = false := by
  have hpart := List.mem_of_mem_filter hpart
  rw [List.splitOnP_eq_splitOnPPrepend] at hpart
  obtain ⟨hmem, hpx⟩ := mem_of_mem_splitOnPPrepend (List.forall_mem_nil _) hpart hx
  exact ⟨hmem.resolve_left List.not_mem_nil, hpx⟩

/-- A list without separators is a single part, unless it is empty. -/
theorem partsBetween_of_absent {xs : List α} (h : ∀ x ∈ xs, p x = false) (hne : xs ≠ []) :
    partsBetween p xs = [xs] := by
  rw [partsBetween, List.splitOnP_eq_singleton h, List.filter_cons_of_pos (by simp [hne])]
  rfl

/-- The parts of a list with a separator in it are those before it and those after it. -/
theorem partsBetween_append_separator {separator : α} (hseparator : p separator = true)
    (xs ys : List α) :
    partsBetween p (xs ++ separator :: ys) = partsBetween p xs ++ partsBetween p ys := by
  have hsplit (current : List α) : (xs ++ separator :: ys).splitOnPPrepend p current =
      xs.splitOnPPrepend p current ++ ys.splitOnP p := by
    induction xs generalizing current with
    | nil =>
      rw [List.nil_append, List.splitOnPPrepend_cons_eq_if, if_pos hseparator,
        List.splitOnPPrepend_nil]
      rfl
    | cons x xs ih =>
      rw [List.cons_append, List.splitOnPPrepend_cons_eq_if, List.splitOnPPrepend_cons_eq_if]
      split
      · rw [List.splitOnP_eq_splitOnPPrepend, ih, ← List.splitOnP_eq_splitOnPPrepend]
        rfl
      · exact ih _
  rw [partsBetween, partsBetween, partsBetween, List.splitOnP_eq_splitOnPPrepend, hsplit,
    List.filter_append, ← List.splitOnP_eq_splitOnPPrepend]

/-- What is before the first separator is the first part, unless it is empty. -/
theorem partsBetween_append_cons {xs : List α} {separator : α} (h : ∀ x ∈ xs, p x = false)
    (hne : xs ≠ []) (hseparator : p separator = true) (ys : List α) :
    partsBetween p (xs ++ separator :: ys) = xs :: partsBetween p ys := by
  rw [partsBetween_append_separator hseparator, partsBetween_of_absent h hne, List.singleton_append]

/-- Collecting over the parts is collecting over the list, if separators add nothing. -/
theorem flatMap_partsBetween {f : α → List β}
    (hf : ∀ x, p x = true → f x = []) (xs : List α) :
    (partsBetween p xs).flatMap (List.flatMap f) = xs.flatMap f := by
  have hempty (parts : List (List α)) :
      (parts.filter fun part => !part.isEmpty).flatMap (List.flatMap f) =
        parts.flatMap (List.flatMap f) := by
    induction parts with
    | nil => rfl
    | cons part parts ih => cases part <;> simp [ih]
  have hsplit (current : List α) :
      (xs.splitOnPPrepend p current).flatMap (List.flatMap f) =
        current.reverse.flatMap f ++ xs.flatMap f := by
    induction xs generalizing current with
    | nil => simp [List.splitOnPPrepend]
    | cons x xs ih =>
      rw [List.splitOnPPrepend_cons_eq_if]
      by_cases hx : p x = true
      · rw [if_pos hx, List.splitOnP_eq_splitOnPPrepend, List.flatMap_cons, ih, List.flatMap_cons,
          hf x hx]
        rfl
      · rw [if_neg hx, ih, List.reverse_cons, List.flatMap_append, List.flatMap_singleton,
          List.append_assoc, List.flatMap_cons]
  rw [partsBetween, hempty, List.splitOnP_eq_splitOnPPrepend, hsplit]
  rfl

/-- Whatever is no separator is in some part. -/
theorem exists_mem_partsBetween {xs : List α} {x : α} (hx : x ∈ xs) (hp : p x = false) :
    ∃ part ∈ partsBetween p xs, x ∈ part := by
  let kept (y : α) : List α := if p y = true then [] else [y]
  have hflat : (partsBetween p xs).flatMap (List.flatMap kept) = xs.flatMap kept :=
    flatMap_partsBetween (fun y hy => if_pos hy) xs
  have hmem : x ∈ xs.flatMap kept := List.mem_flatMap.2 ⟨x, hx, by simp [kept, hp]⟩
  rw [← hflat] at hmem
  obtain ⟨part, hpart, hmem⟩ := List.mem_flatMap.1 hmem
  obtain ⟨y, hy, hmem⟩ := List.mem_flatMap.1 hmem
  have hxy : x = y := by
    by_cases hpy : p y = true
    · simp [kept, hpy] at hmem
    · simpa [kept, hpy] using hmem
  exact ⟨part, hpart, hxy ▸ hy⟩

/-- Related lists with the same separators have separators both or not at all. -/
theorem any_eq_of_forall₂ {q : β → Bool} {related : α → β → Prop}
    {xs : List α} {ys : List β} (h : List.Forall₂ related xs ys)
    (hsame : ∀ x y, related x y → p x = q y) : xs.any p = ys.any q := by
  induction h with
  | nil => rfl
  | cons hxy _ ih => rw [List.any_cons, List.any_cons, hsame _ _ hxy, ih]

/-- Every member of a list has a related member in a related list. -/
theorem exists_mem_of_forall₂ {related : α → β → Prop} {xs : List α} {ys : List β}
    (h : List.Forall₂ related xs ys) {x : α} (hx : x ∈ xs) : ∃ y ∈ ys, related x y := by
  induction h with
  | nil => cases hx
  | @cons x' y xs ys hxy _ ih =>
    rcases List.mem_cons.1 hx with rfl | hlater
    · exact ⟨y, List.mem_cons_self, hxy⟩
    · obtain ⟨z, hz, hxz⟩ := ih hlater
      exact ⟨z, List.mem_cons_of_mem _ hz, hxz⟩

/-- Related lists with the same separators have related parts. -/
theorem forall₂_partsBetween {q : β → Bool} {related : α → β → Prop} {xs : List α} {ys : List β}
    (h : List.Forall₂ related xs ys) (hsame : ∀ x y, related x y → p x = q y) :
    List.Forall₂ (List.Forall₂ related) (partsBetween p xs) (partsBetween q ys) := by
  have hsplit {current : List α} {current' : List β}
      (hcurrent : List.Forall₂ related current current') :
      List.Forall₂ (List.Forall₂ related) (xs.splitOnPPrepend p current)
        (ys.splitOnPPrepend q current') := by
    induction h generalizing current current' with
    | nil =>
      rw [List.splitOnPPrepend_nil, List.splitOnPPrepend_nil]
      exact .cons (List.rel_reverse hcurrent) .nil
    | @cons x y xs ys hxy _ ih =>
      rw [List.splitOnPPrepend_cons_eq_if, List.splitOnPPrepend_cons_eq_if, hsame x y hxy]
      split
      · rw [List.splitOnP_eq_splitOnPPrepend, List.splitOnP_eq_splitOnPPrepend]
        exact .cons (List.rel_reverse hcurrent) (ih .nil)
      · exact ih (.cons hxy hcurrent)
  rw [partsBetween, partsBetween, List.splitOnP_eq_splitOnPPrepend,
    List.splitOnP_eq_splitOnPPrepend]
  refine List.rel_filter ?_ (hsplit .nil)
  intro part part' hparts
  cases hparts <;> simp

/-- If a list of at most one member has one that is no separator, that is its member. -/
theorem eq_singleton_of_dropWhile {xs rest : List α} {x : α}
    (h : xs.dropWhile p = x :: rest) (hlength : xs.length ≤ 1) : xs = [x] := by
  cases xs with
  | nil => cases h
  | cons y ys =>
    cases ys with
    | cons z zs => exact absurd hlength (by simp)
    | nil =>
      by_cases hy : p y = true
      · rw [List.dropWhile_cons_of_pos hy] at h
        cases h
      · rw [List.dropWhile_cons_of_neg hy] at h
        cases h
        rfl

/-- The first part starts with the first member that is no separator. -/
theorem partsBetween_of_dropWhile {xs ys : List α} {y : α} (h : xs.dropWhile p = y :: ys) :
    ∃ more others, partsBetween p xs = (y :: more) :: others := by
  have hsplit (current xs : List α) :
      ∃ more others, xs.splitOnPPrepend p current = (current.reverse ++ more) :: others := by
    induction xs generalizing current with
    | nil => exact ⟨[], [], by simp [List.splitOnPPrepend]⟩
    | cons x xs ih =>
      rw [List.splitOnPPrepend_cons_eq_if]
      split
      · exact ⟨[], _, by rw [List.append_nil]⟩
      · obtain ⟨more, others, heq⟩ := ih (x :: current)
        exact ⟨x :: more, others, by rw [heq, List.reverse_cons, List.append_assoc]; rfl⟩
  induction xs with
  | nil => cases h
  | cons x xs ih =>
    rw [partsBetween, List.splitOnP_eq_splitOnPPrepend, List.splitOnPPrepend_cons_eq_if]
    by_cases hx : p x = true
    · rw [List.dropWhile_cons_of_pos hx] at h
      rw [if_pos hx, List.filter_cons_of_neg (by simp)]
      exact ih h
    · rw [List.dropWhile_cons_of_neg hx] at h
      cases h
      obtain ⟨more, others, heq⟩ := hsplit [y] ys
      rw [if_neg hx, heq, List.filter_cons_of_pos (by simp)]
      exact ⟨more, _, rfl⟩

/-- Cutting a level at a separator gives the parts between the separators. -/
theorem chunks_eq_partsBetween (separator : String) (nodes : List Node) :
    chunks separator nodes = partsBetween (Node.isSymbol separator) nodes := by
  have from_ (current : List Node) : chunksFrom separator current nodes =
      (nodes.splitOnPPrepend (Node.isSymbol separator) current).filter
        fun part => !part.isEmpty := by
    induction nodes generalizing current with
    | nil => cases current <;> simp [chunksFrom, List.splitOnPPrepend]
    | cons n rest ih =>
      rw [chunksFrom, List.splitOnPPrepend_cons_eq_if]
      by_cases hn : n.isSymbol separator = true
      · rw [if_pos hn, if_pos hn, List.splitOnP_eq_splitOnPPrepend, ih []]
        cases current <;> simp
      · rw [if_neg hn, if_neg hn, ih (n :: current)]
  exact from_ []

end Polyrhythm
