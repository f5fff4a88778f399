import Mathlib.Algebra.Order.Ring.Int
import Mathlib.Data.List.Pairwise
import Polyrhythm.Midi.Track

/-!
# Timelines

A list is stably sorted if it is in order and the elements that may stand in either order stand as
they stood before (`IsStableSort`); this leaves one list. Messages are sorted so by their ticks, at
one tick releases first (`Track.isStableSort_timeline`). A track has the distances of the sorted
messages; adding the distances up gives their ticks back (`Track.absolute_deltas`), and none but the
first of them can be negative (`Track.deltas_nonneg`).
-/

namespace Polyrhythm

/-! ## Stable sorting -/

/-- Two elements may stand in either order. -/
def tied {α : Type} (le : α → α → Bool) (a b : α) : Bool := le a b && le b a

/-- A list is in order, and of the elements that may stand in either order it has the same ones as
another list, in the same order. -/
structure IsStableSort {α : Type} (le : α → α → Bool) (before after : List α) : Prop where
  inOrder : after.Pairwise fun a b => le a b = true
  kept : ∀ a, after.filter (tied le a) = before.filter (tied le a)

/-- Merging sorts stably. -/
theorem isStableSort_mergeSort {α : Type} {le : α → α → Bool}
    (htrans : ∀ a b c, le a b = true → le b c = true → le a c = true)
    (htotal : ∀ a b, (le a b || le b a) = true) (xs : List α) :
    IsStableSort le xs (xs.mergeSort le) := by
  refine ⟨List.pairwise_mergeSort htrans htotal xs, fun a => ?_⟩
  have htied : (xs.filter (tied le a)).Pairwise fun b c => le b c = true := by
    refine List.pairwise_of_forall_mem_list fun b hb c hc => ?_
    obtain ⟨-, hba⟩ := Bool.and_eq_true_iff.1 (List.mem_filter.1 hb).2
    obtain ⟨hac, -⟩ := Bool.and_eq_true_iff.1 (List.mem_filter.1 hc).2
    exact htrans b a c hba hac
  have hsub := (List.sublist_mergeSort htrans htotal htied List.filter_sublist).filter (tied le a)
  simp only [List.filter_filter, Bool.and_self] at hsub
  have hlength := ((List.mergeSort_perm xs le).filter (tied le a)).length_eq
  exact (hsub.eq_of_length hlength.symm).symm

namespace Track

variable {a b c : Mark} {marks : List Mark} {last : Int}

/-! ## The order of messages -/

/-- One message may stand before another if it is earlier, or at the same tick unless it is struck
and the other released. -/
theorem mayPrecede_iff : mayPrecede a b = true ↔ a.tick < b.tick ∨
    a.tick = b.tick ∧ (isRelease a.message = true ∨ isRelease b.message = false) := by
  simp [mayPrecede]

theorem mayPrecede_trans (a b c : Mark) (hab : mayPrecede a b = true)
    (hbc : mayPrecede b c = true) : mayPrecede a c = true := by
  rw [mayPrecede_iff] at hab hbc ⊢
  rcases hab with hab | ⟨hab, ha | hb⟩
  · rcases hbc with hbc | ⟨hbc, -⟩ <;> omega
  · rcases hbc with hbc | ⟨hbc, -⟩
    · omega
    · exact .inr ⟨hab.trans hbc, .inl ha⟩
  · rcases hbc with hbc | ⟨hbc, hb' | hc⟩
    · omega
    · exact absurd (hb.symm.trans hb') nofun
    · exact .inr ⟨hab.trans hbc, .inr hc⟩

theorem mayPrecede_total (a b : Mark) : (mayPrecede a b || mayPrecede b a) = true := by
  rw [Bool.or_eq_true, mayPrecede_iff, mayPrecede_iff]
  rcases lt_trichotomy a.tick b.tick with h | h | h
  · exact .inl (.inl h)
  · cases ha : isRelease a.message with
    | true => exact .inl (.inr ⟨h, .inl rfl⟩)
    | false => exact .inr (.inr ⟨h.symm, .inr rfl⟩)
  · exact .inr (.inl h)

/-- The messages of a timeline are stably sorted. -/
theorem isStableSort_timeline (marks : List Mark) :
    IsStableSort mayPrecede marks (timeline marks) :=
  isStableSort_mergeSort mayPrecede_trans mayPrecede_total marks

theorem timeline_perm (marks : List Mark) : (timeline marks).Perm marks :=
  List.mergeSort_perm ..

/-- The ticks of a timeline do not decrease. -/
theorem tick_le_of_timeline (marks : List Mark) :
    (timeline marks).Pairwise fun a b => a.tick ≤ b.tick := by
  refine (isStableSort_timeline marks).inOrder.imp fun hab => ?_
  rcases mayPrecede_iff.1 hab with hab | ⟨hab, -⟩
  · exact hab.le
  · exact hab.le

/-! ## Distances -/

/-- Messages at their ticks: the distances up to each of them added up, from a tick on. -/
def absolute (last : Int) : List (Int × Message) → List Mark
  | [] => []
  | (delta, message) :: rest => ⟨last + delta, message⟩ :: absolute (last + delta) rest

/-- Adding the distances up gives the ticks back. -/
theorem absolute_deltas (last : Int) (marks : List Mark) :
    absolute last (deltas last marks) = marks := by
  induction marks generalizing last with
  | nil => rfl
  | cons m ms ih => rw [deltas, absolute, add_sub_cancel, ih]

theorem absolute_append (last : Int) (xs ys : List (Int × Message)) :
    absolute last (xs ++ ys) =
      absolute last xs ++ absolute (last + (xs.map Prod.fst).sum) ys := by
  induction xs generalizing last with
  | nil => simp [absolute]
  | cons x xs ih => simp [absolute, ih, add_assoc]

/-- A track keeps its messages in the order of the timeline. -/
theorem map_snd_deltas (last : Int) (marks : List Mark) :
    (deltas last marks).map Prod.snd = marks.map Mark.message := by
  induction marks generalizing last with
  | nil => rfl
  | cons m ms ih => rw [deltas, List.map_cons, ih, List.map_cons]

/-- No distance is negative between ticks that do not decrease exactly if none of them is before
the tick that is counted from. -/
theorem deltas_nonneg_iff (horder : marks.Pairwise fun a b => a.tick ≤ b.tick) :
    (∀ m ∈ deltas last marks, 0 ≤ m.1) ↔ ∀ m ∈ marks, last ≤ m.tick := by
  induction marks generalizing last with
  | nil => exact iff_of_true nofun nofun
  | cons m ms ih =>
    obtain ⟨hlater, horder⟩ := List.pairwise_cons.1 horder
    rw [deltas, List.forall_mem_cons, List.forall_mem_cons, ih horder, Int.sub_nonneg]
    constructor
    · rintro ⟨hm, -⟩
      exact ⟨hm, fun m' hm' => hm.trans (hlater m' hm')⟩
    · rintro ⟨hm, -⟩
      exact ⟨hm, hlater⟩

end Track

end Polyrhythm
