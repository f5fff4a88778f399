import Mathlib.Algebra.BigOperators.Group.List.Lemmas
import Mathlib.Algebra.Order.BigOperators.Group.List
import Polyrhythm.Proofs.Timing.Proportion
import Polyrhythm.Proofs.Tree.Written
import Polyrhythm.Timing.Natural
import Polyrhythm.Timing.Settle

/-!
# Settled trees, read from the top

Settling works from the inside out: every composite is settled after all it holds, and then what it
holds may be fitted again, at every comma and period around it. `Node.laid` says from the top what
comes of it. It passes down one factor, by which the natural durations of a tree are multiplied, and
gives every part of a simul and every segment of a sequence the natural duration of the first. The
main statement is that settling a tree of notation succeeds and yields the tree laid out by the
factor one (`Node.settle_eq_ok`); it rests on scaling a tree that is laid out being the same as
laying it out by another factor (`Node.scale_laid`).
-/

namespace Polyrhythm.Node

open Traversal

/-! ## Natural durations -/

theorem naturalSum_eq_sum (content : List Node) :
    naturalSum content = (content.map natural).sum := by
  induction content with
  | nil => rfl
  | cons n ns ih => rw [naturalSum, ih, List.map_cons, List.sum_cons]

variable {n : Node}

/-- The first of several natural durations is not negative if none of them is. -/
theorem naturalFirst_nonneg {content : List Node} (h : ∀ c ∈ content, 0 ≤ c.natural) :
    0 ≤ naturalFirst content := by
  cases content with
  | nil => exact le_rfl
  | cons c cs => exact h c (List.mem_cons_self ..)

/-- Natural durations are not negative. -/
theorem natural_nonneg (h : n.Written) : 0 ≤ n.natural := by
  induction n with
  | symbol s => exact (one_div_pos.2 h.symbol.1).le
  | hold s => exact (one_div_pos.2 h.hold.1).le
  | group content isExplicit duration ih =>
    rw [natural, naturalSum_eq_sum]
    exact List.sum_nonneg (List.forall_mem_map.2 fun c hc => ih c hc (h.child hc))
  | simul content duration ih => exact naturalFirst_nonneg fun c hc => ih c hc (h.child hc)
  | sequence content ih =>
    exact mul_nonneg (Nat.cast_nonneg _) (naturalFirst_nonneg fun c hc => ih c hc (h.child hc))
  | held | foreign => exact le_rfl

/-- Natural durations that add up to zero are zero each. -/
theorem natural_eq_zero {content : List Node} (h : ∀ c ∈ content, c.Written)
    (hsum : naturalSum content = 0) : ∀ c ∈ content, c.natural = 0 := by
  intro c hc
  have hnonneg : ∀ d ∈ content.map natural, 0 ≤ d :=
    List.forall_mem_map.2 fun m hm => natural_nonneg (h m hm)
  rw [naturalSum_eq_sum] at hsum
  exact List.all_zero_of_le_zero_le_of_sum_eq_zero hnonneg hsum (List.mem_map_of_mem hc)

/-- If no composite is empty, natural durations are positive. -/
theorem natural_pos (h : n.Written) (hcontent : n.Every HasContent) : 0 < n.natural := by
  have first {content : List Node} (hne : content ≠ []) (h : ∀ c ∈ content, 0 < c.natural) :
      0 < naturalFirst content := by
    cases content with
    | nil => exact absurd rfl hne
    | cons c cs => exact h c (List.mem_cons_self ..)
  induction n with
  | symbol s => exact one_div_pos.2 h.symbol.1
  | hold s => exact one_div_pos.2 h.hold.1
  | group content isExplicit duration ih =>
    have hpos : ∀ c ∈ content, 0 < c.natural :=
      fun c hc => ih c hc (h.child hc) (hcontent.child hc)
    rw [natural, naturalSum_eq_sum]
    refine List.sum_pos _ (List.forall_mem_map.2 hpos) ?_
    intro hnil
    exact hcontent.self rfl (List.map_eq_nil_iff.1 hnil)
  | simul content duration ih =>
    exact first (hcontent.self rfl) fun c hc => ih c hc (h.child hc) (hcontent.child hc)
  | sequence content ih =>
    have hne : content ≠ [] := hcontent.self rfl
    have hlength : (0 : Rat) < content.length := by
      exact_mod_cast List.length_pos_iff.2 hne
    exact mul_pos hlength
      (first hne fun c hc => ih c hc (h.child hc) (hcontent.child hc))
  | held => exact absurd h not_written_held
  | foreign => exact absurd h not_written_foreign

/-! ## Laying out -/

mutual
/-- An element as it is once it is settled and then stretched by a factor. -/
def laid (factor : Rat) : Node → Node
  | symbol s => symbol { s.splitPitch with duration := some (factor * (1 / s.tempo)) }
  | hold h => hold { h with duration := some (factor * (1 / h.tempo)) }
  | group content isExplicit _ =>
    group (laidEach factor content) isExplicit (some (factor * naturalSum content))
  | simul content _ =>
    simul (laidTo (naturalFirst content) factor content) (some (factor * naturalFirst content))
  | sequence content =>
    group (splice (laidTo (naturalFirst content) factor content)) false
      (some (factor * (content.length * naturalFirst content)))
  | held content h => held content h
  | foreign kind => foreign kind

/-- Elements stretched by one factor. -/
def laidEach (factor : Rat) : List Node → List Node
  | [] => []
  | n :: ns => laid factor n :: laidEach factor ns

/-- Elements stretched so that all last a common natural duration times a factor. The content of an
element of natural duration zero is stretched by zero. -/
def laidTo (common factor : Rat) : List Node → List Node
  | [] => []
  | n :: ns =>
    (laid (factor * (common / natural n)) n).lasting (factor * common) ::
      laidTo common factor ns
end

theorem laidEach_eq_map (factor : Rat) (ns : List Node) :
    laidEach factor ns = ns.map (laid factor) := by
  induction ns with
  | nil => rfl
  | cons n ns ih => rw [laidEach, ih, List.map_cons]

/-- One of several elements that are to last a common natural duration times a factor. -/
def laidAs (common factor : Rat) (n : Node) : Node :=
  (n.laid (factor * (common / n.natural))).lasting (factor * common)

theorem laidTo_eq_map (common factor : Rat) (ns : List Node) :
    laidTo common factor ns = ns.map (laidAs common factor) := by
  induction ns with
  | nil => rfl
  | cons n ns ih => rw [laidTo, ih, List.map_cons, laidAs]

/-- An element that is laid out lasts its natural duration times the factor. -/
theorem duration?_laid (h : n.Written) (factor : Rat) :
    (n.laid factor).duration? = some (factor * n.natural) := by
  cases n with
  | symbol | hold | group | simul | sequence => rfl
  | held => exact absurd h not_written_held
  | foreign => exact absurd h not_written_foreign

theorem extent_laid (h : n.Written) (factor : Rat) :
    (n.laid factor).extent = factor * n.natural :=
  extent_of_duration? (duration?_laid h factor)

/-! ## Splicing -/

/-- Splicing a list takes an element as it is or takes the elements of a group without braces. -/
theorem mem_of_mem_splice {ns : List Node} {m : Node} (h : m ∈ splice ns) :
    m ∈ ns ∨ ∃ content duration, group content false duration ∈ ns ∧ m ∈ content := by
  obtain ⟨c, hc, hm⟩ := List.mem_flatMap.1 h
  split at hm
  · exact .inr ⟨_, _, hc, hm⟩
  · exact .inl (List.mem_singleton.1 hm ▸ hc)

/-- What holds of every element of a list holds of every element after splicing. -/
theorem every_of_mem_splice {p : Node → Prop} {ns : List Node} (h : ∀ n ∈ ns, n.Every p) :
    ∀ m ∈ splice ns, m.Every p := by
  intro m hm
  rcases mem_of_mem_splice hm with hm | ⟨content, duration, hgroup, hm⟩
  · exact h m hm
  · exact (h _ hgroup).child hm

/-- Splicing is done one element after another. -/
theorem splice_cons (n : Node) (ns : List Node) : splice (n :: ns) = splice [n] ++ splice ns := by
  simp [splice]

/-- A change of every element that takes groups without braces to such groups can be made before
splicing or after it. -/
theorem map_splice {f : Node → Node} {ns : List Node}
    (h : ∀ n ∈ ns, (splice [n]).map f = splice [f n]) : (splice ns).map f = splice (ns.map f) := by
  induction ns with
  | nil => rfl
  | cons n ns ih =>
    obtain ⟨hn, hns⟩ := List.forall_mem_cons.1 h
    rw [splice_cons, List.map_append, hn, ih hns, List.map_cons, ← splice_cons]

/-- Groups without braces stay so when they are scaled. -/
theorem map_scale_splice (factor : Rat) (ns : List Node) :
    (splice ns).map (scale factor) = splice (ns.map (scale factor)) := by
  refine map_splice fun n _ => ?_
  cases n with
  | group content isExplicit duration => cases isExplicit <;> simp [splice, scale]
  | _ => rfl

/-! ## Scaling what is laid out -/

/-- Scaling an element that is to last a common duration, if scaling it when it is laid out is
laying it out by another factor. -/
theorem scale_laidAs_of {common factor next : Rat}
    (h : ∀ factor, (n.laid factor).scale next = n.laid (factor * next)) :
    (n.laidAs common factor).scale next = n.laidAs common (factor * next) := by
  rw [laidAs, laidAs, scale_lasting, h, mul_right_comm factor (common / n.natural) next,
    mul_right_comm factor common next]

/-- Scaling a tree that is laid out is laying it out by another factor. -/
theorem scale_laid (h : n.Written) (factor next : Rat) :
    (n.laid factor).scale next = n.laid (factor * next) := by
  have likewise {content : List Node} (common factor : Rat)
      (ih : ∀ c ∈ content, ∀ factor, (c.laid factor).scale next = c.laid (factor * next)) :
      (content.map (laidAs common factor)).map (scale next) =
        content.map (laidAs common (factor * next)) := by
    rw [List.map_map]
    exact List.map_congr_left fun c hc => scale_laidAs_of (ih c hc)
  induction n generalizing factor with
  | symbol s => simp [laid, scale, mul_right_comm]
  | hold s =>
    obtain ⟨-, hslots⟩ := h.hold
    simp [laid, scale, Hold.scale, hslots, mul_right_comm]
  | group content isExplicit duration ih =>
    have heach : (content.map (laid factor)).map (scale next) =
        content.map (laid (factor * next)) := by
      rw [List.map_map]
      exact List.map_congr_left fun c hc => ih c hc (h.child hc) factor
    simp [laid, scale, laidEach_eq_map, heach, mul_right_comm]
  | simul content duration ih =>
    have hparts := likewise (naturalFirst content) factor
      fun c hc => ih c hc (h.child hc)
    simp only [laid, scale, laidTo_eq_map, scaleDurations_eq_map, hparts, Option.map_some,
      mul_right_comm]
  | sequence content ih =>
    have hparts := likewise (naturalFirst content) factor
      fun c hc => ih c hc (h.child hc)
    simp only [laid, scale, laidTo_eq_map, scaleDurations_eq_map, map_scale_splice, hparts,
      Option.map_some, mul_right_comm]
  | held => exact absurd h not_written_held
  | foreign => exact absurd h not_written_foreign

/-! ## Proportions -/

/-- Whether an element is gathered with holds after it. -/
def isHeld : Node → Bool
  | held .. => true
  | _ => false

/-- What an element of a settled tree is: proportioned, and not gathered yet. -/
def Settled (n : Node) : Prop := n.Proportioned ∧ n.isHeld = false

/-- If proportioned elements last no time, nothing that is left after splicing does. -/
theorem duration?_of_mem_splice {ns : List Node} {m : Node}
    (h : ∀ n ∈ ns, n.Proportioned ∧ n.duration? = some 0) (hm : m ∈ splice ns) :
    m.duration? = some 0 := by
  rcases mem_of_mem_splice hm with hm | ⟨content, duration, hgroup, hm⟩
  · exact (h m hm).2
  · obtain ⟨⟨d, rfl, hchildren⟩, hd⟩ := h _ hgroup
    exact hchildren (Option.some.inj hd) m hm

/-- An element keeps its proportions when its duration is replaced, if it lasted no time before or
is to last as long as it did. -/
theorem Settled.lasting {d : Rat} (h : n.Every Settled)
    (hd : n.duration? = some 0 ∨ n.duration? = some d) : (n.lasting d).Every Settled := by
  rcases hd with hzero | hd
  · cases n with
    | symbol s => exact every_symbol.2 ⟨⟨d, rfl⟩, rfl⟩
    | hold s => exact every_hold.2 ⟨⟨h.self.1.1, d, rfl⟩, rfl⟩
    | group content isExplicit duration =>
      obtain ⟨⟨⟨d', rfl, hchildren⟩, -⟩, hcontent⟩ := every_group.1 h
      cases hzero
      exact every_group.2 ⟨⟨⟨d, rfl, fun _ => hchildren rfl⟩, rfl⟩, hcontent⟩
    | simul content duration =>
      obtain ⟨⟨⟨d', rfl, hchildren⟩, -⟩, hcontent⟩ := every_simul.1 h
      cases hzero
      exact every_simul.2 ⟨⟨⟨d, rfl, fun _ => hchildren rfl⟩, rfl⟩, hcontent⟩
    | held => cases h.self.2
    | sequence | foreign => exact h
  · rwa [lasting_eq_self hd]

/-- An element that is to last a common duration lasts it, if it has a duration when it is laid
out. -/
theorem duration?_laidAs_of (hlaid : ∀ factor, (n.laid factor).Proportioned)
    (common factor : Rat) : (n.laidAs common factor).duration? = some (factor * common) :=
  (hlaid _).duration?_lasting _

/-- An element that is to last a common duration is settled, if it is so when it is laid out: its
duration is replaced only if it lasts no time. -/
theorem settled_laidAs_of (h : n.Written) (hlaid : ∀ factor, (n.laid factor).Every Settled)
    (common factor : Rat) : (n.laidAs common factor).Every Settled := by
  refine Settled.lasting (hlaid _) ?_
  rw [duration?_laid h]
  by_cases hzero : n.natural = 0
  · exact .inl (by rw [hzero, mul_zero])
  · exact .inr (by rw [mul_assoc, div_mul_cancel₀ _ hzero])

/-- A tree that is laid out is settled. -/
theorem settled_laid (h : n.Written) (factor : Rat) : (n.laid factor).Every Settled := by
  have likewise {content : List Node} (common factor : Rat)
      (hcontent : ∀ c ∈ content, c.Written)
      (ih : ∀ c ∈ content, ∀ factor, (c.laid factor).Every Settled) :
      ∀ m ∈ content.map (laidAs common factor),
        m.duration? = some (factor * common) ∧ m.Every Settled :=
    List.forall_mem_map.2 fun c hc =>
      ⟨duration?_laidAs_of (fun factor => (ih c hc factor).self.1) common factor,
        settled_laidAs_of (hcontent c hc) (ih c hc) common factor⟩
  induction n generalizing factor with
  | symbol s => exact every_symbol.2 ⟨⟨_, rfl⟩, rfl⟩
  | hold s => exact every_hold.2 ⟨⟨h.hold.2, _, rfl⟩, rfl⟩
  | group content isExplicit duration ih =>
    rw [laid, laidEach_eq_map]
    refine every_group.2 ⟨⟨⟨_, rfl, ?_⟩, rfl⟩,
      List.forall_mem_map.2 fun c hc => ih c hc (h.child hc) factor⟩
    intro hzero
    refine List.forall_mem_map.2 ?_
    intro c hc
    rw [duration?_laid (h.child hc)]
    rcases mul_eq_zero.1 hzero with hfactor | hsum
    · rw [hfactor, zero_mul]
    · rw [natural_eq_zero (fun c hc => h.child hc) hsum c hc, mul_zero]
  | simul content duration ih =>
    have hparts := likewise (naturalFirst content) factor
      (fun c hc => h.child hc) fun c hc => ih c hc (h.child hc)
    rw [laid, laidTo_eq_map]
    exact every_simul.2 ⟨⟨⟨_, rfl, fun hzero m hm => hzero ▸ (hparts m hm).1⟩, rfl⟩,
      fun m hm => (hparts m hm).2⟩
  | sequence content ih =>
    have hparts := likewise (naturalFirst content) factor
      (fun c hc => h.child hc) fun c hc => ih c hc (h.child hc)
    rw [laid, laidTo_eq_map]
    refine every_group.2 ⟨⟨⟨_, rfl, ?_⟩, rfl⟩, every_of_mem_splice fun m hm => (hparts m hm).2⟩
    intro hzero m hm
    have hcommon : factor * naturalFirst content = 0 := by
      have hlength : (content.length : Rat) ≠ 0 := by
        intro hlength
        cases List.length_eq_zero_iff.1 (Nat.cast_eq_zero.1 hlength)
        cases hm
      rw [mul_left_comm] at hzero
      exact (mul_eq_zero.1 hzero).resolve_left hlength
    refine duration?_of_mem_splice ?_ hm
    intro c hc
    obtain ⟨hd, hsettled⟩ := hparts c hc
    exact ⟨hsettled.self.1, hcommon ▸ hd⟩
  | held => exact absurd h not_written_held
  | foreign => exact absurd h not_written_foreign

/-- A tree that is laid out is proportioned. -/
theorem proportioned_laid (h : n.Written) (factor : Rat) : (n.laid factor).Every Proportioned :=
  (settled_laid h factor).imp fun _ hm => hm.1

/-- An element that is to last a common duration is settled. -/
theorem settled_laidAs (h : n.Written) (common factor : Rat) :
    (n.laidAs common factor).Every Settled :=
  settled_laidAs_of h (settled_laid h) common factor

/-- An element that is to last a common duration lasts it. -/
theorem duration?_laidAs (h : n.Written) (common factor : Rat) :
    (n.laidAs common factor).duration? = some (factor * common) :=
  duration?_laidAs_of (fun factor => (proportioned_laid h factor).self) common factor

theorem extent_laidAs (h : n.Written) (common factor : Rat) :
    (n.laidAs common factor).extent = factor * common :=
  extent_of_duration? (duration?_laidAs h common factor)

/-- An element that is to last as long as it does already is laid out as it is. -/
theorem laidAs_natural (h : n.Written) (factor : Rat) :
    n.laidAs n.natural factor = n.laid factor := by
  rw [laidAs]
  by_cases hzero : n.natural = 0
  · have hduration : ∀ factor, (n.laid factor).duration? = some 0 := fun factor => by
      rw [duration?_laid h, hzero, mul_zero]
    -- All it holds lasts no time, so that no factor makes a difference.
    have hlaid : n.laid (factor * (n.natural / n.natural)) = n.laid factor := by
      rw [← scale_laid h, scale_eq_self (proportioned_laid h factor) (hduration factor)]
    rw [hlaid, hzero, mul_zero, lasting_eq_self (hduration factor)]
  · rw [div_self hzero, mul_one, lasting_eq_self (duration?_laid h factor)]

/-- Fitting a tree as it is settled gives the tree as it is laid out for the new duration. -/
theorem fit_laid (h : n.Written) (d : Rat) : (n.laid 1).fit d = .ok (n.laidAs d 1) := by
  rw [fit_eq_ok (proportioned_laid h 1), scale_laid h, extent_laid h, laidAs]
  simp only [one_mul]

/-! ## Every element of a laid out tree -/

@[simp]
theorem isHold_laid (n : Node) (factor : Rat) : (n.laid factor).isHold = n.isHold := by
  cases n <;> rfl

@[simp]
theorem isHold_lasting (n : Node) (d : Rat) : (n.lasting d).isHold = n.isHold := by
  cases n <;> rfl

section
variable {p q : Node → Prop}

/-- A property of every element stays one if the duration of an element is replaced and the element
keeps it. -/
theorem Every.lasting {d : Rat} (h : n.Every p) (hself : p (n.lasting d)) :
    (n.lasting d).Every p := by
  cases n with
  | sequence | foreign => exact h
  | _ => exact every_iff.2 ⟨hself, fun c hc => h.child hc⟩

/-- A property of every element of a laid out tree that says nothing about durations follows from
what is known of the elements that are laid out. -/
theorem every_laid (hlaid : ∀ (n : Node) (factor : Rat), n.Every q → p (n.laid factor))
    (hlasting : ∀ (n : Node) (d : Rat), p n → p (n.lasting d)) (h : n.Written) (hn : n.Every q)
    (factor : Rat) : (n.laid factor).Every p := by
  have fitted {c : Node} (hc : ∀ factor, (c.laid factor).Every p) (common factor : Rat) :
      (c.laidAs common factor).Every p :=
    (hc _).lasting (hlasting _ _ (hc _).self)
  induction n generalizing factor with
  | symbol | hold => exact every_iff.2 ⟨hlaid _ factor hn, nofun⟩
  | group content isExplicit duration ih =>
    refine every_iff.2 ⟨hlaid _ factor hn, ?_⟩
    rw [laid, laidEach_eq_map]
    exact List.forall_mem_map.2 fun c hc => ih c hc (h.child hc) (hn.child hc) factor
  | simul content duration ih =>
    refine every_iff.2 ⟨hlaid _ factor hn, ?_⟩
    rw [laid, laidTo_eq_map]
    exact List.forall_mem_map.2 fun c hc => fitted (ih c hc (h.child hc) (hn.child hc)) _ factor
  | sequence content ih =>
    have hparts : ∀ m ∈ content.map (laidAs (naturalFirst content) factor), m.Every p :=
      List.forall_mem_map.2 fun c hc => fitted (ih c hc (h.child hc) (hn.child hc)) _ factor
    refine every_iff.2 ⟨hlaid _ factor hn, ?_⟩
    rw [laid, laidTo_eq_map]
    exact every_of_mem_splice hparts
  | held => exact absurd h not_written_held
  | foreign => exact absurd h not_written_foreign

end

/-! ## Settling -/

/-- Elements that can be settled are settled stage by stage without a fault. -/
theorem inStages_settleEach {content : List Node} {f : Node → Node}
    (h : ∀ c ∈ content, c.settle = .ok (f c)) :
    inStages (settleEach content) = .ok (content.map f) := by
  have hnone := faultAt_eq_none fun c hc => ⟨f c, h c hc⟩
  simp only [inStages, List.findSome?_cons, hnone, List.findSome?_nil]
  rw [settleEach_eq_map, List.mapM_map]
  exact mapM_of_forall h

/-- Durations that are known can be added up. -/
theorem totalDuration_eq_ok {ns : List Node} (h : ∀ n ∈ ns, n.knownDuration = .ok n.extent) :
    totalDuration ns = .ok (ns.map extent).sum := by
  have from_ (total : Rat) : ns.foldlM (fun total n => return total + (← n.knownDuration)) total =
      (.ok (total + (ns.map extent).sum) : Except Fault Rat) := by
    induction ns generalizing total with
    | nil => simp [pure, Except.pure]
    | cons n ns ih =>
      obtain ⟨hn, hns⟩ := List.forall_mem_cons.1 h
      rw [List.foldlM_cons, hn, List.map_cons, List.sum_cons, ← add_assoc]
      exact ih hns (total + n.extent)
  rw [totalDuration, from_ 0, zero_add]

/-- Unifying settled elements stretches all of them to the natural duration of the first. -/
theorem unify_laid {content : List Node} (h : ∀ c ∈ content, c.Written) :
    unify (content.map (laid 1)) = .ok (content.map (laidAs (naturalFirst content) 1)) := by
  cases content with
  | nil => rfl
  | cons first rest =>
    obtain ⟨hfirst, hrest⟩ := List.forall_mem_cons.1 h
    have hpart := (proportioned_laid hfirst 1).self.durationPart
    have hrest' : (rest.map (laid 1)).mapM (fit first.natural) =
        (.ok (rest.map (laidAs first.natural 1)) : Except Fault (List Node)) := by
      rw [List.mapM_map]
      exact mapM_of_forall fun c hc => fit_laid (hrest c hc) first.natural
    rw [extent_laid hfirst, one_mul] at hpart
    simp only [List.map_cons, unify, hpart, Option.elim, hrest', naturalFirst,
      laidAs_natural hfirst, bind, Except.bind, pure, Except.pure]

/-- The unit duration at a positive tempo. -/
theorem atTempo_one {tempo : Rat} (h : 0 < tempo) :
    atTempo tempo (some 1) = .ok (some (1 * (1 / tempo))) := by
  rw [atTempo, one_mul]
  split
  · next hone => rw [hone, div_one]
  · simp [needed, h.ne', bind, Except.bind, pure, Except.pure]

/-- Taking the pitch out of a symbol leaves its tempo. -/
theorem tempo_splitPitch (s : Symbol) : s.splitPitch.tempo = s.tempo := by
  rw [Symbol.splitPitch]
  split <;> rfl

/-- Settling a tree of notation succeeds, and yields the tree laid out by the factor one. -/
theorem settle_eq_ok (h : n.Written) : n.settle = .ok (n.laid 1) := by
  have likewise {content : List Node} (hcontent : ∀ c ∈ content, c.Written) (common : Rat) :
      ∀ m ∈ content.map (laidAs common 1), m.Proportioned :=
    List.forall_mem_map.2 fun c hc =>
      (settled_laidAs (hcontent c hc) common 1).self.1
  induction n with
  | symbol s =>
    simp only [settle, assignBase, applyTempo, tempo_splitPitch, atTempo_one h.symbol.1, laid, bind,
      Except.bind, pure, Except.pure]
  | hold s =>
    rw [settle, assignBase, applyTempo, atTempo_one h.hold.1]
    rfl
  | group content isExplicit duration ih =>
    have hcontent : ∀ c ∈ content, c.Written := fun c hc => h.child hc
    have htotal : totalDuration (content.map (laid 1)) = .ok (1 * naturalSum content) := by
      rw [totalDuration_eq_ok (List.forall_mem_map.2 fun c hc =>
        (proportioned_laid (hcontent c hc) 1).self.knownDuration), List.map_map, naturalSum_eq_sum,
        one_mul]
      congr 2
      exact List.map_congr_left fun c hc => (extent_laid (hcontent c hc) 1).trans (one_mul _)
    rw [settle, inStages_settleEach fun c hc => ih c hc (hcontent c hc)]
    simp only [bind, Except.bind, groupOf, htotal, pure, Except.pure, laid, laidEach_eq_map]
  | simul content duration ih =>
    have hcontent : ∀ c ∈ content, c.Written := fun c hc => h.child hc
    rw [settle, inStages_settleEach fun c hc => ih c hc (hcontent c hc)]
    simp only [bind, Except.bind, simulOf, unify_laid hcontent, laid, laidTo_eq_map]
    cases content with
    | nil => simp [naturalFirst, pure, Except.pure]
    | cons first rest =>
      have hpart := (likewise hcontent first.natural _ (List.mem_cons_self ..)).durationPart
      rw [extent_laidAs (hcontent first (List.mem_cons_self ..))] at hpart
      simp only [List.map_cons, naturalFirst, hpart, pure, Except.pure]
  | sequence content ih =>
    have hcontent : ∀ c ∈ content, c.Written := fun c hc => h.child hc
    have htotal (common : Rat) : totalDuration (content.map (laidAs common 1)) =
        .ok (1 * (content.length * common)) := by
      have hextents : (content.map (laidAs common 1)).map extent = content.map fun _ => common := by
        rw [List.map_map]
        exact List.map_congr_left fun c hc =>
          (extent_laidAs (hcontent c hc) common 1).trans (one_mul common)
      rw [totalDuration_eq_ok fun m hm => (likewise hcontent common m hm).knownDuration, hextents,
        List.map_const', List.sum_replicate, nsmul_eq_mul, one_mul]
    rw [settle, inStages_settleEach fun c hc => ih c hc (hcontent c hc)]
    simp only [bind, Except.bind, sequenceOf, unify_laid hcontent, htotal, laid, laidTo_eq_map,
      pure, Except.pure]
  | held => exact absurd h not_written_held
  | foreign => exact absurd h not_written_foreign

end Polyrhythm.Node
