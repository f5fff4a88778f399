import Mathlib.Algebra.BigOperators.Ring.List
import Mathlib.Tactic.Ring
import Polyrhythm.Proofs.Timing.Annotation

/-!
# Trees played faster

If the tempo of every leaf is multiplied by a factor, every natural duration is divided by it
(`Node.natural_scaleTempo`), and so the tree that is laid out is the same one with its durations
divided (`Node.laid_scaleTempo`). An element that is to last a common duration does not even notice
(`Node.laidAs_scaleTempo`). Gathering makes no decision that depends on durations or tempos
(`Node.gather_faster`). So a tree of notation at another tempo is annotated to the same tree played
faster, or is refused for the same reason (`Node.timed_scaleTempo`).
-/

namespace Polyrhythm.Node

open Traversal

variable {n : Node} {ns : List Node}

/-! ## Laying out -/

theorem naturalFirst_map {f : Node → Node} {r : Rat} {content : List Node}
    (h : ∀ c ∈ content, (f c).natural = c.natural / r) :
    naturalFirst (content.map f) = naturalFirst content / r := by
  cases content with
  | nil => simp [naturalFirst]
  | cons c cs => exact h c (List.mem_cons_self ..)

/-- At another tempo every natural duration is divided by the factor. -/
theorem natural_scaleTempo (r : Rat) (n : Node) : (n.scaleTempo r).natural = n.natural / r := by
  induction n with
  | symbol s => exact div_mul_eq_div_div 1 s.tempo r
  | hold h => exact div_mul_eq_div_div 1 h.tempo r
  | group content isExplicit duration ih =>
    have heach : (content.map (scaleTempo r)).map natural = (content.map natural).map (· / r) := by
      rw [List.map_map, List.map_map]
      exact List.map_congr_left ih
    have hsum : ((content.map natural).map (· / r)).sum = (content.map natural).sum / r := by
      simp only [div_eq_mul_inv, List.sum_map_mul_right, List.map_id']
    rw [scaleTempo, natural, natural, scaleTempoAll_eq_map, naturalSum_eq_sum, heach, hsum,
      naturalSum_eq_sum]
  | simul content duration ih =>
    rw [scaleTempo, natural, natural, scaleTempoAll_eq_map]
    exact naturalFirst_map ih
  | sequence content ih =>
    rw [scaleTempo, natural, natural, scaleTempoAll_eq_map, naturalFirst_map ih, List.length_map,
      mul_div_assoc]
  | held | foreign => exact (zero_div r).symm

/-- The pitch of a symbol is taken out whatever its tempo. -/
theorem splitPitch_tempo (s : Symbol) (tempo : Rat) :
    { s with tempo := tempo }.splitPitch = { s.splitPitch with tempo := tempo } := by
  unfold Symbol.splitPitch
  dsimp only
  split <;> rfl

/-- The duration that is replaced and the tempo have nothing to do with one another. -/
theorem scaleTempo_lasting (r d : Rat) (n : Node) :
    (n.lasting d).scaleTempo r = (n.scaleTempo r).lasting d := by
  cases n <;> simp [lasting, scaleTempo]

/-- Groups without braces stay so at another tempo. -/
theorem map_scaleTempo_splice (r : Rat) (ns : List Node) :
    (splice ns).map (scaleTempo r) = splice (ns.map (scaleTempo r)) := by
  refine map_splice fun n _ => ?_
  cases n with
  | group content isExplicit duration => cases isExplicit <;> simp [splice, scaleTempo]
  | _ => rfl

/-- Elements at another tempo that are to last a common duration, if laying each of them out is
laying it out by a divided factor. The factor cancels, also where a natural duration is zero. -/
theorem laidAs_scaleTempo_of {r : Rat} (hr : r ≠ 0)
    (h : ∀ factor, (n.scaleTempo r).laid factor = (n.laid (factor / r)).scaleTempo r)
    (common factor : Rat) :
    (n.scaleTempo r).laidAs common factor = (n.laidAs common factor).scaleTempo r := by
  have hcancel : factor * (common / (n.natural / r)) / r = factor * (common / n.natural) := by
    rw [div_div_eq_mul_div, mul_div_assoc, mul_div_right_comm, mul_div_cancel_right₀ _ hr]
  rw [laidAs, laidAs, natural_scaleTempo, h, hcancel, scaleTempo_lasting]

/-- Giving elements a common duration that is divided is giving it to them by a divided factor. -/
theorem laidAs_div (common factor r : Rat) (n : Node) :
    n.laidAs (common / r) factor = n.laidAs common (factor / r) := by
  rw [laidAs, laidAs, div_right_comm, mul_div_assoc', mul_div_right_comm factor, mul_div_assoc',
    mul_div_right_comm factor]

/-- A tree at another tempo is laid out by a divided factor. -/
theorem laid_scaleTempo {r : Rat} (hr : r ≠ 0) (n : Node) (factor : Rat) :
    (n.scaleTempo r).laid factor = (n.laid (factor / r)).scaleTempo r := by
  have likewise {content : List Node}
      (ih : ∀ c ∈ content, ∀ factor,
        (c.scaleTempo r).laid factor = (c.laid (factor / r)).scaleTempo r) (factor : Rat) :
      (content.map (scaleTempo r)).map (laidAs (naturalFirst content / r) factor) =
        (content.map (laidAs (naturalFirst content) (factor / r))).map (scaleTempo r) := by
    rw [List.map_map, List.map_map]
    refine List.map_congr_left fun c hc => ?_
    rw [Function.comp_apply, Function.comp_apply, laidAs_div, laidAs_scaleTempo_of hr (ih c hc)]
  induction n generalizing factor with
  | symbol s =>
    rw [scaleTempo, laid, laid, scaleTempo, splitPitch_tempo, tempo_splitPitch]
    simp only [symbol.injEq, Symbol.mk.injEq, true_and, Option.some.injEq]
    ring
  | hold h =>
    simp only [scaleTempo, laid, hold.injEq, Hold.mk.injEq, true_and, Option.some.injEq]
    ring
  | group content isExplicit duration ih =>
    have heach : (content.map (scaleTempo r)).map (laid factor) =
        (content.map (laid (factor / r))).map (scaleTempo r) := by
      rw [List.map_map, List.map_map]
      exact List.map_congr_left fun c hc => ih c hc factor
    have hsum := natural_scaleTempo r (group content isExplicit duration)
    rw [scaleTempo, scaleTempoAll_eq_map, natural, natural] at hsum
    simp only [scaleTempo, scaleTempoAll_eq_map, laid, laidEach_eq_map, heach, hsum,
      mul_div_assoc', div_mul_eq_mul_div]
  | simul content duration ih =>
    have hfirst := naturalFirst_map fun c (_ : c ∈ content) => natural_scaleTempo r c
    simp only [scaleTempo, scaleTempoAll_eq_map, laid, laidTo_eq_map, hfirst, likewise ih,
      mul_div_assoc', div_mul_eq_mul_div]
  | sequence content ih =>
    have hfirst := naturalFirst_map fun c (_ : c ∈ content) => natural_scaleTempo r c
    simp only [scaleTempo, scaleTempoAll_eq_map, laid, laidTo_eq_map, hfirst, likewise ih,
      map_scaleTempo_splice, List.length_map, mul_div_assoc', div_mul_eq_mul_div]
  | held | foreign => rfl

/-- An element that is to last a common duration lasts it at whatever tempo it is written. -/
theorem laidAs_scaleTempo {r : Rat} (hr : r ≠ 0) (n : Node) (common factor : Rat) :
    (n.scaleTempo r).laidAs common factor = (n.laidAs common factor).scaleTempo r :=
  laidAs_scaleTempo_of hr (laid_scaleTempo hr n) common factor

/-! ## Gathering -/

/-- A timed tree as it is when it is played faster by a factor: every tempo is multiplied by it,
every duration and every slot is divided. -/
def faster (r : Rat) (n : Node) : Node := (n.scale (1 / r)).scaleTempo r

/-- An open run with its element and its durations played faster. -/
def Run.faster (r : Rat) (run : Run) : Run :=
  ⟨run.element.faster r, run.durations.map (Option.map (· * (1 / r)))⟩

@[simp]
theorem faster_symbol (r : Rat) (s : Symbol) :
    (symbol s).faster r =
      symbol { s with tempo := s.tempo * r, duration := s.duration.map (· * (1 / r)) } := rfl

@[simp]
theorem faster_hold (r : Rat) (h : Hold) :
    (hold h).faster r = hold { h.scale (1 / r) with tempo := h.tempo * r } := rfl

@[simp]
theorem faster_group (r : Rat) (content : List Node) (isExplicit : Bool) (d : Option Rat) :
    (group content isExplicit d).faster r =
      group (content.map (faster r)) isExplicit (d.map (· * (1 / r))) := by
  simp [faster, scale, scaleTempo, Function.comp_def]

@[simp]
theorem faster_simul (r : Rat) (content : List Node) (d : Option Rat) :
    (simul content d).faster r = simul (content.map (faster r)) (d.map (· * (1 / r))) := by
  simp [faster, scale, scaleTempo, Function.comp_def]

@[simp]
theorem faster_held (r : Rat) (content : Node) (h : Hold) :
    (held content h).faster r = held (content.faster r) (h.scale (1 / r)) := rfl

@[simp]
theorem isHold_faster (r : Rat) (n : Node) : (n.faster r).isHold = n.isHold := by
  cases n <;> rfl

/-- The duration that gathering reads is divided; where there is none to read, there still is
none. -/
theorem durationPart_faster (r : Rat) (n : Node) :
    (n.faster r).durationPart = n.durationPart.map (Option.map (· * (1 / r))) := by
  cases n <;> rfl

/-- A run is closed to the same element played faster. -/
theorem close_faster (r : Rat) (run : Run) :
    (run.faster r).close = run.close.map (Node.faster r) := by
  have hneeded (durations : List (Option Rat)) :
      (durations.map (Option.map (· * (1 / r)))).mapM needed =
        (durations.mapM needed).map (List.map (· * (1 / r))) :=
    mapM_eq_map fun d _ => by cases d <;> rfl
  have hsum (slots : List Rat) :
      (slots.map (· * (1 / r))).foldr (· + ·) 0 = slots.foldr (· + ·) 0 * (1 / r) := by
    have h := List.sum_map_mul_right slots id (1 / r)
    rw [List.map_id] at h
    exact h
  obtain ⟨element, durations⟩ := run
  rcases durations with - | ⟨d, - | ⟨d', rest⟩⟩
  · rfl
  · rfl
  · have hreverse := hneeded (d :: d' :: rest).reverse
    rw [List.map_reverse] at hreverse
    refine bind_eq_map hreverse fun slots => ?_
    rw [hsum]
    rfl

/-- What the open run adds to a list is played faster. -/
theorem closeRun_faster (r : Rat) (run : Option Run) :
    closeRun (run.map (Run.faster r)) = (closeRun run).map (List.map (Node.faster r)) := by
  cases run with
  | none => rfl
  | some run =>
    exact bind_eq_map (close_faster r run) fun element => rfl

/-- The rest of a list is gathered to the same elements played faster, or fails at the same hold, if
so does what is inside its elements. -/
theorem gatherFrom_faster (r : Rat)
    (h : ∀ n ∈ ns, (n.faster r).gatherInside = n.gatherInside.map (faster r)) (run : Option Run) :
    gatherFrom (run.map (Run.faster r)) (ns.map (faster r)) =
      (gatherFrom run ns).map (List.map (faster r)) := by
  induction ns generalizing run with
  | nil => exact closeRun_faster r run
  | cons n rest ih =>
    obtain ⟨hn, hrest⟩ := List.forall_mem_cons.1 h
    cases hhold : n.isHold with
    | true =>
      cases n with
      | hold s =>
        cases run with
        | none => rfl
        | some run => exact ih hrest (some ⟨run.element, s.duration :: run.durations⟩)
      | _ => cases hhold
    | false =>
      have hhold' : (n.faster r).isHold = false := by rw [isHold_faster, hhold]
      rw [List.map_cons, gatherFrom_cons hhold, gatherFrom_cons hhold']
      refine bind_eq_map hn fun m => bind_eq_map (closeRun_faster r run) fun closed =>
        bind_eq_map (durationPart_faster r m) fun duration => ?_
      refine bind_eq_map (ih hrest (some ⟨m, [duration]⟩)) fun later => ?_
      exact congrArg Except.ok List.map_append.symm

/-- The inside of an element is gathered to the same element played faster, or fails at the same
hold. -/
theorem gatherInside_faster (r : Rat) (n : Node) :
    (n.faster r).gatherInside = n.gatherInside.map (faster r) := by
  induction n with
  | symbol | hold | sequence | held | foreign => rfl
  | group content isExplicit duration ih =>
    have hcontent := gatherFrom_faster r ih none
    rw [Option.map_none] at hcontent
    rw [faster_group]
    exact bind_eq_map hcontent fun out =>
      congrArg Except.ok (faster_group r out isExplicit duration).symm
  | simul content duration ih =>
    have hcontent := gatherFrom_faster r ih none
    rw [Option.map_none] at hcontent
    rw [faster_simul]
    exact bind_eq_map hcontent fun out => congrArg Except.ok (faster_simul r out duration).symm

/-- A tree is gathered to the same tree played faster, or fails at the same hold. -/
theorem gather_faster (r : Rat) (n : Node) : (n.faster r).gather = n.gather.map (faster r) := by
  have hall : gatherAll [n.faster r] = (gatherAll [n]).map (List.map (faster r)) :=
    gatherFrom_faster r (List.forall_mem_singleton.2 (gatherInside_faster r n)) none
  refine bind_eq_map hall fun out => ?_
  cases out <;> rfl

/-! ## Timing -/

/-- A tree of notation at another tempo is timed to the same tree played faster, or refused for the
same reason. -/
theorem timed_scaleTempo {r : Rat} (hr : 0 < r) (h : n.Written) :
    (n.scaleTempo r).timed = n.timed.map (faster r) := by
  have hlaid : (n.scaleTempo r).laid 1 = (n.laid 1).faster r := by
    rw [laid_scaleTempo hr.ne', faster, scale_laid h, one_mul]
  rw [timed_eq_gather (h.scaleTempo hr), timed_eq_gather h, hlaid, gather_faster]

end Polyrhythm.Node
