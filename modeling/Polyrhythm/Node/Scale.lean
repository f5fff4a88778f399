import Polyrhythm.Node

/-!
# Scaling a tree

`Node.scale` multiplies all durations and slots of a tree by one factor and leaves everything else
as it is. Scaling twice is scaling by the product (`scale_scale`), and scaling by one changes
nothing (`scale_one`).
-/

namespace Polyrhythm

/-- A hold with its duration and its slots multiplied by a factor. -/
def Hold.scale (factor : Rat) (h : Hold) : Hold :=
  { h with
    slots := h.slots.map fun slots => slots.map (· * factor)
    duration := h.duration.map (· * factor) }

private theorem mul_one_eq_id : (fun x : Rat => x * 1) = id := funext Rat.mul_one

theorem Hold.scale_one (h : Hold) : h.scale 1 = h := by
  simp only [scale, mul_one_eq_id, List.map_id, Option.map_id_fun', Option.map_id_fun, id]

theorem Hold.scale_scale (factor next : Rat) (h : Hold) :
    (h.scale factor).scale next = h.scale (factor * next) := by
  cases h with
  | mk p t slots d =>
    cases slots <;> cases d <;> simp [scale, Function.comp_def, Rat.mul_assoc]

namespace Node

mutual
/-- Multiplies every duration and every slot of a tree by a factor. -/
def scale (factor : Rat) : Node → Node
  | symbol s => symbol { s with duration := s.duration.map (· * factor) }
  | hold h => hold (h.scale factor)
  | group content isExplicit duration =>
    group (scaleDurations factor content) isExplicit (duration.map (· * factor))
  | simul content duration => simul (scaleDurations factor content) (duration.map (· * factor))
  | sequence content => sequence (scaleDurations factor content)
  | held content h => held (scale factor content) (h.scale factor)
  | foreign kind => foreign kind

/-- `scale` over the elements of a list. -/
def scaleDurations (factor : Rat) : List Node → List Node
  | [] => []
  | n :: ns => scale factor n :: scaleDurations factor ns
end

@[simp]
theorem scaleDurations_eq_map (factor : Rat) (ns : List Node) :
    scaleDurations factor ns = ns.map (scale factor) := by
  induction ns with
  | nil => rfl
  | cons n ns ih => simp [scaleDurations, ih]

mutual
/-- Scaling by one changes nothing. -/
theorem scale_one (n : Node) : n.scale 1 = n := by
  cases n with
  | symbol s => simp only [scale, mul_one_eq_id, Option.map_id_fun, id]
  | hold h => simp only [scale, Hold.scale_one]
  | group content isExplicit duration =>
    simp only [scale, scaleDurations_one content, mul_one_eq_id, Option.map_id_fun, id]
  | simul content duration =>
    simp only [scale, scaleDurations_one content, mul_one_eq_id, Option.map_id_fun, id]
  | sequence content => simp only [scale, scaleDurations_one content]
  | held content h => simp only [scale, Hold.scale_one, scale_one content]
  | foreign kind => rfl

theorem scaleDurations_one (ns : List Node) : scaleDurations 1 ns = ns := by
  cases ns with
  | nil => rfl
  | cons n ns => rw [scaleDurations, scale_one n, scaleDurations_one ns]
end

mutual
/-- Scaling twice is scaling by the product. -/
theorem scale_scale (factor next : Rat) (n : Node) :
    (n.scale factor).scale next = n.scale (factor * next) := by
  cases n with
  | symbol s => simp [scale, Function.comp_def, Rat.mul_assoc]
  | hold h => simp only [scale, Hold.scale_scale]
  | group content isExplicit duration =>
    simp only [scale, scaleDurations_scaleDurations factor next content]
    simp [Function.comp_def, Rat.mul_assoc]
  | simul content duration =>
    simp only [scale, scaleDurations_scaleDurations factor next content]
    simp [Function.comp_def, Rat.mul_assoc]
  | sequence content => simp only [scale, scaleDurations_scaleDurations factor next content]
  | held content h => simp only [scale, scale_scale factor next content, Hold.scale_scale]
  | foreign kind => rfl

theorem scaleDurations_scaleDurations (factor next : Rat) (ns : List Node) :
    scaleDurations next (scaleDurations factor ns) = scaleDurations (factor * next) ns := by
  cases ns with
  | nil => rfl
  | cons n ns =>
    rw [scaleDurations, scaleDurations, scaleDurations, scale_scale factor next n,
      scaleDurations_scaleDurations factor next ns]
end

end Node

end Polyrhythm
