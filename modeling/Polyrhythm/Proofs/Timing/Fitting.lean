import Polyrhythm.Proofs.Sound.Duration
import Polyrhythm.Proofs.Timing.WellFormed

/-!
# Fitting an annotated tree

Fitting goes from the outside in, and every composite scales its content by a ratio of its own: the
duration it is given to the one it had. In a tree that is proportioned all these ratios are the
same, so a tree that lasts some time is scaled as a whole. That is so for whole numbers as for
ratios, as long as the durations of the tree are ratios (`Node.fit_exact`).

Fitting leaves a whole number at the root, and a second whole number divided by it is real. This
apart, fitting does not depend on what a tree was fitted to before (`Node.fit_fit`). An annotated
tree is proportioned, with or without slack in it (`fit_of_parse`).
-/

namespace Polyrhythm

open Traversal

namespace Quantity

/-- An exact quantity divided by a ratio is a ratio, unless the divisor is zero. -/
theorem exact_div_ratio {a : Quantity} {p x : Rat} (ha : a.rational? = some p) (hx : x ≠ 0) :
    a.div (ratio x) = .ok (ratio (p / x)) := by
  cases a with
  | real => cases ha
  | whole | ratio =>
    cases ha
    simp [div, combine, quotient, hx, bind, Except.bind, pure, Except.pure]

/-- Dividing by an exact quantity is dividing by its value as a ratio, unless a whole number is
divided by a whole number. -/
theorem div_eq_div_ratio {a b : Quantity} {q r : Rat} (ha : a.rational? = some q)
    (hb : b.rational? = some r) (hkinds : ∀ m n : Int, (a, b) ≠ (whole m, whole n)) :
    b.div a = b.div (ratio q) := by
  cases a with
  | real => cases ha
  | ratio => cases ha; rfl
  | whole m =>
    cases ha
    cases b with
    | real => cases hb
    | ratio => rfl
    | whole n => exact absurd rfl (hkinds m n)

end Quantity

namespace Node

variable {n : Node} {factor : Rat} {d : Quantity} {q : Rat}

/-- Scaling changes the walk element by element. -/
theorem walk_scale (factor : Rat) (n : Node) :
    (n.scale factor).walk = n.walk.map (scale factor) := by
  refine walk_eq_map (fun n => ?_) n
  cases n <;> simp [children, scale]

/-- An element is proportioned if it was so before it was scaled: what lasts no time did not last
any before either. -/
theorem Proportioned.scale (h : n.Proportioned) (hfactor : factor ≠ 0) :
    (n.scale factor).Proportioned := by
  have still {c : Node} (hc : c.duration? = some 0) : (c.scale factor).duration? = some 0 := by
    rw [duration?_scale, hc, Option.map_some, zero_mul]
  have composite {content : List Node} {d : Rat}
      (hchildren : d = 0 → ∀ c ∈ content, c.duration? = some 0) (hzero : d * factor = 0) :
      ∀ c ∈ scaleDurations factor content, c.duration? = some 0 := by
    rw [scaleDurations_eq_map]
    exact List.forall_mem_map.2 fun c hc =>
      still (hchildren ((mul_eq_zero.1 hzero).resolve_right hfactor) c hc)
  cases n with
  | symbol s =>
    obtain ⟨d, hd⟩ := h
    exact ⟨d * factor, by rw [hd]; rfl⟩
  | hold s =>
    obtain ⟨hslots, d, hd⟩ := h
    exact ⟨by rw [Hold.scale, hslots]; rfl, d * factor, by rw [Hold.scale, hd]; rfl⟩
  | group | simul =>
    obtain ⟨d, rfl, hchildren⟩ := h
    exact ⟨d * factor, rfl, composite hchildren⟩
  | held content s =>
    obtain ⟨d, slots, hd, hslots, hchildren⟩ := h
    refine ⟨d * factor, slots.map (· * factor), by rw [Hold.scale, hd]; rfl,
      by rw [Hold.scale, hslots]; rfl, fun hzero => ?_⟩
    obtain ⟨hown, hzeros⟩ := hchildren ((mul_eq_zero.1 hzero).resolve_right hfactor)
    refine ⟨still hown, List.forall_mem_map.2 fun slot hslot => ?_⟩
    rw [hzeros slot hslot, zero_mul]
  | sequence | foreign => exact h

/-- A proportioned tree stays so when it is scaled. -/
theorem every_proportioned_scale (h : n.Every Proportioned) (hfactor : factor ≠ 0) :
    (n.scale factor).Every Proportioned := by
  intro m hm
  rw [walk_scale] at hm
  obtain ⟨m, hmem, rfl⟩ := List.mem_map.1 hm
  exact (h m hmem).scale hfactor

/-! ## Durations of other kinds -/

@[simp]
theorem duration?_mapDurations {δ ε : Type} (change : δ → ε) (n : Node δ) :
    (n.mapDurations change).duration? = n.duration?.map change := by
  cases n <;> rfl

theorem mapDurations_lasting {δ ε : Type} (change : δ → ε) (d : δ) (n : Node δ) :
    (n.lasting d).mapDurations change = (n.mapDurations change).lasting (change d) := by
  cases n <;> simp [lasting, mapDurations, Symbol.mapDuration, Hold.mapDurations]

theorem isZero_ratio {x : Rat} : Scalable.isZero (Quantity.ratio x) = true ↔ x = 0 :=
  decide_eq_true_iff

/-- Every slot, taken as a ratio, multiplied by a ratio. -/
theorem mapM_mul_ratio (slots : List Rat) (factor : Rat) :
    (slots.map Quantity.ratio).mapM (Scalable.mul · (Quantity.ratio factor)) =
      .ok ((slots.map (· * factor)).map Quantity.ratio) := by
  rw [List.mapM_map, List.map_map]
  exact List.mapM_pure

/-- Fitting a proportioned element to a multiple of its own duration, its durations being taken as
ratios, is nothing but scaling. -/
theorem fit_mul_ratio_of (h : n.Every Proportioned)
    (hfit : ∀ x, (n.mapDurations .ratio).fit (Quantity.ratio x) =
      .ok (((n.scale (x / n.extent)).mapDurations .ratio).lasting (.ratio x)))
    (factor : Rat) :
    (n.mapDurations .ratio).fit (Quantity.ratio (n.extent * factor)) =
      .ok ((n.scale factor).mapDurations .ratio) := by
  have hscaled := (fit_eq_ok h _).symm.trans (fit_mul h factor)
  rw [hfit, ← mapDurations_lasting, Except.ok.inj hscaled]

/-- Each of several proportioned trees fitted to a multiple of its own duration. -/
theorem scaleAll_ratio {content : List Node} {factor : Rat}
    (h : ∀ c ∈ content, c.Every Proportioned)
    (hfit : ∀ c ∈ content, ∀ x, (c.mapDurations .ratio).fit (Quantity.ratio x) =
      .ok (((c.scale (x / c.extent)).mapDurations .ratio).lasting (.ratio x))) :
    scaleAll (Quantity.ratio factor) (mapDurationsAll .ratio content) =
      .ok (mapDurationsAll .ratio (scaleDurations factor content)) := by
  induction content with
  | nil => rfl
  | cons c rest ih =>
    obtain ⟨hc, hrest⟩ := List.forall_mem_cons.1 h
    obtain ⟨hfitc, hfitrest⟩ := List.forall_mem_cons.1 hfit
    have hown : (c.mapDurations Quantity.ratio).knownDuration = .ok (.ratio c.extent) :=
      knownDuration_of_duration? (by rw [duration?_mapDurations, hc.self.duration?]; rfl)
    exact bind_eq_ok.2 ⟨_, hown, bind_eq_ok.2 ⟨_, rfl, bind_eq_ok.2
      ⟨_, fit_mul_ratio_of hc hfitc factor, bind_eq_ok.2 ⟨_, ih hrest hfitrest, rfl⟩⟩⟩⟩

/-- A proportioned tree whose durations are taken as ratios can be fitted to any exact quantity.
That becomes its duration, while all it holds is scaled by the ratio of the durations. -/
theorem fit_exact (h : n.Every Proportioned) (hd : d.rational? = some q) :
    (n.mapDurations .ratio).fit d =
      .ok (((n.scale (q / n.extent)).mapDurations .ratio).lasting d) := by
  have still {content : List Node} {factor : Rat} (hchildren : ∀ c ∈ content, c.Every Proportioned)
      (hzeros : ∀ c ∈ content, c.duration? = some 0) : scaleDurations factor content = content := by
    rw [scaleDurations_eq_map, List.map_congr_left fun c hc => scale_eq_self (hchildren c hc)
      (hzeros c hc) _, List.map_id']
  induction n generalizing d q with
  | symbol s => rfl
  | hold s =>
    obtain ⟨hslots, -⟩ := h.self
    simp [fit, mapDurations, Hold.mapDurations, scale, Hold.scale, lasting, hslots]
  | group content isExplicit duration ih =>
    obtain ⟨⟨old, rfl, hchildren⟩, hcontent⟩ := every_group.1 h
    have hextent : (group content isExplicit (some old)).extent = old := rfl
    rw [hextent, mapDurations, fit, scale, mapDurations, lasting]
    refine bind_eq_ok.2 ⟨_, rfl, ?_⟩
    by_cases hzero : old = 0
    · rw [if_pos (isZero_ratio.2 hzero), still hcontent (hchildren hzero)]
      rfl
    · rw [if_neg (mt isZero_ratio.1 hzero)]
      exact bind_eq_ok.2 ⟨_, Quantity.exact_div_ratio hd hzero, bind_eq_ok.2
        ⟨_, scaleAll_ratio hcontent fun c hc x => ih c hc (hcontent c hc) rfl, rfl⟩⟩
  | simul content duration ih =>
    obtain ⟨⟨old, rfl, hchildren⟩, hcontent⟩ := every_simul.1 h
    have hextent : (simul content (some old)).extent = old := rfl
    rw [hextent, mapDurations, fit, scale, mapDurations, lasting]
    refine bind_eq_ok.2 ⟨_, rfl, ?_⟩
    by_cases hzero : old = 0
    · rw [if_pos (isZero_ratio.2 hzero), still hcontent (hchildren hzero)]
      rfl
    · rw [if_neg (mt isZero_ratio.1 hzero)]
      exact bind_eq_ok.2 ⟨_, Quantity.exact_div_ratio hd hzero, bind_eq_ok.2
        ⟨_, scaleAll_ratio hcontent fun c hc x => ih c hc (hcontent c hc) rfl, rfl⟩⟩
  | sequence => exact h.self.elim
  | held content s ih =>
    obtain ⟨⟨old, slots, hold, hslots, hchildren⟩, hcontent⟩ := every_held.1 h
    have hextent : (held content s).extent = old := extent_of_duration? hold
    rw [hextent, mapDurations, fit, scale, mapDurations, lasting]
    cases s
    cases hold
    cases hslots
    refine bind_eq_ok.2 ⟨_, rfl, ?_⟩
    by_cases hzero : old = 0
    · obtain ⟨hown, hzeros⟩ := hchildren hzero
      rw [if_pos (isZero_ratio.2 hzero), scale_eq_self hcontent hown]
      simp [Hold.mapDurations, Hold.scale, map_mul_of_zero hzeros]
      rfl
    · rw [if_neg (mt isZero_ratio.1 hzero)]
      have hown : (content.mapDurations Quantity.ratio).knownDuration =
          .ok (.ratio content.extent) :=
        knownDuration_of_duration? (by rw [duration?_mapDurations, hcontent.self.duration?]; rfl)
      have hscaled := fit_mul_ratio_of hcontent (fun x => ih hcontent rfl) (q / old)
      exact bind_eq_ok.2 ⟨_, Quantity.exact_div_ratio hd hzero, bind_eq_ok.2 ⟨_, rfl, bind_eq_ok.2
        ⟨_, mapM_mul_ratio slots (q / old), bind_eq_ok.2 ⟨_, hown, bind_eq_ok.2 ⟨_, rfl,
          bind_eq_ok.2 ⟨_, hscaled, rfl⟩⟩⟩⟩⟩⟩
  | foreign => exact h.self.elim

/-- Fitting an element does not depend on the kind of quantity it lasts, unless a whole number is
divided by a whole number. -/
theorem fit_lasting {a b : Quantity} {r : Rat} (hn : n.duration? = some q)
    (ha : a.rational? = some q) (hb : b.rational? = some r)
    (hkinds : n.isLeaf = true ∨ ∀ x y : Int, (a, b) ≠ (.whole x, .whole y)) :
    ((n.mapDurations .ratio).lasting a).fit b = (n.mapDurations .ratio).fit b := by
  have hzero : Scalable.isZero a = Scalable.isZero (Quantity.ratio q) :=
    (Quantity.isZero_exact ha).trans (Quantity.isZero_exact rfl).symm
  have hratio (h : n.isLeaf = false) : Scalable.div b a = Scalable.div b (Quantity.ratio q) :=
    Quantity.div_eq_div_ratio ha hb (hkinds.resolve_left (by simp [h]))
  cases n with
  | symbol | hold | sequence | foreign => rfl
  | group | simul =>
    cases hn
    simp only [mapDurations, lasting, Option.map_some, fit, oldDuration, hzero, hratio rfl,
      bind, Except.bind]
  | held content s =>
    cases s
    cases hn
    simp only [mapDurations, Hold.mapDurations, lasting, Option.map_some, fit, oldDuration, hzero,
      hratio rfl, bind, Except.bind]

/-- Fitting a proportioned tree that lasts some time first to a quantity and then to another is
fitting it to the other, unless nothing is left of it in between or a whole number is divided by a
whole number. -/
theorem fit_fit {a b : Quantity} {old r : Rat} (h : n.Every Proportioned)
    (hold : n.duration? = some old) (hne : old ≠ 0) (ha : a.rational? = some q)
    (hb : b.rational? = some r) (hq : q ≠ 0)
    (hkinds : n.isLeaf = true ∨ ∀ x y : Int, (a, b) ≠ (.whole x, .whole y)) :
    (((n.scale (q / old)).mapDurations .ratio).lasting a).fit b =
      (n.mapDurations .ratio).fit b := by
  have hscaled : (n.scale (q / old)).duration? = some q := by
    rw [duration?_scale, hold, Option.map_some, mul_div_cancel₀ _ hne]
  have hleaf : (n.scale (q / old)).isLeaf = n.isLeaf := by
    cases n <;> rfl
  have hproportioned := every_proportioned_scale h (div_ne_zero hq hne)
  rw [fit_lasting hscaled ha hb (hleaf ▸ hkinds), fit_exact hproportioned hb, fit_exact h hb,
    extent_of_duration? hscaled, extent_of_duration? hold, scale_scale, div_mul_div_cancel₀' hq]

end Node

/-- An annotated tree that lasts some time can be fitted to any whole number or ratio. That becomes
its duration, and all it holds is scaled by one ratio, that of the new duration to the old one. It
makes no difference then what it was fitted to before, unless that was no time, or a composite is
fitted from a whole number to a whole number, whose quotient is real. -/
theorem fit_of_parse {text : String} {tree : Node} {old : Rat} (h : parse text = .ok tree)
    (hold : tree.duration? = some old) (hne : old ≠ 0) :
    (∀ (d : Quantity) (q : Rat), d.rational? = some q → (tree.mapDurations Quantity.ratio).fit d =
      .ok (((tree.scale (q / old)).mapDurations Quantity.ratio).lasting d)) ∧
      ∀ (a b : Quantity) (q r : Rat), a.rational? = some q → b.rational? = some r → q ≠ 0 →
        (tree.isLeaf = true ∨ ∀ x y : Int, (a, b) ≠ (.whole x, .whole y)) →
        ∃ fitted, (tree.mapDurations Quantity.ratio).fit a = .ok fitted ∧
          fitted.fit b = (tree.mapDurations Quantity.ratio).fit b := by
  obtain ⟨tokens, root, -, -, hwritten, htree⟩ := Node.exists_of_parse h
  have hproportioned : tree.Every Node.Proportioned :=
    (Node.formed_of_annotate hwritten htree).1.imp fun _ hn => hn.proportioned
  have hextent := Node.extent_of_duration? hold
  refine ⟨fun d q hd => hextent ▸ Node.fit_exact hproportioned hd,
    fun a b q r ha hb hq hkinds => ⟨_, Node.fit_exact hproportioned ha, ?_⟩⟩
  rw [hextent]
  exact Node.fit_fit hproportioned hold hne ha hb hq hkinds

/-- A segment beside an empty block, which lasts longer than it would by itself, and a held block in
the part after the comma: fitted to a third of a unit and then to four units. -/
theorem fit_of_parse_stretched :
    ∃ tree fitted, parse "d . \x7b\x7d , \x7ba b _\x7d _" = .ok tree ∧ tree.duration? = some 2 ∧
      tree.slack = 1 ∧ (tree.mapDurations Quantity.ratio).fit (.ratio (1 / 3)) = .ok fitted ∧
      fitted = ((tree.scale (1 / 3 / 2)).mapDurations Quantity.ratio).lasting (.ratio (1 / 3)) ∧
      fitted.fit (.whole 4) =
        .ok (((tree.scale (4 / 2)).mapDurations Quantity.ratio).lasting (.whole 4)) := by
  have hrun : (parse "d . \x7b\x7d , \x7ba b _\x7d _").toOption.map (fun tree =>
      (tree.duration?, tree.slack)) = some (some 2, 1) := by decide +kernel
  cases htree : parse "d . \x7b\x7d , \x7ba b _\x7d _" with
  | error fault =>
    rw [htree] at hrun
    cases hrun
  | ok tree =>
    rw [htree] at hrun
    obtain ⟨hduration, hslack⟩ : tree.duration? = some 2 ∧ tree.slack = 1 := by
      simpa [Except.toOption] using hrun
    have hwhole : (Quantity.whole 4).rational? = some 4 := by simp [Quantity.rational?]
    obtain ⟨hfit, hagain⟩ := fit_of_parse htree hduration two_ne_zero
    obtain ⟨fitted, hfitted, hrefit⟩ := hagain (.ratio (1 / 3)) (.whole 4) (1 / 3) 4 rfl hwhole
      (by norm_num) (.inr fun _ _ hboth => by cases hboth)
    cases (hfit (.ratio (1 / 3)) _ rfl).symm.trans hfitted
    exact ⟨tree, _, rfl, hduration, hslack, hfitted, rfl, hrefit.trans (hfit (.whole 4) 4 hwhole)⟩

/-- Three symbols in turn, fitted to three units and from there to one, the two being whole numbers:
each of them lasts the real number nearest to a third then, and not a third. -/
theorem fit_of_parse_fails :
    ∃ tree fitted refitted direct, parse "a b c" = .ok tree ∧ tree.duration? = some 3 ∧
      (tree.mapDurations Quantity.ratio).fit (Quantity.whole 3) = .ok fitted ∧
      fitted.fit (Quantity.whole 1) = .ok refitted ∧
      (tree.mapDurations Quantity.ratio).fit (Quantity.whole 1) = .ok direct ∧
      refitted.mapDurations Quantity.value? ≠ direct.mapDurations Quantity.value? := by
  have hrun : (do
      let tree ← parse "a b c"
      let fitted ← (tree.mapDurations Quantity.ratio).fit (Quantity.whole 3)
      let refitted ← fitted.fit (Quantity.whole 1)
      let direct ← (tree.mapDurations Quantity.ratio).fit (Quantity.whole 1)
      pure (tree.duration?, [refitted, direct].map fun tree : Node Quantity =>
        (tree.mapDurations Quantity.value?).leaves.map Node.duration?)) =
      .ok (some 3, [List.replicate 3 (some (some (6004799503160661 / 18014398509481984))),
        List.replicate 3 (some (some (1 / 3)))]) := by decide +kernel
  obtain ⟨tree, htree, hrun⟩ := bind_eq_ok.1 hrun
  obtain ⟨fitted, hfitted, hrun⟩ := bind_eq_ok.1 hrun
  obtain ⟨refitted, hrefitted, hrun⟩ := bind_eq_ok.1 hrun
  obtain ⟨direct, hdirect, hrun⟩ := bind_eq_ok.1 hrun
  injection hrun with hrun
  injection hrun with hduration hlengths
  refine ⟨tree, fitted, refitted, direct, htree, hduration, hfitted, hrefitted, hdirect,
    fun heq => ?_⟩
  simp only [List.map_cons, List.map_nil, heq, List.cons.injEq, and_true] at hlengths
  exact absurd (hlengths.1.symm.trans hlengths.2) (by decide +kernel)

end Polyrhythm
