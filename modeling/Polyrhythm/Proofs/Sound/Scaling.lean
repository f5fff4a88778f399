import Polyrhythm.Proofs.Number.Defined
import Polyrhythm.Proofs.Sound.Duration
import Polyrhythm.Proofs.Sound.Proportion

/-!
# Fitting a tree and fitting its sound

A tree can be fitted to a duration before it is realized, or its sound can be fitted to that
duration in time. Where every duration is positive and composites are balanced (`Node.Steady`), the
sound of a tree at any unit of time is one sound stretched by the unit (`Node.exists_sound`), a tree
is fitted by scaling it (`Node.Steady.proportioned`), and scaling a tree is the same as measuring it
by another unit (`Node.realizeWith_scale`). So both ways lead to the same sound (`realize_fit`).
-/

namespace Polyrhythm

open Traversal

namespace Node

/-- The pitch of a symbol is a number. -/
def InTune : Node → Prop
  | symbol s => ∀ pitch, s.pitch = some pitch → pitch.isComparable = true
  | _ => True

/-- All that lets the sound of an element be stretched with it. -/
structure Steady (n : Node) : Prop where
  positive : n.Positive
  gathered : n.Gathered
  balanced : n.Balanced
  inTune : n.InTune

variable {n tree : Node}

/-! ## Pitches -/

/-- The pitch in the content of a symbol is a number. -/
theorem inTune_splitPitch {s : Symbol} (h : s.pitch = none) (d : Option Rat) :
    (symbol { s.splitPitch with duration := d }).InTune := by
  intro pitch hpitch
  have hsplit : s.splitPitch.pitch = some pitch := hpitch
  rw [Symbol.splitPitch] at hsplit
  split at hsplit
  · cases hsplit
    exact Number.isComparable_toReal _
  · cases h.symm.trans hsplit

/-- The pitches in a tree of notation are numbers once it is laid out. -/
theorem inTune_laid (h : n.Written) (factor : Rat) : (n.laid factor).Every InTune := by
  refine every_laid (q := IsNotation) ?_ ?_ h h factor
  · intro n factor hn
    cases n with
    | symbol s => exact inTune_splitPitch (every_symbol.1 hn).2 _
    | _ => trivial
  · intro n d hn
    cases n <;> exact hn

/-- Gathering leaves pitches that are numbers. -/
theorem gatherable_inTune : Gatherable InTune InTune where
  symbol _ h := h
  group _ _ _ _ := trivial
  simul _ _ _ := trivial
  held _ _ := trivial

/-! ## Steady trees -/

/-- An annotated tree is steady if no composite was empty and no hold stood directly in a simul. -/
theorem steady_of_annotate (h : n.Written) (hcontent : n.Every HasContent)
    (hholds : n.Every HoldsApart) (htree : n.annotate = .ok tree) : tree.Every Steady := by
  obtain ⟨hhold, hinside⟩ := gatherInside_of_annotate h htree
  have hsettled := settled_laid h 1
  have hpositive := gatherable_positive.every hsettled hhold
    (positive_laid h hcontent one_pos) hinside
  have hinTune := gatherable_inTune.every hsettled hhold (inTune_laid h 1) hinside
  have hgathered := gathered_of_annotate h htree
  have hbalanced :=
    balanced_of_annotate h (stretchable_of_hasContent h hcontent) hholds htree
  exact fun m hm => ⟨hpositive m hm, hgathered m hm, hbalanced m hm, hinTune m hm⟩

/-- A steady element lasts some time. -/
theorem Steady.extent_pos (h : n.Steady) : 0 < n.extent := by
  obtain ⟨d, hd, hpos⟩ := h.positive.duration?
  rwa [extent_of_duration? hd]

/-- A steady element is proportioned, because it lasts some time. -/
theorem Steady.proportioned (h : n.Steady) : n.Proportioned := by
  have hne {d : Rat} (hd : n.duration? = some d) : d ≠ 0 := by
    rw [← extent_of_duration? hd]
    exact h.extent_pos.ne'
  have hgathered := h.gathered
  cases n with
  | symbol => exact hgathered
  | group | simul =>
    obtain ⟨d, hd⟩ := hgathered
    exact ⟨d, hd, fun hzero => absurd hzero (hne hd)⟩
  | held =>
    obtain ⟨first, rest, -, hslots, hd⟩ := hgathered
    exact ⟨_, _, hd, hslots, fun hzero => absurd hzero (hne hd)⟩
  | hold | sequence | foreign => exact hgathered.elim

/-! ## Scaling is measuring by another unit -/

variable {table : Table}

/-- A scaled tree is realized like the tree itself with every duration measured scaled. -/
theorem realizeWith_scale (measure : Rat → Except Fault Quantity) (resolve : Resolver)
    (factor : Rat) (n : Node) :
    (n.scale factor).realizeWith measure resolve =
      n.realizeWith (fun d => measure (d * factor)) resolve := by
  have each {content : List Node}
      (ih : ∀ c ∈ content, (c.scale factor).realizeWith measure resolve =
        c.realizeWith (fun d => measure (d * factor)) resolve) :
      realizeEach measure resolve (content.map (scale factor)) =
        realizeEach (fun d => measure (d * factor)) resolve content := by
    induction content with
    | nil => rfl
    | cons c rest ihs =>
      obtain ⟨ihc, ihrest⟩ := List.forall_mem_cons.1 ih
      rw [List.map_cons, realizeEach, ihc, ihs ihrest, realizeEach]
  induction n with
  | symbol s =>
    obtain ⟨content, position, tempo, pitch, duration⟩ := s
    cases duration <;> rfl
  | hold | sequence | foreign => rfl
  | group content isExplicit duration ih =>
    rw [scale, scaleDurations_eq_map, realizeWith, each ih, realizeWith]
  | simul content duration ih =>
    rw [scale, scaleDurations_eq_map, realizeWith, each ih, realizeWith]
  | held content h ih =>
    rw [scale, realizeWith, ih, realizeWith, Hold.scale]
    cases h.slots with
    | none => rfl
    | some slots =>
      simp only [Option.map_some, Option.elim, bind, Except.bind, List.mapM_map]
      rfl

/-! ## One sound for all units -/

/-- A sound is what a tree sounds like in one unit of time: at every unit the tree is realized to
that sound, stretched by the unit. -/
def SoundsAs (table : Table) (n : Node) (ref : Sound) : Prop :=
  ∀ unit, ∃ sound, n.realizeWith (measuredBy unit) table.resolve = .ok sound ∧
    ref.StretchedFrom unit sound ∧ sound.duration.rational? = some (n.extent * unit)

/-- A symbol that a table voices sounds as silence, or as a note with its pitch. -/
theorem exists_sound_symbol {s : Symbol} (hs : table.Voices s.content) (h : (symbol s).Steady) :
    ∃ ref, SoundsAs table (symbol s) ref := by
  obtain ⟨d, hd⟩ := h.gathered
  have hextent : (symbol s).extent = d := extent_of_duration? hd
  have hscaled (unit : Rat) :
      (Quantity.ratio (d * unit)).scaled 1 = (Quantity.ratio d).scaled unit := by
    rw [Quantity.scaled_exact rfl, Quantity.scaled_exact rfl, mul_one]
  have hsound (unit : Rat) {sound : Sound}
      (hsound : table.resolve s.content (.ratio (d * unit)) = .ok sound) :=
    realizeSymbol_of_resolve (fun _ => rfl) hd hsound
  rcases resolve_of_voices hs with ⟨-, hresolve⟩ | ⟨-, isContinuous, hresolve⟩
  · refine ⟨.pause (.ratio d), fun unit => ⟨.pause (.ratio (d * unit)), ?_, ⟨.pause rfl, ?_⟩, ?_⟩⟩
    · refine (hsound unit (hresolve _)).trans ?_
      cases s.pitch <;> rfl
    · rw [Sound.scaled, Sound.scaled, hscaled]
    · rw [hextent]
      rfl
  · refine ⟨.note s.content (.ratio d) s.pitch isContinuous, fun unit =>
      ⟨.note s.content (.ratio (d * unit)) s.pitch isContinuous, ?_,
        ⟨.note _ _ rfl h.inTune, ?_⟩, ?_⟩⟩
    · refine (hsound unit (hresolve _)).trans ?_
      cases s.pitch <;> rfl
    · rw [Sound.scaled, Sound.scaled, hscaled]
    · rw [hextent]
      rfl

/-- Elements that each sound as one sound at every unit do so together. -/
theorem exists_sound_each {ns : List Node} (h : ∀ n ∈ ns, ∃ ref, SoundsAs table n ref) :
    ∃ refs : List Sound, ∀ unit, ∃ sounds,
      realizeEach (measuredBy unit) table.resolve ns = .ok sounds ∧
        (∀ s ∈ sounds, s.Proportioned) ∧
        sounds.map (Sound.scaled 1) = refs.map (Sound.scaled unit) ∧
        sounds.map (fun s => s.duration.rational?) = (ns.map (extent · * unit)).map some := by
  induction ns with
  | nil => exact ⟨[], fun unit => ⟨[], rfl, nofun, rfl, rfl⟩⟩
  | cons n ns ih =>
    obtain ⟨⟨ref, href⟩, hns⟩ := List.forall_mem_cons.1 h
    obtain ⟨refs, hrefs⟩ := ih hns
    refine ⟨ref :: refs, fun unit => ?_⟩
    obtain ⟨sound, hsound, hstretched, hduration⟩ := href unit
    obtain ⟨sounds, hsounds, hproportioned, hscaled, hdurations⟩ := hrefs unit
    refine ⟨sound :: sounds, bind_eq_ok.2 ⟨_, hsound, bind_eq_ok.2 ⟨_, hsounds, rfl⟩⟩,
      List.forall_mem_cons.2 ⟨hstretched.proportioned, hproportioned⟩, ?_, ?_⟩
    · rw [List.map_cons, hstretched.scaled_eq, hscaled, List.map_cons]
    · rw [List.map_cons, hduration, hdurations, List.map_cons, List.map_cons]

/-- A container of sounds that are stretched from others is stretched from a container of these. -/
theorem stretchedFrom_container {ns : List Node} {sounds refs : List Sound} {d : Quantity}
    {x unit : Rat} (arrangement : Arrangement) (hx : x ≠ 0)
    (hproportioned : ∀ s ∈ sounds, s.Proportioned)
    (hscaled : sounds.map (Sound.scaled 1) = refs.map (Sound.scaled unit))
    (hdurations : sounds.map (fun s => s.duration.rational?) =
      (ns.map (extent · * unit)).map some)
    (hd : d.rational? = some (x * unit)) :
    (Sound.container arrangement refs (.ratio x)).StretchedFrom unit
      (.container arrangement sounds d) := by
  refine ⟨.container arrangement hproportioned hd ?_, ?_⟩
  · intro hzero
    have hunit : unit = 0 := (mul_eq_zero.1 hzero).resolve_left hx
    intro s hs
    have hmem : s.duration.rational? ∈ (ns.map (extent · * unit)).map some :=
      hdurations ▸ List.mem_map_of_mem hs
    obtain ⟨y, hy, hvalue⟩ := List.mem_map.1 hmem
    obtain ⟨n, -, rfl⟩ := List.mem_map.1 hy
    rw [← hvalue, hunit, mul_zero]
  · rw [Sound.scaled, Sound.scaled, Sound.scaledEach_eq_map, Sound.scaledEach_eq_map, hscaled,
      Quantity.scaled_exact hd, Quantity.scaled_exact rfl, mul_one]

section
variable {content : List Node} {isExplicit : Bool} {duration : Option Rat}

/-- A group sounds as one sound at every unit of time if its elements do. -/
theorem exists_sound_group (h : (group content isExplicit duration).Steady)
    (hcontent : ∀ c ∈ content, ∃ ref, SoundsAs table c ref) :
    ∃ ref, SoundsAs table (group content isExplicit duration) ref := by
  obtain ⟨refs, hrefs⟩ := exists_sound_each hcontent
  have hd : (group content isExplicit duration).duration? = some (content.map extent).sum :=
    h.balanced
  have hextent := extent_of_duration? hd
  refine ⟨.container .inTurn refs (.ratio (group content isExplicit duration).extent),
    fun unit => ?_⟩
  obtain ⟨sounds, hsounds, hproportioned, hscaled, hdurations⟩ := hrefs unit
  obtain ⟨d, hd, hvalue⟩ := Sound.arrange_inTurn_exact hdurations
  rw [List.sum_map_mul_right, ← hextent] at hvalue
  exact ⟨_, bind_eq_ok.2 ⟨_, hsounds, hd⟩, stretchedFrom_container .inTurn h.extent_pos.ne'
    hproportioned hscaled hdurations hvalue, hvalue⟩

/-- A simul sounds as one sound at every unit of time if its elements do. -/
theorem exists_sound_simul (h : (simul content duration).Steady)
    (hcontent : ∀ c ∈ content, ∃ ref, SoundsAs table c ref) :
    ∃ ref, SoundsAs table (simul content duration) ref := by
  have hne := h.extent_pos.ne'
  obtain ⟨refs, hrefs⟩ := exists_sound_each hcontent
  refine ⟨.container .together refs (.ratio (simul content duration).extent), fun unit => ?_⟩
  obtain ⟨sounds, hsounds, hproportioned, hscaled, hdurations⟩ := hrefs unit
  obtain ⟨d, hd, hvalue⟩ := Sound.arrange_together_exact hdurations
  have hfirst : (content.map (extent · * unit)).headD 0 =
      (simul content duration).extent * unit := by
    obtain ⟨hnil, hparts⟩ := h.balanced
    cases content with
    | nil => exact absurd (extent_of_duration? (n := simul [] duration) (hnil rfl)) hne
    | cons first rest =>
      rw [List.map_cons, List.headD_cons, extent, hparts first (List.mem_cons_self ..)]
      rfl
  rw [hfirst] at hvalue
  exact ⟨_, bind_eq_ok.2 ⟨_, hsounds, hd⟩,
    stretchedFrom_container .together hne hproportioned hscaled hdurations hvalue, hvalue⟩

/-- A held element sounds as one sound at every unit of time if what is held does. -/
theorem exists_sound_held {n : Node} {s : Hold} (h : (held n s).Steady) (hn : n.extent ≠ 0)
    (hcontent : ∃ ref, SoundsAs table n ref) : ∃ ref, SoundsAs table (held n s) ref := by
  have hne := h.extent_pos.ne'
  obtain ⟨ref, href⟩ := hcontent
  obtain ⟨first, rest, hfirst, hslots, hd⟩ := h.gathered
  have hextent : (held n s).extent = (first :: rest).sum := extent_of_duration? hd
  have hown : first ≠ 0 := extent_of_duration? hfirst ▸ hn
  refine ⟨ref.filled first (first :: rest), fun unit => ?_⟩
  obtain ⟨sound, hsound, hstretched, hduration⟩ := href unit
  rw [extent_of_duration? hfirst] at hduration
  rw [hextent] at hne ⊢
  obtain ⟨filled, hfilled, hfilledFrom, hvalue⟩ := hstretched.fill hown hne hduration
  have hmeasured : (first :: rest).mapM (measuredBy unit) =
      .ok (((first :: rest).map (· * unit)).map .ratio) := by
    rw [List.map_map]
    exact mapM_of_forall fun _ _ => rfl
  refine ⟨filled, bind_eq_ok.2 ⟨_, hsound, bind_eq_ok.2 ⟨first :: rest, ?_, bind_eq_ok.2
    ⟨_, hmeasured, hfilled⟩⟩⟩, hfilledFrom, hvalue⟩
  rw [hslots]
  rfl

end

/-- A steady tree whose names a table voices sounds as one sound at every unit of time. -/
theorem exists_sound (h : tree.Every Steady) (hvoices : ∀ name ∈ tree.names, table.Voices name) :
    ∃ ref, SoundsAs table tree ref := by
  induction tree with
  | symbol s => exact exists_sound_symbol (hvoices s.content (.head _)) h.self
  | hold | sequence | foreign => exact h.self.gathered.elim
  | group content isExplicit duration ih =>
    exact exists_sound_group h.self fun c hc =>
      ih c hc (h.child hc) fun name hname => hvoices name (mem_names_of_child hc hname)
  | simul content duration ih =>
    exact exists_sound_simul h.self fun c hc =>
      ih c hc (h.child hc) fun name hname => hvoices name (mem_names_of_child hc hname)
  | held content s ih =>
    have hcontent := (every_held.1 h).2
    exact exists_sound_held h.self hcontent.self.extent_pos.ne' (ih hcontent fun name hname =>
      hvoices name (mem_names_of_child (List.mem_singleton_self _) hname))

end Node

open Node

/-- If no composite of a tree that is built is empty and no hold stands directly in a simul, then
fitting the annotated tree to a duration and realizing it gives the same sound as realizing the
tree and fitting its sound to that duration in time, whatever the unit of time. -/
theorem realize_fit {tokens : List Token} {root tree : Node} {table : Table} {unit : Quantity}
    {u : Rat} (h : build tokens = .ok root) (htree : root.annotate = .ok tree)
    (hcontent : root.Every HasContent) (hholds : root.Every HoldsApart)
    (hvoices : ∀ name ∈ tree.names, table.Voices name) (hunit : unit.rational? = some u)
    (d : Rat) :
    ∃ fitted before after length whole, tree.fit d = .ok fitted ∧
      tree.realize table.resolve unit = .ok before ∧
      fitted.realize table.resolve unit = .ok after ∧
      (Quantity.ratio d).mul unit = .ok length ∧ before.fit length = .ok whole ∧
      after.same whole = true := by
  have hsteady := steady_of_annotate (written_of_build h) hcontent hholds htree
  have hne : tree.extent ≠ 0 := hsteady.self.extent_pos.ne'
  have hmeasure : (fun d => (Quantity.ratio d).mul unit) = measuredBy u :=
    funext (measure_exact hunit)
  obtain ⟨ref, href⟩ := exists_sound hsteady hvoices
  obtain ⟨before, hbefore, hstretched, hduration⟩ := href u
  have hfactor : tree.extent * (d / tree.extent) = d := mul_div_cancel₀ _ hne
  have hfitted : tree.fit d = .ok (tree.scale (d / tree.extent)) := by
    have hfit := Node.fit_mul (hsteady.imp fun _ hm => hm.proportioned) (d / tree.extent)
    rwa [hfactor] at hfit
  obtain ⟨after, hafter, hstretchedAfter, -⟩ := href (u * (d / tree.extent))
  obtain ⟨whole, hwhole, hstretchedWhole, -⟩ := hstretched.fit hduration (d / tree.extent)
  have hlength : tree.extent * u * (d / tree.extent) = d * u := by
    rw [mul_right_comm, hfactor]
  rw [hlength] at hwhole
  refine ⟨_, before, after, _, whole, hfitted, ?_, ?_, measure_exact hunit d, hwhole,
    hstretchedAfter.same hstretchedWhole⟩
  · rw [realize, hmeasure, hbefore]
  · have hunits : (fun x => measuredBy u (x * (d / tree.extent))) =
        measuredBy (u * (d / tree.extent)) := by
      funext x
      rw [measuredBy, measuredBy, mul_assoc, mul_comm u]
    rw [realize, hmeasure, realizeWith_scale, hunits, hafter]

/-- A held note, a pitched one and a rest, fitted to no time at all. -/
theorem realize_fit_zero :
    ∃ root tree fitted before after length whole,
      build (["a", "_", ".", "/2", "b(1)", "-"].map (Token.mk · .start)) = .ok root ∧
        root.annotate = .ok tree ∧ root.Every HasContent ∧ root.Every HoldsApart ∧
        tree.fit 0 = .ok fitted ∧
        tree.realize ((Table.initial.addNote "a" true).addNote "b" false).resolve (.whole 2) =
          .ok before ∧
        fitted.realize ((Table.initial.addNote "a" true).addNote "b" false).resolve (.whole 2) =
          .ok after ∧
        (Quantity.ratio 0).mul (.whole 2) = .ok length ∧ before.fit length = .ok whole ∧
        after.same whole = true := by
  obtain ⟨root, hroot, hcontent, hholds, hnames⟩ :
      ∃ root, build (["a", "_", ".", "/2", "b(1)", "-"].map (Token.mk · .start)) = .ok root ∧
        root.Every HasContent ∧ root.Every HoldsApart ∧
        root.annotate.toOption.map names = some ["a", "b", "-"] :=
    ⟨_, rfl, by decide +kernel, by decide +kernel, by decide +kernel⟩
  cases htree : root.annotate with
  | error fault =>
    rw [htree] at hnames
    cases hnames
  | ok tree =>
    rw [htree] at hnames
    have hvoices : ∀ name ∈ tree.names,
        ((Table.initial.addNote "a" true).addNote "b" false).Voices name := by
      rw [Option.some.inj hnames]
      refine List.forall_mem_cons.2 ⟨?_, List.forall_mem_cons.2
        ⟨?_, List.forall_mem_singleton.2 ?_⟩⟩
      · exact (Table.voices_addNote (by decide) _ _).addNote (by decide) _
      · exact Table.voices_addNote (by decide) _ _
      · exact (Table.voices_initial.addNote (by decide) _).addNote (by decide) _
    have hunit : (Quantity.whole 2).rational? = some 2 := rfl
    obtain ⟨fitted, before, after, length, whole, hfit⟩ :=
      realize_fit hroot htree hcontent hholds hvoices hunit 0
    exact ⟨root, tree, fitted, before, after, length, whole, hroot, htree, hcontent, hholds, hfit⟩

end Polyrhythm
