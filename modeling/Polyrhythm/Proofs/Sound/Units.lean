import Polyrhythm.Proofs.Sound.Duration
import Polyrhythm.Proofs.Sound.Stretching

/-!
# Units of time

A tree that is realized in a unit of time has the sound of the unit 1, with every duration in it
multiplied by the unit (`Node.scaled_realizeWith`). The unit enters where symbols are looked up and
where slots are filled; a container that is fitted to a slot divides one duration by another, so
that the unit cancels (`Sound.scaled_fit`). If the unit is zero, nothing is left to divide by, and a
container keeps its content as it is; but then all durations in it are zero anyway, and so they are
in the container that was fitted, multiplied by zero (`Sound.scaled_fit_of_zero`).
-/

namespace Polyrhythm

open Traversal

/-- Nothing but zero is left of a quantity that is multiplied by zero. -/
theorem Quantity.scaled_zero (a : Quantity) : a.scaled 0 = .ratio 0 := by
  rw [scaled, mul_zero]

namespace Sound

variable {s s' t t' : Sound} {ss ss' ts ts' : List Sound} {u x y f : Rat}

/-- If a sound has the durations of another one multiplied, so is the duration of the whole. -/
theorem duration_of_scaled (h' : s'.IsExact) (hscaled : s'.scaled 1 = s.scaled u)
    (hx : s.duration.rational? = some x) : s'.duration.rational? = some (x * u) := by
  obtain ⟨x', hx'⟩ := h'.duration
  have hextent := congrArg extent hscaled
  rw [extent_scaled, extent_scaled, extent, extent, hx, hx', Option.getD_some, Option.getD_some,
    mul_one] at hextent
  rw [hx', hextent]

theorem scaled_withPitch (factor : Rat) (pitch : Option Quantity) (s : Sound) :
    (s.withPitch pitch).scaled factor = (s.scaled factor).withPitch pitch := by
  cases s <;> rfl

/-! ## Fitting -/

mutual
/-- Multiplied by zero, a sound is the same before and after it is fitted. -/
theorem scaled_zero_fit {new : Quantity} {s t : Sound} (h : s.fit new = .ok t) :
    t.scaled 0 = s.scaled 0 := by
  cases s with
  | note | pause =>
    cases h
    simp only [scaled, Quantity.scaled_zero]
  | container arrangement objects old =>
    rw [fit] at h
    split at h
    · cases h
      simp only [scaled, Quantity.scaled_zero]
    · obtain ⟨factor, -, h⟩ := bind_eq_ok.1 h
      obtain ⟨fitted, hfitted, h⟩ := bind_eq_ok.1 h
      cases h
      simp only [scaled, Quantity.scaled_zero, scaledEach_zero_fitEach hfitted]
  | bare => cases h

theorem scaledEach_zero_fitEach {factor : Quantity} {ss ts : List Sound}
    (h : fitEach factor ss = .ok ts) : scaledEach 0 ts = scaledEach 0 ss := by
  cases ss with
  | nil =>
    cases h
    rfl
  | cons s ss =>
    obtain ⟨own, -, h⟩ := bind_eq_ok.1 h
    obtain ⟨t, ht, h⟩ := bind_eq_ok.1 h
    obtain ⟨ts, hts, h⟩ := bind_eq_ok.1 h
    cases h
    rw [scaledEach, scaled_zero_fit ht, scaledEach_zero_fitEach hts, scaledEach]
end

/-- A container that lasts no time once it is multiplied has the same content then, whether it was
fitted or not. -/
theorem scaled_fit_of_zero {a : Arrangement} {d new : Quantity} (hd : d.rational? = some x)
    (hzero : x * u = 0) (h : (container a ss d).fit new = .ok t) :
    t.scaled u = container a (ss.map (scaled u)) (new.scaled u) := by
  rcases mul_eq_zero.1 hzero with rfl | rfl
  · rw [fit, Quantity.isZero_exact hd, if_pos (decide_eq_true rfl)] at h
    cases h
    rw [scaled, scaledEach_eq_map]
  · rw [scaled_zero_fit h, scaled, scaledEach_eq_map, Quantity.scaled_zero, Quantity.scaled_zero]

/-- The first of several sounds is fitted to a multiple of its duration, and so are the others. -/
theorem exists_of_fitEach_cons (hx : s.duration.rational? = some x)
    (h : fitEach (.ratio f) (s :: ss) = .ok ts) :
    ∃ t rest, ts = t :: rest ∧ s.fit (.ratio (x * f)) = .ok t ∧
      fitEach (.ratio f) ss = .ok rest := by
  obtain ⟨own, hown, h⟩ := bind_eq_ok.1 h
  obtain ⟨t, ht, h⟩ := bind_eq_ok.1 h
  obtain ⟨rest, hrest, h⟩ := bind_eq_ok.1 h
  cases h
  cases hown.symm.trans (Quantity.mul_ratio_exact hx f)
  exact ⟨t, rest, rfl, ht, hrest⟩

/-- Sounds whose durations are multiplied stay so if each is fitted to the same multiple of its
duration. -/
theorem scaled_fitEach_of (h : ∀ s ∈ ss, s.IsExact) (h' : ∀ s ∈ ss', s.IsExact)
    (hfit : ∀ s ∈ ss, ∀ {s' t t' : Sound} {y : Rat}, s'.IsExact → s'.scaled 1 = s.scaled u →
      s.fit (.ratio y) = .ok t → s'.fit (.ratio (y * u)) = .ok t' → t'.scaled 1 = t.scaled u)
    (hscaled : ss'.map (scaled 1) = ss.map (scaled u)) (hts : fitEach (.ratio f) ss = .ok ts)
    (hts' : fitEach (.ratio f) ss' = .ok ts') : ts'.map (scaled 1) = ts.map (scaled u) := by
  induction ss generalizing ss' ts ts' with
  | nil =>
    cases ss' with
    | nil =>
      cases hts
      cases hts'
      rfl
    | cons => cases hscaled
  | cons s ss ih =>
    cases ss' with
    | nil => cases hscaled
    | cons s' ss' =>
      obtain ⟨hs, hss⟩ := List.forall_mem_cons.1 h
      obtain ⟨hs', hss'⟩ := List.forall_mem_cons.1 h'
      obtain ⟨hfits, hfitss⟩ := List.forall_mem_cons.1 hfit
      obtain ⟨hfirst, hothers⟩ := List.cons.inj hscaled
      obtain ⟨x, hx⟩ := hs.duration
      obtain ⟨t, rest, rfl, ht, hrest⟩ := exists_of_fitEach_cons hx hts
      obtain ⟨t', rest', rfl, ht', hrest'⟩ :=
        exists_of_fitEach_cons (duration_of_scaled hs' hfirst hx) hts'
      rw [mul_right_comm] at ht'
      rw [List.map_cons, List.map_cons, hfits hs' hfirst ht ht',
        ih hss hss' hfitss hothers hrest hrest']

/-- Sounds whose durations are multiplied stay so if the durations that they are fitted to are
multiplied likewise. -/
theorem scaled_fit (h : s.IsExact) (h' : s'.IsExact) (hscaled : s'.scaled 1 = s.scaled u)
    (ht : s.fit (.ratio y) = .ok t) (ht' : s'.fit (.ratio (y * u)) = .ok t') :
    t'.scaled 1 = t.scaled u := by
  have hnew (y : Rat) : (Quantity.ratio (y * u)).scaled 1 = (Quantity.ratio y).scaled u := by
    rw [Quantity.scaled_exact rfl, Quantity.scaled_exact rfl, mul_one]
  induction h generalizing s' t t' y with
  | note =>
    cases h' with
    | note =>
      simp only [scaled, note.injEq] at hscaled
      obtain ⟨rfl, -, rfl, rfl⟩ := hscaled
      cases ht
      cases ht'
      rw [scaled, scaled, hnew]
    | pause | container => cases hscaled
  | pause =>
    cases h' with
    | pause =>
      cases ht
      cases ht'
      rw [scaled, scaled, hnew]
    | note | container => cases hscaled
  | @container arrangement objects d x _ hobjects hd ih =>
    have hd' := duration_of_scaled h' hscaled hd
    cases h' with
    | note | pause => cases hscaled
    | @container _ objects' d' _ _ hobjects' _ =>
      rw [duration] at hd'
      simp only [scaled, container.injEq, scaledEach_eq_map] at hscaled
      obtain ⟨rfl, hscaled, -⟩ := hscaled
      by_cases hzero : x * u = 0
      · rw [fit, Quantity.isZero_exact hd', if_pos (decide_eq_true hzero)] at ht'
        cases ht'
        rw [scaled_fit_of_zero hd hzero ht, scaled, scaledEach_eq_map, hscaled, hnew]
      · -- both containers are divided by, and the unit cancels in the factor
        have hx : x ≠ 0 := left_ne_zero_of_mul hzero
        have hu : u ≠ 0 := right_ne_zero_of_mul hzero
        rw [fit, Quantity.isZero_exact hd, if_neg (by simpa using hx)] at ht
        rw [fit, Quantity.isZero_exact hd', if_neg (by simpa using hzero)] at ht'
        obtain ⟨factor, hfactor, ht⟩ := bind_eq_ok.1 ht
        obtain ⟨fitted, hfitted, ht⟩ := bind_eq_ok.1 ht
        cases ht
        obtain ⟨factor', hfactor', ht'⟩ := bind_eq_ok.1 ht'
        obtain ⟨fitted', hfitted', ht'⟩ := bind_eq_ok.1 ht'
        cases ht'
        cases hfactor.symm.trans (Quantity.ratio_div_exact y hd hx)
        cases hfactor'.symm.trans (Quantity.ratio_div_exact (y * u) hd' hzero)
        rw [mul_div_mul_right y x hu] at hfitted'
        have heach := scaled_fitEach_of hobjects hobjects' (fun s hs => ih s hs) hscaled hfitted
          hfitted'
        rw [scaled, scaled, scaledEach_eq_map, scaledEach_eq_map, heach, hnew]

/-! ## Arranging -/

/-- Arrangements of sounds whose durations are multiplied, if the whole lasts a multiple as well. -/
theorem scaled_arrange {a : Arrangement} (hscaled : ss'.map (scaled 1) = ss.map (scaled u))
    (ht : arrange a ss none = .ok t) (ht' : arrange a ss' none = .ok t')
    (hx : t.duration.rational? = some x) (hx' : t'.duration.rational? = some (x * u)) :
    t'.scaled 1 = t.scaled u := by
  obtain ⟨d, -, ht⟩ := bind_eq_ok.1 ht
  obtain ⟨d', -, ht'⟩ := bind_eq_ok.1 ht'
  cases ht
  cases ht'
  rw [duration] at hx hx'
  rw [scaled, scaled, scaledEach_eq_map, scaledEach_eq_map, hscaled, Quantity.scaled_exact hx,
    Quantity.scaled_exact hx', mul_one]

/-- Sounds whose durations are multiplied, fitted to slots that are multiplied likewise. -/
theorem scaled_mapM_fit (h : s.IsExact) (h' : s'.IsExact) (hscaled : s'.scaled 1 = s.scaled u)
    {slots : List Rat} (hts : (slots.map Quantity.ratio).mapM (fun slot => s.fit slot) = .ok ts)
    (hts' : ((slots.map (· * u)).map Quantity.ratio).mapM (fun slot => s'.fit slot) = .ok ts') :
    ts'.map (scaled 1) = ts.map (scaled u) := by
  induction slots generalizing ts ts' with
  | nil =>
    cases hts
    cases hts'
    rfl
  | cons slot slots ih =>
    obtain ⟨t, rest, ht, hrest, rfl⟩ := mapM_cons_eq_ok.1 hts
    obtain ⟨t', rest', ht', hrest', rfl⟩ := mapM_cons_eq_ok.1 hts'
    rw [List.map_cons, List.map_cons, scaled_fit h h' hscaled ht ht', ih hrest hrest']

/-- Slots that are multiplied, filled with sounds whose durations are multiplied likewise. -/
theorem scaled_fill (h : s.IsExact) (h' : s'.IsExact) (hscaled : s'.scaled 1 = s.scaled u)
    {slots : List Rat} (ht : s.fill (slots.map .ratio) = .ok t)
    (ht' : s'.fill ((slots.map (· * u)).map .ratio) = .ok t') : t'.scaled 1 = t.scaled u := by
  have hduration {s t : Sound} (h : s.IsExact) {slots : List Rat}
      (ht : s.fill (slots.map .ratio) = .ok t) : t.duration.rational? = some slots.sum := by
    obtain ⟨filled, hfilled, -, hsum⟩ := fill_exact h slots
    cases ht.symm.trans hfilled
    exact hsum
  have hx := hduration h ht
  have hx' := hduration h' ht'
  rw [List.sum_map_mul_right, List.map_id'] at hx'
  have hsustained : s'.isSustained = s.isSustained := by
    rw [← isSustained_scaled 1, hscaled, isSustained_scaled]
  cases hcases : s.isSustained with
  | false =>
    rw [fill_of_not_isSustained hcases] at ht
    rw [fill_of_not_isSustained (hsustained.trans hcases)] at ht'
    obtain ⟨ts, hts, ht⟩ := bind_eq_ok.1 ht
    obtain ⟨ts', hts', ht'⟩ := bind_eq_ok.1 ht'
    exact scaled_arrange (scaled_mapM_fit h h' hscaled hts hts') ht ht' hx hx'
  | true =>
    cases h with
    | note =>
      cases hcases
      cases h' with
      | note =>
        simp only [scaled, note.injEq] at hscaled
        obtain ⟨rfl, -, rfl, rfl⟩ := hscaled
        obtain ⟨d, -, ht⟩ := bind_eq_ok.1 ht
        obtain ⟨d', -, ht'⟩ := bind_eq_ok.1 ht'
        cases ht
        cases ht'
        rw [duration] at hx hx'
        rw [scaled, scaled, Quantity.scaled_exact hx, Quantity.scaled_exact hx', mul_one]
      | pause | container => cases hscaled
    | pause | container => cases hcases

end Sound

/-! ## Realizing -/

namespace Node

variable {measure measure' : Rat → Except Fault Quantity} {table : Table} {tree : Node}
  {u v : Rat} {sound sound' : Sound}

/-- A symbol whose name is voiced, in two units of time. -/
theorem scaled_realizeSymbol {s : Symbol} {d : Rat}
    (hmeasure : ∀ d, measure d = .ok (.ratio (d * v)))
    (hmeasure' : ∀ d, measure' d = .ok (.ratio (d * (v * u)))) (hs : table.Voices s.content)
    (hd : s.duration = some d) (h : realizeSymbol measure table.resolve s = .ok sound)
    (h' : realizeSymbol measure' table.resolve s = .ok sound') :
    sound'.scaled 1 = sound.scaled u := by
  have hnew : (Quantity.ratio (d * (v * u))).scaled 1 = (Quantity.ratio (d * v)).scaled u := by
    rw [Quantity.scaled_exact rfl, Quantity.scaled_exact rfl, mul_one, mul_assoc]
  have hfound : ∃ found found', table.resolve s.content (.ratio (d * v)) = .ok found ∧
      table.resolve s.content (.ratio (d * (v * u))) = .ok found' ∧
      found'.scaled 1 = found.scaled u := by
    rcases resolve_of_voices hs with ⟨-, hresolve⟩ | ⟨-, isContinuous, hresolve⟩
    · exact ⟨_, _, hresolve _, hresolve _, congrArg Sound.pause hnew⟩
    · exact ⟨_, _, hresolve _, hresolve _,
        congrArg (Sound.note s.content · none isContinuous) hnew⟩
  obtain ⟨found, found', hfound, hfound', hscaled⟩ := hfound
  cases h.symm.trans (realizeSymbol_of_resolve hmeasure hd hfound)
  cases h'.symm.trans (realizeSymbol_of_resolve hmeasure' hd hfound')
  cases s.pitch with
  | none => exact hscaled
  | some pitch =>
    rw [Option.elim_some, Option.elim_some, Sound.scaled_withPitch, Sound.scaled_withPitch, hscaled]

/-- The sounds of elements in two units of time. -/
theorem scaled_realizeEach {ns : List Node} {sounds sounds' : List Sound}
    (hscaled : ∀ n ∈ ns, ∀ {sound sound' : Sound},
      n.realizeWith measure table.resolve = .ok sound →
      n.realizeWith measure' table.resolve = .ok sound' → sound'.scaled 1 = sound.scaled u)
    (h : realizeEach measure table.resolve ns = .ok sounds)
    (h' : realizeEach measure' table.resolve ns = .ok sounds') :
    sounds'.map (Sound.scaled 1) = sounds.map (Sound.scaled u) := by
  induction ns generalizing sounds sounds' with
  | nil =>
    cases h
    cases h'
    rfl
  | cons n ns ih =>
    obtain ⟨hn, hns⟩ := List.forall_mem_cons.1 hscaled
    obtain ⟨sound, hsound, h⟩ := bind_eq_ok.1 h
    obtain ⟨sounds, hsounds, h⟩ := bind_eq_ok.1 h
    cases h
    obtain ⟨sound', hsound', h'⟩ := bind_eq_ok.1 h'
    obtain ⟨sounds', hsounds', h'⟩ := bind_eq_ok.1 h'
    cases h'
    rw [List.map_cons, List.map_cons, hn hsound hsound', ih hns hsounds hsounds']

/-- The sound of a held element is that of its content, repeated in the slots. -/
theorem exists_fill_of_realizeWith {content : Node} {s : Hold} {slots : List Rat}
    (hmeasure : ∀ d, measure d = .ok (.ratio (d * v))) (hslots : s.slots = some slots)
    (hgathered : content.Every Gathered) (hvoices : ∀ name ∈ content.names, table.Voices name)
    (h : (held content s).realizeWith measure table.resolve = .ok sound) :
    ∃ inside, content.realizeWith measure table.resolve = .ok inside ∧ inside.IsExact ∧
      inside.fill ((slots.map (· * v)).map .ratio) = .ok sound := by
  obtain ⟨inside, hinside, h⟩ := bind_eq_ok.1 h
  obtain ⟨slots', hslots', h⟩ := bind_eq_ok.1 h
  obtain ⟨times, htimes, h⟩ := bind_eq_ok.1 h
  rw [hslots] at hslots'
  cases hslots'
  rw [mapM_of_forall fun d _ => hmeasure d] at htimes
  cases htimes
  obtain ⟨inside', hinside', hexact, -⟩ := realizeWith_exact hmeasure hgathered hvoices
  cases hinside.symm.trans hinside'
  refine ⟨inside, hinside, hexact, ?_⟩
  rw [List.map_map]
  exact h

/-- In a unit that is multiplied, the sound of a gathered tree has every duration multiplied. -/
theorem scaled_realizeWith (hmeasure : ∀ d, measure d = .ok (.ratio (d * v)))
    (hmeasure' : ∀ d, measure' d = .ok (.ratio (d * (v * u)))) (hgathered : tree.Every Gathered)
    (hvoices : ∀ name ∈ tree.names, table.Voices name)
    (h : tree.realizeWith measure table.resolve = .ok sound)
    (h' : tree.realizeWith measure' table.resolve = .ok sound') :
    sound'.scaled 1 = sound.scaled u := by
  induction tree generalizing sound sound' with
  | symbol s =>
    obtain ⟨d, hd⟩ := every_symbol.1 hgathered
    exact scaled_realizeSymbol hmeasure hmeasure' (hvoices s.content (.head _)) hd h h'
  | hold | sequence | foreign => exact hgathered.self.elim
  | group content _ _ ih | simul content _ ih =>
    have hx := duration_of_realizeWith hmeasure hgathered hvoices h
    have hx' := duration_of_realizeWith hmeasure' hgathered hvoices h'
    obtain ⟨sounds, hsounds, harrange⟩ := bind_eq_ok.1 h
    obtain ⟨sounds', hsounds', harrange'⟩ := bind_eq_ok.1 h'
    have heach := scaled_realizeEach (fun c hc _ _ => ih c hc (hgathered.child hc) fun name hname =>
      hvoices name (mem_names_of_child hc hname)) hsounds hsounds'
    exact Sound.scaled_arrange heach harrange harrange' hx (by rw [hx', mul_assoc])
  | held content s ih =>
    obtain ⟨⟨first, rest, -, hslots, -⟩, hcontent⟩ := every_held.1 hgathered
    have hnames : ∀ name ∈ content.names, table.Voices name := fun name hname =>
      hvoices name (mem_names_of_child (List.mem_singleton_self _) hname)
    obtain ⟨inside, hinside, hexact, hfill⟩ :=
      exists_fill_of_realizeWith hmeasure hslots hcontent hnames h
    obtain ⟨inside', hinside', hexact', hfill'⟩ :=
      exists_fill_of_realizeWith hmeasure' hslots hcontent hnames h'
    have hslots' : (first :: rest).map (· * (v * u)) =
        ((first :: rest).map (· * v)).map (· * u) := by
      rw [List.map_map]
      exact List.map_congr_left fun d _ => (mul_assoc d v u).symm
    rw [hslots'] at hfill'
    exact Sound.scaled_fill hexact hexact' (ih hcontent hnames hinside hinside') hfill hfill'

end Node

open Node

/-- The unit of time only scales the sound of a text whose names are voiced: compared with the unit
1 there are the same events in the same order, at times and of durations multiplied by the unit, and
the whole lasts as many times as long. -/
theorem events_of_unit {text : String} {tree : Node} {table : Table} {unit : Quantity} {u : Rat}
    (h : parse text = .ok tree) (hvoices : ∀ name ∈ tree.names, table.Voices name)
    (hunit : unit.rational? = some u) :
    ∃ one sound beats events length, tree.realize table.resolve (.whole 1) = .ok one ∧
      tree.realize table.resolve unit = .ok sound ∧ one.events (.whole 0) = .ok beats ∧
      sound.events (.whole 0) = .ok events ∧
      List.Forall₂ (Event.StretchedFrom 0 u) beats events ∧
      one.duration.rational? = some length ∧ sound.duration.rational? = some (length * u) := by
  obtain ⟨tokens, root, -, -, hwritten, htree⟩ := exists_of_parse h
  have hgathered := gathered_of_annotate hwritten htree
  have hone : (Quantity.whole 1).rational? = some 1 := rfl
  obtain ⟨one, hrealize, hexact, hlength⟩ :=
    realizeWith_exact (measure_exact hone) hgathered hvoices
  obtain ⟨sound, hrealize', hexact', -⟩ :=
    realizeWith_exact (measure_exact hunit) hgathered hvoices
  have hscaled : sound.scaled 1 = one.scaled u :=
    scaled_realizeWith (measure_exact hone) (by rw [one_mul]; exact measure_exact hunit) hgathered
      hvoices hrealize hrealize'
  have hstart : (Quantity.whole 0).rational? = some 0 := rfl
  obtain ⟨beats, events, hbeats, hevents, hstretched⟩ :=
    Sound.events_of_scaled hexact hexact' hscaled hstart
  exact ⟨one, sound, beats, events, _, hrealize, hrealize', hbeats, hevents, hstretched, hlength,
    Sound.duration_of_scaled hexact' hscaled hlength⟩

/-- A block that is held and a tone that is held with a rest, backwards and twice as fast. -/
theorem events_of_unit_backwards :
    ∃ tree one sound beats events length, parse "\x7ba b\x7d _ . c _ -" = .ok tree ∧
      tree.realize (((Table.initial.addNote "a" false).addNote "b" false).addNote "c" true).resolve
        (.whole 1) = .ok one ∧
      tree.realize (((Table.initial.addNote "a" false).addNote "b" false).addNote "c" true).resolve
        (.ratio (-1 / 2)) = .ok sound ∧
      one.events (.whole 0) = .ok beats ∧ sound.events (.whole 0) = .ok events ∧
      List.Forall₂ (Event.StretchedFrom 0 (-1 / 2)) beats events ∧
      one.duration.rational? = some length ∧
      sound.duration.rational? = some (length * (-1 / 2)) := by
  have hnames : (parse "\x7ba b\x7d _ . c _ -").toOption.map names = some ["a", "b", "c", "-"] := by
    decide +kernel
  cases htree : parse "\x7ba b\x7d _ . c _ -" with
  | error fault => rw [htree] at hnames; cases hnames
  | ok tree =>
    rw [htree] at hnames
    have hvoices : ∀ name ∈ tree.names,
        (((Table.initial.addNote "a" false).addNote "b" false).addNote "c" true).Voices name := by
      rw [Option.some.inj hnames]
      simp only [List.forall_mem_cons]
      refine ⟨?_, ?_, Table.voices_addNote (by decide) _ _, ?_, nofun⟩
      · exact ((Table.voices_addNote (by decide) _ _).addNote (by decide) _).addNote (by decide) _
      · exact (Table.voices_addNote (by decide) _ _).addNote (by decide) _
      · exact ((Table.voices_initial.addNote (by decide) _).addNote (by decide) _).addNote
          (by decide) _
    have hunit : (Quantity.ratio (-1 / 2)).rational? = some (-1 / 2) := rfl
    obtain ⟨one, sound, beats, events, length, hrest⟩ := events_of_unit htree hvoices hunit
    exact ⟨tree, one, sound, beats, events, length, rfl, hrest⟩

end Polyrhythm
