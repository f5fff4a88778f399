import Mathlib.Data.List.Forall2
import Polyrhythm.Proofs.Sound.Proportion

/-!
# Runs that are written out

A sound that is repeated in slots is a sequence of its own, inside the sequence around it. It can be
loosened: its parts can be put into the sequence around it, in its place (`Sound.Loosens`). Nothing
that is heard changes (`Sound.LoosensTo.events`), and nothing will if the sequence is fitted later,
since both ways fit every part to the same multiple (`Sound.Loosens.fitEach`). What is heard of a
sound is stated in exact time (`Sound.heard`), apart from the kinds of numbers in its events.
-/

namespace Polyrhythm

open Traversal

/-- A note as it is heard: an event in exact time. -/
structure Beat where
  time : Rat
  duration : Rat
  name : String
  pitch : Option Quantity

/-- An event is a note that is heard. -/
structure Event.Plays (b : Beat) (e : Event) : Prop where
  time : e.time.rational? = some b.time
  duration : e.duration.rational? = some b.duration
  name : e.name = b.name
  pitch : e.pitch = b.pitch

namespace Sound

/-! ## What is heard -/

/-- The exact time that a sound lasts. -/
def extent (s : Sound) : Rat := s.duration.rational?.getD 0

mutual
/-- The notes of an exact sound from a time on. -/
def heard (start : Rat) : Sound → List Beat
  | note name duration pitch _ => [⟨start, duration.rational?.getD 0, name, pitch⟩]
  | container .inTurn objects _ => heardInTurn start objects
  | container .together objects _ => heardTogether start objects
  | pause _ | container .unspecified .. | bare => []

/-- The notes of sounds one after another. -/
def heardInTurn (start : Rat) : List Sound → List Beat
  | [] => []
  | s :: ss => heard start s ++ heardInTurn (start + s.extent) ss

/-- The notes of sounds that start together. -/
def heardTogether (start : Rat) : List Sound → List Beat
  | [] => []
  | s :: ss => heard start s ++ heardTogether start ss
end

variable {s t : Sound} {ss ts parts : List Sound} {a : Arrangement}

theorem heardInTurn_append (start : Rat) (ss ts : List Sound) :
    heardInTurn start (ss ++ ts) =
      heardInTurn start ss ++ heardInTurn (start + (ss.map extent).sum) ts := by
  induction ss generalizing start with
  | nil => rw [List.map_nil, List.sum_nil, add_zero]; rfl
  | cons s ss ih =>
    rw [List.cons_append, heardInTurn, ih, heardInTurn, List.append_assoc, List.map_cons,
      List.sum_cons, add_assoc]

/-- An exact sound has the events that are heard of it. -/
theorem IsExact.events (h : s.IsExact) {start : Quantity} {x : Rat}
    (hstart : start.rational? = some x) :
    ∃ events, s.events start = .ok events ∧ List.Forall₂ Event.Plays (s.heard x) events := by
  have each {objects : List Sound} (hobjects : ∀ s ∈ objects, s.IsExact)
      (ih : ∀ s ∈ objects, ∀ {start : Quantity} {x : Rat}, start.rational? = some x →
        ∃ events, s.events start = .ok events ∧ List.Forall₂ Event.Plays (s.heard x) events)
      {start : Quantity} {x : Rat} (hstart : start.rational? = some x) :
      (∃ events, eventsInTurn start objects = .ok events ∧
          List.Forall₂ Event.Plays (heardInTurn x objects) events) ∧
        ∃ events, eventsTogether start objects = .ok events ∧
          List.Forall₂ Event.Plays (heardTogether x objects) events := by
    induction objects generalizing start x with
    | nil => exact ⟨⟨[], rfl, .nil⟩, ⟨[], rfl, .nil⟩⟩
    | cons s ss ihs =>
      obtain ⟨hs, hss⟩ := List.forall_mem_cons.1 hobjects
      obtain ⟨ihfirst, ihrest⟩ := List.forall_mem_cons.1 ih
      obtain ⟨d, hd⟩ := hs.duration
      obtain ⟨first, hfirst, hplays⟩ := ihfirst hstart
      obtain ⟨next, hnext, hvalue⟩ := Quantity.add_exact hstart hd
      obtain ⟨⟨later, hlater, hplaysLater⟩, -⟩ := ihs hss ihrest hvalue
      obtain ⟨-, others, hothers, hplaysOthers⟩ := ihs hss ihrest hstart
      have hextent : s.extent = d := by rw [extent, hd, Option.getD_some]
      rw [heardInTurn, heardTogether, hextent]
      exact ⟨⟨first ++ later, bind_eq_ok.2 ⟨first, hfirst, bind_eq_ok.2 ⟨next, hnext,
          bind_eq_ok.2 ⟨later, hlater, rfl⟩⟩⟩, List.rel_append hplays hplaysLater⟩,
        ⟨first ++ others, bind_eq_ok.2 ⟨first, hfirst, bind_eq_ok.2 ⟨others, hothers, rfl⟩⟩,
          List.rel_append hplays hplaysOthers⟩⟩
  induction h generalizing start x with
  | note name pitch isContinuous hd =>
    exact ⟨_, rfl, .cons ⟨hstart, by rw [hd, Option.getD_some], rfl, rfl⟩ .nil⟩
  | pause => exact ⟨[], rfl, .nil⟩
  | @container arrangement objects d x harrangement hobjects hd ih =>
    have hboth := each hobjects (fun s hs => ih s hs) hstart
    cases arrangement with
    | inTurn => exact hboth.1
    | together => exact hboth.2
    | unspecified => exact absurd rfl harrangement

/-! ## Loosening -/

/-- Sounds that are played in some arrangement, and what they become if sequences inside sequences
are loosened. The parts of a sequence that is loosened last as long as all of it, and no time each
if it lasts none. -/
inductive Loosens : Arrangement → List Sound → List Sound → Prop
  | nil {a : Arrangement} : Loosens a [] []
  | note {a : Arrangement} {ss ts : List Sound} (name : String) (x : Rat)
    (pitch : Option Quantity) :
    Loosens a ss ts →
      Loosens a (note name (.ratio x) pitch false :: ss) (note name (.ratio x) pitch false :: ts)
  | pause {a : Arrangement} {ss ts : List Sound} (x : Rat) :
    Loosens a ss ts → Loosens a (pause (.ratio x) :: ss) (pause (.ratio x) :: ts)
  | container {a inner : Arrangement} {objects loose ss ts : List Sound} {d : Quantity} {x : Rat} :
    inner ≠ .unspecified → Loosens inner objects loose → d.rational? = some x → Loosens a ss ts →
      Loosens a (container inner objects d :: ss) (container inner loose (.ratio x) :: ts)
  | run {parts ss ts : List Sound} {d : Quantity} {xs : List Rat} :
    parts.map duration = xs.map .ratio → (xs.sum = 0 → ∀ x ∈ xs, x = 0) →
      d.rational? = some xs.sum → Loosens .inTurn (parts ++ ss) ts →
      Loosens .inTurn (container .inTurn parts d :: ss) ts

/-- A single sound loosens to another one: only sequences further inside are loosened. -/
def LoosensTo (s t : Sound) : Prop := Loosens .together [s] [t]

/-- A sound that loosens to another one can be put in front of sounds that loosen to others. -/
theorem LoosensTo.cons (h : LoosensTo s t) (hss : Loosens a ss ts) :
    Loosens a (s :: ss) (t :: ts) := by
  cases h with
  | note name x pitch => exact .note name x pitch hss
  | pause x => exact .pause x hss
  | container hinner hobjects hd => exact .container hinner hobjects hd hss

/-- Parts that last ratios last as long as these together. -/
theorem sum_extent_of_durations {xs : List Rat} (h : parts.map duration = xs.map .ratio) :
    (parts.map extent).sum = xs.sum := by
  have hextents : parts.map extent = (parts.map duration).map fun d => d.rational?.getD 0 := by
    rw [List.map_map]
    rfl
  have hvalues : (xs.map Quantity.ratio).map (fun d => d.rational?.getD 0) = xs := by
    rw [List.map_map]
    exact List.map_id' xs
  rw [hextents, h, hvalues]

/-- Sounds that are loosened are exact. -/
theorem Loosens.isExact (h : Loosens a ss ts) : ∀ s ∈ ss, s.IsExact := by
  induction h with
  | nil => exact nofun
  | note name x pitch _ ih => exact List.forall_mem_cons.2 ⟨.note name pitch false rfl, ih⟩
  | pause x _ ih => exact List.forall_mem_cons.2 ⟨.pause rfl, ih⟩
  | container hinner _ hd _ ihobjects ih =>
    exact List.forall_mem_cons.2 ⟨.container hinner ihobjects hd, ih⟩
  | run _ _ hd _ ih =>
    obtain ⟨hparts, hss⟩ := List.forall_mem_append.1 ih
    exact List.forall_mem_cons.2 ⟨.container nofun hparts hd, hss⟩

/-- Loosening keeps how long sounds last by themselves: all of them one after another, and the first
of those that are played together. -/
theorem Loosens.sum_extent (h : Loosens a ss ts) :
    (a = .inTurn → (ss.map extent).sum = (ts.map extent).sum) ∧
      (a = .together → (ss.map extent).headD 0 = (ts.map extent).headD 0) := by
  induction h with
  | nil => exact ⟨fun _ => rfl, fun _ => rfl⟩
  | note _ _ _ _ ih | pause _ _ ih =>
    refine ⟨fun ha => ?_, fun _ => rfl⟩
    rw [List.map_cons, List.sum_cons, ih.1 ha, List.map_cons, List.sum_cons]
  | @container a inner objects loose ss ts d x _ _ hd _ _ ih =>
    have hextent : extent (Sound.container inner objects d) =
        extent (Sound.container inner loose (.ratio x)) :=
      congrArg (Option.getD · 0) hd
    refine ⟨fun ha => ?_, fun _ => hextent⟩
    rw [List.map_cons, List.sum_cons, hextent, ih.1 ha, List.map_cons, List.sum_cons]
  | run hdurations _ hd _ ih =>
    refine ⟨fun _ => ?_, nofun⟩
    rw [← ih.1 rfl, List.map_append, List.sum_append, sum_extent_of_durations hdurations,
      List.map_cons, List.sum_cons, extent, duration, hd, Option.getD_some]

/-- Loosening keeps what is heard. -/
theorem Loosens.heard (h : Loosens a ss ts) :
    (a = .inTurn → ∀ start, heardInTurn start ss = heardInTurn start ts) ∧
      (a = .together → ∀ start, heardTogether start ss = heardTogether start ts) := by
  induction h with
  | nil => exact ⟨fun _ _ => rfl, fun _ _ => rfl⟩
  | note _ _ _ _ ih | pause _ _ ih =>
    refine ⟨fun ha start => ?_, fun ha start => ?_⟩
    · rw [heardInTurn, ih.1 ha, heardInTurn]
    · rw [heardTogether, ih.2 ha, heardTogether]
  | @container a inner objects loose ss ts d x hinner _ hd _ ihobjects ih =>
    have hextent : extent (Sound.container inner objects d) =
        extent (Sound.container inner loose (.ratio x)) :=
      congrArg (Option.getD · 0) hd
    have hheard (start : Rat) : Sound.heard start (.container inner objects d) =
        Sound.heard start (.container inner loose (.ratio x)) := by
      cases inner with
      | inTurn => exact ihobjects.1 rfl start
      | together => exact ihobjects.2 rfl start
      | unspecified => exact absurd rfl hinner
    refine ⟨fun ha start => ?_, fun ha start => ?_⟩
    · rw [heardInTurn, hheard, hextent, ih.1 ha, heardInTurn]
    · rw [heardTogether, hheard, ih.2 ha, heardTogether]
  | @run parts ss ts d xs hdurations _ hd _ ih =>
    refine ⟨fun _ start => ?_, nofun⟩
    have hextent : extent (Sound.container .inTurn parts d) = xs.sum :=
      congrArg (Option.getD · 0) hd
    rw [← ih.1 rfl, heardInTurn_append, sum_extent_of_durations hdurations, heardInTurn, hextent,
      Sound.heard]

/-- Two sounds that loosen to one have the same events, which are those heard of it. -/
theorem LoosensTo.events (h : LoosensTo s t) {start : Quantity} {x : Rat}
    (hstart : start.rational? = some x) :
    ∃ events, s.events start = .ok events ∧ List.Forall₂ Event.Plays (t.heard x) events := by
  obtain ⟨events, hevents, hplays⟩ := (h.isExact s (List.mem_singleton_self s)).events hstart
  have hheard := h.heard.2 rfl x
  rw [heardTogether, heardTogether, heardTogether, heardTogether, List.append_nil,
    List.append_nil] at hheard
  exact ⟨events, hevents, hheard ▸ hplays⟩

/-! ## Fitting -/

variable {f : Rat}

theorem fitEach_append (factor : Quantity) (ss ts : List Sound) :
    fitEach factor (ss ++ ts) =
      (do return (← fitEach factor ss) ++ (← fitEach factor ts)) := by
  induction ss with
  | nil =>
    cases hts : fitEach factor ts with
    | error fault => rw [List.nil_append, hts]; rfl
    | ok fitted => rw [List.nil_append, hts]; rfl
  | cons s ss ih =>
    rw [List.cons_append, fitEach, ih, fitEach]
    cases s.duration.mul factor with
    | error fault => rfl
    | ok own =>
      cases hs : fit own s with
      | error fault => simp [hs, bind, Except.bind]
      | ok fitted =>
        cases hss : fitEach factor ss with
        | error fault => simp [hs, bind, Except.bind]
        | ok fittedAll =>
          cases hts : fitEach factor ts with
          | error fault => simp [hs, bind, Except.bind, pure, Except.pure]
          | ok fittedRest => simp [hs, bind, Except.bind, pure, Except.pure]

/-- A sound that is fitted has the duration it was fitted to. -/
theorem duration_fit {new : Quantity} (h : s.fit new = .ok t) : t.duration = new := by
  cases s with
  | note | pause => cases h; rfl
  | container arrangement objects old =>
    rw [fit] at h
    split at h
    · cases h; rfl
    · obtain ⟨factor, -, h⟩ := bind_eq_ok.1 h
      obtain ⟨fitted, -, h⟩ := bind_eq_ok.1 h
      cases h; rfl
  | bare => cases h

/-- Sounds that last ratios last multiples of them after each is fitted. -/
theorem durations_fitEach {xs : List Rat} (h : fitEach (.ratio f) ss = .ok ts)
    (hxs : ss.map duration = xs.map .ratio) : ts.map duration = (xs.map (· * f)).map .ratio := by
  induction ss generalizing ts xs with
  | nil =>
    cases h
    cases xs with
    | nil => rfl
    | cons => cases hxs
  | cons s ss ih =>
    cases xs with
    | nil => cases hxs
    | cons x xs =>
      obtain ⟨hx, hxs⟩ := List.cons.inj hxs
      obtain ⟨own, hown, h⟩ := bind_eq_ok.1 h
      obtain ⟨s', hs', h⟩ := bind_eq_ok.1 h
      obtain ⟨ss', hss', h⟩ := bind_eq_ok.1 h
      cases h
      rw [hx] at hown
      cases hown
      rw [List.map_cons, duration_fit hs', ih hss' hxs]
      rfl

/-- Sounds that last no time are not changed by fitting each to a multiple of its duration. -/
theorem fitEach_of_zero (h : ∀ s ∈ ss, s.duration = .ratio 0) :
    fitEach (.ratio f) ss = .ok ss := by
  induction ss with
  | nil => rfl
  | cons s ss ih =>
    obtain ⟨hs, hss⟩ := List.forall_mem_cons.1 h
    have hown : s.duration.mul (.ratio f) = .ok (.ratio 0) := by
      rw [hs, Quantity.mul_ratio_exact rfl, zero_mul]
    have hself : s.fit (.ratio 0) = .ok s := by
      cases s with
      | note | pause => cases hs; rfl
      | container arrangement objects old => cases hs; rfl
      | bare => cases hs
    exact bind_eq_ok.2 ⟨_, hown, bind_eq_ok.2 ⟨_, hself, bind_eq_ok.2 ⟨_, ih hss, rfl⟩⟩⟩

/-- A container and what it loosens to are fitted alike, if their contents are. -/
theorem fit_container_of {objects loose : List Sound} {d : Quantity} {x : Rat}
    (hobjects : Loosens a objects loose) (hd : d.rational? = some x)
    (hfit : ∀ f, ∃ objects' loose', fitEach (.ratio f) objects = .ok objects' ∧
      fitEach (.ratio f) loose = .ok loose' ∧ Loosens a objects' loose') (new : Rat) :
    ∃ objects' loose',
      (Sound.container a objects d).fit (.ratio new) = .ok (.container a objects' (.ratio new)) ∧
        (Sound.container a loose (.ratio x)).fit (.ratio new) =
          .ok (.container a loose' (.ratio new)) ∧ Loosens a objects' loose' := by
  rw [fit, fit, Quantity.isZero_exact hd, Quantity.isZero_exact rfl]
  by_cases hzero : x = 0
  · rw [if_pos (decide_eq_true hzero), if_pos (decide_eq_true hzero)]
    exact ⟨objects, loose, rfl, rfl, hobjects⟩
  · rw [if_neg (by simpa using hzero), if_neg (by simpa using hzero)]
    obtain ⟨objects', loose', hobjects', hloose', hloosens⟩ := hfit (new / x)
    have hfactor := Quantity.ratio_div_exact new hd hzero
    have hfactor' : (Quantity.ratio new).div (.ratio x) = .ok (.ratio (new / x)) :=
      Quantity.ratio_div_exact new rfl hzero
    exact ⟨objects', loose', bind_eq_ok.2 ⟨_, hfactor, bind_eq_ok.2 ⟨_, hobjects', rfl⟩⟩,
      bind_eq_ok.2 ⟨_, hfactor', bind_eq_ok.2 ⟨_, hloose', rfl⟩⟩, hloosens⟩

/-- A sound in front of others is fitted to the same multiple as they are. -/
theorem fitEach_cons {s' : Sound} {ss' : List Sound} {x : Rat}
    (hx : s.duration.rational? = some x) (hs' : s.fit (.ratio (x * f)) = .ok s')
    (hss' : fitEach (.ratio f) ss = .ok ss') : fitEach (.ratio f) (s :: ss) = .ok (s' :: ss') :=
  bind_eq_ok.2 ⟨_, Quantity.mul_ratio_exact hx f, bind_eq_ok.2 ⟨_, hs', bind_eq_ok.2
    ⟨_, hss', rfl⟩⟩⟩

/-- A sequence of parts that last no time if it does is fitted to a multiple of its duration by
fitting each part to the same multiple. -/
theorem fit_run {parts' : List Sound} {d : Quantity} {xs : List Rat}
    (hdurations : parts.map duration = xs.map .ratio) (hzero : xs.sum = 0 → ∀ x ∈ xs, x = 0)
    (hd : d.rational? = some xs.sum) (hparts : fitEach (.ratio f) parts = .ok parts') :
    (container .inTurn parts d).fit (.ratio (xs.sum * f)) =
      .ok (.container .inTurn parts' (.ratio (xs.sum * f))) := by
  rw [fit, Quantity.isZero_exact hd]
  by_cases hnone : xs.sum = 0
  · have hstill : ∀ s ∈ parts, s.duration = .ratio 0 := by
      intro s hs
      have hmem : s.duration ∈ xs.map Quantity.ratio := hdurations ▸ List.mem_map_of_mem hs
      obtain ⟨x, hx, hvalue⟩ := List.mem_map.1 hmem
      rw [← hvalue, hzero hnone x hx]
    rw [fitEach_of_zero hstill] at hparts
    cases hparts
    rw [if_pos (decide_eq_true hnone)]
  · have hfactor : (Quantity.ratio (xs.sum * f)).div d = .ok (.ratio f) := by
      rw [Quantity.ratio_div_exact _ hd hnone, mul_div_cancel_left₀ _ hnone]
    rw [if_neg (by simpa using hnone)]
    exact bind_eq_ok.2 ⟨_, hfactor, bind_eq_ok.2 ⟨_, hparts, rfl⟩⟩

/-- Sounds can be fitted to the same multiple before or after they are loosened. -/
theorem Loosens.fitEach (h : Loosens a ss ts) (f : Rat) :
    ∃ ss' ts', fitEach (.ratio f) ss = .ok ss' ∧ fitEach (.ratio f) ts = .ok ts' ∧
      Loosens a ss' ts' := by
  induction h generalizing f with
  | nil => exact ⟨[], [], rfl, rfl, .nil⟩
  | note name x pitch _ ih =>
    obtain ⟨ss', ts', hss', hts', hloosens⟩ := ih f
    exact ⟨_, _, fitEach_cons rfl rfl hss', fitEach_cons rfl rfl hts',
      .note name (x * f) pitch hloosens⟩
  | pause x _ ih =>
    obtain ⟨ss', ts', hss', hts', hloosens⟩ := ih f
    exact ⟨_, _, fitEach_cons rfl rfl hss', fitEach_cons rfl rfl hts', .pause (x * f) hloosens⟩
  | @container a inner objects loose ss ts d x hinner hobjects hd _ ihobjects ih =>
    obtain ⟨ss', ts', hss', hts', hloosens⟩ := ih f
    obtain ⟨objects', loose', hfit, hfit', hinside⟩ :=
      fit_container_of hobjects hd ihobjects (x * f)
    exact ⟨_, _, fitEach_cons hd hfit hss', fitEach_cons rfl hfit' hts',
      .container hinner hinside rfl hloosens⟩
  | @run parts ss ts d xs hdurations hzero hd _ ih =>
    obtain ⟨all, ts', hall, hts', hloosens⟩ := ih f
    rw [fitEach_append] at hall
    obtain ⟨parts', hparts', hall⟩ := bind_eq_ok.1 hall
    obtain ⟨ss', hss', hall⟩ := bind_eq_ok.1 hall
    cases hall
    have hsum : (xs.map (· * f)).sum = xs.sum * f := by
      rw [List.sum_map_mul_right, List.map_id']
    have hfit := fit_run hdurations hzero hd hparts'
    refine ⟨_, ts', fitEach_cons hd hfit hss', hts',
      .run (durations_fitEach hparts' hdurations) ?_ (congrArg some hsum.symm) hloosens⟩
    rw [hsum]
    intro hproduct
    refine List.forall_mem_map.2 fun x hx => ?_
    rcases mul_eq_zero.1 hproduct with hnone | hf
    · rw [hzero hnone x hx, zero_mul]
    · rw [hf, mul_zero]

/-- A sound can be fitted before or after it is loosened. -/
theorem LoosensTo.fit (h : LoosensTo s t) (x : Rat) :
    ∃ s' t', s.fit (.ratio x) = .ok s' ∧ t.fit (.ratio x) = .ok t' ∧ LoosensTo s' t' := by
  cases h with
  | note name _ pitch => exact ⟨_, _, rfl, rfl, .note name x pitch .nil⟩
  | pause => exact ⟨_, _, rfl, rfl, .pause x .nil⟩
  | container hinner hobjects hd =>
    obtain ⟨objects', loose', hfit, hfit', hinside⟩ :=
      fit_container_of hobjects hd hobjects.fitEach x
    exact ⟨_, _, hfit, hfit', .container hinner hinside rfl .nil⟩

/-- A sound and what it loosens to, each fitted to several slots in turn. -/
theorem LoosensTo.mapM_fit (h : LoosensTo s t) (slots : List Rat) :
    ∃ parts fitted, (slots.map Quantity.ratio).mapM (fun slot => s.fit slot) = .ok parts ∧
      (slots.map Quantity.ratio).mapM (fun slot => t.fit slot) = .ok fitted ∧
      parts.map duration = slots.map .ratio ∧
      ∀ {a : Arrangement} {ss ts : List Sound}, Loosens a ss ts →
        Loosens a (parts ++ ss) (fitted ++ ts) := by
  induction slots with
  | nil => exact ⟨[], [], rfl, rfl, rfl, fun h => h⟩
  | cons slot slots ih =>
    obtain ⟨parts, fitted, hparts, hfitted, hdurations, happend⟩ := ih
    obtain ⟨s', t', hs', ht', hloosens⟩ := h.fit slot
    refine ⟨s' :: parts, t' :: fitted, mapM_cons_eq_ok.2 ⟨s', parts, hs', hparts, rfl⟩,
      mapM_cons_eq_ok.2 ⟨t', fitted, ht', hfitted, rfl⟩, ?_, fun h => hloosens.cons (happend h)⟩
    rw [List.map_cons, duration_fit hs', hdurations, List.map_cons]

end Sound

end Polyrhythm
