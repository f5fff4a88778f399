import Polyrhythm.Proofs.Grammar.Threaded
import Polyrhythm.Proofs.Sound.Striking

/-!
# Holding a note or striking it again

In a table without continuous notes it makes no difference whether a hold or the symbol before it
stands in a list. Two laid out lists may differ in this at any places (`Node.Restruck`): they are
performed in one way (`Node.exists_performed`), and so groups and simuls of them, once gathered,
loosen to the same sound (`Node.soundsLike_group`, `Node.soundsLike_simul`).
-/

namespace Polyrhythm

open Traversal

namespace Node

variable {table : Table} {u : Rat} {n n' m m' : Node} {ns ns' out out' : List Node}
  {t cur cur' : Sound} {ts : List Sound}

/-! ## Holds and symbols -/

/-- Elements that, gathered inside, are realized to sounds that loosen to one. -/
def SoundsLike (table : Table) (u : Rat) (n n' : Node) : Prop :=
  ∀ m m', n.gatherInside = .ok m → n'.gatherInside = .ok m' →
    (∀ name ∈ m.names, table.Strikes name) → (∀ name ∈ m'.names, table.Strikes name) →
      ∃ t, Realizes table u m t ∧ Realizes table u m' t

/-- Elements of two laid out lists that are performed in one way: leaves alike, or composites that
sound alike. A hold may also be replaced by a symbol as long as it, if the symbol has the heading
that was handed on, which is that of the symbol before them and before any holds between. -/
inductive Restruck (table : Table) (u : Rat) : Option Heading → Node → Node → Option Heading → Prop
  | hold {before after : Option Heading} {h h' : Hold} {d : Rat} :
    h.duration = some d → h'.duration = some d → 0 ≤ d → Kept before after →
    Restruck table u before (hold h) (hold h') after
  | again {after : Option Heading} {h : Hold} {s : Symbol} {d : Rat} :
    h.duration = some d → s.duration = some d → 0 ≤ d → Kept (some s.heading) after →
    Restruck table u (some s.heading) (hold h) (symbol s) after
  | symbol {before after : Option Heading} {s s' : Symbol} {d : Rat} :
    s.duration = some d → s'.duration = some d → 0 ≤ d → s'.heading = s.heading →
    Kept (some s.heading) after → Restruck table u before (symbol s) (symbol s') after
  | composite {before : Option Heading} {n n' : Node} {d : Rat} :
    n.isLeaf = false → n'.isLeaf = false → n.duration? = some d → n'.duration? = some d → 0 ≤ d →
    SoundsLike table u n n' → Restruck table u before n n' none

/-- Nothing needs to be handed on for a hold that is not replaced. -/
theorem weakens_restruck : Weakens (Restruck table u) := by
  intro n n' after h before
  cases h with
  | hold hd hd' hnonneg hkept => exact .hold hd hd' hnonneg (.inl hkept.eq_none)
  | symbol hd hd' hnonneg hheading hkept => exact .symbol hd hd' hnonneg hheading hkept
  | composite hleaf hleaf' hd hd' hnonneg hlike =>
    exact .composite hleaf hleaf' hd hd' hnonneg hlike

/-- What is handed on may be dropped. -/
theorem Restruck.keep {before mid after : Option Heading} (h : Restruck table u before n n' mid)
    (hkept : Kept mid after) : Restruck table u before n n' after := by
  cases h with
  | hold hd hd' hnonneg hmid => exact .hold hd hd' hnonneg (hmid.trans hkept)
  | again hd hd' hnonneg hmid => exact .again hd hd' hnonneg (hmid.trans hkept)
  | symbol hd hd' hnonneg hheading hmid => exact .symbol hd hd' hnonneg hheading (hmid.trans hkept)
  | composite hleaf hleaf' hd hd' hnonneg hlike =>
    cases hkept.eq_none
    exact .composite hleaf hleaf' hd hd' hnonneg hlike

/-- Elements that are handed nothing are both holds or both not. -/
theorem Restruck.isHold_eq {after : Option Heading} (h : Restruck table u none n n' after) :
    n.isHold = n'.isHold := by
  cases h with
  | hold | symbol => rfl
  | composite hleaf hleaf' =>
    cases n with
    | symbol | hold => cases hleaf
    | _ =>
      cases n' with
      | symbol | hold => cases hleaf'
      | _ => rfl

/-- Whatever comes after an element that is no symbol starts with a hold in both lists or in none.
-/
theorem isLed_eq {after : Option Heading} (h : Threaded (Restruck table u) none ns ns' after) :
    isLed ns = isLed ns' := by
  cases h with
  | nil => rfl
  | cons hn => simpa [isLed] using hn.isHold_eq

/-- A sound before each of two lists: fitted to any duration, they are the same, namely what is
played for the heading that is handed on. -/
structure Tuned (table : Table) (handed : Option Heading) (cur cur' : Sound) : Prop where
  fit_eq : ∀ x, ∃ t, cur.fit (.ratio x) = .ok t ∧ cur'.fit (.ratio x) = .ok t
  strike : ∀ k, handed = some k → ∀ x, cur.fit (.ratio x) = .ok (table.strike k x)

theorem Tuned.keep {before after : Option Heading} (h : Tuned table before cur cur')
    (hkept : Kept before after) : Tuned table after cur cur' := by
  rcases hkept with rfl | rfl
  · exact ⟨h.fit_eq, nofun⟩
  · exact h

/-- What is played for a heading is in tune with the heading. -/
theorem tuned_strike (k : Heading) (x y : Rat) :
    Tuned table (some k) (table.strike k x) (table.strike k y) := by
  refine ⟨fun z => ⟨_, table.fit_strike k x z, table.fit_strike k y z⟩, ?_⟩
  rintro _ ⟨⟩ z
  exact table.fit_strike k x z

/-- Every element of a list that is no hold can be gathered inside, and a table strikes all names in
it. -/
def Playable (table : Table) (ns : List Node) : Prop :=
  ∀ n ∈ ns, n.isHold = false →
    ∃ m, n.gatherInside = .ok m ∧ ∀ name ∈ m.names, table.Strikes name

/-- A symbol is performed as what is played for its heading, held or not. -/
theorem Performed.symbol {before : Option Sound} {s : Symbol} {d : Rat}
    (hstrikes : table.Strikes s.content) (hd : s.duration = some d) (hnonneg : 0 ≤ d)
    (hrest : Performed table u (some (table.strike s.heading (d * u))) ns ts) :
    Performed table u before (Node.symbol s :: ns) (table.strike s.heading (d * u) :: ts) := by
  have hextent : (Node.symbol s).extent = d := extent_of_duration? hd
  refine .element rfl rfl (realizes_symbol hstrikes hd) (hextent ▸ hnonneg) ?_ hrest
  rw [hextent, Table.fit_strike]
  split <;> rfl

/-- Two lists in which holds and symbols stand for each other are performed in one way. -/
theorem exists_performed {before after : Option Heading}
    (h : Threaded (Restruck table u) before ns ns' after) (hns : Playable table ns)
    (hns' : Playable table ns') (htuned : Tuned table before cur cur') :
    ∃ ts, Performed table u (some cur) ns ts ∧ Performed table u (some cur') ns' ts := by
  induction h generalizing cur cur' with
  | nil => exact ⟨[], .nil, .nil⟩
  | @cons before mid after n n' ns ns' hn hrest ih =>
    obtain ⟨hplay, hplays⟩ := List.forall_mem_cons.1 hns
    obtain ⟨hplay', hplays'⟩ := List.forall_mem_cons.1 hns'
    cases hn with
    | hold hd hd' hnonneg hkept =>
      obtain ⟨ts, hts, hts'⟩ := ih hplays hplays' (htuned.keep hkept)
      obtain ⟨t, ht, ht'⟩ := htuned.fit_eq _
      exact ⟨t :: ts, .hold hd hnonneg ht hts, .hold hd' hnonneg ht' hts'⟩
    | @again _ h s d hd hd' hnonneg hkept =>
      obtain ⟨m, hm, hnames⟩ := hplay' rfl
      cases hm
      have hnext : Tuned table (some s.heading) cur (table.strike s.heading (d * u)) :=
        ⟨fun x => ⟨_, htuned.strike _ rfl x, table.fit_strike _ _ x⟩, htuned.strike⟩
      obtain ⟨ts, hts, hts'⟩ := ih hplays hplays' (hnext.keep hkept)
      exact ⟨_, .hold hd hnonneg (htuned.strike _ rfl _) hts,
        .symbol (hnames s.content (.head _)) hd' hnonneg hts'⟩
    | @symbol _ _ s s' d hd hd' hnonneg hheading hkept =>
      obtain ⟨m, hm, hnames⟩ := hplay rfl
      cases hm
      obtain ⟨m', hm', hnames'⟩ := hplay' rfl
      cases hm'
      have hnext : Tuned table (some s.heading) _ _ := tuned_strike s.heading (d * u) (d * u)
      obtain ⟨ts, hts, hts'⟩ := ih hplays hplays' (hnext.keep hkept)
      refine ⟨_, .symbol (hnames s.content (.head _)) hd hnonneg hts, ?_⟩
      rw [← hheading] at hts' ⊢
      exact .symbol (hnames' s'.content (.head _)) hd' hnonneg hts'
    | @composite _ _ _ d hleaf hleaf' hd hd' hnonneg hlike =>
      have hhold := isHold_of_not_isLeaf hleaf
      have hhold' := isHold_of_not_isLeaf hleaf'
      obtain ⟨m, hm, hnames⟩ := hplay hhold
      obtain ⟨m', hm', hnames'⟩ := hplay' hhold'
      obtain ⟨t, ht, ht'⟩ := hlike m m' hm hm' hnames hnames'
      have hextent := extent_gatherInside hm hd
      have hextent' := extent_gatherInside hm' hd'
      have hnext : Tuned table none t t :=
        ⟨fun x => (ht.fit x).imp fun _ ht' => ⟨ht', ht'⟩, nofun⟩
      obtain ⟨ts, hts, hts'⟩ := ih hplays hplays' hnext
      obtain ⟨first, hfirst⟩ :
          ∃ first, (if isLed ns then t.fit (.ratio (d * u)) else .ok t) = .ok first := by
        split
        · exact ht.fit _
        · exact ⟨t, rfl⟩
      have hfirst' := hfirst
      rw [isLed_eq hrest] at hfirst'
      exact ⟨first :: ts,
        .element hhold hm ht (hextent ▸ hnonneg) (hextent ▸ hfirst) hts,
        .element hhold' hm' ht' (hextent' ▸ hnonneg) (hextent' ▸ hfirst') hts'⟩

/-! ## Groups and simuls -/

/-- Sounds that are loosened have exact durations. -/
theorem rational?_of_loosens {a : Arrangement} {ss : List Sound} (h : Sound.Loosens a ss ts) :
    ss.map (fun s => s.duration.rational?) = (ss.map Sound.extent).map some := by
  rw [List.map_map]
  refine List.map_congr_left fun s hs => ?_
  obtain ⟨d, hd⟩ := (h.isExact s hs).duration
  rw [Function.comp_apply, Sound.extent, hd, Option.getD_some]

/-- A group is realized to a sequence that loosens to what its elements loosen to. -/
theorem realizes_group {sounds : List Sound}
    (h : realizeEach (measuredBy u) table.resolve out = .ok sounds)
    (hloosens : Sound.Loosens .inTurn sounds ts) (isExplicit : Bool) (duration : Option Rat) :
    Realizes table u (group out isExplicit duration)
      (.container .inTurn ts (.ratio (ts.map Sound.extent).sum)) := by
  obtain ⟨d, hd, hvalue⟩ := Sound.arrange_inTurn_exact (rational?_of_loosens hloosens)
  rw [hloosens.sum_extent.1 rfl] at hvalue
  exact ⟨_, bind_eq_ok.2 ⟨_, h, hd⟩, rfl, .container nofun hloosens hvalue .nil⟩

/-- A simul is realized to sounds together that loosen to what its elements loosen to. -/
theorem realizes_simul {sounds : List Sound}
    (h : realizeEach (measuredBy u) table.resolve out = .ok sounds)
    (hloosens : Sound.Loosens .together sounds ts) (duration : Option Rat) :
    Realizes table u (simul out duration)
      (.container .together ts (.ratio ((ts.map Sound.extent).headD 0))) := by
  obtain ⟨d, hd, hvalue⟩ := Sound.arrange_together_exact (rational?_of_loosens hloosens)
  rw [hloosens.sum_extent.2 rfl] at hvalue
  exact ⟨_, bind_eq_ok.2 ⟨_, h, hd⟩, rfl, .container nofun hloosens hvalue .nil⟩

/-- The names in an element are in it when it is held. -/
theorem mem_names_heldOver {name : String} (h : name ∈ m.names) (slots : List Rat) :
    name ∈ (m.heldOver slots).names := by
  rw [heldOver]
  split
  · exact h
  · exact mem_names_of_child (List.mem_singleton_self m) h

/-- A list that was gathered can be performed if a table strikes all names in the result. -/
theorem playable_of_runs (hruns : Runs (fun n m => n.gatherInside = .ok m) ns out)
    (hnames : ∀ o ∈ out, ∀ name ∈ o.names, table.Strikes name) : Playable table ns := by
  intro n hn hhold
  obtain ⟨m, slots, hm, hmem⟩ := hruns.exists_heldOver hn hhold
  exact ⟨m, hm, fun name hname => hnames _ hmem name (mem_names_heldOver hname slots)⟩

variable {after : Option Heading} {isExplicit isExplicit' : Bool} {duration duration' : Option Rat}

/-- Groups of elements that are performed in one way sound alike. -/
theorem soundsLike_group (h : Threaded (Restruck table u) none ns ns' after)
    (hns : ∀ n ∈ ns, n.Proportioned) (hns' : ∀ n ∈ ns', n.Proportioned) :
    SoundsLike table u (group ns isExplicit duration) (group ns' isExplicit' duration') := by
  intro m m' hm hm' hnames hnames'
  obtain ⟨out, hout, hm⟩ := bind_eq_ok.1 hm
  cases hm
  obtain ⟨out', hout', hm'⟩ := bind_eq_ok.1 hm'
  cases hm'
  have hruns := runs_of_gatherFrom (fun n hn => (hns n hn).duration?) hout
  have hruns' := runs_of_gatherFrom (fun n hn => (hns' n hn).duration?) hout'
  have hplay := playable_of_runs hruns fun o ho name hname =>
    hnames name (mem_names_of_child ho hname)
  have hplay' := playable_of_runs hruns' fun o ho name hname =>
    hnames' name (mem_names_of_child ho hname)
  -- no hold comes first, so any sound can be taken for the one before the lists
  have htuned : Tuned table none (.pause (.ratio 0)) (.pause (.ratio 0)) :=
    ⟨fun x => ⟨_, rfl, rfl⟩, nofun⟩
  obtain ⟨ts, hts, hts'⟩ := exists_performed h hplay hplay' htuned
  obtain ⟨sounds, hsounds, hloosens⟩ := (hts.of_not_isLed hruns.not_isLed none).loosens hruns
  obtain ⟨sounds', hsounds', hloosens'⟩ := (hts'.of_not_isLed hruns'.not_isLed none).loosens hruns'
  exact ⟨_, realizes_group hsounds hloosens _ _, realizes_group hsounds' hloosens' _ _⟩

/-- Elements that are handed nothing and are no holds, once gathered inside, are realized to sounds
that loosen to one, and last as long. -/
theorem Restruck.realizes (h : Restruck table u none n n' after) (hhold : n.isHold = false)
    (hm : n.gatherInside = .ok m) (hm' : n'.gatherInside = .ok m')
    (hnames : ∀ name ∈ m.names, table.Strikes name)
    (hnames' : ∀ name ∈ m'.names, table.Strikes name) :
    (∃ t, Realizes table u m t ∧ Realizes table u m' t) ∧ m.extent = m'.extent := by
  cases h with
  | hold => cases hhold
  | @symbol _ _ s s' d hd hd' _ hheading =>
    cases hm
    cases hm'
    have hextent : (Node.symbol s).extent = (Node.symbol s').extent := by
      rw [extent_of_duration? (n := .symbol s) hd, extent_of_duration? (n := .symbol s') hd']
    refine ⟨⟨_, realizes_symbol (hnames _ (.head _)) hd, ?_⟩, hextent⟩
    rw [← hheading]
    exact realizes_symbol (hnames' _ (.head _)) hd'
  | composite _ _ hd hd' _ hlike =>
    refine ⟨hlike m m' hm hm' hnames hnames', ?_⟩
    rw [extent_gatherInside hm hd, extent_gatherInside hm' hd']

/-- Where nothing is handed on, holds stand across from holds as long. -/
theorem holds_of_forall₂ {holds : List Hold}
    (h : List.Forall₂ (fun n n' => Restruck table u none n n' none) (holds.map Node.hold ++ ns)
      ns') :
    ∃ (holds' : List Hold) (rest : List Node), ns' = holds'.map Node.hold ++ rest ∧
      holds'.map Hold.duration = holds.map Hold.duration ∧
      List.Forall₂ (fun n n' => Restruck table u none n n' none) ns rest := by
  induction holds generalizing ns' with
  | nil => exact ⟨[], ns', rfl, rfl, h⟩
  | cons s holds ih =>
    cases h with
    | cons hs h =>
      obtain ⟨holds', rest, rfl, hdurations, hrest⟩ := ih h
      cases hs with
      | @hold _ _ _ s' _ hd hd' =>
        refine ⟨s' :: holds', rest, rfl, ?_, hrest⟩
        rw [List.map_cons, List.map_cons, hd, hd', hdurations]
      | composite hleaf => cases hleaf

/-- Lists whose members are performed in one way, each by itself, are realized to sounds that loosen
to the same, played together. -/
theorem exists_loosens_together
    (h : List.Forall₂ (fun n n' => Restruck table u none n n' none) ns ns')
    (hruns : Runs (fun n m => n.gatherInside = .ok m) ns out)
    (hruns' : Runs (fun n m => n.gatherInside = .ok m) ns' out')
    (hnames : ∀ o ∈ out, ∀ name ∈ o.names, table.Strikes name)
    (hnames' : ∀ o ∈ out', ∀ name ∈ o.names, table.Strikes name) :
    ∃ sounds sounds' ts, realizeEach (measuredBy u) table.resolve out = .ok sounds ∧
      realizeEach (measuredBy u) table.resolve out' = .ok sounds' ∧
      Sound.Loosens .together sounds ts ∧ Sound.Loosens .together sounds' ts := by
  induction hruns generalizing ns' out' with
  | nil =>
    cases h
    cases hruns'
    exact ⟨[], [], [], rfl, rfl, .nil, .nil⟩
  | @cons n m holds slots rest out hhold hm hslots hrest ih =>
    cases h with
    | @cons _ n' _ _ hn h =>
      obtain ⟨holds', rest', rfl, hdurations, hforall⟩ := holds_of_forall₂ h
      have hled : isLed rest' = false := by
        rw [← hrest.not_isLed]
        cases hforall with
        | nil => rfl
        | cons hc => simpa [isLed] using hc.isHold_eq.symm
      obtain ⟨m', later, hm', rfl, hrest'⟩ := hruns'.of_cons (hdurations.trans hslots) hled
      obtain ⟨hfirst, hnames⟩ := List.forall_mem_cons.1 hnames
      obtain ⟨hfirst', hnames'⟩ := List.forall_mem_cons.1 hnames'
      obtain ⟨⟨t, ht, ht'⟩, hextent⟩ := hn.realizes hhold hm hm'
        (fun name hname => hfirst name (mem_names_heldOver hname slots))
        (fun name hname => hfirst' name (mem_names_heldOver hname slots))
      obtain ⟨t, ⟨sound, hsound, -, hloosens⟩, ⟨sound', hsound', -, hloosens'⟩⟩ :=
        exists_realizes_heldOver ht ht' hextent slots
      obtain ⟨sounds, sounds', ts, hsounds, hsounds', hall, hall'⟩ :=
        ih hforall hrest' hnames hnames'
      exact ⟨sound :: sounds, sound' :: sounds', t :: ts,
        bind_eq_ok.2 ⟨_, hsound, bind_eq_ok.2 ⟨_, hsounds, rfl⟩⟩,
        bind_eq_ok.2 ⟨_, hsound', bind_eq_ok.2 ⟨_, hsounds', rfl⟩⟩, hloosens.cons hall,
        hloosens'.cons hall'⟩

/-- Simuls of elements that are performed in one way, each by itself, sound alike. -/
theorem soundsLike_simul (h : List.Forall₂ (fun n n' => Restruck table u none n n' none) ns ns')
    (hns : ∀ n ∈ ns, n.Proportioned) (hns' : ∀ n ∈ ns', n.Proportioned) :
    SoundsLike table u (simul ns duration) (simul ns' duration') := by
  intro m m' hm hm' hnames hnames'
  obtain ⟨out, hout, hm⟩ := bind_eq_ok.1 hm
  cases hm
  obtain ⟨out', hout', hm'⟩ := bind_eq_ok.1 hm'
  cases hm'
  obtain ⟨sounds, sounds', ts, hsounds, hsounds', hloosens, hloosens'⟩ :=
    exists_loosens_together h (runs_of_gatherFrom (fun n hn => (hns n hn).duration?) hout)
      (runs_of_gatherFrom (fun n hn => (hns' n hn).duration?) hout')
      (fun o ho name hname => hnames name (mem_names_of_child ho hname))
      (fun o ho name hname => hnames' name (mem_names_of_child ho hname))
  exact ⟨_, realizes_simul hsounds hloosens _, realizes_simul hsounds' hloosens' _⟩

end Node

end Polyrhythm
