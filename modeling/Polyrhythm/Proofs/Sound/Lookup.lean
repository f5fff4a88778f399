import Polyrhythm.Proofs.Sound.Striking

/-!
# Names that are looked up

A gathered tree is realized unless a name in it is unknown to the table, and then the first unknown
name of the text is reported (`Node.stopsAt_realizeWith`). Nothing is played that was not looked up:
every note in the sound of a tree is a note in the sound of one of its symbols
(`Node.exists_symbol_of_heading`), because fitting and repeating a sound keep what its notes are
called (`Sound.headings`), and so do its events (`Sound.map_heading_events`).
-/

namespace Polyrhythm

open Traversal

/-! ## Steps that stop at the first fault -/

/-- A step that meets some faults: it stops at the first of them, and if there is none it succeeds
with a result that is as required. -/
def StopsAt {α : Type} (faults : List Fault) (good : α → Prop) (result : Except Fault α) : Prop :=
  match faults with
  | [] => ∃ a, result = .ok a ∧ good a
  | fault :: _ => result = .error fault

section
variable {α β : Type} {faults later : List Fault} {good : α → Prop} {better : β → Prop}
  {x : Except Fault α} {f : α → Except Fault β}

/-- Of two steps in a row, the second is reached if the first meets no fault. -/
theorem StopsAt.bind (hx : StopsAt faults good x) (hf : ∀ a, good a → StopsAt later better (f a)) :
    StopsAt (faults ++ later) better (x >>= f) := by
  cases faults with
  | nil =>
    obtain ⟨a, rfl, ha⟩ := hx
    exact hf a ha
  | cons fault rest =>
    have hx : x = .error fault := hx
    rw [hx]
    rfl

/-- A step after which nothing can fail. -/
theorem StopsAt.bind_ok (hx : StopsAt faults good x)
    (hf : ∀ a, good a → ∃ b, f a = .ok b ∧ better b) : StopsAt faults better (x >>= f) := by
  rw [← List.append_nil faults]
  exact hx.bind hf

end

/-! ## Headings of notes -/

/-- The heading of the note that an event plays. -/
def Event.heading (e : Event) : Heading := ⟨e.name, e.pitch⟩

namespace Sound

mutual
/-- What the notes in a sound are called, in the order in which they are written. -/
def headings : Sound → List Heading
  | note name _ pitch _ => [⟨name, pitch⟩]
  | container _ objects _ => headingsOf objects
  | pause _ | bare => []

/-- `headings` over the sounds of a list. -/
def headingsOf : List Sound → List Heading
  | [] => []
  | s :: ss => headings s ++ headingsOf ss
end

@[simp]
theorem headingsOf_eq_flatMap (ss : List Sound) : headingsOf ss = ss.flatMap headings := by
  induction ss with
  | nil => rfl
  | cons s ss ih => rw [headingsOf, ih, List.flatMap_cons]

variable {s t : Sound} {ss ts : List Sound} {k : Heading}

mutual
/-- Fitting a sound keeps what its notes are called. -/
theorem headings_fit {new : Quantity} {s t : Sound} (h : s.fit new = .ok t) :
    t.headings = s.headings := by
  cases s with
  | note | pause =>
    cases h
    rfl
  | container arrangement objects old =>
    rw [fit] at h
    split at h
    · cases h
      rfl
    · obtain ⟨factor, -, h⟩ := bind_eq_ok.1 h
      obtain ⟨fitted, hfitted, h⟩ := bind_eq_ok.1 h
      cases h
      exact headings_fitEach hfitted
  | bare => cases h

theorem headings_fitEach {factor : Quantity} {ss ts : List Sound}
    (h : fitEach factor ss = .ok ts) : headingsOf ts = headingsOf ss := by
  cases ss with
  | nil =>
    cases h
    rfl
  | cons s ss =>
    obtain ⟨own, -, h⟩ := bind_eq_ok.1 h
    obtain ⟨t, ht, h⟩ := bind_eq_ok.1 h
    obtain ⟨ts, hts, h⟩ := bind_eq_ok.1 h
    cases h
    rw [headingsOf, headings_fit ht, headings_fitEach hts, headingsOf]
end

/-- An arrangement has the notes of the sounds in it. -/
theorem headings_of_arrange {a : Arrangement} {stated : Option Quantity}
    (h : arrange a ss stated = .ok t) : t.headings = ss.flatMap headings := by
  cases stated with
  | some d =>
    cases h
    exact headingsOf_eq_flatMap ss
  | none =>
    obtain ⟨d, -, h⟩ := bind_eq_ok.1 h
    cases h
    exact headingsOf_eq_flatMap ss

/-- A sound that is repeated has no other notes than by itself. -/
theorem mem_headings_of_fill {slots : List Quantity} (h : s.fill slots = .ok t)
    (hk : k ∈ t.headings) : k ∈ s.headings := by
  have struck (h : (do arrange .inTurn (← slots.mapM fun slot => s.fit slot) none) = .ok t) :
      k ∈ s.headings := by
    obtain ⟨parts, hparts, h⟩ := bind_eq_ok.1 h
    rw [headings_of_arrange h] at hk
    obtain ⟨part, hpart, hk⟩ := List.mem_flatMap.1 hk
    obtain ⟨slot, -, hfit⟩ := exists_of_mem_mapM hparts hpart
    rwa [headings_fit hfit] at hk
  cases s with
  | note name duration pitch isContinuous =>
    cases isContinuous with
    | true =>
      obtain ⟨d, -, h⟩ := bind_eq_ok.1 h
      cases h
      exact hk
    | false => exact struck h
  | pause | container | bare => exact struck h

mutual
/-- The events of a sound are its notes, in the order in which they are written. -/
theorem map_heading_events {start : Quantity} {s : Sound} {events : List Event}
    (h : s.events start = .ok events) : events.map Event.heading = s.headings := by
  cases s with
  | note | pause =>
    cases h
    rfl
  | container arrangement objects duration =>
    cases arrangement with
    | inTurn => exact map_heading_eventsInTurn h
    | together => exact map_heading_eventsTogether h
    | unspecified => cases h
  | bare => cases h

theorem map_heading_eventsInTurn {start : Quantity} {ss : List Sound} {events : List Event}
    (h : eventsInTurn start ss = .ok events) : events.map Event.heading = headingsOf ss := by
  cases ss with
  | nil =>
    cases h
    rfl
  | cons s ss =>
    obtain ⟨first, hfirst, h⟩ := bind_eq_ok.1 h
    obtain ⟨next, -, h⟩ := bind_eq_ok.1 h
    obtain ⟨later, hlater, h⟩ := bind_eq_ok.1 h
    cases h
    rw [List.map_append, map_heading_events hfirst, map_heading_eventsInTurn hlater, headingsOf]

theorem map_heading_eventsTogether {start : Quantity} {ss : List Sound} {events : List Event}
    (h : eventsTogether start ss = .ok events) : events.map Event.heading = headingsOf ss := by
  cases ss with
  | nil =>
    cases h
    rfl
  | cons s ss =>
    obtain ⟨first, hfirst, h⟩ := bind_eq_ok.1 h
    obtain ⟨others, hothers, h⟩ := bind_eq_ok.1 h
    cases h
    rw [List.map_append, map_heading_events hfirst, map_heading_eventsTogether hothers, headingsOf]
end

/-- Exact sounds last exact times. -/
theorem exists_values (h : ∀ s ∈ ss, s.IsExact) :
    ∃ values : List Rat, ss.map (fun s => s.duration.rational?) = values.map some := by
  refine ⟨ss.map extent, ?_⟩
  rw [List.map_map]
  refine List.map_congr_left fun s hs => ?_
  obtain ⟨x, hx⟩ := (h s hs).duration
  rw [Function.comp_apply, extent, hx, Option.getD_some]

/-- Exact sounds can be arranged one after another or together. -/
theorem arrange_exact {a : Arrangement} (ha : a ≠ .unspecified) (h : ∀ s ∈ ss, s.IsExact) :
    ∃ t, arrange a ss none = .ok t ∧ t.IsExact := by
  obtain ⟨values, hvalues⟩ := exists_values h
  cases a with
  | inTurn =>
    obtain ⟨d, hd, hvalue⟩ := arrange_inTurn_exact hvalues
    exact ⟨_, hd, .container ha h hvalue⟩
  | together =>
    obtain ⟨d, hd, hvalue⟩ := arrange_together_exact hvalues
    exact ⟨_, hd, .container ha h hvalue⟩
  | unspecified => exact absurd rfl ha

end Sound

/-! ## Lookups of a tree -/

/-- Every prototype of a table is exact. -/
def Table.IsExact (table : Table) : Prop :=
  ∀ name prototype, table.find? name = some prototype → prototype.IsExact

namespace Node

/-- The fault of a symbol whose name a table does not know. -/
def unknownHere? (table : Table) : Node → Option Fault
  | symbol s => if table.contains s.content then none else some (.unknownSound s.content s.position)
  | _ => none

/-- The faults of the symbols in a tree whose names a table does not know, in the order of the
text. -/
def unknown (table : Table) (n : Node) : List Fault := n.walk.filterMap (unknownHere? table)

variable {table : Table} {measure : Rat → Except Fault Quantity} {resolve : Resolver} {u : Rat}
  {tree : Node} {ns : List Node} {sound : Sound} {k : Heading}

/-- The names that are unknown in an element are its own and those of its children. -/
theorem unknown_eq (table : Table) (n : Node) :
    n.unknown table = (unknownHere? table n).toList ++ n.children.flatMap (unknown table) := by
  have heach (ns : List Node) : (ns.flatMap walk).filterMap (unknownHere? table) =
      ns.flatMap (unknown table) := List.filterMap_flatMap ..
  rw [unknown, walk_eq_cons, List.filterMap_cons, heach]
  cases unknownHere? table n <;> rfl

/-- A symbol is realized unless its name is unknown. -/
theorem stopsAt_realizeSymbol {s : Symbol} {d : Rat}
    (hmeasure : ∀ d, measure d = .ok (.ratio (d * u))) (htable : table.IsExact)
    (hd : s.duration = some d) :
    StopsAt ((symbol s).unknown table) Sound.IsExact
      (realizeSymbol measure table.resolve s) := by
  rw [unknown_eq, unknownHere?, Table.contains]
  cases hfind : table.find? s.content with
  | none =>
    have hresolve : table.resolve s.content (.ratio (d * u)) =
        .error (.unknownSound s.content none) := by rw [Table.resolve, hfind]
    refine bind_eq_error.2 (.inr ⟨d, by rw [hd]; rfl, bind_eq_error.2 (.inr ⟨_, hmeasure d, ?_⟩)⟩)
    rw [hresolve]
    rfl
  | some prototype =>
    obtain ⟨fitted, hfitted, hexact, -⟩ :=
      Sound.fit_exact (htable s.content prototype hfind) (d * u)
    have hresolve : table.resolve s.content (.ratio (d * u)) = .ok fitted := by
      rw [Table.resolve, hfind]
      exact hfitted
    refine ⟨_, realizeSymbol_of_resolve hmeasure hd hresolve, ?_⟩
    cases s.pitch with
    | none => exact hexact
    | some pitch =>
      cases hexact with
      | note name _ isContinuous hvalue => exact .note name _ isContinuous hvalue
      | pause hvalue => exact .pause hvalue
      | container ha hobjects hvalue => exact .container ha hobjects hvalue

/-- Elements are realized one after another, up to the first unknown name. -/
theorem stopsAt_realizeEach (h : ∀ n ∈ ns, StopsAt (n.unknown table) Sound.IsExact
      (n.realizeWith measure table.resolve)) :
    StopsAt (ns.flatMap (unknown table)) (fun sounds => ∀ s ∈ sounds, s.IsExact)
      (realizeEach measure table.resolve ns) := by
  induction ns with
  | nil => exact ⟨[], rfl, nofun⟩
  | cons n ns ih =>
    obtain ⟨hn, hns⟩ := List.forall_mem_cons.1 h
    rw [List.flatMap_cons]
    refine hn.bind fun sound hsound => (ih hns).bind_ok fun sounds hsounds => ?_
    exact ⟨_, rfl, List.forall_mem_cons.2 ⟨hsound, hsounds⟩⟩

/-- A gathered tree is realized to an exact sound, unless it has a name that the table does not
know: then the first such name is reported. -/
theorem stopsAt_realizeWith (hmeasure : ∀ d, measure d = .ok (.ratio (d * u)))
    (htable : table.IsExact) (h : tree.Every Gathered) :
    StopsAt (tree.unknown table) Sound.IsExact (tree.realizeWith measure table.resolve) := by
  induction tree with
  | symbol s =>
    obtain ⟨d, hd⟩ := every_symbol.1 h
    exact stopsAt_realizeSymbol hmeasure htable hd
  | hold | sequence | foreign => exact h.self.elim
  | group content isExplicit duration ih =>
    rw [unknown_eq]
    exact (stopsAt_realizeEach fun c hc => ih c hc (h.child hc)).bind_ok fun sounds hsounds =>
      Sound.arrange_exact nofun hsounds
  | simul content duration ih =>
    rw [unknown_eq]
    exact (stopsAt_realizeEach fun c hc => ih c hc (h.child hc)).bind_ok fun sounds hsounds =>
      Sound.arrange_exact nofun hsounds
  | held content s ih =>
    obtain ⟨⟨first, rest, -, hslots, -⟩, hcontent⟩ := every_held.1 h
    have hmeasured : (first :: rest).mapM measure =
        .ok (((first :: rest).map (· * u)).map .ratio) := by
      rw [List.map_map]
      exact mapM_of_forall fun d _ => hmeasure d
    rw [unknown_eq, children, List.flatMap_singleton]
    refine (ih hcontent).bind_ok fun sound hsound => ?_
    obtain ⟨filled, hfilled, hexact, -⟩ := Sound.fill_exact hsound ((first :: rest).map (· * u))
    exact ⟨filled, bind_eq_ok.2 ⟨first :: rest, by rw [hslots]; rfl, bind_eq_ok.2
      ⟨_, hmeasured, hfilled⟩⟩, hexact⟩

/-- Every note in the sounds of elements is one of the sound of an element. -/
theorem exists_of_heading_realizeEach {sounds : List Sound}
    (h : realizeEach measure resolve ns = .ok sounds) (hk : k ∈ sounds.flatMap Sound.headings) :
    ∃ n sound, n ∈ ns ∧ n.realizeWith measure resolve = .ok sound ∧ k ∈ sound.headings := by
  induction ns generalizing sounds with
  | nil =>
    cases h
    cases hk
  | cons n ns ih =>
    obtain ⟨sound, hsound, h⟩ := bind_eq_ok.1 h
    obtain ⟨sounds, hsounds, h⟩ := bind_eq_ok.1 h
    cases h
    rw [List.flatMap_cons] at hk
    rcases List.mem_append.1 hk with hk | hk
    · exact ⟨n, sound, List.mem_cons_self, hsound, hk⟩
    · obtain ⟨m, sound, hm, hsound, hk⟩ := ih hsounds hk
      exact ⟨m, sound, List.mem_cons_of_mem _ hm, hsound, hk⟩

/-- Every note in the sound of a tree is a note in the sound of a symbol of the tree. -/
theorem exists_symbol_of_heading (h : tree.realizeWith measure resolve = .ok sound)
    (hk : k ∈ sound.headings) : ∃ s part, symbol s ∈ tree.walk ∧
      realizeSymbol measure resolve s = .ok part ∧ k ∈ part.headings := by
  have inside {n c : Node} (hc : c ∈ n.children) (hsymbol : ∃ s part, symbol s ∈ c.walk ∧
      realizeSymbol measure resolve s = .ok part ∧ k ∈ part.headings) :
      ∃ s part, symbol s ∈ n.walk ∧ realizeSymbol measure resolve s = .ok part ∧
        k ∈ part.headings := by
    obtain ⟨s, part, hs, hpart⟩ := hsymbol
    refine ⟨s, part, ?_, hpart⟩
    rw [walk_eq_cons]
    exact List.mem_cons_of_mem _ (List.mem_flatMap.2 ⟨c, hc, hs⟩)
  induction tree generalizing sound with
  | symbol s => exact ⟨s, sound, List.mem_singleton_self _, h, hk⟩
  | hold | sequence | foreign => cases h
  | group content isExplicit duration ih =>
    obtain ⟨sounds, hsounds, h⟩ := bind_eq_ok.1 h
    rw [Sound.headings_of_arrange h] at hk
    obtain ⟨c, part, hc, hpart, hk⟩ := exists_of_heading_realizeEach hsounds hk
    exact inside hc (ih c hc hpart hk)
  | simul content duration ih =>
    obtain ⟨sounds, hsounds, h⟩ := bind_eq_ok.1 h
    rw [Sound.headings_of_arrange h] at hk
    obtain ⟨c, part, hc, hpart, hk⟩ := exists_of_heading_realizeEach hsounds hk
    exact inside hc (ih c hc hpart hk)
  | held content s ih =>
    obtain ⟨part, hpart, h⟩ := bind_eq_ok.1 h
    obtain ⟨slots, -, h⟩ := bind_eq_ok.1 h
    obtain ⟨measured, -, h⟩ := bind_eq_ok.1 h
    exact inside (List.mem_singleton_self content) (ih hpart (Sound.mem_headings_of_fill h hk))

end Node

end Polyrhythm
