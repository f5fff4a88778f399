import Polyrhythm.Proofs.Sound.Duration
import Polyrhythm.Proofs.Sound.Loosening

/-!
# Notes that are struck again

In a table without continuous notes a held element is struck again in every slot
(`Node.realizeWith_heldOver`). The sound of a gathered list, once its runs are loosened, can then be
read off the list before it is gathered: every element gives its own sound, and every hold the sound
before it once more, fitted to the hold (`Node.Performed`, `Node.Performed.loosens`).
-/

namespace Polyrhythm

open Traversal

/-- What is played for a symbol: its name and its pitch, if it has one. -/
structure Heading where
  name : String
  pitch : Option Quantity

/-- The heading of a symbol. -/
def Symbol.heading (s : Symbol) : Heading := ⟨s.content, s.pitch⟩

namespace Table

/-- A table strikes a name again wherever it is repeated: the rest is silence, and any other name a
note that is not continuous. -/
def Strikes (table : Table) (name : String) : Prop :=
  if name = restName then table.find? name = some (.pause (.whole 1))
  else ∃ note duration pitch, table.find? name = some (.note note duration pitch false)

/-- What a table plays for a heading whose name it strikes. -/
def strike (table : Table) (k : Heading) (x : Rat) : Sound :=
  match table.find? k.name with
  | some (.note name _ pitch _) => .note name (.ratio x) (k.pitch.or pitch) false
  | _ => .pause (.ratio x)

/-- Every table strikes the rest from the start. -/
theorem strikes_initial : initial.Strikes restName := rfl

/-- A table strikes a name that a note was added under, unless it is continuous. -/
theorem strikes_addNote {name : String} (h : name ≠ restName) (table : Table) :
    (table.addNote name false).Strikes name := by
  rw [Strikes, if_neg h]
  exact ⟨_, _, _, find?_add_self ..⟩

/-- Adding a note leaves the other names that a table strikes. -/
theorem Strikes.addNote {table : Table} {name other : String} (h : table.Strikes other)
    (hne : other ≠ name) (isContinuous : Bool) :
    (table.addNote name isContinuous).Strikes other := by
  rw [Strikes, Table.addNote, find?_add_other _ _ hne]
  exact h

variable (table : Table) (k : Heading) (x : Rat)

@[simp]
theorem fit_strike (y : Rat) : (table.strike k x).fit (.ratio y) = .ok (table.strike k y) := by
  rw [strike]
  split
  · next h => rw [strike, h]; rfl
  · next h =>
    rw [strike]
    split
    · next h' => exact absurd h' (h _ _ _ _)
    · rfl

theorem isSustained_strike : (table.strike k x).isSustained = false := by
  rw [strike]
  split <;> rfl

theorem loosensTo_strike : (table.strike k x).LoosensTo (table.strike k x) := by
  rw [strike]
  split
  · exact .note _ x _ .nil
  · exact .pause x .nil

end Table

namespace Node

variable {table : Table} {u : Rat} {m m' : Node} {ns out : List Node} {slots : List Rat}
  {t cur : Sound} {ts : List Sound}

/-! ## Realizing -/

/-- A gathered element is realized to a sound that loosens to the given one and is struck again
wherever it is repeated. -/
def Realizes (table : Table) (u : Rat) (m : Node) (t : Sound) : Prop :=
  ∃ sound, m.realizeWith (measuredBy u) table.resolve = .ok sound ∧ sound.isSustained = false ∧
    sound.LoosensTo t

/-- What the sound of an element loosens to can be fitted to any duration. -/
theorem Realizes.fit (h : Realizes table u m t) (x : Rat) : ∃ t', t.fit (.ratio x) = .ok t' := by
  obtain ⟨sound, -, -, hloosens⟩ := h
  obtain ⟨-, t', -, ht', -⟩ := hloosens.fit x
  exact ⟨t', ht'⟩

/-- A symbol whose name a table strikes is realized to what is played for its heading. -/
theorem realizes_symbol {s : Symbol} {d : Rat} (h : table.Strikes s.content)
    (hd : s.duration = some d) : Realizes table u (symbol s) (table.strike s.heading (d * u)) := by
  refine ⟨_, ?_, table.isSustained_strike s.heading _, table.loosensTo_strike s.heading _⟩
  have hresolve (sound : Sound) (hsound : table.resolve s.content (.ratio (d * u)) = .ok sound) :=
    realizeSymbol_of_resolve (fun _ => rfl) hd hsound
  rw [Table.Strikes] at h
  split at h
  · have hstrike : table.strike s.heading (d * u) = .pause (.ratio (d * u)) := by
      rw [Table.strike, Symbol.heading, h]
    rw [hstrike]
    refine (hresolve (.pause _) (by rw [Table.resolve, h]; rfl)).trans ?_
    cases s.pitch <;> rfl
  · obtain ⟨name, duration, pitch, h⟩ := h
    have hstrike : table.strike s.heading (d * u) =
        .note name (.ratio (d * u)) (s.pitch.or pitch) false := by
      rw [Table.strike, Symbol.heading, h]
    rw [hstrike]
    refine (hresolve (.note name _ pitch false) (by rw [Table.resolve, h]; rfl)).trans ?_
    cases s.pitch <;> rfl

/-- Slots that are not negative last no time each if they last none together, in any unit. -/
theorem slots_eq_zero (h : ∀ slot ∈ slots, 0 ≤ slot) (hsum : (slots.map (· * u)).sum = 0) :
    ∀ x ∈ slots.map (· * u), x = 0 := by
  rw [List.sum_map_mul_right, List.map_id'] at hsum
  refine List.forall_mem_map.2 fun slot hslot => ?_
  rcases mul_eq_zero.1 hsum with hnone | hu
  · rw [List.all_zero_of_le_zero_le_of_sum_eq_zero h hnone hslot, zero_mul]
  · rw [hu, mul_zero]

/-- A held element is realized to a sequence of its sound, fitted to every slot. What it loosens to
is fitted likewise. -/
theorem realizeWith_heldOver (h : Realizes table u m t) (hne : slots ≠ []) :
    ∃ parts fitted d, (m.heldOver slots).realizeWith (measuredBy u) table.resolve =
        .ok (.container .inTurn parts d) ∧
      (((m.extent :: slots).map (· * u)).map Quantity.ratio).mapM (fun slot => t.fit slot) =
        .ok fitted ∧
      d.rational? = some ((m.extent :: slots).map (· * u)).sum ∧
      parts.map Sound.duration = ((m.extent :: slots).map (· * u)).map .ratio ∧
      ∀ {a : Arrangement} {ss ts : List Sound}, Sound.Loosens a ss ts →
        Sound.Loosens a (parts ++ ss) (fitted ++ ts) := by
  obtain ⟨sound, hsound, hsustained, hloosens⟩ := h
  obtain ⟨parts, fitted, hparts, hfitted, hdurations, happend⟩ :=
    hloosens.mapM_fit ((m.extent :: slots).map (· * u))
  have hvalues : parts.map (fun s => s.duration.rational?) =
      ((m.extent :: slots).map (· * u)).map some := by
    have hmap : parts.map (fun s => s.duration.rational?) =
        (parts.map Sound.duration).map Quantity.rational? := by
      rw [List.map_map]
      rfl
    rw [hmap, hdurations, List.map_map]
    rfl
  obtain ⟨d, hd, hvalue⟩ := Sound.arrange_inTurn_exact hvalues
  have hmeasured : (m.extent :: slots).mapM (measuredBy u) =
      .ok (((m.extent :: slots).map (· * u)).map .ratio) := by
    rw [List.map_map]
    exact mapM_of_forall fun _ _ => rfl
  have hfill : sound.fill (((m.extent :: slots).map (· * u)).map .ratio) =
      .ok (.container .inTurn parts d) := by
    rw [Sound.fill_of_not_isSustained hsustained]
    exact bind_eq_ok.2 ⟨_, hparts, hd⟩
  refine ⟨parts, fitted, d, ?_, hfitted, hvalue, hdurations, happend⟩
  rw [heldOver, if_neg (by simpa using hne)]
  exact bind_eq_ok.2 ⟨_, hsound, bind_eq_ok.2 ⟨_, rfl, bind_eq_ok.2 ⟨_, hmeasured, hfill⟩⟩⟩

/-- Elements that loosen to one sound and last as long do so as well if they are held over the same
slots. -/
theorem exists_realizes_heldOver (h : Realizes table u m t) (h' : Realizes table u m' t)
    (hextent : m.extent = m'.extent) (slots : List Rat) :
    ∃ t, Realizes table u (m.heldOver slots) t ∧ Realizes table u (m'.heldOver slots) t := by
  by_cases hslots : slots = []
  · subst hslots
    exact ⟨t, h, h'⟩
  · obtain ⟨parts, fitted, d, hsound, hfitted, hd, -, happend⟩ := realizeWith_heldOver h hslots
    obtain ⟨parts', fitted', d', hsound', hfitted', hd', -, happend'⟩ :=
      realizeWith_heldOver h' hslots
    rw [← hextent] at hfitted' hd'
    cases hfitted.symm.trans hfitted'
    have hinside := happend (a := .inTurn) .nil
    have hinside' := happend' (a := .inTurn) .nil
    rw [List.append_nil, List.append_nil] at hinside hinside'
    exact ⟨_, ⟨_, hsound, rfl, .container nofun hinside hd .nil⟩,
      ⟨_, hsound', rfl, .container nofun hinside' hd' .nil⟩⟩

/-! ## Lists as they are performed -/

/-- What the elements of a list are loosened to, one after another. The sound before an element is
known, which a hold fits to its own duration. An element is fitted to its own duration only if it is
held. -/
inductive Performed (table : Table) (u : Rat) : Option Sound → List Node → List Sound → Prop
  | nil {before : Option Sound} : Performed table u before [] []
  | hold {cur t : Sound} {h : Hold} {d : Rat} {ns : List Node} {ts : List Sound} :
    h.duration = some d → 0 ≤ d → cur.fit (.ratio (d * u)) = .ok t →
    Performed table u (some cur) ns ts → Performed table u (some cur) (hold h :: ns) (t :: ts)
  | element {before : Option Sound} {n m : Node} {cur t : Sound} {ns : List Node}
    {ts : List Sound} :
    n.isHold = false → n.gatherInside = .ok m → Realizes table u m cur → 0 ≤ m.extent →
    (if isLed ns then cur.fit (.ratio (m.extent * u)) else .ok cur) = .ok t →
    Performed table u (some cur) ns ts → Performed table u before (n :: ns) (t :: ts)

/-- What stands before a list matters only if the list starts with a hold. -/
theorem Performed.of_not_isLed {before : Option Sound} (h : Performed table u before ns ts)
    (hns : isLed ns = false) (other : Option Sound) : Performed table u other ns ts := by
  cases h with
  | nil => exact .nil
  | hold => cases hns
  | element hhold hinside hrealizes hextent ht hrest =>
    exact .element hhold hinside hrealizes hextent ht hrest

/-- Holds are performed by fitting the sound before them to each. -/
theorem Performed.holds {holds : List Hold}
    (h : Performed table u (some cur) (holds.map Node.hold ++ ns) ts)
    (hslots : holds.map Hold.duration = slots.map some) :
    (∀ slot ∈ slots, 0 ≤ slot) ∧ ∃ fitted later, ts = fitted ++ later ∧
      ((slots.map (· * u)).map Quantity.ratio).mapM (fun slot => cur.fit slot) = .ok fitted ∧
      Performed table u (some cur) ns later := by
  induction holds generalizing slots ts with
  | nil =>
    cases slots with
    | nil => exact ⟨nofun, [], ts, rfl, rfl, h⟩
    | cons => cases hslots
  | cons s holds ih =>
    cases slots with
    | nil => cases hslots
    | cons slot slots =>
      obtain ⟨hslot, hslots⟩ := List.cons.inj hslots
      cases h with
      | element hhold => cases hhold
      | hold hd hnonneg ht hrest =>
        cases hd.symm.trans hslot
        obtain ⟨hnonnegs, fitted, later, rfl, hfitted, hlater⟩ := ih hrest hslots
        exact ⟨List.forall_mem_cons.2 ⟨hnonneg, hnonnegs⟩, _ :: fitted, later, rfl,
          mapM_cons_eq_ok.2 ⟨_, _, ht, hfitted, rfl⟩, hlater⟩

/-- A gathered list is realized to sounds that, one after another, loosen to what the list is
performed as. -/
theorem Performed.loosens (h : Performed table u none ns ts)
    (hruns : Runs (fun n m => n.gatherInside = .ok m) ns out) :
    ∃ sounds, realizeEach (measuredBy u) table.resolve out = .ok sounds ∧
      Sound.Loosens .inTurn sounds ts := by
  induction hruns generalizing ts with
  | nil =>
    cases h
    exact ⟨[], rfl, .nil⟩
  | @cons n m holds slots rest out hhold hinside hslots hruns ih =>
    cases h with
    | @element _ _ m' cur t _ ts _ hinside' hrealizes hextent ht hrest =>
      cases hinside.symm.trans hinside'
      obtain ⟨hnonneg, fitted, later, rfl, hfitted, hlater⟩ := hrest.holds hslots
      obtain ⟨sounds, hsounds, hloosens⟩ := ih (hlater.of_not_isLed hruns.not_isLed none)
      have hcons {sound : Sound}
          (hsound : (m.heldOver slots).realizeWith (measuredBy u) table.resolve = .ok sound) :
          realizeEach (measuredBy u) table.resolve (m.heldOver slots :: out) =
            .ok (sound :: sounds) :=
        bind_eq_ok.2 ⟨_, hsound, bind_eq_ok.2 ⟨_, hsounds, rfl⟩⟩
      cases slots with
      | nil =>
        obtain rfl : holds = [] := List.map_eq_nil_iff.1 hslots
        cases hfitted
        have hled : isLed (([] : List Hold).map Node.hold ++ rest) = false := hruns.not_isLed
        rw [if_neg (by rw [hled]; nofun)] at ht
        cases ht
        obtain ⟨sound, hsound, -, hsoundLoosens⟩ := hrealizes
        exact ⟨_, hcons hsound, hsoundLoosens.cons hloosens⟩
      | cons slot slots =>
        obtain ⟨s, holds, rfl⟩ : ∃ s later, holds = s :: later := by
          cases holds with
          | nil => cases hslots
          | cons s later => exact ⟨s, later, rfl⟩
        have hled : isLed ((s :: holds).map Node.hold ++ rest) = true := rfl
        rw [if_pos hled] at ht
        obtain ⟨parts, all, d, hsound, hall, hd, hdurations, happend⟩ :=
          realizeWith_heldOver hrealizes (List.cons_ne_nil slot slots)
        have hboth := (mapM_cons_eq_ok (f := fun slot => cur.fit slot)).2
          ⟨t, fitted, ht, hfitted, rfl⟩
        cases hall.symm.trans hboth
        refine ⟨_, hcons hsound, .run hdurations (slots_eq_zero ?_) hd (happend hloosens)⟩
        exact List.forall_mem_cons.2 ⟨hextent, hnonneg⟩

end Node

end Polyrhythm
