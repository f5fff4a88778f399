import Mathlib.Algebra.BigOperators.Group.List.Lemmas
import Polyrhythm.Proofs.Timing.Layout
import Polyrhythm.Timing.Gather

/-!
# Gathering, run by run

A list that can be gathered is a list of runs: an element that is no hold, and the holds after it.
Every run becomes one element of the result (`Node.Runs`), the element itself if no hold follows and
otherwise the element held over the durations of all of them (`Node.heldOver`). Gathering walks
through a list with the open run in its hands; `runs_of_gatherFrom` turns that walk into the runs,
from which follow that gathering a list keeps its duration (`Runs.sum_extent`) and which elements
it yields (`Runs.exists_of_mem`). So a property of all elements is carried through gathering once it
is carried through runs (`Gatherable.every`).
-/

namespace Polyrhythm.Node

open Traversal

/-- An element held over slots of the given durations after its own; the element itself if there are
none. -/
def heldOver (n : Node) (slots : List Rat) : Node :=
  if slots.isEmpty then n
  else held n ⟨none, 1, some (n.extent :: slots), some (n.extent :: slots).sum⟩

/-- A list as runs, and what they become. The element of a run becomes what `inside` relates it
to. -/
inductive Runs (inside : Node → Node → Prop) : List Node → List Node → Prop
  /-- No elements are no runs. -/
  | nil : Runs inside [] []
  /-- An element, the holds after it, and the runs after them. -/
  | cons {n m : Node} {holds : List Hold} {slots : List Rat} {rest out : List Node} :
    n.isHold = false → inside n m → holds.map Hold.duration = slots.map some →
    Runs inside rest out → Runs inside (n :: (holds.map hold ++ rest)) (m.heldOver slots :: out)

variable {n m root tree : Node} {ns out : List Node}

theorem extent_heldOver (n : Node) (slots : List Rat) :
    (n.heldOver slots).extent = n.extent + slots.sum := by
  rw [heldOver]
  split
  · next h => rw [List.isEmpty_iff.1 h, List.sum_nil, add_zero]
  · exact List.sum_cons

/-! ## The walk -/

/-- The open run of an element after whose own duration slots were found. -/
def openRun (n : Node) (slots : List Rat) : Run :=
  ⟨n, ((n.extent :: slots).map some).reverse⟩

/-- A run whose durations are known can be closed. -/
theorem close_openRun (n : Node) (slots : List Rat) :
    (openRun n slots).close = .ok (n.heldOver slots) := by
  have hslots : ((n.extent :: slots).map some).mapM needed = .ok (n.extent :: slots) := by
    rw [List.mapM_map]
    exact (mapM_of_forall fun _ _ => rfl).trans (by rw [List.map_id'])
  cases hcases : slots with
  | nil => rfl
  | cons slot rest =>
    rw [← hcases, Run.close, openRun]
    split
    · next h => cases (List.map_eq_nil_iff.1 (List.reverse_eq_nil_iff.1 h))
    · next h =>
      have hlength := congrArg List.length h
      simp [hcases] at hlength
    · rw [List.reverse_reverse, hslots, heldOver, hcases]
      rfl

/-- A hold lengthens the open run. -/
theorem gatherFrom_hold {h : Hold} {d : Rat} (hd : h.duration = some d) (slots : List Rat)
    (rest : List Node) :
    gatherFrom (some (openRun n slots)) (hold h :: rest) =
      gatherFrom (some (openRun n (slots ++ [d]))) rest := by
  rw [gatherFrom, openRun, openRun, hd, List.map_cons, List.map_cons, List.map_append]
  simp

/-- An element that is no hold closes the open run and opens one of its own. -/
theorem gatherFrom_cons {run : Option Run} (hn : n.isHold = false) :
    gatherFrom run (n :: ns) = (do
      let m ← gatherInside n
      let closed ← closeRun run
      let duration ← m.durationPart
      return closed ++ (← gatherFrom (some ⟨m, [duration]⟩) ns)) := by
  cases n with
  | hold => cases hn
  | _ => rfl

/-- A list that starts with an element that is no hold can be gathered if the element, the run
before it and the rest of the list can. -/
theorem gatherFrom_cons_eq_ok {run : Option Run} (hn : n.isHold = false) :
    gatherFrom run (n :: ns) = .ok out ↔
      ∃ m closed duration later, n.gatherInside = .ok m ∧ closeRun run = .ok closed ∧
        m.durationPart = .ok duration ∧ gatherFrom (some ⟨m, [duration]⟩) ns = .ok later ∧
        out = closed ++ later := by
  rw [gatherFrom_cons hn]
  simp only [bind_eq_ok, pure, Except.pure, Except.ok.injEq]
  constructor
  · rintro ⟨m, hm, closed, hclosed, duration, hduration, later, hlater, rfl⟩
    exact ⟨m, closed, duration, later, hm, hclosed, hduration, hlater, rfl⟩
  · rintro ⟨m, closed, duration, later, hm, hclosed, hduration, hlater, rfl⟩
    exact ⟨m, hm, closed, hclosed, duration, hduration, later, hlater, rfl⟩

/-- Gathering inside an element leaves its duration. -/
theorem duration?_gatherInside (h : n.gatherInside = .ok m) : m.duration? = n.duration? := by
  cases n with
  | group | simul =>
    obtain ⟨content, -, h⟩ := bind_eq_ok.1 h
    cases h
    rfl
  | _ => cases h; rfl

/-- An element lasts as long as it did when its inside is gathered. -/
theorem extent_gatherInside {d : Rat} (hm : n.gatherInside = .ok m) (hd : n.duration? = some d) :
    m.extent = d :=
  extent_of_duration? ((duration?_gatherInside hm).trans hd)

/-- The run that an element opens when its inside is gathered has the element's own duration. -/
theorem openRun_of_gatherInside {duration : Option Rat} (hn : n.duration? = some n.extent)
    (hm : n.gatherInside = .ok m) (hduration : m.durationPart = .ok duration) :
    (⟨m, [duration]⟩ : Run) = openRun m [] := by
  have hknown : m.duration? = some m.extent := by
    rw [extent, duration?_gatherInside hm, hn]
    rfl
  have hpart : duration = some m.extent := by
    cases m with
    | sequence | foreign => cases hduration
    | _ => cases hduration; exact hknown
  rw [hpart]
  rfl

/-! ## From the walk to the runs -/

/-- Walking on with an open run, the holds that come next belong to it and the rest are runs of
their own. -/
theorem runs_of_gatherFrom_some (hns : ∀ n ∈ ns, n.duration? = some n.extent) (slots : List Rat)
    (h : gatherFrom (some (openRun m slots)) ns = .ok out) :
    ∃ (holds : List Hold) (later : List Rat) (rest out' : List Node),
      ns = holds.map hold ++ rest ∧ holds.map Hold.duration = later.map some ∧
        out = m.heldOver (slots ++ later) :: out' ∧
        Runs (fun n m => n.gatherInside = .ok m) rest out' := by
  induction ns generalizing m slots out with
  | nil =>
    rw [gatherFrom, closeRun, close_openRun] at h
    cases h
    exact ⟨[], [], [], [], rfl, rfl, by rw [List.append_nil], .nil⟩
  | cons n ns ih =>
    have ⟨hn, hrest⟩ := List.forall_mem_cons.1 hns
    cases hhold : n.isHold with
    | true =>
      obtain ⟨s, rfl⟩ : ∃ s, n = hold s := by
        cases n with
        | hold s => exact ⟨s, rfl⟩
        | _ => cases hhold
      have hd : s.duration = some (hold s).extent := hn
      rw [gatherFrom_hold hd] at h
      obtain ⟨holds, later, rest, out', rfl, hlater, rfl, hruns⟩ := ih hrest _ h
      refine ⟨s :: holds, (hold s).extent :: later, rest, out', rfl, ?_,
        by rw [List.append_assoc]; rfl, hruns⟩
      rw [List.map_cons, List.map_cons, hd, hlater]
    | false =>
      obtain ⟨m', closed, duration, more, hm', hclosed, hduration, hmore, rfl⟩ :=
        (gatherFrom_cons_eq_ok hhold).1 h
      rw [closeRun, close_openRun] at hclosed
      cases hclosed
      rw [openRun_of_gatherInside hn hm' hduration] at hmore
      obtain ⟨holds, later, rest, out', rfl, hlater, rfl, hruns⟩ := ih hrest _ hmore
      exact ⟨[], [], _, _, rfl, rfl, by rw [List.append_nil]; rfl, .cons hhold hm' hlater hruns⟩

/-- A list that can be gathered is a list of runs. -/
theorem runs_of_gatherFrom (hns : ∀ n ∈ ns, n.duration? = some n.extent)
    (h : gatherFrom none ns = .ok out) : Runs (fun n m => n.gatherInside = .ok m) ns out := by
  cases ns with
  | nil => cases h; exact .nil
  | cons n ns =>
    have ⟨hn, hrest⟩ := List.forall_mem_cons.1 hns
    have hhold : n.isHold = false := by
      cases n with
      | hold => cases h
      | _ => rfl
    obtain ⟨m, closed, duration, more, hm, hclosed, hduration, hmore, rfl⟩ :=
      (gatherFrom_cons_eq_ok hhold).1 h
    cases hclosed
    rw [openRun_of_gatherInside hn hm hduration] at hmore
    obtain ⟨holds, later, rest, out, rfl, hlater, rfl, hruns⟩ :=
      runs_of_gatherFrom_some hrest [] hmore
    exact .cons hhold hm hlater hruns

/-- A tree that can be gathered is no hold, and gathering it is gathering inside it. -/
theorem gather_eq_ok (h : root.gather = .ok tree) :
    root.isHold = false ∧ root.gatherInside = .ok tree := by
  obtain ⟨out, hout, h⟩ := bind_eq_ok.1 h
  cases hhold : root.isHold with
  | true =>
    cases root with
    | hold => cases hout
    | _ => cases hhold
  | false =>
    obtain ⟨m, closed, duration, more, hm, hclosed, -, hmore, rfl⟩ :=
      (gatherFrom_cons_eq_ok hhold).1 hout
    cases hclosed
    cases hmore
    cases h
    exact ⟨rfl, hm⟩

/-! ## What runs keep -/

section
variable {inside : Node → Node → Prop}

/-- A list lasts as long as what its runs become, if every element does. -/
theorem Runs.sum_extent (h : Runs inside ns out)
    (hinside : ∀ n m, inside n m → m.extent = n.extent) :
    (out.map extent).sum = (ns.map extent).sum := by
  induction h with
  | nil => rfl
  | @cons n m holds slots rest out _ hnm hslots _ ih =>
    have hholds : (holds.map hold).map extent = slots := calc
      (holds.map hold).map extent = (holds.map Hold.duration).map (·.getD 0) := by
        simp only [List.map_map]
        rfl
      _ = slots := by
        rw [hslots, List.map_map]
        exact List.map_id slots
    rw [List.map_cons, List.sum_cons, List.map_cons, List.sum_cons, List.map_append,
      List.sum_append, extent_heldOver, hinside n m hnm, hholds, ih, add_assoc]

/-- Every element that comes of a list is an element of the list as `inside` relates it, held over
durations of holds of the list. -/
theorem Runs.exists_of_mem (h : Runs inside ns out) {o : Node} (ho : o ∈ out) :
    ∃ n ∈ ns, ∃ m slots, n.isHold = false ∧ inside n m ∧ o = m.heldOver slots ∧
      ∀ slot ∈ slots, ∃ h, hold h ∈ ns ∧ h.duration = some slot := by
  induction h with
  | nil => cases ho
  | @cons n m holds slots rest out hn hnm hslots _ ih =>
    rcases List.mem_cons.1 ho with rfl | ho
    · refine ⟨n, List.mem_cons_self .., m, slots, hn, hnm, rfl, ?_⟩
      intro slot hslot
      have hmem : some slot ∈ holds.map Hold.duration :=
        hslots ▸ List.mem_map_of_mem hslot
      obtain ⟨s, hs, hd⟩ := List.mem_map.1 hmem
      exact ⟨s, by simp [hs], hd⟩
    · obtain ⟨n', hn', m', slots', hhold, hinside, hout, hslots'⟩ := ih ho
      refine ⟨n', by simp [hn'], m', slots', hhold, hinside, hout, ?_⟩
      intro slot hslot
      obtain ⟨s, hs, hd⟩ := hslots' slot hslot
      exact ⟨s, by simp [hs], hd⟩

/-- Every element of a list that is no hold becomes an element as `inside` relates it, held over
some slots. -/
theorem Runs.exists_heldOver (h : Runs inside ns out) (hn : n ∈ ns) (hhold : n.isHold = false) :
    ∃ m slots, inside n m ∧ m.heldOver slots ∈ out := by
  induction h with
  | nil => cases hn
  | @cons c m holds slots rest out _ hcm _ _ ih =>
    rcases List.mem_cons.1 hn with rfl | hn
    · exact ⟨m, slots, hcm, List.mem_cons_self ..⟩
    · rcases List.mem_append.1 hn with hn | hn
      · obtain ⟨s, -, rfl⟩ := List.mem_map.1 hn
        cases hhold
      · obtain ⟨m', slots', hm', hmem⟩ := ih hn
        exact ⟨m', slots', hm', List.mem_cons_of_mem _ hmem⟩

/-- Whether a list starts with a hold. -/
def isLed (ns : List Node) : Bool := ns.head?.any isHold

/-- A list of runs does not start with a hold. -/
theorem Runs.not_isLed (h : Runs inside ns out) : isLed ns = false := by
  cases h with
  | nil => rfl
  | cons hn => simpa [isLed] using hn

/-- Holds in front of a list that does not start with one are all the holds it starts with. -/
theorem holds_append_inj {holds holds' : List Hold} {rest rest' : List Node}
    (h : isLed rest = false) (h' : isLed rest' = false)
    (heq : holds.map hold ++ rest = holds'.map hold ++ rest') : holds = holds' ∧ rest = rest' := by
  induction holds generalizing holds' with
  | nil =>
    cases holds' with
    | nil => exact ⟨rfl, heq⟩
    | cons s holds' =>
      obtain rfl : rest = _ := heq
      cases h
  | cons s holds ih =>
    cases holds' with
    | nil =>
      obtain rfl : _ = rest' := heq
      cases h'
    | cons s' holds' =>
      obtain ⟨hs, hlater⟩ := List.cons.inj heq
      cases hs
      obtain ⟨rfl, rfl⟩ := ih hlater
      exact ⟨rfl, rfl⟩

/-- The first run of a list is its first element and all holds right after it. -/
theorem Runs.of_cons {holds : List Hold} {slots : List Rat} {rest : List Node}
    (h : Runs inside (n :: (holds.map hold ++ rest)) out)
    (hslots : holds.map Hold.duration = slots.map some) (hrest : isLed rest = false) :
    ∃ m later, inside n m ∧ out = m.heldOver slots :: later ∧ Runs inside rest later := by
  generalize hlist : holds.map hold ++ rest = list at h
  cases h with
  | @cons _ m holds' slots' rest' later _ hnm hslots' hruns =>
    obtain ⟨rfl, rfl⟩ := holds_append_inj hrest hruns.not_isLed hlist
    obtain rfl : slots' = slots :=
      List.map_injective_iff.2 (Option.some_injective Rat) (hslots'.symm.trans hslots)
    exact ⟨m, later, hnm, rfl, hruns⟩

end

/-! ## What gathering keeps -/

section
variable {p q : Node → Prop}

/-- What has to be shown for gathering to turn one property of all elements into another. -/
structure Gatherable (p q : Node → Prop) : Prop where
  symbol (s : Symbol) : p (symbol s) → q (symbol s)
  group {content out : List Node} (isExplicit : Bool) (duration : Option Rat) :
    Runs (fun n m => n.gatherInside = .ok m) content out →
      p (group content isExplicit duration) → q (group out isExplicit duration)
  simul {content out : List Node} (duration : Option Rat) :
    Runs (fun n m => n.gatherInside = .ok m) content out →
      p (simul content duration) → q (simul out duration)
  held {m : Node} {slot : Rat} {slots : List Rat} :
    q m → (∀ d ∈ slot :: slots, ∃ h : Hold, p (hold h) ∧ h.duration = some d) →
      q (held m ⟨none, 1, some (m.extent :: slot :: slots), some (m.extent :: slot :: slots).sum⟩)

/-- Gathering turns one property of all elements of a settled tree into another. -/
theorem Gatherable.every (h : Gatherable p q) (hsettled : n.Every Settled)
    (hhold : n.isHold = false) (hn : n.Every p) (hm : n.gatherInside = .ok m) : m.Every q := by
  have likewise {content out : List Node} (hcontent : ∀ c ∈ content, c.Every p)
      (ih : ∀ c ∈ content, ∀ m, c.isHold = false → c.gatherInside = .ok m → m.Every q)
      (hruns : Runs (fun n m => n.gatherInside = .ok m) content out) : ∀ o ∈ out, o.Every q := by
    intro o ho
    obtain ⟨c, hc, m, slots, hhold, hm, rfl, hslots⟩ := hruns.exists_of_mem ho
    have hq := ih c hc m hhold hm
    cases slots with
    | nil => exact hq
    | cons slot slots =>
      refine every_held.2 ⟨h.held hq.self ?_, hq⟩
      intro d hd
      obtain ⟨s, hs, hd⟩ := hslots d hd
      exact ⟨s, (hcontent _ hs).self, hd⟩
  induction n generalizing m with
  | symbol s =>
    cases hm
    exact every_symbol.2 (h.symbol s (every_symbol.1 hn))
  | hold => cases hhold
  | group content isExplicit duration ih =>
    obtain ⟨out, hout, hm⟩ := bind_eq_ok.1 hm
    cases hm
    have hruns := runs_of_gatherFrom (fun c hc => (hsettled.child hc).self.1.duration?) hout
    exact every_group.2 ⟨h.group isExplicit duration hruns hn.self, likewise
      (fun c hc => hn.child hc) (fun c hc _ hhold hm => ih c hc (hsettled.child hc) hhold
        (hn.child hc) hm) hruns⟩
  | simul content duration ih =>
    obtain ⟨out, hout, hm⟩ := bind_eq_ok.1 hm
    cases hm
    have hruns := runs_of_gatherFrom (fun c hc => (hsettled.child hc).self.1.duration?) hout
    exact every_simul.2 ⟨h.simul duration hruns hn.self, likewise
      (fun c hc => hn.child hc) (fun c hc _ hhold hm => ih c hc (hsettled.child hc) hhold
        (hn.child hc) hm) hruns⟩
  | sequence => exact hsettled.self.1.elim
  | held => cases hsettled.self.2
  | foreign => exact hsettled.self.1.elim

end

end Polyrhythm.Node
