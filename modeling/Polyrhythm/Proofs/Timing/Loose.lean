import Polyrhythm.Proofs.Timing.Annotation

/-!
# Holds with nothing to hold

Gathering goes through a tree in the order of the text and fails at the first hold that has no
element before it in its list (`Node.looseHolds`). Both halves are one statement, `FailsAt`, which
goes through a sequence of steps as the holds that the steps meet are put one after another
(`FailsAt.bind`). So annotating a tree of notation fails exactly at the first loose hold of the tree
that is laid out (`Node.failsAt_timed`), and with no other fault.
-/

namespace Polyrhythm

/-! ## Steps that fail at the first hold -/

/-- A step that meets some loose holds: it fails at the first of them, and succeeds if there is
none. -/
def FailsAt {α : Type} (loose : List Hold) (result : Except Fault α) : Prop :=
  match loose with
  | [] => ∃ a, result = .ok a
  | h :: _ => result = .error (.nothingToHold h.position)

section
variable {α β : Type} {loose later : List Hold} {x : Except Fault α} {f : α → Except Fault β}

/-- Of two steps in a row, the second is reached if the first meets no loose hold. -/
theorem FailsAt.bind (hx : FailsAt loose x) (hf : ∀ a, x = .ok a → FailsAt later (f a)) :
    FailsAt (loose ++ later) (x >>= f) := by
  cases loose with
  | nil =>
    obtain ⟨a, rfl⟩ := hx
    exact hf a rfl
  | cons h rest =>
    have hx : x = .error (.nothingToHold h.position) := hx
    rw [hx]
    rfl

/-- A step that meets no loose hold leaves those of the step after it. -/
theorem FailsAt.bind_ok {a : α} (hx : x = .ok a) (hf : FailsAt later (f a)) :
    FailsAt later (x >>= f) := by
  rw [hx]
  exact hf

/-- What is done with the result of a step changes nothing about its failing. -/
theorem FailsAt.map (hx : FailsAt loose x) (g : α → β) :
    FailsAt loose (do return g (← x)) := by
  rw [← List.append_nil loose]
  exact hx.bind fun a _ => ⟨g a, rfl⟩

/-- A step with loose holds fails at one of them. -/
theorem FailsAt.error {fault : Fault} (hx : FailsAt loose x) (h : x = .error fault) :
    ∃ s ∈ loose, fault = .nothingToHold s.position := by
  subst h
  cases loose with
  | nil =>
    obtain ⟨a, ha⟩ := hx
    cases ha
  | cons s rest =>
    cases hx
    exact ⟨s, List.mem_cons_self, rfl⟩

/-- A step fails exactly if it meets a loose hold. -/
theorem FailsAt.fails_iff (hx : FailsAt loose x) :
    (∃ p, x = .error (.nothingToHold p)) ↔ loose ≠ [] := by
  cases loose with
  | nil =>
    obtain ⟨a, rfl⟩ := hx
    exact iff_of_false (fun ⟨_, h⟩ => by cases h) (fun h => h rfl)
  | cons s rest => exact iff_of_true ⟨s.position, hx⟩ (List.cons_ne_nil _ _)

end

namespace Node

/-! ## Loose holds -/

/-- The hold that a list begins with, if it begins with one. -/
def leadingHold? : List Node → Option Hold
  | hold h :: _ => some h
  | _ => none

/-- The holds of a tree with no element before them in their list, in the order of the text. -/
def looseHolds (n : Node) : List Hold := n.walk.filterMap fun m => leadingHold? m.children

/-- The loose holds of the elements of a list, the one that it begins with counted. -/
def looseAmong (ns : List Node) : List Hold :=
  (leadingHold? ns).toList ++ ns.flatMap looseHolds

variable {n m : Node} {ns : List Node}

/-- The loose holds of an element are those of its list of children. -/
theorem looseHolds_eq (n : Node) : n.looseHolds = looseAmong n.children := by
  have heach (ns : List Node) : (ns.flatMap walk).filterMap (fun m => leadingHold? m.children) =
      ns.flatMap looseHolds := List.filterMap_flatMap ..
  rw [looseHolds, walk_eq_cons, List.filterMap_cons, heach, looseAmong]
  cases leadingHold? n.children <;> rfl

/-- A hold that a list begins with is in the list. -/
theorem mem_of_leadingHold? {h : Hold} (hlead : leadingHold? ns = some h) : hold h ∈ ns := by
  cases ns with
  | nil => cases hlead
  | cons n rest =>
    cases n with
    | hold s =>
      cases hlead
      exact List.mem_cons_self
    | _ => cases hlead

/-- A loose hold is an element of the tree. -/
theorem mem_walk_of_mem_looseHolds {h : Hold} (hloose : h ∈ n.looseHolds) : hold h ∈ n.walk := by
  obtain ⟨m, hm, hlead⟩ := List.mem_filterMap.1 hloose
  have hchild := mem_of_leadingHold? hlead
  have hall : n.Every (· ∈ n.walk) := fun _ hm => hm
  exact ((hall.every m hm).child hchild).self

/-! ## Gathering -/

/-- An element that gathering can meet: its duration is known. -/
def Timed : Node → Prop
  | symbol s => ∃ d, s.duration = some d
  | hold h => ∃ d, h.duration = some d
  | group _ _ duration | simul _ duration => ∃ d, duration = some d
  | sequence _ | held .. | foreign _ => False

/-- The duration of a timed element is known. -/
theorem Timed.duration? (h : n.Timed) : n.duration? = some n.extent := by
  have hsome : ∃ d, n.duration? = some d := by
    cases n with
    | sequence | held | foreign => exact h.elim
    | _ => exact h
  obtain ⟨d, hd⟩ := hsome
  rw [hd, extent_of_duration? hd]

/-- The duration of a timed element is still known when its inside is gathered. -/
theorem Timed.durationPart (h : n.Timed) (hm : n.gatherInside = .ok m) :
    m.durationPart = .ok (some m.extent) := by
  have hd : m.duration? = some n.extent := (duration?_gatherInside hm).trans h.duration?
  rw [durationPart_of_duration? hd, extent_of_duration? hd]

/-- Gathering an element and then the rest of its list: the holds that are loose in the element come
first. -/
theorem failsAt_gatherFrom_cons {run : Option Run} {closed : List Node} {later : List Hold}
    (hrun : closeRun run = .ok closed) (hn : n.Timed) (hhold : n.isHold = false)
    (hinside : FailsAt n.looseHolds n.gatherInside)
    (hlater : ∀ m, FailsAt later (gatherFrom (some (openRun m [])) ns)) :
    FailsAt (n.looseHolds ++ later) (gatherFrom run (n :: ns)) := by
  rw [gatherFrom_cons hhold]
  refine hinside.bind fun m hm => ?_
  refine FailsAt.bind_ok hrun (FailsAt.bind_ok (hn.durationPart hm) ?_)
  exact (hlater m).map (closed ++ ·)

/-- Gathering the rest of a list after an element meets the holds that are loose inside elements. -/
theorem failsAt_gatherFrom_some (hns : ∀ n ∈ ns, n.Timed)
    (hinside : ∀ n ∈ ns, n.isHold = false → FailsAt n.looseHolds n.gatherInside)
    (m : Node) (slots : List Rat) :
    FailsAt (ns.flatMap looseHolds) (gatherFrom (some (openRun m slots)) ns) := by
  induction ns generalizing m slots with
  | nil => exact ⟨_, by rw [gatherFrom, closeRun, close_openRun]; rfl⟩
  | cons n rest ih =>
    obtain ⟨hn, hrest⟩ := List.forall_mem_cons.1 hns
    obtain ⟨hfirst, hothers⟩ := List.forall_mem_cons.1 hinside
    cases hhold : n.isHold with
    | true =>
      obtain ⟨s, rfl⟩ : ∃ s, n = hold s := by
        cases n with
        | hold s => exact ⟨s, rfl⟩
        | _ => cases hhold
      obtain ⟨d, hd⟩ := hn
      rw [gatherFrom_hold hd]
      exact ih hrest hothers m _
    | false =>
      have hclose : closeRun (some (openRun m slots)) = .ok [m.heldOver slots] := by
        rw [closeRun, close_openRun]
        rfl
      exact failsAt_gatherFrom_cons hclose hn hhold (hfirst hhold) fun m => ih hrest hothers m []

/-- Gathering a list meets the hold that it begins with, and then those inside its elements. -/
theorem failsAt_gatherAll (hns : ∀ n ∈ ns, n.Timed)
    (hinside : ∀ n ∈ ns, n.isHold = false → FailsAt n.looseHolds n.gatherInside) :
    FailsAt (looseAmong ns) (gatherAll ns) := by
  cases ns with
  | nil => exact ⟨[], rfl⟩
  | cons n rest =>
    obtain ⟨hn, hrest⟩ := List.forall_mem_cons.1 hns
    obtain ⟨hfirst, hothers⟩ := List.forall_mem_cons.1 hinside
    cases hhold : n.isHold with
    | true =>
      cases n with
      | hold s => exact rfl
      | _ => cases hhold
    | false =>
      have hlead : looseAmong (n :: rest) = n.looseHolds ++ rest.flatMap looseHolds := by
        rw [looseAmong, List.flatMap_cons]
        cases n with
        | hold => cases hhold
        | _ => rfl
      have hclose : closeRun none = .ok [] := rfl
      rw [hlead]
      exact failsAt_gatherFrom_cons hclose hn hhold (hfirst hhold) fun m =>
        failsAt_gatherFrom_some hrest hothers m []

/-- Gathering the inside of a timed element meets the holds that are loose in it. -/
theorem failsAt_gatherInside (h : n.Every Timed) : FailsAt n.looseHolds n.gatherInside := by
  have each {content : List Node} (h : ∀ c ∈ content, c.Every Timed)
      (ih : ∀ c ∈ content, c.Every Timed → FailsAt c.looseHolds c.gatherInside) :
      FailsAt (looseAmong content) (gatherAll content) :=
    failsAt_gatherAll (fun c hc => (h c hc).self) fun c hc _ => ih c hc (h c hc)
  induction n with
  | symbol s => exact ⟨_, rfl⟩
  | hold s => exact ⟨_, rfl⟩
  | group content isExplicit duration ih =>
    rw [looseHolds_eq]
    exact (each (fun c hc => h.child hc) fun c hc => ih c hc).map (group · isExplicit duration)
  | simul content duration ih =>
    rw [looseHolds_eq]
    exact (each (fun c hc => h.child hc) fun c hc => ih c hc).map (simul · duration)
  | sequence | held | foreign => exact h.self.elim

/-- The loose holds of a tree, the root being alone in its list. -/
def looseInTree (root : Node) : List Hold := looseAmong [root]

/-- Gathering a timed tree fails at the first loose hold of it. -/
theorem failsAt_gather (h : n.Every Timed) : FailsAt n.looseInTree n.gather := by
  have hall : FailsAt n.looseInTree (gatherAll [n]) :=
    failsAt_gatherAll (List.forall_mem_singleton.2 h.self)
      (List.forall_mem_singleton.2 fun _ => failsAt_gatherInside h)
  exact hall.map (·.headD n)

/-! ## Timing -/

/-- An element of a settled tree is timed. -/
theorem Settled.timed (h : n.Settled) : n.Timed := by
  cases n with
  | symbol => exact h.1
  | hold => exact h.1.2
  | group | simul => exact h.1.imp fun _ h => h.1
  | held => cases h.2
  | sequence | foreign => exact h.1

/-- Timing a tree of notation fails at the first loose hold of the tree that is laid out. -/
theorem failsAt_timed (h : n.Written) : FailsAt (n.laid 1).looseInTree n.timed := by
  rw [timed_eq_gather h]
  exact failsAt_gather ((settled_laid h 1).imp fun _ hm => hm.timed)

end Node

end Polyrhythm
