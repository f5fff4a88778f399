import Polyrhythm.Proofs.Timing.Runs
import Polyrhythm.Timing

/-!
# Annotating

Timing a tree of notation is gathering the tree that is laid out by the factor one, since settling
cannot fail (`Node.timed_eq_gather`). So only a hold with nothing before it is in the way, and a
tree without holds is timed by being laid out (`Node.timed_of_holdless`). What is timed can be shown
unless a number in it has too many digits, and is annotated then (`Node.annotate_eq`). In an
annotated tree the slots of a held element begin with the duration of what is held and add up to
that of the whole (`Node.gathered_of_annotate`).
-/

namespace Polyrhythm.Node

open Traversal

/-- What gathering makes of an element: its duration is known, and if it is held, its slots begin
with the duration of what is held and add up to its own. No holds are left. -/
def Gathered : Node → Prop
  | symbol s => ∃ d, s.duration = some d
  | group _ _ duration | simul _ duration => ∃ d, duration = some d
  | held content h =>
    ∃ first rest, content.duration? = some first ∧ h.slots = some (first :: rest) ∧
      h.duration = some (first :: rest).sum
  | hold _ | sequence _ | foreign _ => False

/-- An element has a line in an outline: its pitch, if it has one, is a real number, and its slots
are known if it is held. -/
def Shown : Node → Prop
  | symbol s => ∀ pitch, s.pitch = some pitch → ∃ x, pitch = .real x
  | held _ h => ∃ slots, h.slots = some slots
  | foreign _ => False
  | hold _ | group .. | simul .. | sequence _ => True

variable {n tree : Node}

/-- The duration of a gathered element is known. -/
theorem Gathered.duration? (h : n.Gathered) : n.duration? = some n.extent := by
  have hsome : ∃ d, n.duration? = some d := by
    cases n with
    | symbol | group | simul => exact h
    | held =>
      obtain ⟨first, rest, -, -, hd⟩ := h
      exact ⟨_, hd⟩
    | hold | sequence | foreign => exact h.elim
  obtain ⟨d, hd⟩ := hsome
  rw [hd, extent_of_duration? hd]

/-- A settled tree becomes a gathered one. -/
theorem gatherable_gathered : Gatherable Settled Gathered where
  symbol _ h := h.1
  group _ _ _ h := h.1.imp fun _ h => h.1
  simul _ _ h := h.1.imp fun _ h => h.1
  held h _ := ⟨_, _, h.duration?, rfl, rfl⟩

/-! ## Outlines -/

/-- The pitch in the content of a symbol is a real number. -/
theorem shown_splitPitch {s : Symbol} (h : s.pitch = none) (d : Option Rat) :
    (symbol { s.splitPitch with duration := d }).Shown := by
  intro pitch hpitch
  have hsplit : s.splitPitch.pitch = some pitch := hpitch
  rw [Symbol.splitPitch] at hsplit
  split at hsplit
  · cases hsplit
    exact ⟨_, rfl⟩
  · cases h.symm.trans hsplit

/-- A tree of notation can be shown once it is laid out. -/
theorem shown_laid (h : n.Written) (factor : Rat) : (n.laid factor).Every Shown := by
  refine every_laid (q := IsNotation) ?_ ?_ h h factor
  · intro n factor hn
    cases n with
    | symbol s => exact shown_splitPitch (every_symbol.1 hn).2 _
    | hold | group | simul | sequence => trivial
    | held => exact hn.self.elim
    | foreign => exact hn.self
  · intro n d hn
    cases n <;> exact hn

/-- Gathering leaves a tree that can be shown one. -/
theorem gatherable_shown : Gatherable Shown Shown where
  symbol _ h := h
  group _ _ _ _ := trivial
  simul _ _ _ := trivial
  held _ _ := ⟨_, rfl⟩

/-- What fails exactly if a number that it writes cannot be written. -/
def Writes {α : Type} (writable : Bool) (x : Except Fault α) : Prop :=
  if writable then ∃ a, x = .ok a else x = .error .unwritableNumber

section
variable {α β : Type} {x : Except Fault α} {f : α → Except Fault β} {first second : Bool}

/-- What writes no number at all. -/
theorem Writes.ok (a : α) : Writes true (.ok a : Except Fault α) := ⟨a, rfl⟩

/-- Two steps write the numbers of both. -/
theorem Writes.bind (hx : Writes first x) (hf : ∀ a, Writes second (f a)) :
    Writes (first && second) (x >>= f) := by
  cases first with
  | true =>
    obtain ⟨a, rfl⟩ := hx
    exact hf a
  | false =>
    rw [show x = .error .unwritableNumber from hx]
    exact rfl

/-- A last step that writes no number. -/
theorem Writes.map (hx : Writes first x) (g : α → β) :
    Writes first (x >>= fun a => .ok (g a)) := by
  have h := hx.bind fun a => Writes.ok (g a)
  rwa [Bool.and_true] at h

end

/-- A ratio is written if its parts can be. -/
theorem writes_written (q : Rat) :
    Writes (Number.isWritableRatio q) (Quantity.ratio q).written := by
  rw [Quantity.written, Quantity.isWritable]
  cases Number.isWritableRatio q with
  | true => exact .ok _
  | false => exact rfl

theorem writes_durationNote (duration : Option Rat) :
    Writes (duration.toList.all Number.isWritableRatio) (durationNote duration) := by
  cases duration with
  | none => exact .ok _
  | some d =>
    rw [Option.toList_some, List.all_cons, List.all_nil, Bool.and_true]
    exact (writes_written d).map _

theorem writes_slots (slots : List Rat) :
    Writes (slots.all Number.isWritableRatio)
      (slots.mapM fun slot => (Quantity.ratio slot).written) := by
  induction slots with
  | nil => exact .ok _
  | cons slot slots ih =>
    rw [List.mapM_cons, List.all_cons]
    exact (writes_written slot).bind fun first => ih.map (first :: ·)

/-- An element that can be shown has a line, unless a number in it cannot be written. -/
theorem Shown.writes_outlineLine (h : n.Shown) :
    Writes (n.numbers.all Number.isWritableRatio) n.outlineLine := by
  cases n with
  | symbol s =>
    have hpitch : ∃ note, pitchNote s.pitch = .ok note := by
      cases hs : s.pitch with
      | none => exact ⟨_, rfl⟩
      | some pitch =>
        obtain ⟨x, rfl⟩ := h pitch hs
        exact ⟨_, rfl⟩
    obtain ⟨note, hnote⟩ := hpitch
    rw [outlineLine, hnote]
    exact (writes_durationNote s.duration).map _
  | hold s => exact (writes_durationNote s.duration).map _
  | held content s =>
    obtain ⟨slots, hslots⟩ := h
    rw [outlineLine, numbers, List.all_append, hslots]
    exact (writes_durationNote s.duration).bind fun duration => (writes_slots slots).map _
  | group content isExplicit duration => exact (writes_durationNote duration).map _
  | simul content duration => exact (writes_durationNote duration).map _
  | sequence => exact .ok _
  | foreign => exact h.elim

/-- Whether a tree can be written is a matter of its root and of its children. -/
theorem isWritable_eq (n : Node) :
    n.isWritable = (n.numbers.all Number.isWritableRatio && n.children.all isWritable) := by
  rw [isWritable, walk_eq_cons, List.all_cons, List.all_flatMap]
  rfl

/-- The duration of a tree that can be written can be. -/
theorem isWritableRatio_of_duration? {d : Rat} (h : n.isWritable = true)
    (hd : n.duration? = some d) : Number.isWritableRatio d = true := by
  rw [isWritable_eq, Bool.and_eq_true] at h
  refine List.all_eq_true.1 h.1 d ?_
  cases n with
  | held => exact List.mem_append_left _ (Option.mem_toList.2 hd)
  | sequence | foreign => cases hd
  | _ => exact Option.mem_toList.2 hd

/-- A tree whose elements can all be shown has an outline, unless a number in it cannot be
written. -/
theorem writes_outlineLines (h : n.Every Shown) (level : Int) :
    Writes n.isWritable (n.outlineLines level) := by
  have each {ns : List Node} (level : Int)
      (hns : ∀ n ∈ ns, Writes n.isWritable (n.outlineLines level)) :
      Writes (ns.all isWritable) (outlineLinesOf level ns) := by
    induction ns with
    | nil => exact .ok _
    | cons n ns ih =>
      obtain ⟨hn, hns⟩ := List.forall_mem_cons.1 hns
      rw [List.all_cons, outlineLinesOf]
      exact hn.bind fun first => (ih hns).map (first ++ ·)
  rw [isWritable_eq]
  induction n generalizing level with
  | symbol | hold | foreign =>
    rw [children, List.all_nil, Bool.and_true]
    exact h.self.writes_outlineLine.map _
  | group _ _ _ ih | simul _ _ ih | sequence _ ih =>
    have hcontent := each (level + 1) fun c hc => isWritable_eq c ▸ ih c hc (h.child hc) (level + 1)
    exact h.self.writes_outlineLine.bind fun line => hcontent.map _
  | held content s ih =>
    have hcontent := ih (every_held.1 h).2 (level + 1)
    rw [children, List.all_cons, List.all_nil, Bool.and_true, isWritable_eq content]
    exact h.self.writes_outlineLine.bind fun line => hcontent.map _

/-- The outline of a tree as a whole. -/
theorem writes_outline (h : n.Every Shown) (level : Int) :
    Writes n.isWritable (n.outline level) :=
  (writes_outlineLines h level).map _

/-! ## Whole trees -/

/-- Settling the list of a single tree of notation settles the tree. -/
theorem settleAll_singleton (h : n.Written) : settleAll [n] = .ok [n.laid 1] := by
  have hsettle : ∀ c ∈ [n], c.settle = .ok (c.laid 1) := by
    intro c hc
    rw [List.mem_singleton.1 hc, settle_eq_ok h]
  rw [settleAll, inStages_settleEach hsettle]
  rfl

/-- Timing a tree of notation is gathering the tree that is laid out. -/
theorem timed_eq_gather (h : n.Written) : n.timed = (n.laid 1).gather := by
  rw [timed, settleAll_singleton h]
  rfl

/-- A tree if all numbers in it can be written, and a fault if not. -/
def writable (tree : Node) : Except Fault Node :=
  if tree.isWritable then .ok tree else .error .unwritableNumber

theorem writable_eq_ok {m : Node} : tree.writable = .ok m ↔ tree = m ∧ m.isWritable = true := by
  rw [writable]
  split
  · next h => exact ⟨fun heq => by cases heq; exact ⟨rfl, h⟩, fun heq => heq.1 ▸ rfl⟩
  · next h => exact ⟨nofun, fun heq => absurd (heq.1 ▸ heq.2) h⟩

/-- What succeeds and is a tree if it can be written, is that tree. -/
theorem eq_ok_of_writable {x : Except Fault Node} (h : x = tree.writable) (hx : x.isOk = true) :
    x = .ok tree := by
  obtain ⟨m, hm⟩ := exists_of_isOk hx
  rw [hm, (writable_eq_ok.1 (h.symm.trans hm)).1]

/-- Annotating a tree of notation is timing it, which does not fail for anything that is shown but
for numbers with too many digits. -/
theorem annotate_eq (h : n.Written) : n.annotate = n.timed >>= writable := by
  rw [annotate, timed_eq_gather h]
  cases hgather : (n.laid 1).gather with
  | error fault => rfl
  | ok tree =>
    obtain ⟨hhold, hinside⟩ := gather_eq_ok hgather
    have hshown := gatherable_shown.every (settled_laid h 1) hhold (shown_laid h 1) hinside
    have hwrites := writes_outline hshown 0
    change (tree.outline 0 >>= fun _ => .ok tree) = tree.writable
    rw [writable]
    rw [Writes] at hwrites
    split at hwrites
    · next htree =>
      obtain ⟨shown, hshown⟩ := hwrites
      rw [hshown, if_pos htree]
      rfl
    · next htree =>
      rw [hwrites, if_neg htree]
      rfl

/-- A tree of notation can be annotated if it can be timed and the timed tree can be written. -/
theorem annotate_eq_ok (h : n.Written) :
    n.annotate = .ok tree ↔ n.timed = .ok tree ∧ tree.isWritable = true := by
  rw [annotate_eq h, bind_eq_ok]
  refine ⟨?_, fun ⟨htimed, htree⟩ => ⟨tree, htimed, writable_eq_ok.2 ⟨rfl, htree⟩⟩⟩
  rintro ⟨m, htimed, hm⟩
  obtain ⟨rfl, htree⟩ := writable_eq_ok.1 hm
  exact ⟨htimed, htree⟩

/-- Annotating a tree of notation fails where timing it does, or for a number that cannot be
written. -/
theorem annotate_eq_error {fault : Fault} (h : n.Written) :
    n.annotate = .error fault ↔ n.timed = .error fault ∨
      fault = .unwritableNumber ∧ ∃ tree, n.timed = .ok tree ∧ tree.isWritable = false := by
  rw [annotate_eq h, bind_eq_error]
  refine or_congr_right ⟨?_, ?_⟩
  · rintro ⟨tree, htimed, hfault⟩
    rw [writable] at hfault
    split at hfault
    · cases hfault
    · next htree =>
      cases hfault
      exact ⟨rfl, tree, htimed, Bool.eq_false_iff.2 htree⟩
  · rintro ⟨rfl, tree, htimed, htree⟩
    exact ⟨tree, htimed, if_neg (Bool.eq_false_iff.1 htree)⟩

/-- A tree of notation that can be timed is gathered inside once it is laid out. -/
theorem gatherInside_of_timed (h : n.Written) (htree : n.timed = .ok tree) :
    (n.laid 1).isHold = false ∧ (n.laid 1).gatherInside = .ok tree :=
  gather_eq_ok (timed_eq_gather h ▸ htree)

/-- A timed tree is gathered. -/
theorem gathered_of_timed (h : n.Written) (htree : n.timed = .ok tree) : tree.Every Gathered := by
  obtain ⟨hhold, hinside⟩ := gatherInside_of_timed h htree
  have hsettled := settled_laid h 1
  exact gatherable_gathered.every hsettled hhold hsettled hinside

/-- A tree of notation that can be annotated is gathered inside once it is laid out. -/
theorem gatherInside_of_annotate (h : n.Written) (htree : n.annotate = .ok tree) :
    (n.laid 1).isHold = false ∧ (n.laid 1).gatherInside = .ok tree :=
  gatherInside_of_timed h ((annotate_eq_ok h).1 htree).1

/-- An annotated tree is gathered. -/
theorem gathered_of_annotate (h : n.Written) (htree : n.annotate = .ok tree) :
    tree.Every Gathered :=
  gathered_of_timed h ((annotate_eq_ok h).1 htree).1

/-! ## Trees without holds -/

/-- A list without holds, inside whose elements nothing is to be gathered, is gathered to itself. -/
theorem gatherFrom_of_holdless {ns closed : List Node} {run : Option Run}
    (hrun : closeRun run = .ok closed) (hsettled : ∀ n ∈ ns, n.Settled)
    (hns : ∀ n ∈ ns, n.isHold = false ∧ n.gatherInside = .ok n) :
    gatherFrom run ns = .ok (closed ++ ns) := by
  induction ns generalizing run closed with
  | nil => rw [gatherFrom, hrun, List.append_nil]
  | cons n ns ih =>
    obtain ⟨hn, hsettled⟩ := List.forall_mem_cons.1 hsettled
    obtain ⟨⟨hhold, hinside⟩, hns⟩ := List.forall_mem_cons.1 hns
    have hclose : closeRun (some ⟨n, [some n.extent]⟩) = .ok [n] := rfl
    have hrest := ih hclose hsettled hns
    exact (gatherFrom_cons_eq_ok hhold).2 ⟨n, closed, some n.extent, n :: ns, hinside, hrun,
      hn.1.durationPart, hrest, rfl⟩

/-- A settled tree without holds is gathered to itself. -/
theorem gatherInside_of_holdless (h : n.Every Settled)
    (hholds : n.Every fun n => n.isHold = false) : n.gatherInside = .ok n := by
  have each {content : List Node} (h : ∀ c ∈ content, c.Every Settled)
      (hholds : ∀ c ∈ content, c.Every fun n => n.isHold = false)
      (ih : ∀ c ∈ content, c.gatherInside = .ok c) : gatherFrom none content = .ok content := by
    have hclose : closeRun none = .ok [] := rfl
    exact gatherFrom_of_holdless hclose (fun c hc => (h c hc).self) fun c hc =>
      ⟨(hholds c hc).self, ih c hc⟩
  induction n with
  | group content _ _ ih | simul content _ ih =>
    have hcontent := each (fun c hc => h.child hc) (fun c hc => hholds.child hc)
      fun c hc => ih c hc (h.child hc) (hholds.child hc)
    exact bind_eq_ok.2 ⟨content, hcontent, rfl⟩
  | _ => rfl

/-- A tree without holds has none once it is laid out. -/
theorem holdless_laid (h : n.Written) (hholds : n.Every fun n => n.isHold = false) (factor : Rat) :
    (n.laid factor).Every fun n => n.isHold = false := by
  refine every_laid ?_ ?_ h hholds factor
  · intro n factor hn
    rw [isHold_laid, hn.self]
  · intro n d hn
    rw [isHold_lasting, hn]

/-- A tree of notation without holds is timed by being laid out. -/
theorem timed_of_holdless (h : n.Written) (hholds : n.Every fun n => n.isHold = false) :
    n.timed = .ok (n.laid 1) := by
  have hsettled := settled_laid h 1
  have hlaid := holdless_laid h hholds 1
  have hgather : gatherAll [n.laid 1] = .ok [n.laid 1] := by
    have hclose : closeRun none = .ok [] := rfl
    refine gatherFrom_of_holdless hclose ?_ ?_
    · exact List.forall_mem_singleton.2 hsettled.self
    · exact List.forall_mem_singleton.2 ⟨hlaid.self, gatherInside_of_holdless hsettled hlaid⟩
  rw [timed_eq_gather h, gather, hgather]
  rfl

end Polyrhythm.Node
