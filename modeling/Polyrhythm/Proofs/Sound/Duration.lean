import Mathlib.Algebra.BigOperators.Ring.List
import Polyrhythm.Proofs.Sound.Exact
import Polyrhythm.Proofs.Timing.Balance
import Polyrhythm.Sound.Realize

/-!
# How long a sound lasts

The sound of an annotated tree does not look at the durations of its composites. It lasts as long as
what it is made of: a sequence of sounds as long as all of them, sounds together as long as the
first (`Node.sounding`, `Node.realizeWith_exact`). That is the duration of the tree less what its
composites last longer than their elements (`Node.slack`, `Node.sounding_add_slack`). So the sound
of a text lasts as long as the tree says exactly if there is no slack. A balanced tree has none, but
an empty block that is fitted to a duration lasts longer than the silence it makes.
-/

namespace Polyrhythm

namespace Table

/-- A table has the sound for a name that is to be expected: silence for the rest, and for any other
name a note of that name. -/
def Voices (table : Table) (name : String) : Prop :=
  if name = restName then table.find? name = some (.pause (.whole 1))
  else ∃ isContinuous, table.find? name = some (.note name (.whole 1) none isContinuous)

/-- Every table voices the rest from the start. -/
theorem voices_initial : initial.Voices restName := rfl

/-- A table voices a name that a note was added under. -/
theorem voices_addNote {name : String} (h : name ≠ restName) (table : Table)
    (isContinuous : Bool) : (table.addNote name isContinuous).Voices name := by
  rw [Voices, if_neg h]
  exact ⟨isContinuous, find?_add_self ..⟩

/-- Adding a note leaves the other names that a table voices. -/
theorem Voices.addNote {table : Table} {name other : String} (h : table.Voices other)
    (hne : other ≠ name) (isContinuous : Bool) :
    (table.addNote name isContinuous).Voices other := by
  rw [Voices, Table.addNote, find?_add_other _ _ hne]
  exact h

end Table

namespace Node

open Traversal

/-- The name of a sound, if an element is a symbol. -/
def name? : Node → Option String
  | symbol s => some s.content
  | _ => none

/-- The names in a tree, in the order of the text. -/
def names (n : Node) : List String := n.walk.filterMap name?

mutual
/-- How long the sound of an element lasts, in the unit of its durations. -/
def sounding : Node → Rat
  | symbol s => s.duration.getD 0
  | held _ h => h.duration.getD 0
  | group content .. => soundingSum content
  | simul content _ => soundingFirst content
  | hold _ | sequence _ | foreign _ => 0

/-- How long the sounds of elements last together. -/
def soundingSum : List Node → Rat
  | [] => 0
  | n :: ns => sounding n + soundingSum ns

/-- How long the sound of the first of several elements lasts. -/
def soundingFirst : List Node → Rat
  | [] => 0
  | n :: _ => sounding n
end

mutual
/-- What the composites that set the pace of an element last longer than their elements: a group
longer than all of them together, a simul longer than the first. -/
def slack : Node → Rat
  | group content _ duration => duration.getD 0 - (content.map extent).sum + slackSum content
  | simul content duration => duration.getD 0 - (content.map extent).headD 0 + slackFirst content
  | symbol _ | hold _ | sequence _ | held .. | foreign _ => 0

/-- The slack of elements together. -/
def slackSum : List Node → Rat
  | [] => 0
  | n :: ns => slack n + slackSum ns

/-- The slack of the first of several elements. -/
def slackFirst : List Node → Rat
  | [] => 0
  | n :: _ => slack n
end

theorem soundingSum_eq_sum (ns : List Node) : soundingSum ns = (ns.map sounding).sum := by
  induction ns with
  | nil => rfl
  | cons n ns ih => rw [soundingSum, ih, List.map_cons, List.sum_cons]

variable {tree : Node}

/-- The names in a child are names in the element. -/
theorem mem_names_of_child {c : Node} {name : String} (hc : c ∈ tree.children)
    (h : name ∈ c.names) : name ∈ tree.names := by
  obtain ⟨m, hm, hname⟩ := List.mem_filterMap.1 h
  refine List.mem_filterMap.2 ⟨m, ?_, hname⟩
  rw [walk_eq_cons]
  exact List.mem_cons_of_mem _ (List.mem_flatMap.2 ⟨c, hc, hm⟩)

/-! ## Slack -/

/-- The sound of a gathered tree lasts as long as the tree, less the slack in it. -/
theorem sounding_add_slack (h : tree.Every Gathered) :
    tree.sounding + tree.slack = tree.extent := by
  induction tree with
  | symbol | held => exact add_zero _
  | hold | sequence | foreign => exact h.self.elim
  | group content isExplicit duration ih =>
    have hsum {ns : List Node} (hns : ∀ n ∈ ns, n.sounding + n.slack = n.extent) :
        soundingSum ns + slackSum ns = (ns.map extent).sum := by
      induction ns with
      | nil => exact add_zero 0
      | cons n ns ih =>
        obtain ⟨hn, hns⟩ := List.forall_mem_cons.1 hns
        rw [soundingSum, slackSum, List.map_cons, List.sum_cons, ← hn, ← ih hns,
          add_add_add_comm]
    rw [sounding, slack, ← hsum fun c hc => ih c hc (h.child hc), add_left_comm,
      sub_add_cancel]
    rfl
  | simul content duration ih =>
    cases content with
    | nil => simp [sounding, soundingFirst, slack, slackFirst, extent, Node.duration?]
    | cons first rest =>
      have hfirst := ih first (List.mem_cons_self ..) (h.child (List.mem_cons_self ..))
      rw [sounding, soundingFirst, slack, slackFirst, List.map_cons, List.headD_cons, ← hfirst,
        add_left_comm, sub_add_cancel]
      rfl

/-- A balanced tree has no slack. -/
theorem slack_eq_zero (h : tree.Every Balanced) : tree.slack = 0 := by
  induction tree with
  | symbol | hold | sequence | held | foreign => rfl
  | group content isExplicit duration ih =>
    have hsum {ns : List Node} (hns : ∀ n ∈ ns, n.slack = 0) : slackSum ns = 0 := by
      induction ns with
      | nil => rfl
      | cons n ns ih =>
        obtain ⟨hn, hns⟩ := List.forall_mem_cons.1 hns
        rw [slackSum, hn, ih hns, add_zero]
    obtain ⟨rfl, hcontent⟩ := every_group.1 h
    rw [slack, hsum fun c hc => ih c hc (hcontent c hc), Option.getD_some, sub_self, add_zero]
  | simul content duration ih =>
    obtain ⟨⟨hnil, hparts⟩, hcontent⟩ := every_simul.1 h
    cases content with
    | nil => simp [hnil rfl, slack, slackFirst]
    | cons first rest =>
      have hfirst : first.extent = duration.getD 0 := by
        rw [extent, hparts first (List.mem_cons_self ..)]
      rw [slack, slackFirst, List.map_cons, List.headD_cons, hfirst, sub_self,
        ih first (List.mem_cons_self ..) (hcontent first (List.mem_cons_self ..)), add_zero]

/-! ## Realizing -/

variable {measure : Rat → Except Fault Quantity} {table : Table} {u : Rat}

/-- A name that a table voices is resolved to silence or to a note, of any exact duration. -/
theorem resolve_of_voices {name : String} (h : table.Voices name) :
    name = restName ∧ (∀ x, table.resolve name (.ratio x) = .ok (.pause (.ratio x))) ∨
      name ≠ restName ∧ ∃ isContinuous, ∀ x,
        table.resolve name (.ratio x) = .ok (.note name (.ratio x) none isContinuous) := by
  rw [Table.Voices] at h
  split at h
  · next hrest => exact .inl ⟨hrest, fun x => by rw [Table.resolve, h]; rfl⟩
  · next hrest =>
    obtain ⟨isContinuous, h⟩ := h
    exact .inr ⟨hrest, isContinuous, fun x => by rw [Table.resolve, h]; rfl⟩

/-- The sound of a symbol is what its name is resolved to, with the pitch of the symbol. -/
theorem realizeSymbol_of_resolve {s : Symbol} {d : Rat} {sound : Sound}
    (hmeasure : ∀ d, measure d = .ok (.ratio (d * u))) (hd : s.duration = some d)
    (h : table.resolve s.content (.ratio (d * u)) = .ok sound) :
    realizeSymbol measure table.resolve s =
      .ok (s.pitch.elim sound fun pitch => sound.withPitch (some pitch)) := by
  refine bind_eq_ok.2 ⟨d, by rw [hd]; rfl, bind_eq_ok.2 ⟨_, hmeasure d, ?_⟩⟩
  rw [h]
  cases s.pitch <;> rfl

/-- The sound of a symbol that a table voices is silence for the rest and otherwise a note of its
name and pitch. -/
theorem realizeSymbol_of_voices {s : Symbol} {d : Rat}
    (hmeasure : ∀ d, measure d = .ok (.ratio (d * u))) (hs : table.Voices s.content)
    (hd : s.duration = some d) :
    s.content = restName ∧
        realizeSymbol measure table.resolve s = .ok (.pause (.ratio (d * u))) ∨
      s.content ≠ restName ∧ ∃ isContinuous, realizeSymbol measure table.resolve s =
        .ok (.note s.content (.ratio (d * u)) s.pitch isContinuous) := by
  rcases resolve_of_voices hs with ⟨hrest, h⟩ | ⟨hrest, isContinuous, h⟩
  · refine .inl ⟨hrest, (realizeSymbol_of_resolve hmeasure hd (h _)).trans ?_⟩
    cases s.pitch <;> rfl
  · refine .inr ⟨hrest, isContinuous, (realizeSymbol_of_resolve hmeasure hd (h _)).trans ?_⟩
    cases s.pitch <;> rfl

/-- The sounds of elements, if each has an exact sound that lasts as long as the element sounds. -/
theorem realizeEach_exact {ns : List Node}
    (h : ∀ n ∈ ns, ∃ sound, n.realizeWith measure table.resolve = .ok sound ∧ sound.IsExact ∧
      sound.duration.rational? = some (n.sounding * u)) :
    ∃ sounds, realizeEach measure table.resolve ns = .ok sounds ∧ (∀ s ∈ sounds, s.IsExact) ∧
      sounds.map (fun s => s.duration.rational?) = (ns.map (sounding · * u)).map some := by
  induction ns with
  | nil => exact ⟨[], rfl, nofun, rfl⟩
  | cons n ns ih =>
    obtain ⟨⟨sound, hsound, hexact, hduration⟩, hns⟩ := List.forall_mem_cons.1 h
    obtain ⟨sounds, hsounds, hexacts, hdurations⟩ := ih hns
    refine ⟨sound :: sounds, bind_eq_ok.2 ⟨_, hsound, bind_eq_ok.2 ⟨_, hsounds, rfl⟩⟩,
      List.forall_mem_cons.2 ⟨hexact, hexacts⟩, ?_⟩
    rw [List.map_cons, hduration, hdurations, List.map_cons, List.map_cons]

/-- A gathered tree whose symbols a table voices can be realized; its sound is exact and lasts as
long as the tree sounds. -/
theorem realizeWith_exact (hmeasure : ∀ d, measure d = .ok (.ratio (d * u)))
    (h : tree.Every Gathered) (hvoices : ∀ name ∈ tree.names, table.Voices name) :
    ∃ sound, tree.realizeWith measure table.resolve = .ok sound ∧ sound.IsExact ∧
      sound.duration.rational? = some (tree.sounding * u) := by
  induction tree with
  | symbol s =>
    obtain ⟨d, hd⟩ := every_symbol.1 h
    have hsounding : (symbol s).sounding = d := by rw [sounding, hd, Option.getD_some]
    rw [hsounding]
    rcases realizeSymbol_of_voices hmeasure (hvoices s.content (.head _)) hd with
      ⟨-, hsound⟩ | ⟨-, isContinuous, hsound⟩
    · exact ⟨_, hsound, .pause rfl, rfl⟩
    · exact ⟨_, hsound, .note _ _ _ rfl, rfl⟩
  | hold | sequence | foreign => exact h.self.elim
  | group content isExplicit duration ih =>
    obtain ⟨sounds, hsounds, hexact, hdurations⟩ :=
      realizeEach_exact fun c hc => ih c hc (h.child hc) fun name hname =>
        hvoices name (mem_names_of_child hc hname)
    obtain ⟨d, hd, hvalue⟩ := Sound.arrange_inTurn_exact hdurations
    refine ⟨_, bind_eq_ok.2 ⟨_, hsounds, hd⟩, .container (by decide) hexact hvalue, ?_⟩
    rw [Sound.duration, hvalue, List.sum_map_mul_right, sounding, soundingSum_eq_sum]
  | simul content duration ih =>
    obtain ⟨sounds, hsounds, hexact, hdurations⟩ :=
      realizeEach_exact fun c hc => ih c hc (h.child hc) fun name hname =>
        hvoices name (mem_names_of_child hc hname)
    obtain ⟨d, hd, hvalue⟩ := Sound.arrange_together_exact hdurations
    refine ⟨_, bind_eq_ok.2 ⟨_, hsounds, hd⟩, .container (by decide) hexact hvalue, ?_⟩
    rw [Sound.duration, hvalue, sounding]
    cases content with
    | nil => rw [soundingFirst, zero_mul]; rfl
    | cons => rfl
  | held content s ih =>
    obtain ⟨sound, hsound, hexact, -⟩ := ih (every_held.1 h).2 fun name hname =>
      hvoices name (mem_names_of_child (List.mem_singleton_self _) hname)
    obtain ⟨first, rest, -, hslots, hd⟩ := (every_held.1 h).1
    have hmeasured : (first :: rest).mapM measure =
        .ok (((first :: rest).map (· * u)).map .ratio) := by
      rw [List.map_map]
      exact mapM_of_forall fun d _ => hmeasure d
    obtain ⟨filled, hfilled, hexact, hduration⟩ :=
      Sound.fill_exact hexact ((first :: rest).map (· * u))
    refine ⟨filled, bind_eq_ok.2 ⟨_, hsound, bind_eq_ok.2 ⟨first :: rest, ?_, bind_eq_ok.2
      ⟨_, hmeasured, hfilled⟩⟩⟩, hexact, ?_⟩
    · rw [hslots]
      rfl
    · rw [hduration, List.sum_map_mul_right, List.map_id', sounding, hd, Option.getD_some]

/-- The sound that such a tree is realized to lasts as long as the tree sounds. -/
theorem duration_of_realizeWith (hmeasure : ∀ d, measure d = .ok (.ratio (d * u)))
    (h : tree.Every Gathered) (hvoices : ∀ name ∈ tree.names, table.Voices name) {sound : Sound}
    (hsound : tree.realizeWith measure table.resolve = .ok sound) :
    sound.duration.rational? = some (tree.sounding * u) := by
  obtain ⟨sound', hsound', -, hduration⟩ := realizeWith_exact hmeasure h hvoices
  cases hsound.symm.trans hsound'
  exact hduration

/-- Durations are multiplied by a unit, and are ratios then. -/
def measuredBy (unit : Rat) (d : Rat) : Except Fault Quantity := .ok (.ratio (d * unit))

/-- Measuring durations by an exact unit yields ratios. -/
theorem measure_exact {unit : Quantity} (h : unit.rational? = some u) (d : Rat) :
    (Quantity.ratio d).mul unit = .ok (.ratio (d * u)) :=
  Quantity.ratio_mul_exact d h

/-- What is parsed was annotated from a tree of notation. -/
theorem exists_of_parse {text : String} (h : parse text = .ok tree) :
    ∃ tokens root, tokenize text = .ok tokens ∧ build tokens = .ok root ∧ root.Written ∧
      root.annotate = .ok tree := by
  obtain ⟨tokens, htokens, h⟩ := bind_eq_ok.1 h
  obtain ⟨root, hroot, h⟩ := bind_eq_ok.1 h
  exact ⟨tokens, root, htokens, hroot, written_of_build hroot, h⟩

end Node

open Node

/-- A text that is parsed, whose names a table voices, has a sound; it lasts as long as the tree,
less the slack in it. So it lasts as long as the tree exactly if there is no slack, or no unit of
time; and there is no slack if nothing had to be stretched that lasts no time, and no hold stood
directly in a simul. -/
theorem duration_of_parse {text : String} {tree : Node} {table : Table} {unit : Quantity} {u : Rat}
    (h : parse text = .ok tree) (hvoices : ∀ name ∈ tree.names, table.Voices name)
    (hunit : unit.rational? = some u) :
    ∃ sound d, tree.realize table.resolve unit = .ok sound ∧ tree.duration? = some d ∧
      sound.duration.rational? = some ((d - tree.slack) * u) ∧
      (sound.duration.rational? = some (d * u) ↔ tree.slack = 0 ∨ u = 0) ∧
      ∀ tokens root, tokenize text = .ok tokens → build tokens = .ok root →
        root.Every Stretchable → root.Every HoldsApart → tree.slack = 0 := by
  obtain ⟨tokens, root, htokens, hroot, hwritten, htree⟩ := exists_of_parse h
  have hgathered := gathered_of_annotate hwritten htree
  obtain ⟨sound, hsound, -, hduration⟩ :=
    realizeWith_exact (measure_exact hunit) hgathered hvoices
  have hsounding : tree.sounding = tree.extent - tree.slack :=
    eq_sub_of_add_eq (sounding_add_slack hgathered)
  rw [hsounding] at hduration
  refine ⟨sound, tree.extent, hsound, hgathered.self.duration?, hduration, ?_, ?_⟩
  · rw [hduration, Option.some.injEq, sub_mul, sub_eq_self, mul_eq_zero]
  · intro tokens' root' htokens' hroot' hstretch hholds
    cases htokens.symm.trans htokens'
    cases hroot.symm.trans hroot'
    exact slack_eq_zero (balanced_of_annotate hwritten hstretch hholds htree)

/-- A held note and another one fitted to it, in half the unit of time. -/
theorem duration_of_parse_held :
    ∃ tree sound, parse "a _ . b" = .ok tree ∧
      tree.realize ((Table.initial.addNote "a" false).addNote "b" true).resolve (.ratio (1 / 2)) =
        .ok sound ∧
      tree.duration? = some 4 ∧ sound.duration.rational? = some 2 := by
  have hnames : (parse "a _ . b").toOption.map
      (fun tree => (tree.names, tree.slack, tree.duration?)) =
        some (["a", "b"], 0, some 4) := by decide +kernel
  cases htree : parse "a _ . b" with
  | error fault => rw [htree] at hnames; cases hnames
  | ok tree =>
    rw [htree] at hnames
    obtain ⟨hnames, hslack, hextent⟩ : tree.names = ["a", "b"] ∧ tree.slack = 0 ∧
        tree.duration? = some 4 := by
      simpa [Except.toOption] using hnames
    have hvoices : ∀ name ∈ tree.names,
        ((Table.initial.addNote "a" false).addNote "b" true).Voices name := by
      rw [hnames]
      refine List.forall_mem_cons.2 ⟨?_, List.forall_mem_singleton.2 ?_⟩
      · exact (Table.voices_addNote (by decide) _ _).addNote (by decide) _
      · exact Table.voices_addNote (by decide) _ _
    have hunit : (Quantity.ratio (1 / 2)).rational? = some (1 / 2) := rfl
    obtain ⟨sound, d, hsound, hd, hduration, -, -⟩ := duration_of_parse htree hvoices hunit
    cases hextent.symm.trans hd
    refine ⟨tree, sound, rfl, hsound, hextent, hduration.trans ?_⟩
    rw [hslack]
    exact congrArg some (by decide +kernel)

/-- An empty block between periods is as long as the first segment, but its silence lasts no time.
-/
theorem duration_of_parse_fails :
    ∃ tree sound, parse "a . \x7b\x7d . b" = .ok tree ∧
      tree.realize ((Table.initial.addNote "a" false).addNote "b" false).resolve (.whole 1) =
        .ok sound ∧
      tree.duration? = some 3 ∧ sound.duration.rational? = some 2 := by
  have hrun : ((parse "a . \x7b\x7d . b").toOption.bind fun tree =>
      (tree.realize ((Table.initial.addNote "a" false).addNote "b" false).resolve
        (.whole 1)).toOption.map fun sound => (tree.duration?, sound.duration.rational?)) =
      some (some 3, some 2) := by decide +kernel
  cases htree : parse "a . \x7b\x7d . b" with
  | error fault => rw [htree] at hrun; cases hrun
  | ok tree =>
    rw [htree] at hrun
    cases hsound : tree.realize ((Table.initial.addNote "a" false).addNote "b" false).resolve
        (.whole 1) with
    | error fault =>
      simp [Except.toOption, hsound] at hrun
    | ok sound =>
      simp only [Except.toOption, hsound, Option.bind_some, Option.map_some, Option.some.injEq,
        Prod.mk.injEq] at hrun
      exact ⟨tree, sound, rfl, hsound, hrun⟩

end Polyrhythm
