import Mathlib.Data.List.Forall2
import Polyrhythm.Proofs.Grammar.LeadingMarker
import Polyrhythm.Proofs.Grammar.Numeral
import Polyrhythm.Proofs.Sound.Duration
import Polyrhythm.Proofs.Timing.Lengths

/-!
# Where notes are played

The sound of a timed tree starts every element when the one before it has sounded, whatever the
durations of composites say (`Node.played`). The sound of a tree without holds has the events of the
notes that are played so (`Node.events_of_realizeWith`). If such a tree was laid out and no
composite is empty, the leaves are played where the top-down reading places them
(`Node.played_laid`), so that the events of a text without holds can be read off the tree that is
built.
-/

namespace Polyrhythm

namespace Node

open Traversal

mutual
/-- The leaves of a timed tree in which nothing is held, as its sound plays them from an onset on.
-/
def played (onset : Rat) : Node → List Placed
  | symbol s => [⟨symbol s, onset, s.duration.getD 0⟩]
  | group content .. => playedInTurn onset content
  | simul content _ => playedTogether onset content
  | hold _ | sequence _ | held .. | foreign _ => []

/-- The leaves of elements that are played one after another. -/
def playedInTurn (onset : Rat) : List Node → List Placed
  | [] => []
  | n :: ns => played onset n ++ playedInTurn (onset + sounding n) ns

/-- The leaves of elements that are played together. -/
def playedTogether (onset : Rat) : List Node → List Placed
  | [] => []
  | n :: ns => played onset n ++ playedTogether onset ns
end

/-- The pitch of a symbol. -/
def pitch? : Node → Option Quantity
  | symbol s => s.pitch
  | _ => none

namespace Placed

/-- Whether a leaf in time is anything but a rest. -/
def isNote (p : Placed) : Bool := !p.leaf.isSymbol restName

/-- A leaf in time as settling leaves it. -/
def settled (p : Placed) : Placed := { p with leaf := settledLeaf p.leaf p.length }

/-- An event is what is heard of a leaf in time, measured in a unit of time. -/
structure HeardAs (u : Rat) (p : Placed) (e : Event) : Prop where
  time : e.time.rational? = some (p.onset * u)
  duration : e.duration.rational? = some (p.length * u)
  name : p.leaf.name? = some e.name
  pitch : p.leaf.pitch? = e.pitch

end Placed

variable {n tree : Node} {measure : Rat → Except Fault Quantity} {table : Table} {u : Rat}

/-! ## From sounds to events -/

/-- The events of elements in turn or together are heard of the leaves that are played so, if that
is so for each element and its sound. -/
theorem events_of_realizeEach {ns : List Node} {sounds : List Sound}
    (hsounds : realizeEach measure table.resolve ns = .ok sounds)
    (hns : ∀ n ∈ ns, ∀ sound, n.realizeWith measure table.resolve = .ok sound →
      sound.duration.rational? = some (n.sounding * u) ∧
        ∀ start t, start.rational? = some (t * u) → ∃ events, sound.events start = .ok events ∧
          List.Forall₂ (Placed.HeardAs u) ((n.played t).filter Placed.isNote) events)
    {start : Quantity} {t : Rat} (hstart : start.rational? = some (t * u)) :
    (∃ events, Sound.eventsInTurn start sounds = .ok events ∧
        List.Forall₂ (Placed.HeardAs u) ((playedInTurn t ns).filter Placed.isNote) events) ∧
      ∃ events, Sound.eventsTogether start sounds = .ok events ∧
        List.Forall₂ (Placed.HeardAs u) ((playedTogether t ns).filter Placed.isNote) events := by
  induction ns generalizing sounds start t with
  | nil =>
    cases hsounds
    exact ⟨⟨[], rfl, .nil⟩, ⟨[], rfl, .nil⟩⟩
  | cons n ns ih =>
    obtain ⟨hn, hns⟩ := List.forall_mem_cons.1 hns
    obtain ⟨sound, hsound, hrest⟩ := bind_eq_ok.1 hsounds
    obtain ⟨sounds, hlast, hcons⟩ := bind_eq_ok.1 hrest
    cases hcons
    obtain ⟨hduration, hevents⟩ := hn sound hsound
    obtain ⟨first, hfirst, hheard⟩ := hevents start t hstart
    obtain ⟨next, hnext, hvalue⟩ := Quantity.add_exact hstart hduration
    rw [← add_mul] at hvalue
    obtain ⟨⟨later, hlater, hheards⟩, -⟩ := ih hlast hns hvalue
    obtain ⟨-, others, hothers, hheards'⟩ := ih hlast hns hstart
    rw [playedInTurn, playedTogether, List.filter_append, List.filter_append]
    refine ⟨⟨first ++ later, ?_, List.rel_append hheard hheards⟩,
      ⟨first ++ others, ?_, List.rel_append hheard hheards'⟩⟩
    · exact bind_eq_ok.2 ⟨first, hfirst, bind_eq_ok.2 ⟨next, hnext, bind_eq_ok.2
        ⟨later, hlater, rfl⟩⟩⟩
    · exact bind_eq_ok.2 ⟨first, hfirst, bind_eq_ok.2 ⟨others, hothers, rfl⟩⟩

/-- The sound of a gathered tree in which nothing is held has an event for every note in it, where
the note is played. -/
theorem events_of_realizeWith (hmeasure : ∀ d, measure d = .ok (.ratio (d * u)))
    (h : tree.Every Gathered) (hheld : tree.Every fun n => n.isHeld = false)
    (hvoices : ∀ name ∈ tree.names, table.Voices name) {sound : Sound}
    (hsound : tree.realizeWith measure table.resolve = .ok sound) {start : Quantity} {t : Rat}
    (hstart : start.rational? = some (t * u)) :
    ∃ events, sound.events start = .ok events ∧
      List.Forall₂ (Placed.HeardAs u) ((tree.played t).filter Placed.isNote) events := by
  induction tree generalizing sound start t with
  | symbol s =>
    obtain ⟨d, hd⟩ := every_symbol.1 h
    rcases realizeSymbol_of_voices hmeasure (hvoices s.content (.head _)) hd with
      ⟨hrest, hsymbol⟩ | ⟨hrest, isContinuous, hsymbol⟩
    · cases hsound.symm.trans hsymbol
      refine ⟨[], rfl, ?_⟩
      simp [played, Placed.isNote, isSymbol, hrest]
    · cases hsound.symm.trans hsymbol
      refine ⟨_, rfl, ?_⟩
      have hnote : ((symbol s).played t).filter Placed.isNote = [⟨symbol s, t, d⟩] := by
        simp [played, Placed.isNote, isSymbol, hrest, hd]
      rw [hnote]
      exact .cons ⟨hstart, rfl, rfl, rfl⟩ .nil
  | hold | sequence | foreign => exact h.self.elim
  | held => cases hheld.self
  | group content isExplicit duration ih =>
    obtain ⟨sounds, hsounds, harrange⟩ := bind_eq_ok.1 hsound
    obtain ⟨d, -, hcontainer⟩ := bind_eq_ok.1 harrange
    cases hcontainer
    refine (events_of_realizeEach hsounds ?_ hstart).1
    intro c hc sound hsound
    have hvoices' : ∀ name ∈ c.names, table.Voices name :=
      fun name hname => hvoices name (mem_names_of_child hc hname)
    have hduration := duration_of_realizeWith hmeasure (h.child hc) hvoices' hsound
    refine ⟨hduration, ?_⟩
    intro start t hstart
    exact ih c hc (h.child hc) (hheld.child hc) hvoices' hsound hstart
  | simul content duration ih =>
    obtain ⟨sounds, hsounds, harrange⟩ := bind_eq_ok.1 hsound
    obtain ⟨d, -, hcontainer⟩ := bind_eq_ok.1 harrange
    cases hcontainer
    refine (events_of_realizeEach hsounds ?_ hstart).2
    intro c hc sound hsound
    have hvoices' : ∀ name ∈ c.names, table.Voices name :=
      fun name hname => hvoices name (mem_names_of_child hc hname)
    have hduration := duration_of_realizeWith hmeasure (h.child hc) hvoices' hsound
    refine ⟨hduration, ?_⟩
    intro start t hstart
    exact ih c hc (h.child hc) (hheld.child hc) hvoices' hsound hstart

/-! ## From laid out trees to places -/

/-- However elements are placed, their leaves come in the order of the text, if that is so for each
of them. -/
theorem map_leaf_placeEach {ns : List Node}
    (h : ∀ n ∈ ns, ∀ onset length, (n.place onset length).map Placed.leaf = n.leaves)
    (onset length factor : Rat) :
    (placeInTurn onset factor ns).map Placed.leaf = ns.flatMap leaves ∧
      (placeTogether onset length ns).map Placed.leaf = ns.flatMap leaves ∧
      (placeEvenly onset length ns).map Placed.leaf = ns.flatMap leaves := by
  induction ns generalizing onset with
  | nil => exact ⟨rfl, rfl, rfl⟩
  | cons n ns ih =>
    obtain ⟨hn, hns⟩ := List.forall_mem_cons.1 h
    refine ⟨?_, ?_, ?_⟩
    · rw [placeInTurn, List.map_append, hn, (ih hns _).1, List.flatMap_cons]
    · rw [placeTogether, List.map_append, hn, (ih hns _).2.1, List.flatMap_cons]
    · rw [placeEvenly, List.map_append, hn, (ih hns _).2.2, List.flatMap_cons]

/-- The leaves of a tree of notation are placed in the order of the text. -/
theorem map_leaf_place (h : n.Written) (onset length : Rat) :
    (n.place onset length).map Placed.leaf = n.leaves := by
  induction n generalizing onset length with
  | symbol | hold => rfl
  | group content isExplicit duration ih =>
    rw [place, leaves_group]
    exact (map_leaf_placeEach (fun c hc => ih c hc (h.child hc)) onset length _).1
  | simul content duration ih =>
    rw [place, leaves_simul]
    exact (map_leaf_placeEach (fun c hc => ih c hc (h.child hc)) onset length 1).2.1
  | sequence content ih =>
    rw [place, leaves_sequence]
    exact (map_leaf_placeEach (fun c hc => ih c hc (h.child hc)) onset _ 1).2.2
  | held => exact absurd h not_written_held
  | foreign => exact absurd h not_written_foreign

/-- Leaves that are played one after another, in two parts. -/
theorem playedInTurn_append (onset : Rat) (ns ms : List Node) :
    playedInTurn onset (ns ++ ms) =
      playedInTurn onset ns ++ playedInTurn (onset + soundingSum ns) ms := by
  induction ns generalizing onset with
  | nil => rw [soundingSum, add_zero]; rfl
  | cons n ns ih =>
    rw [List.cons_append, playedInTurn, ih, playedInTurn, List.append_assoc, soundingSum, add_assoc]

/-- Splicing changes nothing about when leaves are played. -/
theorem playedInTurn_splice (onset : Rat) (ns : List Node) :
    playedInTurn onset (splice ns) = playedInTurn onset ns := by
  induction ns generalizing onset with
  | nil => rfl
  | cons n ns ih =>
    have hone : playedInTurn onset (splice [n]) = n.played onset ∧
        soundingSum (splice [n]) = n.sounding := by
      cases n with
      | group content isExplicit duration =>
        cases isExplicit <;> simp [splice, played, sounding, playedInTurn, soundingSum]
      | _ => simp [splice, playedInTurn, soundingSum]
    rw [splice_cons, playedInTurn_append, hone.1, hone.2, ih, playedInTurn]

/-- A tree without holds and empty composites that is laid out sounds as long as it lasts. -/
theorem sounding_laid (h : n.Written) (hcontent : n.Every HasContent)
    (hholds : n.Every fun n => n.isHold = false) (factor : Rat) :
    (n.laid factor).sounding = factor * n.natural := by
  have hsettled := settled_laid h factor
  have hlaid := holdless_laid h hholds factor
  have hgathered : (n.laid factor).Every Gathered := gatherable_gathered.every hsettled hlaid.self
    hsettled (gatherInside_of_holdless hsettled hlaid)
  have hbalanced := balanced_laid h (stretchable_of_hasContent h hcontent) factor
  rw [← extent_laid h, ← sounding_add_slack hgathered, slack_eq_zero hbalanced, add_zero]

/-- An element that is given a common duration sounds for it, and is played where it is placed for
that long, if it is played where it is placed when it is laid out. -/
theorem played_laidAs (h : n.Written) (hcontent : n.Every HasContent)
    (hholds : n.Every fun n => n.isHold = false)
    (hplayed : ∀ onset factor, (n.laid factor).played onset =
      (n.place onset (factor * n.natural)).map Placed.settled) (common factor : Rat) :
    (n.laidAs common factor).sounding = factor * common ∧
      ∀ onset, (n.laidAs common factor).played onset =
        (n.place onset (factor * common)).map Placed.settled := by
  have hnatural := (natural_pos h hcontent).ne'
  have hfactor : factor * (common / n.natural) * n.natural = factor * common := by
    rw [mul_assoc, div_mul_cancel₀ _ hnatural]
  rw [laidAs_eq_laid h fun hzero => absurd hzero hnatural]
  refine ⟨?_, ?_⟩
  · rw [sounding_laid h hcontent hholds, hfactor]
  · intro onset
    rw [hplayed, hfactor]

/-- Elements that sound for their natural durations times a factor are played in turn as they are
placed in turn, if that is so for each of them. -/
theorem playedInTurn_map {ns : List Node} {f : Node → Node} {factor : Rat}
    (h : ∀ n ∈ ns, (f n).sounding = factor * n.natural ∧
      ∀ onset, (f n).played onset = (n.place onset (factor * n.natural)).map Placed.settled)
    (onset : Rat) :
    playedInTurn onset (ns.map f) = (placeInTurn onset factor ns).map Placed.settled := by
  induction ns generalizing onset with
  | nil => rfl
  | cons n ns ih =>
    obtain ⟨⟨hsounding, hplayed⟩, hns⟩ := List.forall_mem_cons.1 h
    rw [List.map_cons, playedInTurn, hplayed, hsounding, ih hns, placeInTurn, List.map_append]

/-- Elements that all sound for a length are played in turn as they are placed evenly, and together
as they are placed together, if that is so for each of them. -/
theorem played_map_evenly {ns : List Node} {f : Node → Node} {length : Rat}
    (h : ∀ n ∈ ns, (f n).sounding = length ∧
      ∀ onset, (f n).played onset = (n.place onset length).map Placed.settled) (onset : Rat) :
    playedInTurn onset (ns.map f) = (placeEvenly onset length ns).map Placed.settled ∧
      playedTogether onset (ns.map f) = (placeTogether onset length ns).map Placed.settled := by
  induction ns generalizing onset with
  | nil => exact ⟨rfl, rfl⟩
  | cons n ns ih =>
    obtain ⟨⟨hsounding, hplayed⟩, hns⟩ := List.forall_mem_cons.1 h
    refine ⟨?_, ?_⟩
    · rw [List.map_cons, playedInTurn, hplayed, hsounding, (ih hns _).1, placeEvenly,
        List.map_append]
    · rw [List.map_cons, playedTogether, hplayed, (ih hns _).2, placeTogether, List.map_append]

/-- The leaves of a tree that is laid out are played where the top-down reading places them. -/
theorem played_laid (h : n.Written) (hcontent : n.Every HasContent)
    (hholds : n.Every fun n => n.isHold = false) (onset factor : Rat) :
    (n.laid factor).played onset =
      (n.place onset (factor * n.natural)).map Placed.settled := by
  induction n generalizing onset factor with
  | symbol s => rfl
  | hold => cases hholds.self
  | group content isExplicit duration ih =>
    have hnatural := natural_pos h hcontent
    rw [natural] at hnatural
    rw [laid, laidEach_eq_map, played, place, natural, mul_div_cancel_right₀ _ hnatural.ne']
    refine playedInTurn_map ?_ onset
    intro c hc
    exact ⟨sounding_laid (h.child hc) (hcontent.child hc) (hholds.child hc) factor,
      fun onset => ih c hc (h.child hc) (hcontent.child hc) (hholds.child hc) onset factor⟩
  | simul content duration ih =>
    rw [laid, laidTo_eq_map, played, place, natural]
    refine (played_map_evenly ?_ onset).2
    intro c hc
    exact played_laidAs (h.child hc) (hcontent.child hc) (hholds.child hc)
      (ih c hc (h.child hc) (hcontent.child hc) (hholds.child hc)) _ factor
  | sequence content ih =>
    have hlength : (content.length : Rat) ≠ 0 :=
      Nat.cast_ne_zero.2 (mt List.length_eq_zero_iff.1 (hcontent.self rfl))
    have hsegment : factor * (content.length * naturalFirst content) / content.length =
        factor * naturalFirst content := by
      rw [mul_left_comm, mul_div_cancel_left₀ _ hlength]
    rw [laid, laidTo_eq_map, played, playedInTurn_splice, place, natural, hsegment]
    refine (played_map_evenly ?_ onset).1
    intro c hc
    exact played_laidAs (h.child hc) (hcontent.child hc) (hholds.child hc)
      (ih c hc (h.child hc) (hcontent.child hc) (hholds.child hc)) _ factor
  | held => exact absurd h not_written_held
  | foreign => exact absurd h not_written_foreign

end Node

open Node

/-- What a text without holds sounds like, read off the tree that is built. If no composite of that
tree is empty, it can be timed, and for every table that voices the names in it the timed tree has a
sound whose events are those of the leaves that are no rests: each leaf in the order of the text
sounds where the top-down reading of the tree places it. The timed tree is what annotating yields,
unless a number in it has too many digits to be written. -/
theorem events_of_build {tokens : List Token} {root : Node} (h : build tokens = .ok root)
    (htokens : ∀ t ∈ tokens, t.content ≠ "_") (hcontent : root.Every HasContent) :
    (root.place 0 root.natural).map Placed.leaf = root.leaves ∧
      ∃ tree, root.timed = .ok tree ∧
        root.annotate = (if tree.isWritable then .ok tree else .error .unwritableNumber) ∧
        ∀ (table : Table) (unit : Quantity) (u : Rat),
          (∀ name ∈ tree.names, table.Voices name) → unit.rational? = some u →
            ∃ sound events, tree.realize table.resolve unit = .ok sound ∧
              sound.events (.whole 0) = .ok events ∧
              List.Forall₂ (Placed.HeardAs u)
                (((root.place 0 root.natural).map Placed.settled).filter Placed.isNote) events := by
  have hwritten := written_of_build h
  have hholds := isHold_of_build htokens h
  have htree := timed_of_holdless hwritten hholds
  have hannotate : root.annotate = (root.laid 1).writable := by
    rw [annotate_eq hwritten, htree]
    rfl
  refine ⟨map_leaf_place hwritten _ _, root.laid 1, htree, hannotate, ?_⟩
  intro table unit u hvoices hunit
  have hgathered := gathered_of_timed hwritten htree
  have hheld : (root.laid 1).Every fun n => n.isHeld = false :=
    (settled_laid hwritten 1).imp fun _ hm => hm.2
  have hmeasure := measure_exact hunit
  obtain ⟨sound, hsound, -, -⟩ := realizeWith_exact hmeasure hgathered hvoices
  have hstart : (Quantity.whole 0).rational? = some (0 * u) := by
    rw [zero_mul]
    rfl
  obtain ⟨events, hevents, hheard⟩ :=
    events_of_realizeWith hmeasure hgathered hheld hvoices hsound hstart
  rw [played_laid hwritten hcontent hholds, one_mul] at hheard
  exact ⟨sound, events, hsound, hevents, hheard⟩

/-- A note beside another one and a rest, in half the unit of time. -/
theorem events_of_build_beside :
    ∃ root tree sound events,
      build (["a", ",", "b", "-"].map (Token.mk · .start)) = .ok root ∧
        root.annotate = .ok tree ∧
        tree.realize ((Table.initial.addNote "a" false).addNote "b" true).resolve (.ratio (1 / 2)) =
          .ok sound ∧
        sound.events (.whole 0) = .ok events ∧
        List.Forall₂ (Placed.HeardAs (1 / 2))
          (((root.place 0 root.natural).map Placed.settled).filter Placed.isNote) events ∧
        (root.place 0 root.natural).map (fun p => (p.onset, p.length)) =
          [(0, 1), (0, 1 / 2), (1 / 2, 1 / 2)] := by
  obtain ⟨root, hroot, hcontent, hplaces, hnames⟩ :
      ∃ root, build (["a", ",", "b", "-"].map (Token.mk · .start)) = .ok root ∧
        root.Every HasContent ∧
        (root.place 0 root.natural).map (fun p => (p.onset, p.length)) =
          [(0, 1), (0, 1 / 2), (1 / 2, 1 / 2)] ∧
        root.annotate.toOption.map names = some ["a", "b", "-"] :=
    ⟨_, rfl, by decide +kernel, by decide +kernel, by decide +kernel⟩
  obtain ⟨-, tree, -, hannotate, hevents⟩ := events_of_build hroot (by decide) hcontent
  have htree : root.annotate = .ok tree := by
    cases hwritable : tree.isWritable with
    | true => rw [hannotate, if_pos hwritable]
    | false =>
      rw [hannotate, hwritable] at hnames
      cases hnames
  rw [htree] at hnames
  have hvoices : ∀ name ∈ tree.names,
      ((Table.initial.addNote "a" false).addNote "b" true).Voices name := by
    rw [Option.some.inj hnames]
    refine List.forall_mem_cons.2 ⟨?_, List.forall_mem_cons.2 ⟨?_, List.forall_mem_singleton.2 ?_⟩⟩
    · exact (Table.voices_addNote (by decide) _ _).addNote (by decide) _
    · exact Table.voices_addNote (by decide) _ _
    · exact (Table.voices_initial.addNote (by decide) _).addNote (by decide) _
  obtain ⟨sound, events, hsound, hlist, hheard⟩ :=
    hevents _ (.ratio (1 / 2)) (1 / 2) hvoices rfl
  exact ⟨root, tree, sound, events, hroot, htree, hsound, hlist, hheard, hplaces⟩

/-- A note that is sped up twice, by powers of ten that can be read: its duration has the digits of
both, and cannot be written. -/
theorem events_of_build_fails :
    ∃ root, build [.tenfold 2200, .tenfold 2200, ⟨"a", .start⟩] = .ok root ∧
      root.Every HasContent ∧ root.annotate = .error .unwritableNumber := by
  have hrefused := Marker.isRefused_tenfold (n := 2200) (by decide)
  have hrate := Marker.rate_pos (Marker.isVoid_tenfold 2200)
  obtain ⟨s, hs, htempo, hhold⟩ : ∃ s : Symbol, build [⟨"a", .start⟩] = .ok (symbol s) ∧
      s.tempo = 1 ∧ (symbol s).Every fun n => n.isHold = false := ⟨_, rfl, mul_one 1, by decide⟩
  have hwritten := written_of_build hs
  have hroot : build [.tenfold 2200, .tenfold 2200, ⟨"a", .start⟩] =
      .ok (((symbol s).scaleTempo (Marker.tenfold 2200).rate).scaleTempo
        (Marker.tenfold 2200).rate) := by
    rw [build_cons_marker (Token.marker?_tenfold _) hrefused,
      build_cons_marker (Token.marker?_tenfold _) hrefused, hs]
    rfl
  refine ⟨_, hroot, every_symbol.2 nofun, ?_⟩
  refine (annotate_eq_error (written_of_build hroot)).2 (.inr ⟨rfl,
    (((symbol s).laid 1).faster (Marker.tenfold 2200).rate).faster (Marker.tenfold 2200).rate,
    ?_, ?_⟩)
  · rw [timed_scaleTempo hrate (hwritten.scaleTempo hrate), timed_scaleTempo hrate hwritten,
      timed_of_holdless hwritten hhold]
    rfl
  · rw [isWritable_eq, Bool.and_eq_false_iff]
    refine .inl ?_
    have hduration : 1 * (1 / s.tempo) * (1 / (Marker.tenfold 2200).rate) *
        (1 / (Marker.tenfold 2200).rate) = 1 / 10 ^ 4400 := by
      rw [htempo, Marker.rate_tenfold, one_mul, div_one, one_mul, one_div_mul_one_div, ← pow_add]
    change ([1 * (1 / s.tempo) * (1 / (Marker.tenfold 2200).rate) *
        (1 / (Marker.tenfold 2200).rate)]).all Number.isWritableRatio = false
    rw [hduration, List.all_cons, Number.isWritableRatio_one_div (by decide), Bool.false_and]

end Polyrhythm
