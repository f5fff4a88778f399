import Polyrhythm.Proofs.Grammar.Numeral
import Polyrhythm.Proofs.Midi.Schedule
import Polyrhythm.Proofs.Sound.Duration
import Polyrhythm.Proofs.Sound.Lookup
import Polyrhythm.Proofs.Timing.Transcript

/-!
# Rendering a text

A text is rendered unless it has a name that the table does not know; then the first token with such
a name is reported, with its name and its position (`render_of_parse`). Symbols are looked up in the
order of the tree, which is that of the text, since the leaves of a tree transcribe the tokens
(`Node.unknown_eq_filterMap_leaves`, `forall₂_transcribes`). A table that was filled with notes, and
that any names were taken from, has exact prototypes only, so that nothing else can fail
(`Table.IsFilled.isExact`). The events are then stably sorted by their onsets
(`isStableSort_sortByTime`).
-/

namespace Polyrhythm

open Traversal

/-! ## Tables -/

namespace Table

variable {table : Table}

/-- A table that notes were added to, and names were taken from, in any order. -/
inductive IsFilled : Table → Prop
  | initial : IsFilled initial
  | addNote {table : Table} (name : String) (isContinuous : Bool) :
    IsFilled table → IsFilled (table.addNote name isContinuous)
  | remove {table : Table} (name : String) : IsFilled table → IsFilled (table.remove name)

/-- A name that is forgotten is not found. -/
theorem find?_remove_self (table : Table) (name : String) :
    (table.remove name).find? name = none := by
  rw [find?, remove, List.lookup_eq_none_iff]
  intro entry hentry
  have hne : entry.1 ≠ name := bne_iff_ne.1 (List.mem_filter.1 hentry).2
  exact bne_iff_ne.2 hne.symm

/-- Silence and notes of one unit are all that a filled table has. -/
theorem IsFilled.isExact (h : table.IsFilled) : table.IsExact := by
  intro name prototype hfind
  induction h with
  | initial =>
    rw [find?, Table.initial, List.lookup_cons] at hfind
    split at hfind
    · cases hfind
      exact .pause rfl
    · cases hfind
  | @addNote table added isContinuous _ ih =>
    by_cases hname : name = added
    · subst hname
      rw [Table.addNote, find?_add_self] at hfind
      cases hfind
      exact .note name none isContinuous rfl
    · rw [Table.addNote, find?_add_other _ _ hname] at hfind
      exact ih hfind
  | @remove table removed _ ih =>
    by_cases hname : name = removed
    · subst hname
      rw [find?_remove_self] at hfind
      cases hfind
    · rw [find?_remove_other _ hname] at hfind
      exact ih hfind

end Table

/-! ## Names of tokens -/

/-- The name in a token: what stands before the literal of a pitch, or all of the token if it has
none. -/
def Token.Names (t : Token) (name : String) : Prop :=
  (∃ literal, IsPitched t.content name literal) ∨
    name = t.content ∧ ∀ name literal, ¬IsPitched t.content name literal

/-- A token that is looked up, with a name that a table does not know. -/
def Token.IsUnknownTo (table : Table) (t : Token) : Prop :=
  t.isNaming = true ∧ ∃ name, t.Names name ∧ table.contains name = false

variable {table : Table} {t : Token} {tokens before after : List Token} {n tree : Node}
  {ns : List Node} {name name' : String}

/-- The name of a pitched content is all that stands before its first parenthesis. -/
theorem IsPitched.span_isPlain {content literal : String} (h : IsPitched content name literal) :
    (content.toList.span isPlain).1 = name.toList := by
  have hcontent : content.toList = name.toList ++ '(' :: (literal.toList ++ [')']) := by
    simp [h.content_eq]
  have hspan : (name.toList ++ '(' :: (literal.toList ++ [')'])).span isPlain =
      (name.toList, '(' :: (literal.toList ++ [')'])) :=
    Number.span_append (fun c hc => by simpa [isPlain] using h.plain c hc) (by simp [isPlain])
  rw [hcontent, hspan]

/-- A token has one name. -/
theorem Token.Names.unique (h : t.Names name) (h' : t.Names name') : name = name' := by
  rcases h with ⟨literal, h⟩ | ⟨rfl, h⟩
  · rcases h' with ⟨literal', h'⟩ | ⟨-, h'⟩
    · exact String.toList_injective (h.span_isPlain.symm.trans h'.span_isPlain)
    · exact absurd h (h' name literal)
  · rcases h' with ⟨literal', h'⟩ | ⟨rfl, -⟩
    · exact absurd h' (h name' literal')
    · rfl

/-- The name in a token that is looked up is known, unless the token is unknown. -/
theorem Token.contains_of_not_isUnknownTo (h : ¬t.IsUnknownTo table) (hnaming : t.isNaming = true)
    (hname : t.Names name) : table.contains name = true := by
  rw [← Bool.not_eq_false]
  exact fun hunknown => h ⟨hnaming, name, hname, hunknown⟩

/-- A leaf that transcribes a token has its position and its name. -/
theorem Transcribes.names (h : Transcribes t n) :
    ∃ s, n = .symbol s ∧ s.position = some t.position ∧ t.Names s.content := by
  obtain ⟨s, rfl, hposition, ⟨-, hcontent, hplain⟩ | ⟨literal, x, hpitched, -, -⟩⟩ := h
  · exact ⟨s, rfl, hposition, .inr ⟨hcontent, hplain⟩⟩
  · exact ⟨s, rfl, hposition, .inl ⟨literal, hpitched⟩⟩

/-- A leaf is unknown if the token that it transcribes has a name that is unknown. -/
theorem Transcribes.unknownHere? (h : Transcribes t n) (hname : t.Names name) :
    Node.unknownHere? table n =
      if table.contains name then none else some (.unknownSound name (some t.position)) := by
  obtain ⟨s, rfl, hposition, hnames⟩ := h.names
  rw [Node.unknownHere?, hnames.unique hname, hposition]

/-- Leaves that transcribe tokens with known names are known. -/
theorem filterMap_unknownHere?_of_known (h : List.Forall₂ Transcribes tokens ns)
    (hknown : ∀ t ∈ tokens, ∀ name, t.Names name → table.contains name = true) :
    ns.filterMap (Node.unknownHere? table) = [] := by
  induction h with
  | nil => rfl
  | cons ht _ ih =>
    obtain ⟨hfirst, hknown⟩ := List.forall_mem_cons.1 hknown
    obtain ⟨s, -, -, hname⟩ := ht.names
    rw [List.filterMap_cons, ht.unknownHere? hname, if_pos (hfirst _ hname), ih hknown]

/-- Of leaves that transcribe tokens, the first that is unknown transcribes the first token that
is. -/
theorem filterMap_unknownHere?_of_unknown
    (h : List.Forall₂ Transcribes (before ++ t :: after) ns)
    (hbefore : ∀ t ∈ before, ∀ name, t.Names name → table.contains name = true)
    (hname : t.Names name) (hunknown : table.contains name = false) :
    ∃ rest, ns.filterMap (Node.unknownHere? table) =
      .unknownSound name (some t.position) :: rest := by
  induction before generalizing ns with
  | nil =>
    cases h with
    | cons ht _ =>
      rw [List.filterMap_cons, ht.unknownHere? hname, hunknown, if_neg Bool.false_ne_true]
      exact ⟨_, rfl⟩
  | cons b before ih =>
    cases h with
    | cons hb h =>
      obtain ⟨hfirst, hbefore⟩ := List.forall_mem_cons.1 hbefore
      obtain ⟨s, -, -, hb'⟩ := hb.names
      rw [List.filterMap_cons, hb.unknownHere? hb', if_pos (hfirst _ hb')]
      exact ih h hbefore

/-- Only leaves are looked up. -/
theorem Node.unknown_eq_filterMap_leaves (table : Table) (n : Node) :
    n.unknown table = n.leaves.filterMap (unknownHere? table) := by
  rw [unknown, leaves, List.filterMap_filter]
  refine congrArg (List.filterMap · n.walk) (funext fun m => ?_)
  cases m <;> rfl

/-- The leaves of a parsed tree transcribe the tokens that are looked up. -/
theorem forall₂_transcribes {text : String} (h : parse text = .ok tree) :
    ∃ tokens, tokenize text = .ok tokens ∧
      List.Forall₂ Transcribes (tokens.filter Token.isNaming) tree.leaves := by
  obtain ⟨tokens, root, htokens, hroot, hwritten, htree⟩ := Node.exists_of_parse h
  obtain ⟨hhold, hinside⟩ := Node.gatherInside_of_annotate hwritten htree
  obtain ⟨hsounds, -⟩ := Node.leaves_gatherInside (Node.settled_laid hwritten 1) hhold hinside
  obtain ⟨hlength, hleaves⟩ := Node.leaves_laid hwritten 1
  rw [leaves_eq_leavesAt hroot] at hlength hleaves
  have hlexemes : ∀ p ∈ pacedTokens tokens, ∃ l : Lexeme,
      l.Valid ∧ p.1.content.toList = l.content := fun p hp =>
    exists_lexeme_of_tokenize htokens (map_fst_pacedTokens tokens ▸ List.mem_map_of_mem hp)
  obtain ⟨hforall, -⟩ := transcribes_leavesAt hlexemes hlength
  rw [map_fst_pacedTokens, ← hleaves] at hforall
  exact ⟨tokens, htokens, hsounds ▸ hforall⟩

/-! ## Rendering -/

/-- Whether a fault is a lookup that failed. -/
def Fault.isLookup : Fault → Bool
  | unknownSound .. | lookupRefused .. => true
  | _ => false

/-- The first member of a list that has a property. -/
theorem exists_first_of_mem {α : Type} {p : α → Prop} {xs : List α} {a : α} (ha : a ∈ xs)
    (hp : p a) : ∃ before b after, xs = before ++ b :: after ∧ (∀ c ∈ before, ¬p c) ∧ p b := by
  classical
  have hsome : (xs.find? fun c => decide (p c)).isSome :=
    List.find?_isSome.2 ⟨a, ha, decide_eq_true hp⟩
  obtain ⟨b, hb⟩ := Option.isSome_iff_exists.1 hsome
  obtain ⟨hb, before, after, hsplit, hbefore⟩ := List.find?_eq_some_iff_append.1 hb
  exact ⟨before, b, after, hsplit, fun c hc => by simpa using hbefore c hc, of_decide_eq_true hb⟩

/-- Events in exact time are stably sorted by their onsets. -/
theorem isStableSort_sortByTime {events : List Event} (h : ∀ e ∈ events, e.IsExact) :
    IsStableSort (fun a b => decide (a.onset ≤ b.onset)) events (sortByTime events) := by
  have hplace : ∀ e ∈ events, e.time.place = .finite e.onset := by
    intro e he
    obtain ⟨x, hx⟩ := (h e he).time
    rw [Quantity.place_exact hx, Event.onset, hx, Option.getD_some]
  have hcomparable : ∀ e ∈ events, e.time.isComparable = true := by
    intro e he
    rw [Quantity.isComparable, hplace e he]
    rfl
  have honsets : ∀ a ∈ events, ∀ b ∈ events,
      a.mayPrecede b = decide ((id a).onset ≤ (id b).onset) := by
    intro a ha b hb
    rw [Event.mayPrecede, Quantity.lessThan, hplace a ha, hplace b hb]
    simp only [id_eq, ← not_lt, decide_not]
  have hsort : (events.mergeSort Event.mayPrecede).map id =
      (events.map id).mergeSort fun a b => decide (a.onset ≤ b.onset) := List.map_mergeSort honsets
  rw [List.map_id, List.map_id] at hsort
  rw [sortByTime_of_comparable hcomparable, hsort]
  refine isStableSort_mergeSort (fun a b c hab hbc => ?_) (fun a b => ?_) events
  · rw [decide_eq_true_eq] at hab hbc ⊢
    exact hab.trans hbc
  · rw [Bool.or_eq_true, decide_eq_true_eq, decide_eq_true_eq]
    exact le_total ..

section
variable {text : String} {unit : Quantity} {u : Rat}

/-- Rendering stops at the first unknown name of a tree. -/
theorem render_of_unknown {fault : Fault} {rest : List Fault} (h : parse text = .ok tree)
    (htable : table.IsExact) (hunit : unit.rational? = some u)
    (hunknown : tree.unknown table = fault :: rest) : render text table unit = .error fault := by
  obtain ⟨tokens, root, -, -, hwritten, htree⟩ := Node.exists_of_parse h
  have hstops := Node.stopsAt_realizeWith (Node.measure_exact hunit) htable
    (Node.gathered_of_annotate hwritten htree)
  rw [hunknown] at hstops
  exact bind_eq_error.2 (.inr ⟨tree, h, bind_eq_error.2 (.inl hstops)⟩)

/-- If a tree has no unknown names, the events of its sound are stably sorted by their onsets,
unless its duration has too many digits. -/
theorem render_of_known (h : parse text = .ok tree) (htable : table.IsExact)
    (hunit : unit.rational? = some u) (hknown : tree.unknown table = []) :
    ∃ sound events sorted, tree.realize table.resolve unit = .ok sound ∧
      sound.events (.whole 0) = .ok events ∧
      IsStableSort (fun a b => decide (a.onset ≤ b.onset)) events sorted ∧
      render text table unit =
        if sound.duration.isWritable then .ok sorted else .error .unwritableNumber := by
  obtain ⟨tokens, root, -, -, hwritten, htree⟩ := Node.exists_of_parse h
  have hstops := Node.stopsAt_realizeWith (Node.measure_exact hunit) htable
    (Node.gathered_of_annotate hwritten htree)
  rw [hknown] at hstops
  obtain ⟨sound, hsound, hexact⟩ := hstops
  have hzero : (Quantity.whole 0).rational? = some 0 := rfl
  obtain ⟨events, hevents, hplays⟩ := hexact.events hzero
  refine ⟨sound, events, sortByTime events, hsound, hevents,
    isStableSort_sortByTime fun e he => ?_, ?_⟩
  · obtain ⟨beat, -, hbeat⟩ :=
      exists_mem_of_forall₂ (List.Forall₂.flip (R := fun e b => Event.Plays b e) hplays) he
    exact ⟨⟨_, hbeat.time⟩, _, hbeat.duration⟩
  · exact renderWith_eq h hsound hevents

end

/-- A text that is parsed, rendered with a filled table in an exact unit. A lookup fails exactly if
the text has a token with a name that the table does not know. Then the name in the first such token
is reported, at the position of the token. Otherwise the events of the sound are stably sorted by
their onsets, unless the duration of the sound has too many digits. -/
theorem render_of_parse {text : String} {unit : Quantity} {u : Rat} (h : parse text = .ok tree)
    (htable : table.IsFilled) (hunit : unit.rational? = some u) :
    ∃ tokens, tokenize text = .ok tokens ∧
      ((∃ fault, render text table unit = .error fault ∧ fault.isLookup = true) ↔
        ∃ t ∈ tokens, t.IsUnknownTo table) ∧
      (∀ before t after name, tokens = before ++ t :: after →
        (∀ b ∈ before, ¬b.IsUnknownTo table) → t.IsUnknownTo table → t.Names name →
          ∃ fault, render text table unit = .error fault ∧ fault.isLookup = true ∧
            fault.position? = some t.position ∧
            fault.message = "invalid sound identifier : " ++ name ++ t.position.text) ∧
      ((∀ t ∈ tokens, ¬t.IsUnknownTo table) → ∃ sound events sorted,
        tree.realize table.resolve unit = .ok sound ∧ sound.events (.whole 0) = .ok events ∧
        IsStableSort (fun a b => decide (a.onset ≤ b.onset)) events sorted ∧
        render text table unit =
          if sound.duration.isWritable then .ok sorted else .error .unwritableNumber) := by
  obtain ⟨tokens, htokens, hforall⟩ := forall₂_transcribes h
  have hleaves := Node.unknown_eq_filterMap_leaves table tree
  have known {tokens : List Token} (h : ∀ t ∈ tokens, ¬t.IsUnknownTo table) :
      ∀ t ∈ tokens.filter Token.isNaming, ∀ name, t.Names name → table.contains name = true := by
    intro t ht name hname
    obtain ⟨ht, hnaming⟩ := List.mem_filter.1 ht
    exact Token.contains_of_not_isUnknownTo (h t ht) hnaming hname
  have blamed : ∀ before t after name, tokens = before ++ t :: after →
      (∀ b ∈ before, ¬b.IsUnknownTo table) → t.IsUnknownTo table → t.Names name →
        render text table unit = .error (.unknownSound name (some t.position)) := by
    rintro before t after name rfl hbefore ⟨hnaming, name', hname', hunknown⟩ hname
    rw [List.filter_append, List.filter_cons_of_pos hnaming] at hforall
    obtain ⟨rest, hrest⟩ :=
      filterMap_unknownHere?_of_unknown hforall (known hbefore) hname
        (hname.unique hname' ▸ hunknown)
    exact render_of_unknown h htable.isExact hunit (hleaves.trans hrest)
  have rendered (hknown : ∀ t ∈ tokens, ¬t.IsUnknownTo table) :=
    render_of_known h htable.isExact hunit
      (hleaves.trans (filterMap_unknownHere?_of_known hforall (known hknown)))
  refine ⟨tokens, htokens, ⟨?_, ?_⟩, ?_, rendered⟩
  · rintro ⟨fault, hfault, hlookup⟩
    by_contra hnone
    obtain ⟨sound, -, sorted, -, -, -, hsorted⟩ := rendered fun t ht h => hnone ⟨t, ht, h⟩
    rw [hfault] at hsorted
    split at hsorted
    · cases hsorted
    · cases hsorted
      cases hlookup
  · rintro ⟨t, ht, hunknown⟩
    obtain ⟨before, first, after, hsplit, hbefore, hfirst⟩ := exists_first_of_mem ht hunknown
    obtain ⟨name, hname, -⟩ := hfirst.2
    exact ⟨_, blamed before first after name hsplit hbefore hfirst hname, rfl⟩
  · intro before t after name hsplit hbefore hunknown hname
    exact ⟨_, blamed before t after name hsplit hbefore hunknown hname, rfl, rfl, rfl⟩

/-- The first of two names that are unknown: it was taken from the table and stands with a pitch. -/
theorem render_of_parse_removed :
    ∃ tree fault, parse "a x(2), \x7bb\x7d" = .ok tree ∧
      render "a x(2), \x7bb\x7d"
        (((Table.initial.addNote "a" false).addNote "x" true).remove "x") (.ratio (1 / 2)) =
          .error fault ∧
      fault.isLookup = true ∧ fault.position? = some ⟨0, 2⟩ ∧
      fault.message = "invalid sound identifier : x, at line 0 column 2" := by
  have hparsed : (parse "a x(2), \x7bb\x7d").isOk = true := by decide +kernel
  obtain ⟨tree, htree⟩ := exists_of_isOk hparsed
  have htokens : tokenize "a x(2), \x7bb\x7d" = .ok ([⟨"a", ⟨0, 0⟩⟩] ++ ⟨"x(2)", ⟨0, 2⟩⟩ ::
      [⟨",", ⟨0, 6⟩⟩, ⟨openingBrace, ⟨0, 8⟩⟩, ⟨"b", ⟨0, 9⟩⟩, ⟨closingBrace, ⟨0, 10⟩⟩]) := by
    decide +kernel
  have htable : (((Table.initial.addNote "a" false).addNote "x" true).remove "x").IsFilled :=
    .remove "x" (.addNote "x" true (.addNote "a" false .initial))
  have hunit : (Quantity.ratio (1 / 2)).rational? = some (1 / 2) := rfl
  obtain ⟨tokens, htokens', -, hblamed, -⟩ := render_of_parse htree htable hunit
  have hx : Token.Names ⟨"x(2)", ⟨0, 2⟩⟩ "x" :=
    .inl ⟨"2", rfl, by decide, by simp, [], ['2'], [], [], by decide, .inl rfl,
      ⟨nofun, List.forall_mem_singleton.2 (by decide +kernel)⟩, .inl rfl, nofun⟩
  have ha : Token.Names ⟨"a", ⟨0, 0⟩⟩ "a" := by
    refine .inr ⟨rfl, fun name literal h => ?_⟩
    have hparenthesis : '(' ∈ (name ++ "(" ++ literal ++ ")").toList := by simp
    rw [← h.content_eq] at hparenthesis
    revert hparenthesis
    decide
  obtain ⟨fault, hfault, hlookup, hposition, hmessage⟩ :=
    hblamed [⟨"a", ⟨0, 0⟩⟩] ⟨"x(2)", ⟨0, 2⟩⟩ _ "x"
      (Except.ok.inj (htokens'.symm.trans htokens))
      (by
        rw [List.forall_mem_singleton]
        rintro ⟨-, name, hname, hunknown⟩
        rw [hname.unique ha] at hunknown
        revert hunknown
        decide)
      ⟨by decide +kernel, "x", hx, by decide⟩ hx
  exact ⟨tree, fault, htree, hfault, hlookup, hposition, hmessage.trans (by decide +kernel)⟩

/-- Whether an exact quantity can be written is a matter of its value. -/
theorem Quantity.isWritable_of_rational? {q : Quantity} {r : Rat} (h : q.rational? = some r) :
    q.isWritable = Number.isWritableRatio r := by
  cases q with
  | whole n =>
    cases h
    rw [isWritable, Number.isWritableRatio, Rat.num_intCast, Rat.den_intCast,
      show Number.isWritable (1 : Nat) = true by decide, Bool.and_true]
  | ratio => cases h; rfl
  | real => cases h

/-- Ten notes of a unit that has as many digits as can be written: they last for too long. -/
theorem render_of_parse_fails :
    (parse "a a a a a a a a a a").isOk = true ∧
      (Table.initial.addNote "a" false).IsFilled ∧
      render "a a a a a a a a a a" (Table.initial.addNote "a" false) (.whole (10 ^ 4299)) =
        .error .unwritableNumber ∧
      Fault.unwritableNumber.isLookup = false := by
  have htable : (Table.initial.addNote "a" false).IsFilled := .addNote "a" false .initial
  obtain ⟨hparsed, hrun⟩ : (parse "a a a a a a a a a a").isOk = true ∧
      (parse "a a a a a a a a a a").toOption.map (fun tree =>
        (tree.unknown (Table.initial.addNote "a" false), tree.names, tree.sounding)) =
          some ([], List.replicate 10 "a", 10) := by decide +kernel
  obtain ⟨tree, htree⟩ := exists_of_isOk hparsed
  rw [htree] at hrun
  obtain ⟨hknown, hnames, hsounding⟩ : tree.unknown (Table.initial.addNote "a" false) = [] ∧
      tree.names = List.replicate 10 "a" ∧ tree.sounding = 10 := by
    simpa using Option.some.inj hrun
  have hvoices : ∀ name ∈ tree.names, (Table.initial.addNote "a" false).Voices name := by
    intro name hname
    rw [hnames] at hname
    rw [List.eq_of_mem_replicate hname]
    exact Table.voices_addNote (by decide) _ _
  have hunit : (Quantity.whole (10 ^ 4299)).rational? = some ((10 ^ 4299 : Int) : Rat) := rfl
  obtain ⟨sound, events, sorted, hsound, -, -, hrender⟩ :=
    render_of_known htree htable.isExact hunit hknown
  obtain ⟨tokens, root, -, -, hwritten, hannotate⟩ := Node.exists_of_parse htree
  have hduration := Node.duration_of_realizeWith (Node.measure_exact hunit)
    (Node.gathered_of_annotate hwritten hannotate) hvoices hsound
  have hlong : (10 : Rat) * ((10 ^ 4299 : Int) : Rat) = ((10 ^ 4300 : Int) : Rat) := by
    rw [pow_succ' (10 : Int) 4299, Int.cast_mul]
    rfl
  rw [hsounding, hlong] at hduration
  refine ⟨hparsed, htable, ?_, rfl⟩
  rw [hrender, Quantity.isWritable_of_rational? hduration, Number.isWritableRatio, Rat.num_intCast,
    Number.isWritable_pow (by decide), Bool.false_and, if_neg Bool.false_ne_true]

end Polyrhythm
