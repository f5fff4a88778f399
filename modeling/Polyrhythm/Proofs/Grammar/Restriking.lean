import Polyrhythm.Proofs.Grammar.Twins
import Polyrhythm.Proofs.Timing.Transcript

/-!
# Writing a note again for an underscore

An underscore repeats the token before it, other underscores, periods and tempo markers being passed
over. If that is a name or a rest, it can be written again in place of the underscore (`Restrikes`).
The two texts then have levels of twin pieces (`Spells.twins`), and so in a table without continuous
notes they have the same events (`events_of_restrikes`): a hold is played in slots of a held
element, a symbol by itself, but nothing of this is heard.
-/

namespace Polyrhythm

open Traversal Node

/-! ## What an underscore repeats -/

/-- A token that does not matter for what an underscore after it repeats. -/
def Token.isPassed (t : Token) : Bool :=
  t.content = "_" || t.content = "." || t.marker?.isSome

/-- The last of some tokens that is not passed over. -/
def lastStanding? (tokens : List Token) : Option Token :=
  tokens.reverse.find? fun t => !t.isPassed

/-- Some underscores of a text are replaced by what they repeat: the nearest token before that is
not passed over, if it names a sound or a rest. Only the contents of the tokens matter. -/
structure Restrikes (tokens tokens' : List Token) : Prop where
  length_eq : tokens.length = tokens'.length
  content : ∀ i (h : i < tokens.length) (h' : i < tokens'.length),
    tokens'[i].content = tokens[i].content ∨ tokens[i].content = "_" ∧
      ∃ t ∈ lastStanding? (tokens.take i), t.isNaming = true ∧ tokens'[i].content = t.content

namespace Token

/-- What is handed on after a token, if something was handed on to it: the content that an
underscore repeats. -/
def next (s : Option String) (t : Token) : Option String :=
  if t.isPassed then s else if t.isNaming then some t.content else none

/-- Tokens that stand for each other: they are alike, or one is an underscore and the other the name
that was handed on. -/
inductive Repeats : Option String → Token → Token → Option String → Prop
  | same {s : Option String} {t t' : Token} : t'.content = t.content → Repeats s t t' (t.next s)
  | again {t t' : Token} : t.content = "_" → t'.isNaming = true →
    Repeats (some t'.content) t t' (some t'.content)

end Token

/-- Whether a token names something depends on its content only. -/
theorem Token.isNaming_congr {t t' : Token} (h : t'.content = t.content) :
    t'.isNaming = t.isNaming := by
  rw [isNaming, isNaming, marker?, marker?, h]

/-- What is handed on after some tokens. -/
def handed (tokens : List Token) : Option String :=
  ((lastStanding? tokens).filter Token.isNaming).map Token.content

theorem handed_append_singleton (tokens : List Token) (t : Token) :
    handed (tokens ++ [t]) = t.next (handed tokens) := by
  rw [handed, lastStanding?, List.reverse_append, List.reverse_singleton, List.singleton_append,
    List.find?_cons, Token.next]
  cases ht : t.isPassed with
  | true => rfl
  | false =>
    cases hn : t.isNaming with
    | true => simp [hn]
    | false => simp [hn]

/-- Nothing is handed on after a brace. -/
theorem Token.next_of_brace {s : Option String} {t : Token}
    (h : t.content = openingBrace ∨ t.content = closingBrace) : t.next s = none := by
  have hkind : t.isPassed = false ∧ t.isNaming = false := by
    rw [isPassed, isNaming, marker?]
    rcases h with h | h
    · rw [h]; decide
    · rw [h]; decide
  simp [next, hkind.1, hkind.2]

/-- Tokens and those they are replaced by stand for each other one by one. -/
theorem Restrikes.threaded {before before' tokens tokens' : List Token}
    (h : Restrikes (before ++ tokens) (before' ++ tokens'))
    (hlength : before.length = before'.length) :
    ∃ t, Threaded Token.Repeats (handed before) tokens tokens' t := by
  induction tokens generalizing before before' tokens' with
  | nil =>
    obtain rfl : tokens' = [] := by
      simpa [hlength] using h.length_eq
    exact ⟨_, .nil (.refl _)⟩
  | cons t tokens ih =>
    cases tokens' with
    | nil =>
      have hlengths := h.length_eq
      simp only [List.length_append, List.length_cons, List.length_nil] at hlengths
      omega
    | cons t' tokens' =>
      have hrest : Restrikes ((before ++ [t]) ++ tokens) ((before' ++ [t']) ++ tokens') := by
        simpa using h
      obtain ⟨last, hlast⟩ := ih hrest (by simp [hlength])
      rw [handed_append_singleton] at hlast
      refine ⟨last, .cons ?_ hlast⟩
      have hcontent : t'.content = t.content ∨ t.content = "_" ∧
          ∃ r, lastStanding? before = some r ∧ r.isNaming = true ∧ t'.content = r.content := by
        simpa [hlength] using h.content before.length (by simp) (by simp [hlength])
      rcases hcontent with hsame | ⟨hunder, r, hr, hnaming, hcopy⟩
      · exact .same hsame
      · have hhanded : handed before = some t'.content := by
          rw [handed, hr, hcopy]
          simp [hnaming]
        have hpassed : t.isPassed = true := by simp [Token.isPassed, hunder]
        rw [Token.next, if_pos hpassed, hhanded]
        exact .again hunder (Token.isNaming_congr hcopy ▸ hnaming)

/-! ## Leaves -/

/-- The heading that a content is played for. -/
def heading (content : String) : Heading :=
  (Symbol.mk content none 1 none none).splitPitch.heading

/-- A stretched symbol is played for the heading of its content, whatever its place and tempo. -/
theorem laidAs_symbol {s : Symbol} (h : s.pitch = none) (common factor : Rat) :
    ∃ laid : Symbol, (symbol s).laidAs common factor = symbol laid ∧
      laid.duration = some (factor * common) ∧ laid.heading = heading s.content := by
  refine ⟨{ s.splitPitch with duration := some (factor * common) }, rfl, rfl, ?_⟩
  rw [heading, Symbol.splitPitch, Symbol.splitPitch]
  cases splitPitch? s.content.toList with
  | some found => rfl
  | none => rw [Symbol.heading, h]; rfl

section
variable {table : Table} {u tempo : Rat} {s : Option Heading}

/-- Holds are twins, whatever is handed on to them. -/
theorem twin_hold (position position' : Option Position) (htempo : 0 < tempo) :
    (hold ⟨position, tempo, none, none⟩).Twin table u s
      (hold ⟨position', tempo, none, none⟩) s := by
  have hwritten (position : Option Position) : (hold ⟨position, tempo, none, none⟩).Written :=
    every_hold.2 ⟨htempo, rfl⟩
  refine twin_of_not_spliced ⟨hwritten position, hwritten position', rfl⟩ (fun _ _ => rfl)
    (fun _ _ => rfl) fun hcommon hfactor => ?_
  exact .hold rfl rfl (mul_nonneg hfactor hcommon) (.refl s)

theorem written_symbol (content : String) (position : Option Position) (htempo : 0 < tempo) :
    (symbol ⟨content, position, tempo, none, none⟩).Written :=
  every_symbol.2 ⟨htempo, rfl⟩

/-- Symbols of one content are twins. -/
theorem twin_symbol (content : String) (position position' : Option Position) (htempo : 0 < tempo) :
    (symbol ⟨content, position, tempo, none, none⟩).Twin table u s
      (symbol ⟨content, position', tempo, none, none⟩) (some (heading content)) := by
  refine twin_of_not_spliced ⟨written_symbol content position htempo,
    written_symbol content position' htempo, rfl⟩ (fun _ _ => rfl) (fun _ _ => rfl)
    fun {common factor} hcommon hfactor => ?_
  obtain ⟨laid, hlaid, hd, hheading⟩ := laidAs_symbol
    (s := ⟨content, position, tempo, none, none⟩) rfl common factor
  obtain ⟨laid', hlaid', hd', hheading'⟩ := laidAs_symbol
    (s := ⟨content, position', tempo, none, none⟩) rfl common factor
  rw [hlaid, hlaid', ← hheading]
  exact .symbol hd hd' (mul_nonneg hfactor hcommon) (hheading'.trans hheading.symm) (.refl _)

/-- A hold and a symbol of the content that is handed on are twins. -/
theorem twin_again (content : String) (position position' : Option Position) (htempo : 0 < tempo) :
    (hold ⟨position, tempo, none, none⟩).Twin table u (some (heading content))
      (symbol ⟨content, position', tempo, none, none⟩) (some (heading content)) := by
  refine twin_of_not_spliced ⟨every_hold.2 ⟨htempo, rfl⟩, written_symbol content position' htempo,
    rfl⟩ (fun _ _ => rfl) (fun _ _ => rfl) fun {common factor} hcommon hfactor => ?_
  obtain ⟨laid, hlaid, hd, hheading⟩ := laidAs_symbol
    (s := ⟨content, position', tempo, none, none⟩) rfl common factor
  rw [hlaid, ← hheading]
  exact .again rfl hd (mul_nonneg hfactor hcommon) (.refl _)

end

namespace Token

variable {t t' : Token} {s s' : Option String} {tempo : Rat} {table : Table} {u : Rat}

/-- The piece for a token that writes no marker. -/
theorem piece_of_marker?_eq_none (h : t.marker? = none) :
    t.piece = if t.content = "," then .comma else if t.content = "." then .period
      else if t.content = "_" then .element (.hold ⟨some t.position, 1, none, none⟩)
      else .element t.symbol := by
  rw [marker?] at h
  rw [piece, h]

/-- A token that names something is of no other kind. -/
theorem isNaming_iff : t.isNaming = true ↔
    t.content ≠ "_" ∧ t.content ≠ "," ∧ t.content ≠ "." ∧ t.content ≠ openingBrace ∧
      t.content ≠ closingBrace ∧ t.marker? = none := by
  simp [isNaming, and_assoc]

/-- Tokens that stand for each other are both braces or both not. -/
theorem Repeats.not_brace (h : Repeats s t t' s') (ho : t.content ≠ openingBrace)
    (hc : t.content ≠ closingBrace) : t'.content ≠ openingBrace ∧ t'.content ≠ closingBrace := by
  cases h with
  | same hcontent => exact ⟨hcontent ▸ ho, hcontent ▸ hc⟩
  | again _ hnaming =>
    obtain ⟨-, -, -, ho', hc', -⟩ := isNaming_iff.1 hnaming
    exact ⟨ho', hc'⟩

/-- Tokens that stand for each other write the same marker, if any. -/
theorem Repeats.marker?_eq (h : Repeats s t t' s') : t'.marker? = t.marker? := by
  cases h with
  | same hcontent => rw [marker?, marker?, hcontent]
  | again hunder hnaming =>
    obtain ⟨-, -, -, -, -, hnone⟩ := isNaming_iff.1 hnaming
    rw [hnone, marker?, hunder]
    rfl

/-- A token is replaced only if it is an underscore. -/
theorem Repeats.eq_next (h : Repeats s t t' s') (hunder : t.content ≠ "_") :
    t'.content = t.content ∧ s' = t.next s := by
  cases h with
  | same hcontent => exact ⟨hcontent, rfl⟩
  | again hreplaced => exact absurd hreplaced hunder

/-- Tokens that stand for each other write twins, at any tempo. -/
theorem Repeats.twin (h : Repeats s t t' s') (ho : t.content ≠ openingBrace)
    (hc : t.content ≠ closingBrace) (hmarker : t.marker? = none) (htempo : 0 < tempo) :
    Piece.Twin table u (s.map heading) (t.piece.scaleTempo tempo) (t'.piece.scaleTempo tempo)
      (s'.map heading) := by
  have hspeed : 0 < 1 * tempo := by rwa [one_mul]
  cases h with
  | same hcontent =>
    have hmarker' : t'.marker? = none := by rw [marker?, hcontent, ← marker?, hmarker]
    rw [piece_of_marker?_eq_none hmarker, piece_of_marker?_eq_none hmarker', hcontent]
    by_cases hcomma : t.content = ","
    · have hnext : t.next s = none := by simp [next, isPassed, isNaming, hcomma, hmarker]
      rw [if_pos hcomma, if_pos hcomma, hnext]
      exact .comma
    · rw [if_neg hcomma, if_neg hcomma]
      by_cases hperiod : t.content = "."
      · have hnext : t.next s = s := by simp [next, isPassed, hperiod]
        rw [if_pos hperiod, if_pos hperiod, hnext]
        exact .period
      · rw [if_neg hperiod, if_neg hperiod]
        by_cases hunder : t.content = "_"
        · have hnext : t.next s = s := by simp [next, isPassed, hunder]
          rw [if_pos hunder, if_pos hunder, hnext]
          exact .element (twin_hold _ _ hspeed)
        · have hnext : t.next s = some t.content := by
            simp [next, isPassed, isNaming, hcomma, hperiod, hunder, ho, hc, hmarker]
          rw [if_neg hunder, if_neg hunder, hnext, symbol, symbol, hcontent]
          exact .element (twin_symbol _ _ _ hspeed)
  | again hunder hnaming =>
    obtain ⟨hunder', hcomma, hperiod, -, -, hmarker'⟩ := isNaming_iff.1 hnaming
    rw [piece_of_marker?_eq_none hmarker, piece_of_marker?_eq_none hmarker', hunder,
      if_neg hcomma, if_neg hperiod, if_neg hunder']
    exact .element (twin_again _ _ _ hspeed)

end Token

/-! ## Levels -/

variable {table : Table} {u : Rat} {s s' : Option String} {ts ts' : List Token} {items : List Item}

/-- Tokens that stand for each other, in front of pieces that are twins at any tempo. -/
theorem Token.Repeats.pace {t t' : Token} {r : Option Heading} {pieces pieces' : List Piece}
    (h : Token.Repeats s t t' s') (ho : t.content ≠ openingBrace) (hc : t.content ≠ closingBrace)
    (hrefused : t.isRefused = false)
    (htwins : ∀ {tempo : Rat}, 0 < tempo → Threaded (Piece.Twin table u) (s'.map heading)
      (pace tempo pieces) (pace tempo pieces') r) {tempo : Rat} (htempo : 0 < tempo) :
    Threaded (Piece.Twin table u) (s.map heading) (Polyrhythm.pace tempo (t.piece :: pieces))
      (Polyrhythm.pace tempo (t'.piece :: pieces')) r := by
  cases hmarker : t.marker? with
  | none =>
    have hmarker' : t'.marker? = none := h.marker?_eq.trans hmarker
    rw [pace_cons tempo (Token.piece_tagHold hmarker 1).1,
      pace_cons tempo (Token.piece_tagHold hmarker' 1).1]
    exact .cons (h.twin ho hc hmarker htempo) (htwins htempo)
  | some marker =>
    have hunder : t.content ≠ "_" := by
      intro hunder
      rw [Token.marker?, hunder] at hmarker
      cases hmarker
    obtain ⟨-, rfl⟩ := h.eq_next hunder
    have hmarker' : t'.marker? = some marker := h.marker?_eq.trans hmarker
    have hnext : t.next s = s := by simp [Token.next, Token.isPassed, hmarker]
    have hrate : 0 < marker.rate := by
      rw [Token.isRefused, hmarker] at hrefused
      exact Marker.rate_pos (Marker.isVoid_of_isRefused hrefused)
    rw [Token.piece_of_marker hmarker, Token.piece_of_marker hmarker', pace_marker, pace_marker]
    rw [hnext] at htwins
    exact htwins (mul_pos htempo hrate)

/-- Tokens that stand for each other write levels of twin pieces. -/
theorem Spells.twins (h : Spells ts items) (hrefused : ∀ t ∈ ts, t.isRefused = false)
    (hts : Threaded Token.Repeats s ts ts' s') :
    ∃ items', Spells ts' items' ∧ ∀ {tempo : Rat}, 0 < tempo →
      Threaded (Piece.Twin table u) (s.map heading) (pace tempo (Item.pieces items))
        (pace tempo (Item.pieces items')) (s'.map heading) := by
  induction h generalizing s s' ts' with
  | nil =>
    cases hts with
    | nil hkept => exact ⟨[], .nil, fun _ => .nil hkept.map⟩
  | @leaf t ts items ho hc _ ih =>
    obtain ⟨ht, hrefuseds⟩ := List.forall_mem_cons.1 hrefused
    cases hts with
    | @cons _ mid _ _ t' _ ts' hrepeats hts =>
      obtain ⟨items', hitems', htwins⟩ := ih hrefuseds hts
      obtain ⟨ho', hc'⟩ := hrepeats.not_brace ho hc
      refine ⟨.leaf t' :: items', .leaf ho' hc' hitems', fun {tempo} htempo => ?_⟩
      exact hrepeats.pace ho hc ht htwins htempo
  | @block o c inner rest content items ho hc hinner hrest ihinner ihrest =>
    have hinnerRefused : ∀ t ∈ inner, t.isRefused = false := fun t ht => hrefused t (by simp [ht])
    have hrestRefused : ∀ t ∈ rest, t.isRefused = false := fun t ht => hrefused t (by simp [ht])
    cases hts with
    | @cons _ mid _ _ o' _ _ hopening hts =>
      obtain ⟨last, inner', more, rfl, hinner', hmore⟩ := hts.of_append
      cases hmore with
      | @cons _ next _ _ c' _ rest' hclosing hrest' =>
        obtain ⟨ho', rfl⟩ := hopening.eq_next (by rw [ho]; decide)
        obtain ⟨hc', rfl⟩ := hclosing.eq_next (by rw [hc]; decide)
        rw [Token.next_of_brace (.inl ho)] at hinner'
        rw [Token.next_of_brace (.inr hc)] at hrest'
        obtain ⟨content', hcontent', htwins⟩ := ihinner hinnerRefused hinner'
        obtain ⟨items', hitems', hlater⟩ := ihrest hrestRefused hrest'
        refine ⟨.block content' :: items', .block (ho'.trans ho) (hc'.trans hc) hcontent' hitems',
          fun {tempo} htempo => ?_⟩
        have hblock := weakens_twin (twin_arrange (htwins htempo) true) (s.map heading)
        rw [← scaleTempo_assemble, ← scaleTempo_assemble] at hblock
        exact .cons (.element hblock) (hlater htempo)

/-- Tokens some of which are replaced by what they repeat are built into twins. -/
theorem Restrikes.twin {tokens tokens' : List Token} {root root' : Node}
    (h : Restrikes tokens tokens') (hroot : build tokens = .ok root)
    (hroot' : build tokens' = .ok root') : root.Twin table u none root' none := by
  obtain ⟨hmatch, hrefused⟩ := readable_of_build hroot
  obtain ⟨-, hrefused'⟩ := readable_of_build hroot'
  obtain ⟨items, hitems⟩ := exists_spells_of_bracesMatch hmatch
  have hwhole : Restrikes ([] ++ tokens) ([] ++ tokens') := h
  obtain ⟨last, hthread⟩ := hwhole.threaded rfl
  obtain ⟨items', hitems', htwins⟩ := hitems.twins hrefused hthread
  cases (hitems.build hrefused).symm.trans hroot
  cases (hitems'.build hrefused').symm.trans hroot'
  exact twin_arrange (htwins one_pos) false

/-- Two events are the same: they start together and last as long, numbers being compared by value,
and they have one name and one pitch. -/
structure Event.Same (e e' : Event) : Prop where
  time : e.time.sameValue e'.time = true
  duration : e.duration.sameValue e'.duration = true
  name : e.name = e'.name
  pitch : e.pitch = e'.pitch

/-- Events that are one note as it is heard are the same. -/
theorem Event.Plays.same {b : Beat} {e e' : Event} (h : e.Plays b) (h' : e'.Plays b) :
    e.Same e' where
  time := by
    rw [Quantity.sameValue_exact h.time h'.time]
    exact decide_eq_true rfl
  duration := by
    rw [Quantity.sameValue_exact h.duration h'.duration]
    exact decide_eq_true rfl
  name := h.name.trans h'.name.symm
  pitch := h.pitch.trans h'.pitch.symm

/-- Events that are the same notes as they are heard are the same, one by one. -/
theorem same_of_plays {beats : List Beat} {events events' : List Event}
    (h : List.Forall₂ Event.Plays beats events) (h' : List.Forall₂ Event.Plays beats events') :
    List.Forall₂ Event.Same events events' := by
  induction h generalizing events' with
  | nil =>
    cases h'
    exact .nil
  | cons hplays _ ih =>
    cases h' with
    | cons hplays' h' => exact .cons (hplays.same hplays') (ih h')

/-- Holding a note or a rest is the same as writing it again. If some underscores of a text are
replaced by the names or rests that they repeat, and both texts can be annotated, then both have the
same events, in every table that strikes all names in them again, and in any exact unit of time. -/
theorem events_of_restrikes {tokens tokens' : List Token} {root root' tree tree' : Node}
    {table : Table} {unit : Quantity} {u : Rat} (h : Restrikes tokens tokens')
    (hroot : build tokens = .ok root) (hroot' : build tokens' = .ok root')
    (htree : root.annotate = .ok tree) (htree' : root'.annotate = .ok tree')
    (hnames : ∀ name ∈ tree.names, table.Strikes name)
    (hnames' : ∀ name ∈ tree'.names, table.Strikes name) (hunit : unit.rational? = some u) :
    ∃ sound sound' events events', tree.realize table.resolve unit = .ok sound ∧
      tree'.realize table.resolve unit = .ok sound' ∧ sound.events (.whole 0) = .ok events ∧
      sound'.events (.whole 0) = .ok events' ∧ List.Forall₂ Event.Same events events' := by
  have hmeasure : (fun d => (Quantity.ratio d).mul unit) = measuredBy u :=
    funext (measure_exact hunit)
  obtain ⟨hhold, hinside⟩ := gatherInside_of_annotate (written_of_build hroot) htree
  obtain ⟨-, hinside'⟩ := gatherInside_of_annotate (written_of_build hroot') htree'
  have hrestruck : (root.laid 1).Restruck table u none (root'.laid 1) none :=
    (h.twin hroot hroot').laid zero_le_one
  obtain ⟨⟨t, ⟨sound, hsound, -, hloosens⟩, ⟨sound', hsound', -, hloosens'⟩⟩, -⟩ :=
    hrestruck.realizes hhold hinside hinside' hnames hnames'
  have hstart : (Quantity.whole 0).rational? = some 0 := rfl
  obtain ⟨events, hevents, hplays⟩ := hloosens.events hstart
  obtain ⟨events', hevents', hplays'⟩ := hloosens'.events hstart
  refine ⟨sound, sound', events, events', ?_, ?_, hevents, hevents', same_of_plays hplays hplays'⟩
  · rw [realize, hmeasure, hsound]
  · rw [realize, hmeasure, hsound']

/-- A note held over a period at another tempo, and a rest held in a block. -/
theorem events_of_restrikes_mixed :
    ∃ tokens tokens' tree tree' sound sound' events events',
      tokens.map Token.content = ["a", "_", ".", "/2", "_", "\x7b", "-", "_", "\x7d"] ∧
      tokens'.map Token.content = ["a", "_", ".", "/2", "a", "\x7b", "-", "-", "\x7d"] ∧
      Restrikes tokens tokens' ∧
      (build tokens >>= annotate) = .ok tree ∧ (build tokens' >>= annotate) = .ok tree' ∧
      tree.realize (Table.initial.addNote "a" false).resolve (.whole 2) = .ok sound ∧
      tree'.realize (Table.initial.addNote "a" false).resolve (.whole 2) = .ok sound' ∧
      sound.events (.whole 0) = .ok events ∧ sound'.events (.whole 0) = .ok events' ∧
      List.Forall₂ Event.Same events events' ∧ events.length = 3 := by
  obtain ⟨tokens, tokens', hcontents, hcontents', hrestrikes, hrun, hrun', hcount⟩ :
      ∃ tokens tokens' : List Token,
        tokens.map Token.content = ["a", "_", ".", "/2", "_", "\x7b", "-", "_", "\x7d"] ∧
        tokens'.map Token.content = ["a", "_", ".", "/2", "a", "\x7b", "-", "-", "\x7d"] ∧
        Restrikes tokens tokens' ∧
        (build tokens >>= annotate).toOption.any (fun tree => tree.names ⊆ ["a", "-"]) ∧
        (build tokens' >>= annotate).toOption.any (fun tree => tree.names ⊆ ["a", "-"]) ∧
        (build tokens >>= annotate >>= fun tree =>
          tree.realize (Table.initial.addNote "a" false).resolve (.whole 2) >>= fun sound =>
            sound.events (.whole 0)).toOption.any fun events => events.length = 3 :=
    ⟨["a", "_", ".", "/2", "_", "\x7b", "-", "_", "\x7d"].map (Token.mk · .start),
      ["a", "_", ".", "/2", "a", "\x7b", "-", "-", "\x7d"].map (Token.mk · .start), rfl, rfl,
      ⟨rfl, by decide +kernel⟩, by decide +kernel, by decide +kernel, by decide +kernel⟩
  have exists_tree {tokens : List Token}
      (h : (build tokens >>= annotate).toOption.any (fun tree => tree.names ⊆ ["a", "-"]) = true) :
      ∃ root tree, build tokens = .ok root ∧ root.annotate = .ok tree ∧
        ∀ name ∈ tree.names, (Table.initial.addNote "a" false).Strikes name := by
    have hstrikes : ∀ name ∈ ["a", "-"], (Table.initial.addNote "a" false).Strikes name := by
      refine List.forall_mem_cons.2 ⟨?_, List.forall_mem_singleton.2 ?_⟩
      · exact Table.strikes_addNote (by decide) _
      · exact Table.strikes_initial.addNote (by decide) _
    cases htree : build tokens >>= annotate with
    | error fault => rw [htree] at h; cases h
    | ok tree =>
      rw [htree] at h
      obtain ⟨root, hroot, hannotate⟩ := bind_eq_ok.1 htree
      have hsubset : tree.names ⊆ ["a", "-"] := of_decide_eq_true h
      exact ⟨root, tree, hroot, hannotate, fun name hname => hstrikes name (hsubset hname)⟩
  obtain ⟨root, tree, hroot, htree, hnames⟩ := exists_tree hrun
  obtain ⟨root', tree', hroot', htree', hnames'⟩ := exists_tree hrun'
  have hunit : (Quantity.whole 2).rational? = some 2 := rfl
  obtain ⟨sound, sound', events, events', hsound, hsound', hevents, hevents', hsame⟩ :=
    events_of_restrikes hrestrikes hroot hroot' htree htree' hnames hnames' hunit
  have hbuilt : (build tokens >>= annotate) = .ok tree := bind_eq_ok.2 ⟨root, hroot, htree⟩
  rw [bind_eq_ok.2 ⟨tree, hbuilt, bind_eq_ok.2 ⟨sound, hsound, hevents⟩⟩] at hcount
  exact ⟨tokens, tokens', tree, tree', sound, sound', events, events', hcontents, hcontents',
    hrestrikes, hbuilt, bind_eq_ok.2 ⟨root', hroot', htree'⟩, hsound, hsound', hevents, hevents',
    hsame, of_decide_eq_true hcount⟩

end Polyrhythm
