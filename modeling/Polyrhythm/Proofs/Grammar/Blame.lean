import Polyrhythm.Proofs.Grammar.Reading
import Polyrhythm.Proofs.Tree.Written

/-!
# What building blames

Building fails at a brace that does not match or at a marker that is refused, and at nothing else,
however often a level is read again. The argument is that of `Buildable`, for faults: a property of
elements that building keeps, and that turns braces and markers into faults of some kind
(`Blaming`), confines building to faults of that kind (`Blaming.build`). With the property to stem
from the tokens, the fault names a token (`blamed_of_build`).
-/

namespace Polyrhythm

open Traversal

/-- A property of elements that confines the faults of one step over them. -/
structure Blaming (p : Node → Prop) (q : Fault → Prop) : Prop where
  closing : ∀ n, p n → n.isSymbol closingBrace = true → q (.unopenedBlock n.position?)
  opening : ∀ n, p n → n.isSymbol openingBrace = true → q (.unclosedBlock n.position?)
  marker : ∀ (n : Node) (marker : Marker), p n → n.marker? = some marker →
    marker.isRefused = true → q (marker.refusal n.contentText n.position?)
  native : ∀ n : Node, p n → n.firstForeign = none

section
variable {p : Node → Prop} {q : Fault → Prop} {nodes : List Node} {fault : Fault}

/-! ## Passes -/

/-- Cutting a level blames a closing brace of the level, or an opening one of the level or of the
open block. -/
theorem Blaming.cutFrom (hq : Blaming p q) {state : Option OpenBlock}
    (hstate : ∀ block ∈ state, q (.unclosedBlock block.openedAt))
    (h : ∀ n ∈ nodes, p n) (hfault : (cutFrom state nodes).fault = some fault) : q fault := by
  induction nodes generalizing state with
  | nil =>
    cases state with
    | none => cases hfault
    | some block =>
      cases hfault
      exact hstate block rfl
  | cons n rest ih =>
    obtain ⟨hn, hrest⟩ := List.forall_mem_cons.1 h
    have outside (hfault : (Polyrhythm.cutFrom none rest).fault = some fault) : q fault :=
      ih (by simp) hrest hfault
    cases state with
    | none =>
      rw [Polyrhythm.cutFrom] at hfault
      split at hfault
      · next hopen =>
        refine ih ?_ hrest hfault
        rintro block ⟨⟩
        exact hq.opening n hn hopen
      · split at hfault
        · next hclose =>
          cases hfault
          exact hq.closing n hn hclose
        · exact outside hfault
    | some block =>
      have inside {content : List Node} {inner : Nat}
          (hfault : (Polyrhythm.cutFrom (some ⟨block.openedAt, inner, content⟩) rest).fault =
            some fault) : q fault := by
        refine ih ?_ hrest hfault
        rintro _ ⟨⟩
        exact hstate block rfl
      rw [Polyrhythm.cutFrom] at hfault
      split at hfault
      · exact inside hfault
      · split at hfault
        · split at hfault
          · exact outside hfault
          · exact inside hfault
        · exact inside hfault

/-- Grouping a level blames what reading a block of it blames, or a brace of it. -/
theorem Blaming.groupBraces (hq : Blaming p q) {read : List Node → Except Fault Node}
    (hread : ∀ ns fault, (∀ m ∈ ns, p m) → read ns = .error fault → q fault)
    (h : ∀ n ∈ nodes, p n) (hfault : groupBraces read nodes = .error fault) : q fault := by
  rcases bind_eq_error.1 hfault with hparts | ⟨elements, -, hfault⟩
  · obtain ⟨part, hpart, hfault⟩ := exists_of_mapM_eq_error hparts
    have hin : ∀ m ∈ part.elements, p m := by
      intro m hm
      exact h m ((mem_of_mem_cutFrom hpart hm).resolve_left List.not_mem_nil)
    cases part with
    | single n => cases hfault
    | block content => exact hread content fault hin hfault
  · split at hfault
    · next hcut =>
      cases hfault
      exact hq.cutFrom (by simp) h hcut
    · cases hfault

/-- Taking markers out blames a refused marker of the level. -/
theorem Blaming.applyMarkersFrom (hq : Blaming p q) {tempo : Rat} (h : ∀ n ∈ nodes, p n)
    (hfault : applyMarkersFrom tempo nodes = .error fault) : q fault := by
  induction nodes generalizing tempo with
  | nil => cases hfault
  | cons n rest ih =>
    obtain ⟨hn, hrest⟩ := List.forall_mem_cons.1 h
    rw [Polyrhythm.applyMarkersFrom] at hfault
    split at hfault
    · next marker hmarker =>
      split at hfault
      · next hrefused =>
        cases hfault
        exact hq.marker n marker hn hmarker hrefused
      · exact ih hrest hfault
    · rcases bind_eq_error.1 hfault with hfault | ⟨m, -, hfault⟩
      · rw [Node.adjustTempo, Node.afterWalk, hq.native n hn] at hfault
        cases hfault
      · rcases bind_eq_error.1 hfault with hfault | ⟨ms, -, hfault⟩
        · exact ih hrest hfault
        · cases hfault

/-- Splitting a level blames what reading a part of it blames. -/
theorem blamed_of_splitAt {separator : String} {join : List Node → Node}
    {read : List Node → Except Fault Node}
    (hread : ∀ ns fault, (∀ m ∈ ns, p m) → read ns = .error fault → q fault)
    (h : ∀ n ∈ nodes, p n) (hfault : splitAt separator join read nodes = .error fault) :
    q fault := by
  rw [splitAt] at hfault
  split at hfault
  · rcases bind_eq_error.1 hfault with hparts | ⟨parts, -, hfault⟩
    · obtain ⟨chunk, hchunk, hfault⟩ := exists_of_mapM_eq_error hparts
      have hin : ∀ m ∈ chunk, p m := by
        intro m hm
        exact h m ((mem_of_mem_chunksFrom hchunk hm).resolve_left List.not_mem_nil)
      exact hread chunk fault hin hfault
    · cases hfault
  · cases hfault

/-! ## Levels -/

/-- The first three passes keep what reading blocks keeps. -/
theorem Buildable.tagged (hp : Buildable p) {read : Bool → List Node → Except Fault Node}
    {tagged : List Node}
    (hkept : ∀ isExplicit ns n, (∀ m ∈ ns, p m) → read isExplicit ns = .ok n → p n)
    (h : ∀ n ∈ nodes, p n)
    (htagged : (groupBraces (read true) nodes >>= applyMarkers >>=
      fun nodes => .ok (Polyrhythm.tagHolds nodes)) = .ok tagged) : ∀ n ∈ tagged, p n := by
  obtain ⟨timed, htimed, htagged⟩ := bind_eq_ok.1 htagged
  obtain ⟨grouped, hgrouped, htimed⟩ := bind_eq_ok.1 htimed
  cases htagged
  have hgroup := forall_of_groupBraces (hkept true) h hgrouped
  exact hp.tagHolds (hp.applyMarkersFrom one_pos hgroup htimed)

/-- The five passes blame what reading the levels inside blames, or an element of the level. -/
theorem Blaming.passes (hp : Buildable p) (hq : Blaming p q)
    {read : Bool → List Node → Except Fault Node}
    (hkept : ∀ isExplicit ns n, (∀ m ∈ ns, p m) → read isExplicit ns = .ok n → p n)
    (hread : ∀ isExplicit ns fault, (∀ m ∈ ns, p m) → read isExplicit ns = .error fault → q fault)
    (h : ∀ n ∈ nodes, p n) (hfault : passes read nodes = .error fault) : q fault := by
  rcases bind_eq_error.1 hfault with hfault | ⟨parted, hparted, hfault⟩
  · rcases bind_eq_error.1 hfault with hfault | ⟨tagged, htagged, hfault⟩
    · rcases bind_eq_error.1 hfault with hfault | ⟨timed, -, hfault⟩
      · rcases bind_eq_error.1 hfault with hfault | ⟨grouped, hgrouped, hfault⟩
        · exact hq.groupBraces (hread true) h hfault
        · have hgroup := forall_of_groupBraces (hkept true) h hgrouped
          exact hq.applyMarkersFrom hgroup hfault
      · cases hfault
    · exact blamed_of_splitAt (hread false) (hp.tagged hkept h htagged) hfault
  · obtain ⟨tagged, htagged, hparted⟩ := bind_eq_ok.1 hparted
    have hsplit := forall_of_splitAt (hkept false) hp.simul (hp.tagged hkept h htagged) hparted
    exact blamed_of_splitAt (hread false) hsplit hfault

/-- Reading a level blames an element of it, whatever the bound. -/
theorem Blaming.readLevelWithin (hp : Buildable p) (hq : Blaming p q) {bound : Nat}
    {isExplicit : Bool} (h : ∀ n ∈ nodes, p n)
    (hfault : readLevelWithin bound isExplicit nodes = .error fault) : q fault := by
  induction bound generalizing isExplicit nodes fault with
  | zero => cases hfault
  | succ bound ih =>
    rcases bind_eq_error.1 hfault with hfault | ⟨out, -, hfault⟩
    · refine Blaming.passes hp hq ?_ ?_ h hfault
      · exact fun _ _ _ hns hn => hp.readLevelWithin hns hn
      · exact fun _ _ _ hns hfault => ih hns hfault
    · cases hfault

/-- Building blames a token whose symbol has the property. -/
theorem Blaming.build (hp : Buildable p) (hq : Blaming p q) {tokens : List Token}
    (h : ∀ t ∈ tokens, p t.symbol) (hfault : build tokens = .error fault) : q fault :=
  Blaming.readLevelWithin hp hq (List.forall_mem_map.2 h) hfault

end

/-! ## Tokens to blame -/

/-- An element of a tree that is built from tokens: its leaves stand for tokens, where they say. -/
def Node.StemsFrom (tokens : List Token) : Node → Prop
  | symbol s => ∃ t ∈ tokens, t.content = s.content ∧ s.position = some t.position
  | hold h => ∃ t ∈ tokens, t.content = "_" ∧ h.position = some t.position
  | group .. | simul .. | sequence _ => True
  | held .. | foreign _ => False

/-- A fault of building is about a token of its kind, and says where the token stands, or else it is
about a numeral with too many digits. -/
def Fault.IsAbout (tokens : List Token) : Fault → Prop
  | unopenedBlock p => ∃ t ∈ tokens, t.content = closingBrace ∧ p = some t.position
  | unclosedBlock p => ∃ t ∈ tokens, t.content = openingBrace ∧ p = some t.position
  | invalidMarker content p =>
    ∃ t ∈ tokens, t.content = content ∧ t.isVoid = true ∧ p = some t.position
  | unreadableNumeral digits =>
    ∃ t ∈ tokens, ∃ numeral, t.excess? = some numeral ∧ digits = numeral.length
  | _ => False

open Node

theorem buildable_stemsFrom (tokens : List Token) : Buildable (Every (StemsFrom tokens)) where
  hold s hs hunder := by
    obtain ⟨t, ht, hcontent, hposition⟩ := every_symbol.1 hs
    exact every_hold.2 ⟨t, ht, hcontent.trans hunder, hposition⟩
  scaleTempo n factor _ h := by
    refine every_scaleTempo.2 (h.imp ?_)
    intro m hm
    cases m <;> exact hm
  group _ _ h := every_group.2 ⟨trivial, h⟩
  simul _ h := every_simul.2 ⟨trivial, h⟩
  sequence _ h := every_sequence.2 ⟨trivial, h⟩

/-- A symbol is about the token it stems from. -/
theorem blaming_stemsFrom (tokens : List Token) :
    Blaming (Every (StemsFrom tokens)) (Fault.IsAbout tokens) where
  closing n hn hclose := by
    cases n with
    | symbol s =>
      obtain ⟨t, ht, hcontent, hposition⟩ := every_symbol.1 hn
      exact ⟨t, ht, hcontent.trans (of_decide_eq_true hclose), hposition⟩
    | _ => cases hclose
  opening n hn hopen := by
    cases n with
    | symbol s =>
      obtain ⟨t, ht, hcontent, hposition⟩ := every_symbol.1 hn
      exact ⟨t, ht, hcontent.trans (of_decide_eq_true hopen), hposition⟩
    | _ => cases hopen
  marker n marker hn hmarker hrefused := by
    cases n with
    | symbol s =>
      obtain ⟨t, ht, hcontent, hposition⟩ := every_symbol.1 hn
      have hread : t.marker? = some marker := by rw [Token.marker?, hcontent]; exact hmarker
      rw [Marker.refusal]
      cases hexcess : marker.excess? with
      | some numeral =>
        exact ⟨t, ht, numeral, by rw [Token.excess?, hread]; exact hexcess, rfl⟩
      | none =>
        rw [Marker.isRefused, hexcess] at hrefused
        exact ⟨t, ht, hcontent, by rw [Token.isVoid, hread]; exact hrefused, hposition⟩
    | _ => cases hmarker
  native _ hn := firstForeign_eq_none hn fun _ h => h

theorem stemsFrom_symbol {tokens : List Token} : ∀ t ∈ tokens, t.symbol.Every (StemsFrom tokens) :=
  fun t ht => every_symbol.2 ⟨t, ht, rfl, rfl⟩

/-- The leaves of what is built stand for tokens. -/
theorem stemsFrom_of_build {tokens : List Token} {root : Node} (h : build tokens = .ok root) :
    root.Every (StemsFrom tokens) :=
  (buildable_stemsFrom tokens).build stemsFrom_symbol h

/-- Building fails at a token: a brace or a refused marker. -/
theorem blamed_of_build {tokens : List Token} {fault : Fault} (h : build tokens = .error fault) :
    fault.IsAbout tokens :=
  Blaming.build (buildable_stemsFrom tokens) (blaming_stemsFrom tokens) stemsFrom_symbol h

end Polyrhythm
