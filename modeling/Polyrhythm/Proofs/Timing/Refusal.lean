import Polyrhythm.Proofs.Grammar.Blame
import Polyrhythm.Proofs.Grammar.Excess
import Polyrhythm.Proofs.Grammar.Numeral
import Polyrhythm.Proofs.Timing.Loose
import Polyrhythm.Proofs.Timing.Word
import Polyrhythm.Proofs.Token.Places

/-!
# What is refused, and where

Every stage of parsing refuses a text for something that it can point at: the lexer for a character,
building for a brace or a marker with a zero, annotating for a hold with nothing to hold. The tokens
stand in the text where they say, and leaves keep the positions of their tokens through all passes,
so the fault points at a character of the text (`parse_points`). The one exception is the limit of
digits: a marker or a timed tree that exceeds it is refused without a position
(`Fault.ExceedsLimit`). No other fault comes up at any stage.
-/

namespace Polyrhythm

open Traversal Node

/-! ## Positions of holds -/

/-- If an element is a hold, it stands for an underscore among the tokens. -/
def Node.HoldStemsFrom (tokens : List Token) (n : Node) : Prop :=
  ∀ h, n = hold h → ∃ t ∈ tokens, t.content = "_" ∧ h.position = some t.position

variable {tokens : List Token} {root : Node}

/-- Laying a tree out leaves the holds where they stand. -/
theorem holdStemsFrom_laid (hwritten : root.Written) (h : root.Every (StemsFrom tokens))
    (factor : Rat) : (root.laid factor).Every (HoldStemsFrom tokens) := by
  refine every_laid ?_ ?_ hwritten h factor
  · intro n factor hn s hs
    cases n with
    | hold s' =>
      cases hs
      exact every_hold.1 hn
    | _ => cases hs
  · intro n d hn s hs
    cases n with
    | hold s' =>
      cases hs
      exact hn s' rfl
    | _ => cases hs

/-- A loose hold of a tree is an element of it. -/
theorem Node.mem_walk_of_mem_looseInTree {h : Hold} (hloose : h ∈ root.looseInTree) :
    hold h ∈ root.walk := by
  rw [looseInTree, looseAmong, List.flatMap_singleton] at hloose
  rcases List.mem_append.1 hloose with hlead | hloose
  · have hmem := mem_of_leadingHold? (Option.mem_toList.1 hlead)
    rw [List.mem_singleton.1 hmem, walk_eq_cons]
    exact List.mem_cons_self
  · exact mem_walk_of_mem_looseHolds hloose

/-- Annotating what is built fails only at an underscore among the tokens, or because the timed tree
has a number with too many digits. -/
theorem blamed_of_annotate {fault : Fault} (hroot : build tokens = .ok root)
    (h : root.annotate = .error fault) :
    (∃ t ∈ tokens, t.content = "_" ∧ fault = .nothingToHold (some t.position)) ∨
      fault = .unwritableNumber ∧ ∃ tree, root.timed = .ok tree ∧ tree.isWritable = false := by
  have hwritten := written_of_build hroot
  refine ((annotate_eq_error hwritten).1 h).imp_left fun htimed => ?_
  obtain ⟨s, hs, rfl⟩ := (failsAt_timed hwritten).error htimed
  have hholds := holdStemsFrom_laid hwritten (stemsFrom_of_build hroot) 1
  obtain ⟨t, ht, hcontent, hposition⟩ := hholds _ (mem_walk_of_mem_looseInTree hs) s rfl
  exact ⟨t, ht, hcontent, by rw [hposition]⟩

/-! ## Outlines -/

/-- No duration is known while a tree is built. -/
theorem buildable_numbers : Buildable (Every fun n => n.numbers = []) where
  hold _ _ _ := every_hold.2 rfl
  scaleTempo n factor _ h := by
    refine every_scaleTempo.2 (h.imp ?_)
    intro m hm
    cases m <;> exact hm
  group _ _ h := every_group.2 ⟨rfl, h⟩
  simul _ h := every_simul.2 ⟨rfl, h⟩
  sequence _ h := every_sequence.2 ⟨rfl, h⟩

/-- What is built can be shown, before durations are known. -/
theorem outline_of_build (h : build tokens = .ok root) (level : Int) :
    ∃ shown, root.outline level = .ok shown := by
  have hshown : root.Every Shown := by
    refine (written_of_build h).imp ?_
    intro n hn
    cases n with
    | symbol s => exact fun pitch hpitch => absurd (hn.2.symm.trans hpitch) nofun
    | hold | group | simul | sequence => trivial
    | held | foreign => exact hn.elim
  have hnumbers : root.Every fun n => n.numbers = [] :=
    buildable_numbers.build (fun _ _ => every_symbol.2 rfl) h
  have hwritable : root.isWritable = true := by
    refine List.all_eq_true.2 fun n hn => ?_
    rw [hnumbers n hn]
    rfl
  have hwrites := writes_outline hshown level
  rwa [hwritable] at hwrites

/-! ## Texts -/

/-- A fault points at a character of the text that it is about: a character that is refused, a
brace, the slash of a marker with a zero, or an underscore. -/
def Fault.PointsAt (text : List Char) : Fault → Prop
  | invalidCharacter c p => Stands text [c] p ∧ IsRejected c
  | unopenedBlock p => ∃ q, p = some q ∧ Stands text ['}'] q
  | unclosedBlock p => ∃ q, p = some q ∧ Stands text ['{'] q
  | invalidMarker content p =>
    ∃ q marker, p = some q ∧ Stands text content.toList q ∧ Stands text ['/'] q ∧
      Marker.read? content.toList = some marker ∧ marker.isVoid = true
  | nothingToHold p => ∃ q, p = some q ∧ Stands text ['_'] q
  | _ => False

/-- A fault is about the limit of digits: a marker of the text has a numeral that exceeds it, or a
number in the timed tree does. -/
def Fault.ExceedsLimit (text : String) : Fault → Prop
  | unreadableNumeral digits =>
    ∃ tokens, tokenize text = .ok tokens ∧
      ∃ t ∈ tokens, ∃ numeral, t.excess? = some numeral ∧ digits = numeral.length
  | unwritableNumber =>
    ∃ tokens root tree, tokenize text = .ok tokens ∧ build tokens = .ok root ∧
      root.timed = .ok tree ∧ tree.isWritable = false
  | _ => False

/-- A marker starts with a slash. -/
theorem Marker.exists_cons_of_read? {content : List Char} {marker : Marker}
    (h : Marker.read? content = some marker) : ∃ rest, content = '/' :: rest := by
  rw [Marker.read?.eq_def] at h
  split at h
  · exact ⟨_, rfl⟩
  · cases h

/-- A fault about a token points at the character of the text that the token starts with, unless it
is about the limit of digits. -/
theorem pointsAt_of_isAbout {text : String} {fault : Fault} (htokens : tokenize text = .ok tokens)
    (h : fault.IsAbout tokens) : fault.PointsAt text.toList ∨ fault.ExceedsLimit text := by
  have hstands := stands_of_tokenize htokens
  cases fault with
  | unopenedBlock p =>
    obtain ⟨t, ht, hcontent, rfl⟩ := h
    have hstands := hstands t ht
    rw [hcontent] at hstands
    exact .inl ⟨_, rfl, hstands⟩
  | unclosedBlock p =>
    obtain ⟨t, ht, hcontent, rfl⟩ := h
    have hstands := hstands t ht
    rw [hcontent] at hstands
    exact .inl ⟨_, rfl, hstands⟩
  | invalidMarker content p =>
    obtain ⟨t, ht, rfl, hvoid, rfl⟩ := h
    obtain ⟨marker, hmarker, hvoid⟩ := (Option.any_eq_true _ _).1 hvoid
    obtain ⟨rest, hrest⟩ := Marker.exists_cons_of_read? hmarker
    have hstands := hstands t ht
    exact .inl ⟨_, marker, rfl, hstands, (hrest ▸ hstands).head, hmarker, hvoid⟩
  | unreadableNumeral digits => exact .inr ⟨tokens, htokens, h⟩
  | _ => exact h.elim

/-- A text is parsed, or refused with a fault that points at the character to blame, or refused
because of the limit of digits; and what is built on the way can be shown. -/
theorem parse_points (text : String) :
    ((∃ tree, parse text = .ok tree) ∨
      ∃ fault, parse text = .error fault ∧
        (fault.PointsAt text.toList ∨ fault.ExceedsLimit text)) ∧
    ∀ tokens root, tokenize text = .ok tokens → build tokens = .ok root →
      ∃ shown, root.outline 0 = .ok shown := by
  refine ⟨?_, fun _ _ _ hroot => outline_of_build hroot 0⟩
  cases hparse : parse text with
  | ok tree => exact .inl ⟨tree, rfl⟩
  | error fault =>
    refine .inr ⟨fault, rfl, ?_⟩
    rcases bind_eq_error.1 hparse with hlexer | ⟨tokens, htokens, hparse⟩
    · obtain ⟨c, p, rfl, hstands, hrejected⟩ := rejected_of_tokenize hlexer
      exact .inl ⟨hstands, hrejected⟩
    · rcases bind_eq_error.1 hparse with hbuild | ⟨root, hroot, hannotate⟩
      · exact pointsAt_of_isAbout htokens (blamed_of_build hbuild)
      · rcases blamed_of_annotate hroot hannotate with
          ⟨t, ht, hcontent, rfl⟩ | ⟨rfl, tree, htree, hlong⟩
        · have hstands := stands_of_tokenize htokens t ht
          rw [hcontent] at hstands
          exact .inl ⟨_, rfl, hstands⟩
        · exact .inr ⟨tokens, root, tree, htokens, hroot, htree, hlong⟩

/-- A text with a block, a marker and a hold is built, and can be shown then. -/
theorem parse_points_shown :
    ∃ tokens root shown, tokenize "a \x7b/2 b, _\x7d" = .ok tokens ∧ build tokens = .ok root ∧
      root.outline 0 = .ok shown := by
  have hrun : (tokenize "a \x7b/2 b, _\x7d" >>= build).isOk = true := by decide +kernel
  cases htokens : tokenize "a \x7b/2 b, _\x7d" with
  | error fault =>
    rw [htokens] at hrun
    cases hrun
  | ok tokens =>
    rw [htokens] at hrun
    change (build tokens).isOk = true at hrun
    cases hroot : build tokens with
    | error fault =>
      rw [hroot] at hrun
      cases hrun
    | ok root =>
      obtain ⟨shown, hshown⟩ := (parse_points _).2 tokens root htokens hroot
      exact ⟨tokens, root, shown, rfl, hroot, hshown⟩

/-- A marker is an identifier. -/
theorem isIdentifier_tenfold (n : Nat) :
    IsIdentifier ('/' :: '1' :: List.replicate n '0') := by
  have hdigit (c : Char) (hc : c = '0' ∨ c = '1') : Text.isBlank c = false ∧ isSpecial c = false ∧
      Lexer.depthAfter 0 c = 0 := by
    rcases hc with rfl | rfl <;> decide +kernel
  have hzeros : GoesOn 0 (List.replicate n '0') := by
    induction n with
    | zero => exact goesOn_nil
    | succ n ih =>
      obtain ⟨hblank, hspecial, hdepth⟩ := hdigit '0' (.inl rfl)
      exact goesOn_cons.2 ⟨fun _ => ⟨hblank, hspecial⟩, hdepth ▸ ih⟩
  obtain ⟨hblank, hspecial, hdepth⟩ := hdigit '1' (.inr rfl)
  exact isIdentifier_cons.2 ⟨by decide +kernel,
    goesOn_cons.2 ⟨fun _ => ⟨hblank, hspecial⟩, hdepth ▸ hzeros⟩⟩

/-- A text that is a marker with a digit too many is refused, and the fault points at nothing. -/
theorem parse_points_fails :
    parse (Token.tenfold Number.digitLimit).content =
        .error (.unreadableNumeral (Number.digitLimit + 1)) ∧
      ¬(Fault.unreadableNumeral (Number.digitLimit + 1)).PointsAt
        (Token.tenfold Number.digitLimit).content.toList := by
  refine ⟨?_, id⟩
  have hmatch : BracesMatch [.tenfold Number.digitLimit] :=
    (bracesMatch_cons_marker (Token.marker?_tenfold _) []).2 rfl
  have hbuild := build_of_tenfold le_rfl hmatch (List.forall_mem_singleton.2 (.inl rfl))
    List.mem_cons_self
  have htokens := tokenize_word (isIdentifier_tenfold Number.digitLimit)
  refine bind_eq_error.2 (.inr ⟨_, htokens, bind_eq_error.2 (.inl hbuild)⟩)

end Polyrhythm
