import Polyrhythm.Proofs.Timing.WellFormed
import Polyrhythm.Sound.Realize

/-!
# What realizing can fail at

Realizing a tree can fail at what the tree is realized with: at a name that is not known, at a
number that is too large, at a sound without rules of its own. These are fair failures. A fault is
internal if it blames an element that should be gone from an annotated tree, or a duration that
should be known. No arithmetic, no sound and no table comes upon such a fault, and realizing a
gathered tree does not add one (`Node.fair_realizeWith`). So every text that is annotated becomes a
finished tree, and whatever it is realized with, it fails fairly if it fails
(`wellFormed_of_build`).
-/

namespace Polyrhythm

open Traversal

/-- Whether a fault lies with a tree that should not have been made. -/
def Fault.isInternal : Fault → Bool
  | unflattenedSequence | unknownDuration _ | unknownKind _ | unplayable _ => true
  | _ => false

/-- A step that, if it fails, does not fail at anything internal. -/
def Fair {α : Type} (x : Except Fault α) : Prop :=
  ∀ fault, x = .error fault → fault.isInternal = false

/-! ## Steps in a row -/

section
variable {α β : Type} {x : Except Fault α} {f : α → Except Fault β}

theorem Fair.ok (a : α) : Fair (.ok a) := nofun

theorem Fair.error {fault : Fault} (h : fault.isInternal = false) :
    Fair (.error fault : Except Fault α) := by
  intro other hother
  cases hother
  exact h

/-- Two fair steps in a row are fair. -/
theorem Fair.bind (hx : Fair x) (hf : ∀ a, Fair (f a)) : Fair (x >>= f) := by
  intro fault h
  rcases bind_eq_error.1 h with h | ⟨a, -, h⟩
  · exact hx fault h
  · exact hf a fault h

/-- A fair step after which nothing can fail. -/
theorem Fair.map (hx : Fair x) (g : α → β) : Fair (do return g (← x)) :=
  hx.bind fun a => Fair.ok (g a)

/-- A traversal is fair if every step is. -/
theorem Fair.mapM {xs : List α} (h : ∀ x ∈ xs, Fair (f x)) : Fair (xs.mapM f) := by
  intro fault hfault
  obtain ⟨x, hx, hfault⟩ := exists_of_mapM_eq_error hfault
  exact h x hx fault hfault

end

/-! ## Arithmetic -/

namespace Quantity

theorem fair_nearestReal (q : Rat) : Fair (nearestReal q) := by
  rw [nearestReal]
  split
  · exact Fair.ok _
  · exact Fair.error rfl

theorem fair_toReal (a : Quantity) : Fair a.toReal := by
  cases a with
  | whole n => exact fair_nearestReal n
  | ratio q => exact fair_nearestReal q
  | real x => exact Fair.ok x

/-- A rule for all kinds of operands is fair if the exact one and the real one are. -/
theorem fair_combine {exact : Rat → Rat → Except Fault Rat}
    {inexact : Float → Float → Except Fault Float} (hexact : ∀ p q, Fair (exact p q))
    (hinexact : ∀ x y, Fair (inexact x y)) (a b : Quantity) : Fair (combine exact inexact a b) := by
  cases a with
  | real x => exact (fair_toReal b).bind fun y => (hinexact x y).map real
  | whole m =>
    cases b with
    | whole n => exact (hexact m n).map ratio
    | ratio q => exact (hexact m q).map ratio
    | real y => exact (fair_toReal (whole m)).bind fun x => (hinexact x y).map real
  | ratio p =>
    cases b with
    | whole n => exact (hexact p n).map ratio
    | ratio q => exact (hexact p q).map ratio
    | real y => exact (fair_toReal (ratio p)).bind fun x => (hinexact x y).map real

theorem fair_add (a b : Quantity) : Fair (a.add b) := by
  have hcombine := fair_combine (fun p q => Fair.ok (p + q)) (fun x y => Fair.ok (x + y)) a b
  cases a with
  | whole m =>
    cases b with
    | whole n => exact Fair.ok _
    | ratio | real => exact hcombine
  | ratio | real => exact hcombine

theorem fair_mul (a b : Quantity) : Fair (a.mul b) := by
  have hcombine := fair_combine (fun p q => Fair.ok (p * q)) (fun x y => Fair.ok (x * y)) a b
  cases a with
  | whole m =>
    cases b with
    | whole n => exact Fair.ok _
    | ratio | real => exact hcombine
  | ratio | real => exact hcombine

theorem fair_quotient (p q : Rat) : Fair (quotient p q) := by
  rw [quotient]
  split
  · exact Fair.error rfl
  · exact Fair.ok _

theorem fair_realQuotient (x y : Float) : Fair (realQuotient x y) := by
  rw [realQuotient]
  split
  · exact Fair.error rfl
  · exact Fair.ok _

theorem fair_div (a b : Quantity) : Fair (a.div b) := by
  have hcombine := fair_combine fair_quotient fair_realQuotient a b
  cases a with
  | whole m =>
    cases b with
    | whole n =>
      refine (fair_quotient m n).bind fun q => ?_
      split
      · exact Fair.ok _
      · exact (fair_nearestReal q).map real
    | ratio | real => exact hcombine
  | ratio | real => exact hcombine

theorem fair_sum (quantities : List Quantity) : Fair (sum quantities) := by
  have starting (total : Quantity) : Fair (quantities.foldlM add total) := by
    induction quantities generalizing total with
    | nil => exact Fair.ok total
    | cons q quantities ih => exact (fair_add total q).bind ih
  exact starting (whole 0)

end Quantity

/-! ## Sounds -/

namespace Sound

theorem fair_arrange (a : Arrangement) (ss : List Sound) (stated : Option Quantity) :
    Fair (arrange a ss stated) := by
  cases stated with
  | some d => exact Fair.ok _
  | none =>
    have hnatural : Fair (naturalDuration ss a) := by
      cases a with
      | inTurn => exact Quantity.fair_sum _
      | together => exact Fair.ok _
      | unspecified => exact Fair.error rfl
    exact hnatural.map _

mutual
theorem fair_fit (new : Quantity) (s : Sound) : Fair (s.fit new) := by
  cases s with
  | note | pause => exact Fair.ok _
  | container a objects old =>
    rw [fit]
    split
    · exact Fair.ok _
    · exact (Quantity.fair_div new old).bind fun factor => (fair_fitEach factor objects).map _
  | bare => exact Fair.error rfl

theorem fair_fitEach (factor : Quantity) (ss : List Sound) : Fair (fitEach factor ss) := by
  cases ss with
  | nil => exact Fair.ok _
  | cons s ss =>
    exact (Quantity.fair_mul s.duration factor).bind fun own =>
      (fair_fit own s).bind fun t => (fair_fitEach factor ss).map _
end

theorem fair_fill (slots : List Quantity) (s : Sound) : Fair (s.fill slots) := by
  have struck (s : Sound) :
      Fair (do arrange .inTurn (← slots.mapM fun slot => s.fit slot) none) :=
    (Fair.mapM fun slot _ => fair_fit slot s).bind fun parts => fair_arrange .inTurn parts none
  cases s with
  | note name duration pitch isContinuous =>
    cases isContinuous with
    | true => exact (Quantity.fair_sum slots).map _
    | false => exact struck _
  | pause | container | bare => exact struck _

end Sound

/-- A table fails at a name that it does not know or at what it keeps. -/
theorem Table.fair_resolve (table : Table) (name : String) (duration : Quantity) :
    Fair (table.resolve name duration) := by
  rw [Table.resolve]
  split
  · exact Sound.fair_fit duration _
  · exact Fair.error rfl

/-- Who is to blame for a failed lookup does not make it internal. -/
theorem Fault.isInternal_blamedOn (s : Symbol) (fault : Fault) :
    (fault.blamedOn s).isInternal = fault.isInternal := by
  cases fault with
  | unknownSound _ position | lookupRefused _ position => cases position <;> rfl
  | _ => rfl

/-! ## Trees -/

namespace Node

variable {measure : Rat → Except Fault Quantity} {resolve : Resolver} {tree : Node}

theorem fair_needed (duration : Option Rat) : Fair (needed duration) := by
  cases duration with
  | some d => exact Fair.ok d
  | none => exact Fair.error rfl

theorem fair_realizeSymbol (hmeasure : ∀ d, Fair (measure d))
    (hresolve : ∀ name d, Fair (resolve name d)) (s : Symbol) :
    Fair (realizeSymbol measure resolve s) := by
  refine (fair_needed s.duration).bind fun d => (hmeasure d).bind fun duration => ?_
  have hlookup := hresolve s.content duration
  cases hfound : resolve s.content duration with
  | error fault =>
    exact Fair.error ((Fault.isInternal_blamedOn s fault).trans (hlookup fault hfound))
  | ok sound =>
    cases s.pitch with
    | none => exact Fair.ok sound
    | some pitch => exact Fair.ok _

/-- A gathered tree fails fairly to be realized, if it does so at all, when its durations can be
measured fairly and its names are resolved fairly. -/
theorem fair_realizeWith (hmeasure : ∀ d, Fair (measure d))
    (hresolve : ∀ name d, Fair (resolve name d)) (h : tree.Every Gathered) :
    Fair (tree.realizeWith measure resolve) := by
  have each {content : List Node} (hcontent : ∀ c ∈ content, Fair (c.realizeWith measure resolve)) :
      Fair (realizeEach measure resolve content) := by
    induction content with
    | nil => exact Fair.ok _
    | cons c content ih =>
      obtain ⟨hc, hcontent⟩ := List.forall_mem_cons.1 hcontent
      exact hc.bind fun sound => (ih hcontent).map _
  induction tree with
  | symbol s => exact fair_realizeSymbol hmeasure hresolve s
  | hold | sequence | foreign => exact h.self.elim
  | group content isExplicit duration ih =>
    exact (each fun c hc => ih c hc (h.child hc)).bind fun sounds =>
      Sound.fair_arrange .inTurn sounds none
  | simul content duration ih =>
    exact (each fun c hc => ih c hc (h.child hc)).bind fun sounds =>
      Sound.fair_arrange .together sounds none
  | held content s ih =>
    have hslots : Fair (s.slots.elim (.error .wrongType) .ok) := by
      cases s.slots with
      | none => exact Fair.error rfl
      | some slots => exact Fair.ok slots
    exact (ih (every_held.1 h).2).bind fun sound => hslots.bind fun slots =>
      (Fair.mapM fun slot _ => hmeasure slot).bind fun measured => Sound.fair_fill measured sound

end Node

open Node

/-- What is annotated is a finished tree, and there is no table and no unit of time with which it
fails to be realized at anything internal. -/
theorem wellFormed_of_build {tokens : List Token} {tree : Node}
    (h : (build tokens >>= annotate) = .ok tree) :
    tree.WellFormed ∧ ∀ (table : Table) (unit : Quantity) (fault : Fault),
      tree.realize table.resolve unit = .error fault → fault.isInternal = false := by
  obtain ⟨root, hroot, htree⟩ := bind_eq_ok.1 h
  have hwritten := written_of_build hroot
  obtain ⟨hformed, honce, hheld⟩ := formed_of_annotate hwritten htree
  refine ⟨wellFormed_of_formed hformed honce hheld, fun table unit => ?_⟩
  exact fair_realizeWith (fun d => Quantity.fair_mul (.ratio d) unit) table.fair_resolve
    (gathered_of_annotate hwritten htree)

/-- A text with a hold, an empty block that is fitted to a segment, and a part after a comma. -/
theorem wellFormed_of_build_held :
    ∃ tokens tree, tokens.map Token.content = ["a", "_", ".", "\x7b", "\x7d", ",", "/5", "b"] ∧
      (build tokens >>= annotate) = .ok tree ∧ tree.walk.any isHeld = true ∧ tree.WellFormed ∧
      ∀ (table : Table) (unit : Quantity) (fault : Fault),
        tree.realize table.resolve unit = .error fault → fault.isInternal = false := by
  have hrun : (build (["a", "_", ".", "\x7b", "\x7d", ",", "/5", "b"].map (Token.mk · .start)) >>=
      annotate).toOption.map (fun tree => tree.walk.any isHeld) = some true := by decide +kernel
  cases htree : build (["a", "_", ".", "\x7b", "\x7d", ",", "/5", "b"].map (Token.mk · .start)) >>=
      annotate with
  | error fault =>
    rw [htree] at hrun
    cases hrun
  | ok tree =>
    rw [htree] at hrun
    obtain ⟨hformed, hfair⟩ := wellFormed_of_build htree
    exact ⟨_, tree, rfl, htree, Option.some.inj hrun, hformed, hfair⟩

end Polyrhythm
