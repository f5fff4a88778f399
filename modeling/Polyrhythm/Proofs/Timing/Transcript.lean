import Mathlib.Data.List.Forall2
import Polyrhythm.Proofs.Grammar.Scope
import Polyrhythm.Proofs.Timing.Lengths
import Polyrhythm.Proofs.Timing.Literal
import Polyrhythm.Proofs.Token.Writing

/-!
# What a tree keeps of its text

The leaves of a parsed tree are symbols, one for each token that names a sound or a rest, in the
order of the text and with the positions of the tokens; a symbol has the content of its token, or
the token is the content with a pitch between parentheses (`Transcribes`). The underscores are all
in the slots of held elements. So nothing that is written is lost, written twice or moved. Settling
keeps the leaves and their order (`Node.leaves_laid`); gathering takes the holds out of them and
counts each in a slot (`Node.leaves_gatherInside`).
-/

namespace Polyrhythm

namespace Node

open Traversal

/-! ## Slots -/

/-- The slots of a held element besides its own. -/
def extraSlots : Node → Nat
  | held _ h => (h.slots.getD []).length - 1
  | _ => 0

/-- The slots that the held elements of a tree have besides their own. -/
def heldSlots (n : Node) : Nat := (n.walk.map extraSlots).sum

variable {n m : Node} {ns out : List Node}

/-- The held slots of an element are its own and those of its children. -/
theorem heldSlots_eq (n : Node) :
    n.heldSlots = n.extraSlots + (n.children.map heldSlots).sum := by
  rw [heldSlots, walk_eq_cons, List.map_cons, List.sum_cons, List.map_flatMap, List.flatMap_def,
    List.sum_flatten, List.map_map]
  rfl

/-- Holding an element over slots leaves its leaves. -/
theorem leaves_heldOver (n : Node) (slots : List Rat) : (n.heldOver slots).leaves = n.leaves := by
  rw [heldOver]
  split
  · rfl
  · rw [leaves_eq_flatMap rfl]
    simp [children]

/-- Holding an element over slots adds as many. -/
theorem heldSlots_heldOver (n : Node) (slots : List Rat) :
    (n.heldOver slots).heldSlots = slots.length + n.heldSlots := by
  rw [heldOver]
  split
  · next h => rw [List.isEmpty_iff.1 h, List.length_nil, zero_add]
  · rw [heldSlots_eq, children, List.map_singleton, List.sum_singleton]
    rfl

/-! ## Gathering -/

/-- The leaves that are not holds. -/
def sounds (n : Node) : List Node := n.leaves.filter fun l => !l.isHold

/-- The number of holds among the leaves. -/
def holdCount (n : Node) : Nat := n.leaves.countP isHold

/-- Gathering a list takes the holds out of the leaves and makes a slot of each, if it does so
inside each element. -/
theorem Runs.leaves {inside : Node → Node → Prop} (h : Runs inside ns out)
    (hinside : ∀ n ∈ ns, ∀ m, n.isHold = false → inside n m →
      m.leaves = n.sounds ∧ m.heldSlots = n.holdCount) :
    out.flatMap Node.leaves = ns.flatMap sounds ∧
      (out.map heldSlots).sum = (ns.map holdCount).sum := by
  induction h with
  | nil => exact ⟨rfl, rfl⟩
  | @cons n m holds slots rest out hn hnm hslots _ ih =>
    obtain ⟨hleaves, hcount⟩ := hinside n List.mem_cons_self m hn hnm
    obtain ⟨hleaves', hcount'⟩ := ih fun c hc => hinside c (by simp [hc])
    have hlength : slots.length = holds.length := by
      simpa using (congrArg List.length hslots).symm
    have hsounds : (holds.map hold).flatMap sounds = [] := by
      simp [sounds, isHold]
    have hholds : ((holds.map hold).map holdCount).sum = holds.length := by
      simp [holdCount, Function.comp_def, isHold]
    constructor
    · rw [List.flatMap_cons, List.flatMap_cons, List.flatMap_append, leaves_heldOver, hleaves,
        hleaves', hsounds, List.nil_append]
    · rw [List.map_cons, List.sum_cons, List.map_cons, List.sum_cons, List.map_append,
        List.sum_append, heldSlots_heldOver, hcount, hcount', hholds, hlength]
      omega

/-- The leaves that are not holds are those of the children of a composite. -/
theorem sounds_eq_flatMap (h : n.isLeaf = false) : n.sounds = n.children.flatMap sounds := by
  rw [sounds, leaves_eq_flatMap h, List.filter_flatMap]
  rfl

/-- The holds of a composite are those of its children. -/
theorem holdCount_eq_sum (h : n.isLeaf = false) :
    n.holdCount = (n.children.map holdCount).sum := by
  rw [holdCount, leaves_eq_flatMap h, List.countP_flatMap]
  rfl

/-- Gathering inside an element of a settled tree takes the holds out of its leaves and makes a slot
of each. -/
theorem leaves_gatherInside (hsettled : n.Every Settled) (hhold : n.isHold = false)
    (hm : n.gatherInside = .ok m) : m.leaves = n.sounds ∧ m.heldSlots = n.holdCount := by
  induction n generalizing m with
  | symbol s =>
    cases hm
    exact ⟨rfl, rfl⟩
  | hold => cases hhold
  | group content isExplicit duration ih =>
    obtain ⟨out, hout, hm⟩ := bind_eq_ok.1 hm
    cases hm
    have hruns := runs_of_gatherFrom (fun c hc => (hsettled.child hc).self.1.duration?) hout
    rw [leaves_eq_flatMap rfl, heldSlots_eq, show extraSlots _ = 0 from rfl, zero_add,
      sounds_eq_flatMap rfl, holdCount_eq_sum rfl]
    exact hruns.leaves fun c hc m hhold hm => ih c hc (hsettled.child hc) hhold hm
  | simul content duration ih =>
    obtain ⟨out, hout, hm⟩ := bind_eq_ok.1 hm
    cases hm
    have hruns := runs_of_gatherFrom (fun c hc => (hsettled.child hc).self.1.duration?) hout
    rw [leaves_eq_flatMap rfl, heldSlots_eq, show extraSlots _ = 0 from rfl, zero_add,
      sounds_eq_flatMap rfl, holdCount_eq_sum rfl]
    exact hruns.leaves fun c hc m hhold hm => ih c hc (hsettled.child hc) hhold hm
  | sequence => exact hsettled.self.1.elim
  | held => cases hsettled.self.2
  | foreign => exact hsettled.self.1.elim

end Node

open Node

/-! ## Tokens and leaves -/

/-- A token names a sound or a rest: it is no underscore, comma, period, brace or tempo marker. -/
def Token.isNaming (t : Token) : Bool :=
  t.content ∉ ["_", ",", ".", openingBrace, closingBrace] && t.marker?.isNone

/-- A leaf is the symbol that a token writes: at its position, and with its content, or with the
name in its content and as pitch the number of the literal in it. -/
def Transcribes (t : Token) (n : Node) : Prop :=
  ∃ s : Symbol, n = .symbol s ∧ s.position = some t.position ∧
    ((s.pitch = none ∧ s.content = t.content ∧
        ∀ name literal, ¬ IsPitched t.content name literal) ∨
      ∃ literal x, IsPitched t.content s.content literal ∧
        Number.readReal? literal = some x ∧ s.pitch = some (.real x))

variable {t : Token} {tokens : List Token} {root : Node}

/-- A line feed after the closing parenthesis of a name and a literal is in no lexeme. -/
theorem Lexeme.Valid.ne_append_feed {l : Lexeme} (h : l.Valid) {name literal : List Char}
    (hplain : ∀ c ∈ name ++ literal, c ≠ '(' ∧ c ≠ ')') :
    l.content ≠ name ++ '(' :: (literal ++ [')', '\n']) := by
  intro hcontent
  have hdepth {cs : List Char} (hcs : ∀ c ∈ cs, c ≠ '(' ∧ c ≠ ')') (depth : Nat) :
      cs.foldl Lexer.depthAfter depth = depth := by
    induction cs with
    | nil => rfl
    | cons c cs ih =>
      obtain ⟨hc, hcs⟩ := List.forall_mem_cons.1 hcs
      rw [List.foldl_cons, Lexer.depthAfter, if_neg hc.1, if_neg hc.2, ih hcs]
  rcases h.content with ⟨c, -, hc⟩ | hword
  · have hlength := congrArg List.length (hcontent.symm.trans hc)
    simp at hlength
    omega
  · rw [hcontent] at hword
    cases name with
    | nil =>
      obtain ⟨hstarts, -⟩ := isIdentifier_cons.1 hword
      revert hstarts
      decide +kernel
    | cons c name =>
      obtain ⟨-, hgoes⟩ := isIdentifier_cons.1 hword
      have hname : ∀ c ∈ name, c ≠ '(' ∧ c ≠ ')' := fun c hc => hplain c (by simp [hc])
      have hliteral : ∀ c ∈ literal, c ≠ '(' ∧ c ≠ ')' := fun c hc => hplain c (by simp [hc])
      have hclosed : (name ++ '(' :: (literal ++ [')'])).foldl Lexer.depthAfter 0 = 0 := by
        rw [List.foldl_append, hdepth hname, List.foldl_cons, List.foldl_append, hdepth hliteral]
        rfl
      have hfeed := hgoes (name ++ '(' :: (literal ++ [')'])) '\n' [] (by simp) hclosed
      revert hfeed
      decide

/-- A token makes no leaf, or a hold if it is an underscore, or the symbol that it names. -/
theorem Token.leaf?_cases (t : Token) (tempo : Rat) :
    (t.leaf? tempo = none ∧ t.isNaming = false ∧ t.content ≠ "_") ∨
    (t.leaf? tempo = some (.hold ⟨some t.position, tempo, none, none⟩) ∧ t.isNaming = false ∧
      t.content = "_") ∨
    (t.leaf? tempo = some (.symbol ⟨t.content, some t.position, tempo, none, none⟩) ∧
      t.isNaming = true ∧ t.content ≠ "_") := by
  by_cases hunder : t.content = "_"
  · have hmarker : t.marker? = none := by
      rw [marker?, hunder]
      decide
    refine .inr (.inl ⟨?_, by simp [isNaming, hunder], hunder⟩)
    simp [leaf?, hunder, hmarker, openingBrace, closingBrace]
  · by_cases hnone : t.content = openingBrace ∨ t.content = closingBrace ∨ t.content = "," ∨
        t.content = "." ∨ t.marker?.isSome
    · refine .inl ⟨by rw [leaf?, if_pos hnone], ?_, hunder⟩
      rw [isNaming, Bool.and_eq_false_iff]
      rcases hnone with h | h | h | h | h
      · exact .inl (by simp [h])
      · exact .inl (by simp [h])
      · exact .inl (by simp [h])
      · exact .inl (by simp [h])
      · exact .inr (by simpa [Option.isSome_iff_ne_none] using h)
    · refine .inr (.inr ⟨by rw [leaf?, if_neg hnone, if_neg hunder], ?_, hunder⟩)
      simp only [not_or] at hnone
      simpa [isNaming, hunder, not_or, and_assoc] using
        ⟨hnone.2.2.1, hnone.2.2.2.1, hnone.1, hnone.2.1, by simpa using hnone.2.2.2.2⟩

/-- What settling makes of the symbol that a token writes transcribes the token. -/
theorem transcribes_settledLeaf {l : Lexeme} (hl : l.Valid) (ht : t.content.toList = l.content)
    (tempo length : Rat) : Transcribes t
      (settledLeaf (.symbol ⟨t.content, some t.position, tempo, none, none⟩) length) := by
  have hsplit := Symbol.splitPitch_cases (s := ⟨t.content, some t.position, tempo, none, none⟩) rfl
    fun name literal hplain => ht ▸ hl.ne_append_feed hplain
  have hposition : (Symbol.mk t.content (some t.position) tempo none none).splitPitch.position =
      some t.position := by
    rw [Symbol.splitPitch]
    split <;> rfl
  exact ⟨_, rfl, hposition, hsplit⟩

/-- The leaves of tokens, each at a tempo. -/
def leavesAt (ps : List (Token × Rat)) : List Node := ps.filterMap fun p => p.1.leaf? p.2

theorem leavesAt_cons (p : Token × Rat) (ps : List (Token × Rat)) :
    leavesAt (p :: ps) = (p.1.leaf? p.2).toList ++ leavesAt ps := by
  rw [leavesAt, List.filterMap_cons]
  cases p.1.leaf? p.2 <;> rfl

/-- The settled leaves of some tokens: those that are no holds transcribe the tokens that name
something, and there is a hold for every underscore. -/
theorem transcribes_leavesAt {ps : List (Token × Rat)} {lengths : List Rat}
    (hlexemes : ∀ p ∈ ps, ∃ l : Lexeme, l.Valid ∧ p.1.content.toList = l.content)
    (hlength : lengths.length = (leavesAt ps).length) :
    List.Forall₂ Transcribes ((ps.map Prod.fst).filter Token.isNaming)
        (((leavesAt ps).zipWith settledLeaf lengths).filter fun n => !n.isHold) ∧
      ((leavesAt ps).zipWith settledLeaf lengths).countP isHold =
        (ps.map Prod.fst).countP fun t => t.content = "_" := by
  induction ps generalizing lengths with
  | nil => exact ⟨.nil, rfl⟩
  | cons p ps ih =>
    obtain ⟨⟨l, hl, ht⟩, hlexemes⟩ := List.forall_mem_cons.1 hlexemes
    rw [leavesAt_cons] at hlength ⊢
    rw [List.map_cons]
    rcases p.1.leaf?_cases p.2 with
      ⟨hleaf, hnaming, hunder⟩ | ⟨hleaf, hnaming, hunder⟩ | ⟨hleaf, hnaming, hunder⟩
    · rw [hleaf] at hlength ⊢
      rw [List.filter_cons_of_neg (by simp [hnaming]), List.countP_cons_of_neg (by simp [hunder])]
      exact ih hlexemes hlength
    · rw [hleaf] at hlength ⊢
      obtain ⟨d, lengths, rfl⟩ := List.exists_cons_of_length_eq_add_one hlength
      obtain ⟨hforall, hcount⟩ := ih hlexemes (Nat.succ.inj hlength)
      rw [List.filter_cons_of_neg (by simp [hnaming]), List.countP_cons_of_pos (by simp [hunder]),
        ← hcount]
      exact ⟨hforall, List.countP_cons_of_pos rfl⟩
    · rw [hleaf] at hlength ⊢
      obtain ⟨d, lengths, rfl⟩ := List.exists_cons_of_length_eq_add_one hlength
      obtain ⟨hforall, hcount⟩ := ih hlexemes (Nat.succ.inj hlength)
      rw [List.filter_cons_of_pos hnaming, List.countP_cons_of_neg (by simp [hunder]), ← hcount]
      exact ⟨.cons (transcribes_settledLeaf hl ht _ _) hforall, List.countP_cons_of_neg nofun⟩

/-- The tokens of a text, each with the tempo of its place. -/
def pacedTokens (tokens : List Token) : List (Token × Rat) :=
  tokens.zipIdx.map fun p => (p.1, scopedTempo tokens p.2)

theorem map_fst_pacedTokens (tokens : List Token) :
    (pacedTokens tokens).map Prod.fst = tokens := by
  rw [pacedTokens, List.map_map]
  exact List.zipIdx_map_fst 0 tokens

/-- The leaves of what is built are those of the tokens, each at the tempo of its place. -/
theorem leaves_eq_leavesAt (h : build tokens = .ok root) :
    root.leaves = leavesAt (pacedTokens tokens) := by
  obtain ⟨hmatch, hvoid⟩ := readable_of_build h
  obtain ⟨items, hitems⟩ := exists_spells_of_bracesMatch hmatch
  have hleaves := hitems.leaves_pace [] [] (List.append_nil tokens).symm
  rw [tempoAfter_nil] at hleaves
  cases (hitems.build hvoid).symm.trans h
  rw [leaves_assemble, leavesAt, pacedTokens, List.filterMap_map, List.filterMap_eq_flatMap_toList]
  exact hleaves

/-- Nothing written is lost, doubled or moved. The leaves of a text that is parsed transcribe, in
their order, the tokens that name something, and its held elements have one slot more for every
underscore. -/
theorem transcribes_of_parse {text : String} {tree : Node} (h : parse text = .ok tree) :
    ∃ tokens, tokenize text = .ok tokens ∧
      List.Forall₂ Transcribes (tokens.filter Token.isNaming) tree.leaves ∧
      tokens.countP (fun t => t.content = "_") = tree.heldSlots := by
  obtain ⟨tokens, htokens, h⟩ := Traversal.bind_eq_ok.1 h
  obtain ⟨root, hroot, htree⟩ := Traversal.bind_eq_ok.1 h
  have hwritten := written_of_build hroot
  obtain ⟨hhold, hinside⟩ := gatherInside_of_annotate hwritten htree
  obtain ⟨hsounds, hcount⟩ := leaves_gatherInside (settled_laid hwritten 1) hhold hinside
  obtain ⟨hlength, hleaves⟩ := leaves_laid hwritten 1
  rw [leaves_eq_leavesAt hroot] at hlength hleaves
  have hlexemes : ∀ p ∈ pacedTokens tokens, ∃ l : Lexeme,
      l.Valid ∧ p.1.content.toList = l.content := by
    intro p hp
    have hmem : p.1 ∈ tokens := map_fst_pacedTokens tokens ▸ List.mem_map_of_mem hp
    exact exists_lexeme_of_tokenize htokens hmem
  obtain ⟨hforall, hholds⟩ := transcribes_leavesAt hlexemes hlength
  rw [map_fst_pacedTokens] at hforall hholds
  refine ⟨tokens, htokens, ?_, ?_⟩
  · rw [hsounds, sounds, hleaves]
    exact hforall
  · rw [hcount, holdCount, hleaves, hholds]

/-- A pitched note held over a block, and a rest in it: two tokens and two underscores. -/
theorem transcribes_of_parse_held : ∃ tree tokens,
    parse "x(-1.5) _ . \x7b - _ \x7d" = .ok tree ∧
      tokenize "x(-1.5) _ . \x7b - _ \x7d" = .ok tokens ∧
      List.Forall₂ Transcribes (tokens.filter Token.isNaming) tree.leaves ∧
      tree.leaves.length = 2 ∧ tree.heldSlots = 2 := by
  have hrun : (parse "x(-1.5) _ . \x7b - _ \x7d").toOption.map
      (fun tree => (tree.leaves.length, tree.heldSlots)) = some (2, 2) := by decide +kernel
  cases htree : parse "x(-1.5) _ . \x7b - _ \x7d" with
  | error fault =>
    rw [htree] at hrun
    cases hrun
  | ok tree =>
    rw [htree] at hrun
    obtain ⟨hlength, hslots⟩ := Prod.mk.inj (Option.some.inj hrun)
    obtain ⟨tokens, htokens, hforall, -⟩ := transcribes_of_parse htree
    exact ⟨tree, tokens, rfl, htokens, hforall, hlength, hslots⟩

end Polyrhythm
