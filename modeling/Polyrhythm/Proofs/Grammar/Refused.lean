import Polyrhythm.Proofs.Grammar.Mismatch
import Polyrhythm.Proofs.Grammar.Numeral

/-!
# Refused markers

A marker that multiplies or divides by zero, or that has too many digits, is refused when the level
it stands on is read, and a block is read as soon as it is closed. So of several refused markers the
one to blame stands in the block that is closed first, the whole text being closed last, and in that
block it is the first (`IsFirstRefused`). `Item.closingOrder` lists the tokens in that order;
reading stops at the first refused marker of the list (`Spells.readLevel_refused`), and it is the
first in the sense of the text (`Spells.exists_isFirstRefused`). With the braces that do not match
(`build_of_unopened`, `build_of_unclosed`) this says of every list of tokens whether it is read and
what it is refused for (`build_or_blame`).
-/

namespace Polyrhythm

open Traversal Node

/-! ## Where blocks are closed -/

/-- The number of tokens before the first brace that closes none of the blocks they open, if
`depth` blocks are open before them; all of them if there is no such brace. -/
def closesAfter : Nat → List Token → Nat
  | _, [] => 0
  | depth, t :: ts =>
    if t.content = openingBrace then closesAfter (depth + 1) ts + 1
    else if t.content = closingBrace then
      if depth = 0 then 0 else closesAfter (depth - 1) ts + 1
    else closesAfter depth ts + 1

/-- Where the block is closed that the token at place `i` stands directly in; the end of the text if
it stands in no block. -/
def closedAt (tokens : List Token) (i : Nat) : Nat := i + 1 + closesAfter 0 (tokens.drop (i + 1))

/-- The token `t` at place `i` is a refused marker, and every other one stands in a block that is
closed later, or later in the same block. -/
structure IsFirstRefused (tokens : List Token) (i : Nat) (t : Token) : Prop where
  get : tokens[i]? = some t
  refused : t.isRefused = true
  first : ∀ j u, tokens[j]? = some u → u.isRefused = true →
    closedAt tokens i < closedAt tokens j ∨ closedAt tokens i = closedAt tokens j ∧ i ≤ j

section
variable {t o c u : Token} {ts us tokens before inner rest : List Token} {depth d i j : Nat}

theorem closesAfter_opening (ho : o.content = openingBrace) :
    closesAfter depth (o :: ts) = closesAfter (depth + 1) ts + 1 := by
  rw [closesAfter, if_pos ho]

theorem closesAfter_zero_closing (hc : c.content = closingBrace) :
    closesAfter 0 (c :: ts) = 0 := by
  rw [closesAfter, if_neg (ne_openingBrace hc), if_pos hc, if_pos rfl]

theorem closesAfter_succ_closing (hc : c.content = closingBrace) :
    closesAfter (depth + 1) (c :: ts) = closesAfter depth ts + 1 := by
  rw [closesAfter, if_neg (ne_openingBrace hc), if_pos hc, if_neg (Nat.succ_ne_zero depth),
    Nat.add_sub_cancel]

theorem closesAfter_plain (ho : t.content ≠ openingBrace) (hc : t.content ≠ closingBrace) :
    closesAfter depth (t :: ts) = closesAfter depth ts + 1 := by
  rw [closesAfter, if_neg ho, if_neg hc]

theorem closesAfter_le_length (depth : Nat) (ts : List Token) :
    closesAfter depth ts ≤ ts.length := by
  induction ts generalizing depth with
  | nil => exact Nat.le_refl _
  | cons t ts ih =>
    rw [closesAfter]
    split
    · exact Nat.succ_le_succ (ih _)
    · split
      · split
        · exact Nat.zero_le _
        · exact Nat.succ_le_succ (ih _)
      · exact Nat.succ_le_succ (ih _)

/-- What comes after the brace that closes the block does not matter. -/
theorem closesAfter_append_of_none (h : openAfter depth ts = none) (us : List Token) :
    closesAfter depth (ts ++ us) = closesAfter depth ts := by
  induction ts generalizing depth with
  | nil => cases h
  | cons t ts ih =>
    rw [List.cons_append]
    by_cases ho : t.content = openingBrace
    · rw [openAfter_cons_opening ho] at h
      rw [closesAfter_opening ho, closesAfter_opening ho, ih h]
    · by_cases hc : t.content = closingBrace
      · cases depth with
        | zero => rw [closesAfter_zero_closing hc, closesAfter_zero_closing hc]
        | succ depth =>
          rw [openAfter_cons_closing hc] at h
          rw [closesAfter_succ_closing hc, closesAfter_succ_closing hc, ih h]
      · rw [openAfter_cons_plain ho hc] at h
        rw [closesAfter_plain ho hc, closesAfter_plain ho hc, ih h]

/-- If the block stays open, it is closed where what follows closes it. -/
theorem closesAfter_append_of_some (h : openAfter depth ts = some d) (us : List Token) :
    closesAfter depth (ts ++ us) = ts.length + closesAfter d us := by
  induction ts generalizing depth with
  | nil => cases h; exact (Nat.zero_add _).symm
  | cons t ts ih =>
    rw [List.cons_append, List.length_cons, Nat.add_right_comm]
    obtain ⟨ho, hts⟩ | ⟨outer, hc, rfl, hts⟩ | ⟨ho, hc, hts⟩ := openAfter_cons_eq_some h
    · rw [closesAfter_opening ho, ih hts]
    · rw [closesAfter_succ_closing hc, ih hts]
    · rw [closesAfter_plain ho hc, ih hts]

/-- A block that stays open is open at the end. -/
theorem closesAfter_of_some (h : openAfter depth ts = some d) :
    closesAfter depth ts = ts.length := by
  simpa [closesAfter] using closesAfter_append_of_some h []

/-- The block that is open around tokens is closed by the first closing brace that stands outside
all blocks of the tokens, or at their end. -/
theorem isLeast_closesAfter (ts : List Token) :
    IsLeast (insert ts.length (outerPlaces closingBrace ts)) (closesAfter 0 ts) := by
  cases h : openAfter 0 ts with
  | none =>
    obtain ⟨before, c, after, rfl, hbefore, hc⟩ := exists_unopened h
    obtain ⟨hmem, hleast⟩ := isLeast_outerPlaces hbefore hc after
    rw [closesAfter_append_of_some hbefore, closesAfter_zero_closing hc, Nat.add_zero]
    refine ⟨.inr hmem, fun j hj => ?_⟩
    rcases hj with rfl | hj
    · simp
    · exact hleast hj
  | some d =>
    rw [closesAfter_of_some h, outerPlaces_closingBrace_eq_empty h, insert_empty_eq]
    exact isLeast_singleton

/-! ## Places in a longer text -/

theorem closedAt_le_length (h : i < tokens.length) : closedAt tokens i ≤ tokens.length := by
  have := closesAfter_le_length 0 (tokens.drop (i + 1))
  rw [List.length_drop] at this
  rw [closedAt]
  omega

/-- A token before all blocks stands directly in the text. -/
theorem closedAt_cons_zero (h : BracesMatch ts) : closedAt (t :: ts) 0 = ts.length + 1 := by
  rw [closedAt, List.drop_succ_cons, List.drop_zero, closesAfter_of_some h]
  omega

/-- Tokens in front of a text only move where its blocks are closed. -/
theorem closedAt_append (before ts : List Token) (i : Nat) :
    closedAt (before ++ ts) (before.length + i) = before.length + closedAt ts i := by
  rw [closedAt, closedAt, Nat.add_assoc before.length i 1, List.drop_length_add_append]
  omega

theorem closedAt_cons_succ (t : Token) (ts : List Token) (i : Nat) :
    closedAt (t :: ts) (i + 1) = closedAt ts i + 1 := by
  rw [closedAt, closedAt, List.drop_succ_cons]
  omega

/-- A token in a block stands directly in a block inside it or in the block itself, which is closed
where its content ends. -/
theorem closedAt_block (o : Token) (h : BracesMatch inner) (hc : c.content = closingBrace)
    (rest : List Token) (hi : i < inner.length) :
    closedAt (o :: (inner ++ c :: rest)) (i + 1) = closedAt inner i + 1 := by
  have hclose : closesAfter 0 (inner.drop (i + 1) ++ c :: rest) =
      closesAfter 0 (inner.drop (i + 1)) := by
    cases hdrop : openAfter 0 (inner.drop (i + 1)) with
    | none => exact closesAfter_append_of_none hdrop _
    | some d =>
      -- what is open before the rest of the block is open after it, so the rest opens nothing
      obtain ⟨e, -, he⟩ := exists_openAfter_take h (i + 1)
      have hadd := (openAfter_add hdrop e).symm.trans he
      have hzero : d = 0 := by
        have := Option.some.inj hadd
        omega
      rw [closesAfter_append_of_some hdrop, hzero, closesAfter_zero_closing hc, Nat.add_zero,
        closesAfter_of_some hdrop]
  rw [closedAt_cons_succ, closedAt, closedAt, List.drop_append_of_le_length hi, hclose]

/-- A token after a block stands where it stands in the rest of the text. -/
theorem closedAt_after_block (o c : Token) (inner rest : List Token) (i : Nat) :
    closedAt (o :: (inner ++ c :: rest)) (inner.length + 2 + i) =
      inner.length + 2 + closedAt rest i := by
  have hlength : (o :: (inner ++ [c])).length = inner.length + 2 := by simp
  have happend := closedAt_append (o :: (inner ++ [c])) rest i
  rw [hlength, List.cons_append, List.append_assoc] at happend
  exact happend

theorem getElem?_block (o c : Token) (inner rest : List Token) (hi : i < inner.length) :
    (o :: (inner ++ c :: rest))[i + 1]? = inner[i]? := by
  rw [List.getElem?_cons_succ, List.getElem?_append_left hi]

theorem getElem?_after_block (o c : Token) (inner rest : List Token) (i : Nat) :
    (o :: (inner ++ c :: rest))[inner.length + 2 + i]? = rest[i]? := by
  rw [show inner.length + 2 + i = inner.length + (i + 1) + 1 by omega, List.getElem?_cons_succ,
    List.getElem?_append_right (Nat.le_add_right _ _), Nat.add_sub_cancel_left,
    List.getElem?_cons_succ]

/-- A refused marker in a text that begins with a block is in the block or after it. -/
theorem place_of_refused (ho : o.content = openingBrace) (hc : c.content = closingBrace)
    (hget : (o :: (inner ++ c :: rest))[j]? = some u) (hu : u.isRefused = true) :
    (∃ i, j = i + 1 ∧ inner[i]? = some u) ∨ ∃ i, j = inner.length + 2 + i ∧ rest[i]? = some u := by
  have not_brace {b : Token} (hb : b.content = openingBrace ∨ b.content = closingBrace) :
      b ≠ u := by
    rintro rfl
    rw [Token.isRefused_of_brace hb] at hu
    cases hu
  cases j with
  | zero => exact absurd (Option.some.inj hget) (not_brace (.inl ho))
  | succ j =>
    rcases Nat.lt_trichotomy j inner.length with hj | rfl | hj
    · rw [getElem?_block o c inner rest hj] at hget
      exact .inl ⟨j, rfl, hget⟩
    · rw [List.getElem?_cons_succ, List.getElem?_append_right (Nat.le_refl _), Nat.sub_self] at hget
      exact absurd (Option.some.inj hget) (not_brace (.inr hc))
    · obtain ⟨k, rfl⟩ := Nat.exists_eq_add_of_lt hj
      refine .inr ⟨k, by omega, ?_⟩
      rw [← getElem?_after_block o c inner rest, ← hget]
      exact congrArg _ (by omega)

end

/-! ## The order in which blocks are closed -/

/-- The token that an item is, if it is no block. -/
def Item.leaf? : Item → Option Token
  | .leaf t => some t
  | .block _ => none

/-- The tokens that stand directly in a level, in no block. -/
def Item.direct (items : List Item) : List Token := items.filterMap Item.leaf?

mutual
/-- The tokens in the blocks of an item, in the order in which the blocks are closed that they
stand directly in. -/
def Item.enclosed : Item → List Token
  | .leaf _ => []
  | .block content => Item.enclosedIn content ++ Item.direct content

/-- `Item.enclosed` over the items of a list. -/
def Item.enclosedIn : List Item → List Token
  | [] => []
  | item :: items => Item.enclosed item ++ Item.enclosedIn items
end

/-- The tokens of a level, in the order in which the blocks are closed that they stand directly in;
those that stand directly in the level come last. -/
def Item.closingOrder (items : List Item) : List Token :=
  Item.enclosedIn items ++ Item.direct items

section
variable {t u : Token} {tokens : List Token} {item : Item} {items content : List Item} {i j : Nat}

theorem Item.direct_leaf (t : Token) (items : List Item) :
    Item.direct (.leaf t :: items) = t :: Item.direct items := rfl

theorem Item.direct_block (content items : List Item) :
    Item.direct (.block content :: items) = Item.direct items := rfl

theorem Item.enclosedIn_leaf (t : Token) (items : List Item) :
    Item.enclosedIn (.leaf t :: items) = Item.enclosedIn items := rfl

theorem Item.enclosedIn_block (content items : List Item) :
    Item.enclosedIn (.block content :: items) =
      Item.closingOrder content ++ Item.enclosedIn items := rfl

theorem find?_isRefused_eq_none {ts : List Token} :
    ts.find? Token.isRefused = none ↔ ∀ t ∈ ts, t.isRefused = false := by
  simp only [List.find?_eq_none, Bool.not_eq_true]

/-- The closing order leaves no refused marker out. -/
theorem Spells.not_isRefused_of_closingOrder (h : Spells tokens items)
    (hnone : ∀ t ∈ Item.closingOrder items, t.isRefused = false) :
    ∀ t ∈ tokens, t.isRefused = false := by
  induction h with
  | nil => exact List.forall_mem_nil _
  | @leaf t ts items _ _ _ ih =>
    rw [Item.closingOrder, Item.enclosedIn_leaf, Item.direct_leaf] at hnone
    obtain ⟨henclosed, hdirect⟩ := List.forall_mem_append.1 hnone
    obtain ⟨ht, hrest⟩ := List.forall_mem_cons.1 hdirect
    exact List.forall_mem_cons.2 ⟨ht, ih (List.forall_mem_append.2 ⟨henclosed, hrest⟩)⟩
  | @block o c inner rest content items ho hc _ _ ihinner ihrest =>
    rw [Item.closingOrder, Item.enclosedIn_block, Item.direct_block,
      List.append_assoc] at hnone
    obtain ⟨hcontent, hitems⟩ := List.forall_mem_append.1 hnone
    refine List.forall_mem_cons.2 ⟨Token.isRefused_of_brace (.inl ho), ?_⟩
    refine List.forall_mem_append.2 ⟨ihinner hcontent, ?_⟩
    exact List.forall_mem_cons.2 ⟨Token.isRefused_of_brace (.inr hc), ihrest hitems⟩

theorem Spells.not_isRefused_at (h : Spells tokens items)
    (hnone : ∀ t ∈ Item.closingOrder items, t.isRefused = false) (hget : tokens[i]? = some u) :
    ¬u.isRefused = true := by
  intro hu
  have hplain := h.not_isRefused_of_closingOrder hnone u (List.mem_of_getElem? hget)
  rw [hu] at hplain
  cases hplain

/-- If no block holds a refused marker, they all stand directly in the text. -/
theorem Spells.closedAt_eq_length (h : Spells tokens items)
    (hnone : ∀ t ∈ Item.enclosedIn items, t.isRefused = false) (hget : tokens[j]? = some u)
    (hu : u.isRefused = true) : closedAt tokens j = tokens.length := by
  induction h generalizing j with
  | nil => cases hget
  | @leaf t ts items _ _ hts ih =>
    cases j with
    | zero => exact closedAt_cons_zero hts.bracesMatch
    | succ j =>
      rw [List.getElem?_cons_succ] at hget
      rw [closedAt_cons_succ, ih hnone hget, List.length_cons]
  | @block o c inner rest content items ho hc hinner _ _ ihrest =>
    rw [Item.enclosedIn_block] at hnone
    obtain ⟨hcontent, hitems⟩ := List.forall_mem_append.1 hnone
    rcases place_of_refused ho hc hget hu with ⟨i, -, hi⟩ | ⟨i, rfl, hi⟩
    · exact absurd hu (hinner.not_isRefused_at hcontent hi)
    · rw [closedAt_after_block, ihrest hitems hi]
      simp only [List.length_cons, List.length_append]
      omega

/-- If no block holds a refused marker, the first one that stands directly in the text is the first.
-/
theorem Spells.exists_isFirstRefused_direct (h : Spells tokens items)
    (hnone : ∀ t ∈ Item.enclosedIn items, t.isRefused = false)
    (hfirst : (Item.direct items).find? Token.isRefused = some t) :
    ∃ i, tokens[i]? = some t ∧
      ∀ (j : Nat) (u : Token), tokens[j]? = some u → u.isRefused = true → i ≤ j := by
  induction h with
  | nil => cases hfirst
  | @leaf t' ts items _ _ _ ih =>
    rw [Item.direct_leaf, List.find?_cons] at hfirst
    cases hrefused : t'.isRefused with
    | true =>
      rw [hrefused] at hfirst
      cases hfirst
      exact ⟨0, rfl, fun _ _ _ _ => Nat.zero_le _⟩
    | false =>
      rw [hrefused] at hfirst
      obtain ⟨i, hget, hleast⟩ := ih hnone hfirst
      refine ⟨i + 1, hget, fun j u hj hu => ?_⟩
      cases j with
      | zero =>
        cases hj
        rw [hrefused] at hu
        cases hu
      | succ j => exact Nat.succ_le_succ (hleast j u hj hu)
  | @block o c inner rest content items ho hc hinner _ _ ihrest =>
    rw [Item.enclosedIn_block] at hnone
    obtain ⟨hcontent, hitems⟩ := List.forall_mem_append.1 hnone
    rw [Item.direct_block] at hfirst
    obtain ⟨i, hget, hleast⟩ := ihrest hitems hfirst
    refine ⟨inner.length + 2 + i, by rw [getElem?_after_block, hget], fun j u hj hu => ?_⟩
    rcases place_of_refused ho hc hj hu with ⟨k, -, hk⟩ | ⟨k, rfl, hk⟩
    · exact absurd hu (hinner.not_isRefused_at hcontent hk)
    · exact Nat.add_le_add_left (hleast k u hk hu) _

/-- The first refused marker of the closing order, once the blocks of the text are known to have
theirs in that order. -/
theorem Spells.exists_isFirstRefused_of_enclosed (h : Spells tokens items)
    (henclosed : (Item.enclosedIn items).find? Token.isRefused = some t →
      ∃ i, IsFirstRefused tokens i t)
    (hfirst : (Item.closingOrder items).find? Token.isRefused = some t) :
    ∃ i, IsFirstRefused tokens i t := by
  rw [Item.closingOrder, List.find?_append] at hfirst
  cases hblocks : (Item.enclosedIn items).find? Token.isRefused with
  | some t' =>
    rw [hblocks] at hfirst
    cases hfirst
    exact henclosed hblocks
  | none =>
    rw [hblocks, Option.none_or] at hfirst
    have hnone := find?_isRefused_eq_none.1 hblocks
    obtain ⟨i, hget, hleast⟩ := h.exists_isFirstRefused_direct hnone hfirst
    have hrefused := List.find?_some hfirst
    refine ⟨i, hget, hrefused, fun j u hj hu => .inr ⟨?_, hleast j u hj hu⟩⟩
    rw [h.closedAt_eq_length hnone hget hrefused, h.closedAt_eq_length hnone hj hu]

/-- The first refused marker in the blocks of a text, in their closing order, is the first of the
text. A block is closed before everything after it, and before the text. -/
theorem Spells.exists_isFirstRefused_enclosed (h : Spells tokens items)
    (hfirst : (Item.enclosedIn items).find? Token.isRefused = some t) :
    ∃ i, IsFirstRefused tokens i t ∧ closedAt tokens i < tokens.length := by
  induction h with
  | nil => cases hfirst
  | @leaf t' ts items _ _ hts ih =>
    obtain ⟨i, ⟨hget, hrefused, hleast⟩, hlt⟩ := ih hfirst
    have hplace := closedAt_cons_succ t' ts i
    have hlt' : closedAt (t' :: ts) (i + 1) < ts.length + 1 := by
      rw [hplace]
      exact Nat.succ_lt_succ hlt
    refine ⟨i + 1, ⟨hget, hrefused, fun j u hj hu => ?_⟩, hlt'⟩
    cases j with
    | zero =>
      rw [hplace, closedAt_cons_zero hts.bracesMatch]
      exact .inl (Nat.succ_lt_succ hlt)
    | succ j =>
      have := hleast j u hj hu
      rw [hplace, closedAt_cons_succ]
      omega
  | @block o c inner rest content items ho hc hinner _ ihinner ihrest =>
    rw [Item.enclosedIn_block, List.find?_append] at hfirst
    have hlength : (o :: (inner ++ c :: rest)).length = inner.length + 2 + rest.length := by
      simp only [List.length_cons, List.length_append]
      omega
    cases hcontent : (Item.closingOrder content).find? Token.isRefused with
    | some t' =>
      rw [hcontent] at hfirst
      cases hfirst
      obtain ⟨i, hget, hrefused, hleast⟩ := hinner.exists_isFirstRefused_of_enclosed
        (fun h => (ihinner h).imp fun _ h => h.1) hcontent
      have hi := (List.getElem?_eq_some_iff.1 hget).1
      have hplace := closedAt_block o hinner.bracesMatch hc rest hi
      have hle := closedAt_le_length hi
      refine ⟨i + 1, ⟨by rw [getElem?_block o c inner rest hi, hget], hrefused, ?_⟩, by omega⟩
      intro j u hj hu
      rcases place_of_refused ho hc hj hu with ⟨k, rfl, hk⟩ | ⟨k, rfl, hk⟩
      · have := hleast k u hk hu
        rw [hplace, closedAt_block o hinner.bracesMatch hc rest
          (List.getElem?_eq_some_iff.1 hk).1]
        omega
      · rw [hplace, closedAt_after_block]
        exact .inl (by omega)
    | none =>
      rw [hcontent, Option.none_or] at hfirst
      obtain ⟨i, ⟨hget, hrefused, hleast⟩, hlt⟩ := ihrest hfirst
      have hplace := closedAt_after_block o c inner rest i
      refine ⟨inner.length + 2 + i, ⟨by rw [getElem?_after_block, hget], hrefused, ?_⟩, by omega⟩
      intro j u hj hu
      rcases place_of_refused ho hc hj hu with ⟨k, -, hk⟩ | ⟨k, rfl, hk⟩
      · exact absurd hu (hinner.not_isRefused_at (find?_isRefused_eq_none.1 hcontent) hk)
      · have := hleast k u hk hu
        rw [hplace, closedAt_after_block]
        omega

/-- The first refused marker of the closing order is the first of the text. -/
theorem Spells.exists_isFirstRefused (h : Spells tokens items)
    (hfirst : (Item.closingOrder items).find? Token.isRefused = some t) :
    ∃ i, IsFirstRefused tokens i t :=
  h.exists_isFirstRefused_of_enclosed
    (fun hblocks => (h.exists_isFirstRefused_enclosed hblocks).imp fun _ h => h.1) hfirst

/-! ## What is reported -/

/-- A refused marker that stands directly in a level is reported once the blocks of the level are
read, at whatever tempo. -/
theorem applyMarkersFrom_refused
    (h : ∀ content, Item.block content ∈ items → (Item.node (.block content)).IsElement)
    (hfirst : (Item.direct items).find? Token.isRefused = some t) (tempo : Rat) :
    applyMarkersFrom tempo (items.map Item.node) =
      .error t.refusal := by
  induction items generalizing tempo with
  | nil => cases hfirst
  | cons item items ih =>
    have hitems : ∀ content, Item.block content ∈ items →
        (Item.node (.block content)).IsElement := fun content hmem =>
      h content (List.mem_cons_of_mem _ hmem)
    -- an element that no marker is is kept, and the marker comes after it
    have passed (hmarker : item.node.marker? = none) (hnative : item.node.firstForeign = none)
        (hfirst : (Item.direct items).find? Token.isRefused = some t) :
        applyMarkersFrom tempo ((item :: items).map Item.node) =
          .error t.refusal := by
      rw [List.map_cons, applyMarkersFrom, hmarker]
      simp only [adjustTempo_eq_ok hnative, ih hitems hfirst]
      rfl
    cases item with
    | block content =>
      have helement := h content List.mem_cons_self
      rw [Item.direct_block] at hfirst
      exact passed helement.marker helement.native hfirst
    | leaf t' =>
      rw [Item.direct_leaf, List.find?_cons] at hfirst
      cases hmarker : t'.marker? with
      | none =>
        have hrefused : t'.isRefused = false := by rw [Token.isRefused, hmarker]; rfl
        rw [hrefused] at hfirst
        exact passed hmarker rfl hfirst
      | some marker =>
        have hnode : (Item.node (.leaf t')).marker? = some marker := hmarker
        have hrefused : t'.isRefused = marker.isRefused := by rw [Token.isRefused, hmarker]; rfl
        rw [hrefused] at hfirst
        rw [List.map_cons, applyMarkersFrom, hnode]
        cases hrate : marker.isRefused with
        | true =>
          rw [hrate] at hfirst
          cases hfirst
          simp only [hrate, if_true]
          rw [Token.refusal_eq hmarker]
          rfl
        | false =>
          rw [hrate] at hfirst
          simp only [hrate, Bool.false_eq_true, if_false]
          exact ih hitems hfirst _

/-- A level whose blocks hold no refused markers is grouped, and its blocks become finished
elements. -/
theorem Spells.groupBraces_direct (h : Spells tokens items)
    (hnone : ∀ t ∈ Item.enclosedIn items, t.isRefused = false) :
    Polyrhythm.groupBraces (readLevel true) (tokens.map Token.symbol) = .ok (items.map Item.node) ∧
      ∀ content, Item.block content ∈ items → (Item.node (.block content)).IsElement := by
  induction h with
  | nil => exact ⟨rfl, nofun⟩
  | @leaf t ts items ho hc _ ih =>
    obtain ⟨hgroup, helement⟩ := ih hnone
    refine ⟨?_, fun content hmem => ?_⟩
    · rw [List.map_cons, groupBraces_cons ho hc, hgroup]
      rfl
    · rcases List.mem_cons.1 hmem with hhead | hmem
      · cases hhead
      · exact helement content hmem
  | @block o c inner rest content items ho hc hinner _ _ ihrest =>
    rw [Item.enclosedIn_block] at hnone
    obtain ⟨hcontent, hitems⟩ := List.forall_mem_append.1 hnone
    obtain ⟨hgroup, hproper⟩ := hinner.groupBraces (hinner.not_isRefused_of_closingOrder hcontent)
    obtain ⟨hread, hblock⟩ := readLevel_items hproper hgroup true
    obtain ⟨hgroup, helement⟩ := ihrest hitems
    refine ⟨?_, fun content' hmem => ?_⟩
    · rw [map_symbol_block, hinner.groupBraces_block ho hc, hread, hgroup]
      rfl
    · rcases List.mem_cons.1 hmem with hhead | hmem
      · cases hhead
        exact hblock
      · exact helement content' hmem

/-- The first refused marker of the closing order is what a level is refused for, once that is known
of its blocks. -/
theorem Spells.readLevel_refused_of_enclosed (h : Spells tokens items)
    (henclosed : (Item.enclosedIn items).find? Token.isRefused = some t →
      Polyrhythm.groupBraces (readLevel true) (tokens.map Token.symbol) =
        .error t.refusal)
    (hfirst : (Item.closingOrder items).find? Token.isRefused = some t) (isExplicit : Bool) :
    readLevel isExplicit (tokens.map Token.symbol) =
      .error t.refusal := by
  rw [Item.closingOrder, List.find?_append] at hfirst
  cases hblocks : (Item.enclosedIn items).find? Token.isRefused with
  | some t' =>
    rw [hblocks] at hfirst
    cases hfirst
    exact readLevel_of_groupBraces isExplicit (henclosed hblocks)
  | none =>
    rw [hblocks, Option.none_or] at hfirst
    obtain ⟨hgroup, helement⟩ := h.groupBraces_direct (find?_isRefused_eq_none.1 hblocks)
    have hmarkers : applyMarkers (items.map Item.node) =
        .error t.refusal :=
      applyMarkersFrom_refused helement hfirst 1
    rw [readLevel_eq, passes, hgroup]
    simp only [bind, Except.bind, hmarkers]

/-- A level is refused for the first refused marker in its blocks, in their closing order: the first
block with one is read when it is closed, before all that comes after it. -/
theorem Spells.groupBraces_refused (h : Spells tokens items)
    (hfirst : (Item.enclosedIn items).find? Token.isRefused = some t) :
    Polyrhythm.groupBraces (readLevel true) (tokens.map Token.symbol) =
      .error t.refusal := by
  induction h with
  | nil => cases hfirst
  | leaf ho hc _ ih =>
    rw [List.map_cons, groupBraces_cons ho hc, ih hfirst]
    rfl
  | @block o c inner rest content items ho hc hinner _ ihinner ihrest =>
    rw [Item.enclosedIn_block, List.find?_append] at hfirst
    rw [map_symbol_block, hinner.groupBraces_block ho hc]
    cases hcontent : (Item.closingOrder content).find? Token.isRefused with
    | some t' =>
      rw [hcontent] at hfirst
      cases hfirst
      rw [hinner.readLevel_refused_of_enclosed ihinner hcontent]
      rfl
    | none =>
      rw [hcontent, Option.none_or] at hfirst
      obtain ⟨hgroup, hproper⟩ := hinner.groupBraces
        (hinner.not_isRefused_of_closingOrder (find?_isRefused_eq_none.1 hcontent))
      rw [(readLevel_items hproper hgroup true).1, ihrest hfirst]
      rfl

/-- The first refused marker of the closing order is what a level is refused for. -/
theorem Spells.readLevel_refused (h : Spells tokens items)
    (hfirst : (Item.closingOrder items).find? Token.isRefused = some t) (isExplicit : Bool) :
    readLevel isExplicit (tokens.map Token.symbol) =
      .error t.refusal :=
  h.readLevel_refused_of_enclosed h.groupBraces_refused hfirst isExplicit

/-- A level whose braces match is read, or it is refused for its first refused marker. -/
theorem readLevel_of_bracesMatch (h : BracesMatch tokens) (isExplicit : Bool) :
    (∃ root, readLevel isExplicit (tokens.map Token.symbol) = .ok root) ∨
      ∃ i t, IsFirstRefused tokens i t ∧ readLevel isExplicit (tokens.map Token.symbol) =
        .error t.refusal := by
  obtain ⟨items, hitems⟩ := exists_spells_of_bracesMatch h
  cases hfirst : (Item.closingOrder items).find? Token.isRefused with
  | none =>
    obtain ⟨hgroup, hproper⟩ :=
      hitems.groupBraces (hitems.not_isRefused_of_closingOrder (find?_isRefused_eq_none.1 hfirst))
    exact .inl ⟨_, (readLevel_items hproper hgroup isExplicit).1⟩
  | some t =>
    obtain ⟨i, hi⟩ := hitems.exists_isFirstRefused hfirst
    exact .inr ⟨i, t, hi, hitems.readLevel_refused hfirst isExplicit⟩

/-- Balanced tokens are refused for their first refused marker. -/
theorem build_of_refused (hmatch : BracesMatch tokens) (h : ∃ t ∈ tokens, t.isRefused = true) :
    ∃ i t, IsFirstRefused tokens i t ∧ build tokens = .error t.refusal := by
  rcases readLevel_of_bracesMatch hmatch false with ⟨root, hroot⟩ | hblamed
  · obtain ⟨t, ht, hrefused⟩ := h
    rw [(readable_of_build hroot).2 t ht] at hrefused
    cases hrefused
  · exact hblamed

/-- What is cut off as a block are tokens whose braces match. The elements that an open block has
so far are tokens that leave as many blocks open as are open inside it. -/
theorem exists_of_block_mem_cutFrom {state : Option OpenBlock} {nodes : List Node}
    (hstate : ∀ block, state = some block → ∃ before : List Token,
      block.content.reverse = before.map Token.symbol ∧ openAfter 0 before = some block.inner)
    (h : .block nodes ∈ (cutFrom state (tokens.map Token.symbol)).parts) :
    ∃ inner : List Token, nodes = inner.map Token.symbol ∧ BracesMatch inner := by
  induction tokens generalizing state with
  | nil => cases state <;> cases h
  | cons t ts ih =>
    rw [List.map_cons] at h
    cases state with
    | none =>
      by_cases ho : t.content = openingBrace
      · rw [cutFrom_none_opening ho] at h
        refine ih ?_ h
        rintro block ⟨⟩
        exact ⟨[], rfl, rfl⟩
      · by_cases hc : t.content = closingBrace
        · rw [cutFrom_none_closing hc] at h
          cases h
        · rw [cutFrom_none_plain ho hc] at h
          rcases List.mem_cons.1 h with hsingle | hmem
          · cases hsingle
          · exact ih hstate hmem
    | some block =>
      obtain ⟨before, hcontent, hbefore⟩ := hstate block rfl
      obtain ⟨p, depth, within⟩ := block
      -- the open block with one more token
      have pushed {depth' : Nat} (hdepth : openAfter depth [t] = some depth') :
          ∃ before : List Token, (t.symbol :: within).reverse = before.map Token.symbol ∧
            openAfter 0 before = some depth' := by
        refine ⟨before ++ [t], ?_, ?_⟩
        · rw [List.reverse_cons, hcontent, List.map_append]
          rfl
        · rw [openAfter_append, hbefore]
          exact hdepth
      by_cases ho : t.content = openingBrace
      · rw [cutFrom_some_opening ho] at h
        refine ih ?_ h
        rintro block ⟨⟩
        exact pushed (openAfter_cons_opening ho)
      · by_cases hc : t.content = closingBrace
        · cases depth with
          | zero =>
            rw [cutFrom_some_closing_zero hc] at h
            rcases List.mem_cons.1 h with hblock | hmem
            · cases hblock
              exact ⟨before, hcontent, hbefore⟩
            · exact ih (fun _ h => by cases h) hmem
          | succ depth =>
            rw [cutFrom_some_closing_succ hc] at h
            refine ih ?_ h
            rintro block ⟨⟩
            exact pushed (openAfter_cons_closing hc)
        · rw [cutFrom_some_plain ho hc] at h
          refine ih ?_ h
          rintro block ⟨⟩
          exact pushed (openAfter_cons_plain ho hc)

/-- A token is no refused marker if there is no zero in it and it can be read. -/
theorem isRefused_eq_false_iff :
    t.isRefused = false ↔ t.isVoid = false ∧ t.excess? = none := by
  rw [Token.isRefused_eq, Bool.or_eq_false_iff, Option.isSome_eq_false_iff,
    Option.isNone_iff_eq_none, and_comm]

/-- Tokens are read exactly if their braces match and every marker among them has no zero and can be
read. If only the braces are wrong, the first closing brace outside all blocks is to blame, or else
the last opening one; if only markers are, the first refused one, the blocks taken as they are
closed: for its zero, or, first of all, for its digits. Reading a block that is closed never fails
for its braces. -/
theorem build_or_blame (tokens : List Token) :
    ((∃ root, build tokens = .ok root) ↔
      BracesMatch tokens ∧ ∀ t ∈ tokens, t.isVoid = false ∧ t.excess? = none) ∧
    ((∀ t ∈ tokens, t.isVoid = false ∧ t.excess? = none) → ¬BracesMatch tokens →
      (∃ i c, IsLeast (outerPlaces closingBrace tokens) i ∧ tokens[i]? = some c ∧
        build tokens = .error (.unopenedBlock (some c.position)) ∧
        (Fault.unopenedBlock (some c.position)).message = "\x7d mismatch" ++ c.position.text) ∨
      outerPlaces closingBrace tokens = ∅ ∧
        ∃ i o, IsGreatest (outerPlaces openingBrace tokens) i ∧ tokens[i]? = some o ∧
          build tokens = .error (.unclosedBlock (some o.position)) ∧
          (Fault.unclosedBlock (some o.position)).message =
            "\x7b mismatch" ++ o.position.text) ∧
    (BracesMatch tokens → (∃ t ∈ tokens, t.isVoid = true ∨ t.excess? ≠ none) →
      ∃ i t, IsFirstRefused tokens i t ∧
        (t.excess? = none → t.isVoid = true ∧
          build tokens = .error (.invalidMarker t.content (some t.position))) ∧
        ∀ numeral, t.excess? = some numeral →
          build tokens = .error (.unreadableNumeral numeral.length)) ∧
    ∀ content, .block content ∈ (cutBlocks (tokens.map Token.symbol)).parts → ∀ p,
      readLevel true content ≠ .error (.unopenedBlock p) ∧
        readLevel true content ≠ .error (.unclosedBlock p) := by
  have hiff : (∀ t ∈ tokens, t.isVoid = false ∧ t.excess? = none) ↔
      ∀ t ∈ tokens, t.isRefused = false :=
    forall₂_congr fun _ _ => isRefused_eq_false_iff.symm
  refine ⟨⟨?_, ?_⟩, ?_, ?_, ?_⟩
  · rintro ⟨root, hroot⟩
    rw [hiff]
    exact readable_of_build hroot
  · rintro ⟨hmatch, hrefused⟩
    obtain ⟨items, hitems⟩ := exists_spells_of_bracesMatch hmatch
    exact ⟨_, hitems.build (hiff.1 hrefused)⟩
  · intro hrefused hmatch
    rw [hiff] at hrefused
    cases hopen : openAfter 0 tokens with
    | none =>
      obtain ⟨i, c, hi, hc, hbuild⟩ := build_of_unopened hrefused hopen
      exact .inl ⟨i, c, hi, hc, hbuild, rfl⟩
    | some depth =>
      cases depth with
      | zero => exact absurd hopen hmatch
      | succ d =>
        obtain ⟨i, o, hi, ho, hbuild⟩ := build_of_unclosed hrefused hopen
        exact .inr ⟨outerPlaces_closingBrace_eq_empty hopen, i, o, hi, ho, hbuild, rfl⟩
  · rintro hmatch ⟨u, hu, hbad⟩
    have hrefused : u.isRefused = true := by
      rw [Token.isRefused_eq, Bool.or_eq_true, Option.isSome_iff_ne_none]
      exact hbad.symm
    obtain ⟨i, t, hfirst, hbuild⟩ := build_of_refused hmatch ⟨u, hu, hrefused⟩
    refine ⟨i, t, hfirst, fun hread => ⟨?_, ?_⟩, fun numeral hexcess => ?_⟩
    · have hrefused := hfirst.refused
      rwa [Token.isRefused_eq, hread] at hrefused
    · rw [hbuild, Token.refusal, hread]
    · rw [hbuild, Token.refusal, hexcess]
  · intro content hmem p
    obtain ⟨inner, rfl, hmatch⟩ := exists_of_block_mem_cutFrom (fun _ h => by cases h) hmem
    rcases readLevel_of_bracesMatch hmatch true with ⟨root, hroot⟩ | ⟨i, t, -, hblamed⟩
    · rw [hroot]
      constructor <;>
      · intro h
        cases h
    · rw [hblamed]
      exact ⟨fun h => (t.refusal_ne p).1 (Except.error.inj h),
        fun h => (t.refusal_ne p).2 (Except.error.inj h)⟩

/-- A closing brace before an opening one, a block that is never closed around one that is, and
refused markers in a text, a block and a block in it that is closed first. -/
theorem build_or_blame_nested :
    (∃ tokens : List Token, tokens.map Token.content = ["a", "\x7d", "\x7b"] ∧
      ∃ i c, IsLeast (outerPlaces closingBrace tokens) i ∧ tokens[i]? = some c ∧
        build tokens = .error (.unopenedBlock (some c.position))) ∧
    (∃ tokens : List Token, tokens.map Token.content = ["\x7b", "\x7b", "a", "\x7d"] ∧
      ∃ i o, IsGreatest (outerPlaces openingBrace tokens) i ∧ tokens[i]? = some o ∧
        build tokens = .error (.unclosedBlock (some o.position))) ∧
    ∃ (tokens : List Token) (i : Nat) (t : Token),
      tokens.map Token.content = ["/0", "\x7b", "/1*0", "\x7b", "/0*0", "\x7d", "\x7d"] ∧
      tokens.map Token.isVoid = [true, false, true, false, true, false, false] ∧
      [0, 2, 4].map (closedAt tokens) = [7, 6, 5] ∧ IsFirstRefused tokens i t ∧
      build tokens = .error (.invalidMarker t.content (some t.position)) ∧
      ∀ content, .block content ∈ (cutBlocks (tokens.map Token.symbol)).parts → ∀ p,
        readLevel true content ≠ .error (.unopenedBlock p) ∧
          readLevel true content ≠ .error (.unclosedBlock p) := by
  refine ⟨?_, ?_, ?_⟩
  · obtain ⟨tokens, hcontents, hproper, hmatch, hplace⟩ : ∃ tokens : List Token,
        tokens.map Token.content = ["a", "\x7d", "\x7b"] ∧
        (∀ t ∈ tokens, t.isVoid = false ∧ t.excess? = none) ∧ ¬BracesMatch tokens ∧
        1 ∈ outerPlaces closingBrace tokens :=
      ⟨["a", "\x7d", "\x7b"].map (Token.mk · .start), rfl, by decide +kernel, by decide, rfl, rfl⟩
    obtain ⟨i, c, hi, hc, hbuild, -⟩ | ⟨hempty, -⟩ :=
        (build_or_blame tokens).2.1 hproper hmatch
    · exact ⟨tokens, hcontents, i, c, hi, hc, hbuild⟩
    · rw [hempty] at hplace
      cases hplace
  · obtain ⟨tokens, hcontents, hrefused, hopen⟩ : ∃ tokens : List Token,
        tokens.map Token.content = ["\x7b", "\x7b", "a", "\x7d"] ∧
        (∀ t ∈ tokens, t.isVoid = false ∧ t.excess? = none) ∧ openAfter 0 tokens = some 1 :=
      ⟨["\x7b", "\x7b", "a", "\x7d"].map (Token.mk · .start), rfl, by decide +kernel, by decide⟩
    have hmatch : ¬BracesMatch tokens := by rw [BracesMatch, hopen]; decide
    obtain ⟨i, c, hi, -⟩ | ⟨-, i, o, hi, ho, hbuild, -⟩ :=
      (build_or_blame tokens).2.1 hrefused hmatch
    · rw [outerPlaces_closingBrace_eq_empty hopen] at hi
      cases hi.1
    · exact ⟨tokens, hcontents, i, o, hi, ho, hbuild⟩
  · obtain ⟨tokens, hcontents, hvoids, hclosed, hmatch, hread, hexists⟩ : ∃ tokens : List Token,
        tokens.map Token.content = ["/0", "\x7b", "/1*0", "\x7b", "/0*0", "\x7d", "\x7d"] ∧
        tokens.map Token.isVoid = [true, false, true, false, true, false, false] ∧
        [0, 2, 4].map (closedAt tokens) = [7, 6, 5] ∧ BracesMatch tokens ∧
        (∀ t ∈ tokens, t.excess? = none) ∧ ∃ t ∈ tokens, t.isVoid = true ∨ t.excess? ≠ none :=
      ⟨["/0", "\x7b", "/1*0", "\x7b", "/0*0", "\x7d", "\x7d"].map (Token.mk · .start), rfl,
        by decide +kernel, by decide +kernel, by decide, by decide +kernel,
        ⟨_, List.mem_cons_self, .inl (by decide +kernel)⟩⟩
    obtain ⟨-, -, hrefused, hblocks⟩ := build_or_blame tokens
    obtain ⟨i, t, hfirst, hbuild, -⟩ := hrefused hmatch hexists
    have ht := List.mem_of_getElem? hfirst.get
    exact ⟨tokens, i, t, hcontents, hvoids, hclosed, hfirst, (hbuild (hread t ht)).2, hblocks⟩

/-- A marker without a zero and with a digit too many, and nothing else: the braces match. -/
theorem build_or_blame_fails :
    BracesMatch [.tenfold Number.digitLimit] ∧
      (Token.tenfold Number.digitLimit).isVoid = false ∧
      build [.tenfold Number.digitLimit] =
        .error (.unreadableNumeral (Number.digitLimit + 1)) := by
  have hmatch : BracesMatch [.tenfold Number.digitLimit] :=
    (bracesMatch_cons_marker (Token.marker?_tenfold _) []).2 rfl
  have hexcess := Token.excess?_tenfold (le_refl Number.digitLimit)
  refine ⟨hmatch, Token.isVoid_tenfold _, ?_⟩
  have hrefused : (Token.tenfold Number.digitLimit).isRefused = true := by
    rw [Token.isRefused_eq, hexcess]
    rfl
  obtain ⟨i, t, hfirst, hbuild⟩ := build_of_refused hmatch ⟨_, List.mem_cons_self, hrefused⟩
  rw [hbuild, List.mem_singleton.1 (List.mem_of_getElem? hfirst.get), Token.refusal, hexcess]

end

end Polyrhythm
