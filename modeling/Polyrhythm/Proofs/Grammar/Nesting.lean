import Mathlib.Data.List.Basic
import Polyrhythm.Level.Reading

/-!
# Matching braces

The braces of a text match if every closing brace closes a block and no block stays open
(`BracesMatch`). Then the tokens fall into items in exactly one way: `Spells` relates tokens to the
items they write, one constructor for each kind of item. Balanced tokens write items
(`exists_spells_of_bracesMatch`), tokens that write items are balanced (`Spells.bracesMatch`), and
the stack of open blocks finds those items (`Spells.ofTokens?`). Cutting a level into its outermost
blocks meets no brace to blame exactly if the level is balanced (`fault_cutFrom_eq_none_iff`).
-/

namespace Polyrhythm

/-! ## Open blocks -/

/-- The number of blocks that are open after some tokens, if so many were open before them; nothing
if a closing brace closes no block. -/
def openAfter : Nat → List Token → Option Nat
  | depth, [] => some depth
  | depth, t :: ts =>
    if t.content = openingBrace then openAfter (depth + 1) ts
    else if t.content = closingBrace then
      if depth = 0 then none else openAfter (depth - 1) ts
    else openAfter depth ts

/-- The braces of a list of tokens match. -/
def BracesMatch (tokens : List Token) : Prop := openAfter 0 tokens = some 0

instance (tokens : List Token) : Decidable (BracesMatch tokens) :=
  inferInstanceAs (Decidable (openAfter 0 tokens = some 0))

variable {t o c : Token} {ts us tokens inner rest : List Token} {depth d e : Nat}

theorem closingBrace_ne_openingBrace : closingBrace ≠ openingBrace := by decide

/-- A closing brace is no opening one. -/
theorem ne_openingBrace (hc : c.content = closingBrace) : c.content ≠ openingBrace :=
  hc ▸ closingBrace_ne_openingBrace

theorem openAfter_cons_opening (ho : o.content = openingBrace) :
    openAfter depth (o :: ts) = openAfter (depth + 1) ts := by
  rw [openAfter, if_pos ho]

theorem openAfter_cons_closing (hc : c.content = closingBrace) :
    openAfter (depth + 1) (c :: ts) = openAfter depth ts := by
  rw [openAfter, if_neg (ne_openingBrace hc), if_pos hc, if_neg (Nat.succ_ne_zero depth),
    Nat.add_sub_cancel]

theorem openAfter_cons_plain (ho : t.content ≠ openingBrace) (hc : t.content ≠ closingBrace) :
    openAfter depth (t :: ts) = openAfter depth ts := by
  rw [openAfter, if_neg ho, if_neg hc]

/-- A closing brace closes nothing if no block is open. -/
theorem openAfter_zero_closing (hc : c.content = closingBrace) : openAfter 0 (c :: ts) = none := by
  rw [openAfter, if_neg (ne_openingBrace hc), if_pos hc, if_pos rfl]

/-- What a token does to the open blocks: it opens one, it closes one, or it leaves them. -/
theorem openAfter_cons_eq_some (h : openAfter depth (t :: ts) = some d) :
    (t.content = openingBrace ∧ openAfter (depth + 1) ts = some d) ∨
      (∃ outer, t.content = closingBrace ∧ depth = outer + 1 ∧ openAfter outer ts = some d) ∨
        t.content ≠ openingBrace ∧ t.content ≠ closingBrace ∧ openAfter depth ts = some d := by
  by_cases ho : t.content = openingBrace
  · rw [openAfter_cons_opening ho] at h
    exact .inl ⟨ho, h⟩
  · by_cases hc : t.content = closingBrace
    · cases depth with
      | zero => rw [openAfter_zero_closing hc] at h; cases h
      | succ outer =>
        rw [openAfter_cons_closing hc] at h
        exact .inr (.inl ⟨outer, hc, rfl, h⟩)
    · rw [openAfter_cons_plain ho hc] at h
      exact .inr (.inr ⟨ho, hc, h⟩)

/-- The blocks open after tokens in a row are found from those open after the first of them. -/
theorem openAfter_append (depth : Nat) (ts us : List Token) :
    openAfter depth (ts ++ us) = (openAfter depth ts).bind (openAfter · us) := by
  induction ts generalizing depth with
  | nil => rfl
  | cons t ts ih =>
    rw [List.cons_append]
    by_cases ho : t.content = openingBrace
    · rw [openAfter_cons_opening ho, openAfter_cons_opening ho, ih]
    · by_cases hc : t.content = closingBrace
      · cases depth with
        | zero => rw [openAfter_zero_closing hc, openAfter_zero_closing hc]; rfl
        | succ depth => rw [openAfter_cons_closing hc, openAfter_cons_closing hc, ih]
      · rw [openAfter_cons_plain ho hc, openAfter_cons_plain ho hc, ih]

/-- If no closing brace is to blame in a list of tokens, none is to blame in its first tokens. -/
theorem exists_openAfter_take (h : openAfter depth ts = some d) (i : Nat) :
    ∃ e, openAfter depth (ts.take i) = some e ∧ openAfter e (ts.drop i) = some d := by
  rw [← List.take_append_drop i ts, openAfter_append] at h
  exact Option.bind_eq_some_iff.1 h

/-- Blocks that are open around tokens stay open. -/
theorem openAfter_add (h : openAfter depth ts = some d) (around : Nat) :
    openAfter (around + depth) ts = some (around + d) := by
  induction ts generalizing depth with
  | nil => cases h; rfl
  | cons t ts ih =>
    obtain ⟨ho, hts⟩ | ⟨outer, hc, rfl, hts⟩ | ⟨ho, hc, hts⟩ := openAfter_cons_eq_some h
    · rw [openAfter_cons_opening ho]
      exact ih hts
    · rw [← Nat.add_assoc, openAfter_cons_closing hc]
      exact ih hts
    · rw [openAfter_cons_plain ho hc]
      exact ih hts

/-- BracesMatch tokens leave the blocks around them open. -/
theorem BracesMatch.openAfter_eq (h : BracesMatch ts) (depth : Nat) :
    openAfter depth ts = some depth :=
  openAfter_add h depth

/-! ## Items -/

/-- The items that tokens write: a token outside braces is an item, and so is what two braces
enclose. -/
inductive Spells : List Token → List Item → Prop
  /-- No tokens write no items. -/
  | nil : Spells [] []
  /-- A token that is no brace is an item. -/
  | leaf {t : Token} {ts : List Token} {items : List Item} :
    t.content ≠ openingBrace → t.content ≠ closingBrace → Spells ts items →
    Spells (t :: ts) (.leaf t :: items)
  /-- Two braces make an item of what is between them. -/
  | block {o c : Token} {inner rest : List Token} {content items : List Item} :
    o.content = openingBrace → c.content = closingBrace → Spells inner content →
    Spells rest items → Spells (o :: (inner ++ c :: rest)) (.block content :: items)

variable {items content : List Item}

/-- Tokens that write items are balanced. -/
theorem Spells.bracesMatch (h : Spells tokens items) : BracesMatch tokens := by
  induction h with
  | nil => rfl
  | leaf ho hc _ ih => exact (openAfter_cons_plain ho hc).trans ih
  | @block o c inner rest content items ho hc _ _ ihinner ihrest =>
    rw [BracesMatch, openAfter_cons_opening ho, openAfter_append, ihinner.openAfter_eq,
      Option.bind_some, openAfter_cons_closing hc]
    exact ihrest

/-- Tokens in a row write the items of the first and then those of the others. -/
theorem Spells.append {items' : List Item} (h : Spells ts items) (h' : Spells us items') :
    Spells (ts ++ us) (items ++ items') := by
  induction h with
  | nil => exact h'
  | leaf ho hc _ ih => exact .leaf ho hc ih
  | @block o c inner rest content items ho hc hinner _ _ ihrest =>
    rw [List.cons_append, List.append_assoc, List.cons_append]
    exact .block ho hc hinner ihrest

/-- If all blocks are closed in the end, the innermost open one is closed first, after tokens that
write items. -/
theorem exists_spells_of_openAfter (h : openAfter (depth + 1) ts = some 0) :
    ∃ inner content c rest, ts = inner ++ c :: rest ∧ c.content = closingBrace ∧
      Spells inner content ∧ openAfter depth rest = some 0 := by
  induction hn : ts.length using Nat.strongRecOn generalizing ts depth with
  | ind n ih =>
    subst hn
    cases ts with
    | nil => cases h
    | cons t ts =>
      by_cases ho : t.content = openingBrace
      · rw [openAfter_cons_opening ho] at h
        obtain ⟨inner, content, c, rest, rfl, hc, hinner, hrest⟩ :=
          ih ts.length (Nat.lt_succ_self _) h rfl
        have hshorter : rest.length < (t :: (inner ++ c :: rest)).length := by
          simp only [List.length_cons, List.length_append]
          omega
        obtain ⟨inner', content', c', rest', rfl, hc', hinner', hrest'⟩ := ih _ hshorter hrest rfl
        exact ⟨t :: (inner ++ c :: inner'), .block content :: content', c', rest', by simp, hc',
          .block ho hc hinner hinner', hrest'⟩
      · by_cases hc : t.content = closingBrace
        · rw [openAfter_cons_closing hc] at h
          exact ⟨[], [], t, ts, rfl, hc, .nil, h⟩
        · rw [openAfter_cons_plain ho hc] at h
          obtain ⟨inner, content, c, rest, rfl, hclose, hinner, hrest⟩ :=
            ih ts.length (Nat.lt_succ_self _) h rfl
          exact ⟨t :: inner, .leaf t :: content, c, rest, rfl, hclose, .leaf ho hc hinner, hrest⟩

/-- Balanced tokens write items. -/
theorem exists_spells_of_bracesMatch (h : BracesMatch tokens) : ∃ items, Spells tokens items := by
  induction hn : tokens.length using Nat.strongRecOn generalizing tokens with
  | ind n ih =>
    subst hn
    cases tokens with
    | nil => exact ⟨[], .nil⟩
    | cons t ts =>
      by_cases ho : t.content = openingBrace
      · rw [BracesMatch, openAfter_cons_opening ho] at h
        obtain ⟨inner, content, c, rest, rfl, hc, hinner, hrest⟩ := exists_spells_of_openAfter h
        have hshorter : rest.length < (t :: (inner ++ c :: rest)).length := by
          simp only [List.length_cons, List.length_append]
          omega
        obtain ⟨items, hitems⟩ := ih _ hshorter hrest rfl
        exact ⟨.block content :: items, .block ho hc hinner hitems⟩
      · by_cases hc : t.content = closingBrace
        · rw [BracesMatch, openAfter_zero_closing hc] at h
          cases h
        · rw [BracesMatch, openAfter_cons_plain ho hc] at h
          obtain ⟨items, hitems⟩ := ih ts.length (Nat.lt_succ_self _) h rfl
          exact ⟨.leaf t :: items, .leaf ho hc hitems⟩

/-- Tokens that write items put them into the block that is open. -/
theorem Spells.foldlM_push (h : Spells tokens items) (inner : List Item)
    (outer : List (List Item)) :
    tokens.foldlM (fun blocks t => Item.push t blocks) (inner :: outer) =
      some ((items.reverse ++ inner) :: outer) := by
  induction h generalizing inner outer with
  | nil => rfl
  | @leaf t ts items ho hc _ ih =>
    have hpush : Item.push t (inner :: outer) = some ((.leaf t :: inner) :: outer) := by
      simp [Item.push, ho, hc]
    rw [List.foldlM_cons, hpush, Option.bind_eq_bind, Option.bind_some, ih, List.reverse_cons,
      List.append_assoc]
    rfl
  | @block o c enclosed rest content items ho hc _ _ ihinner ihrest =>
    have hopen : Item.push o (inner :: outer) = some ([] :: inner :: outer) := by
      simp [Item.push, ho]
    have hclose : Item.push c (content.reverse :: inner :: outer) =
        some ((.block content :: inner) :: outer) := by
      simp [Item.push, hc, closingBrace_ne_openingBrace]
    rw [List.foldlM_cons, hopen, Option.bind_eq_bind, Option.bind_some, List.foldlM_append,
      ihinner, List.append_nil, Option.bind_eq_bind, Option.bind_some, List.foldlM_cons, hclose,
      Option.bind_eq_bind, Option.bind_some, ihrest, List.reverse_cons, List.append_assoc]
    rfl

/-- The items that tokens write are found by the stack of open blocks. -/
theorem Spells.ofTokens? (h : Spells tokens items) : Item.ofTokens? tokens = some items := by
  rw [Item.ofTokens?, h.foldlM_push [] []]
  simp

/-! ## Cutting a level -/

section
variable {state : Option OpenBlock} {block : OpenBlock} {nodes within : List Node}
  {p : Option Position}

theorem isSymbol_symbol (t : Token) (content : String) :
    t.symbol.isSymbol content = decide (t.content = content) := rfl

theorem cutFrom_none_opening (ho : o.content = openingBrace) :
    cutFrom none (o.symbol :: nodes) = cutFrom (some ⟨some o.position, 0, []⟩) nodes := by
  rw [cutFrom, isSymbol_symbol, if_pos (decide_eq_true ho)]
  rfl

theorem cutFrom_none_closing (hc : c.content = closingBrace) :
    cutFrom none (c.symbol :: nodes) = .stopped (.unopenedBlock (some c.position)) := by
  rw [cutFrom, isSymbol_symbol, isSymbol_symbol, if_neg (by simpa using ne_openingBrace hc),
    if_pos (decide_eq_true hc)]
  rfl

theorem cutFrom_none_plain (ho : t.content ≠ openingBrace) (hc : t.content ≠ closingBrace) :
    cutFrom none (t.symbol :: nodes) = (cutFrom none nodes).add (.single t.symbol) := by
  rw [cutFrom, isSymbol_symbol, isSymbol_symbol, if_neg (by simpa using ho),
    if_neg (by simpa using hc)]

theorem cutFrom_some_opening (ho : o.content = openingBrace) :
    cutFrom (some block) (o.symbol :: nodes) =
      cutFrom (some ⟨block.openedAt, block.inner + 1, o.symbol :: block.content⟩) nodes := by
  rw [cutFrom, isSymbol_symbol, if_pos (decide_eq_true ho)]

/-- A closing brace ends the open block if no block is open inside it. -/
theorem cutFrom_some_closing_zero (hc : c.content = closingBrace) :
    cutFrom (some ⟨p, 0, within⟩) (c.symbol :: nodes) =
      (cutFrom none nodes).add (.block within.reverse) := by
  rw [cutFrom, isSymbol_symbol, isSymbol_symbol, if_neg (by simpa using ne_openingBrace hc),
    if_pos (decide_eq_true hc)]

/-- A closing brace belongs to the open block if a block is open inside it. -/
theorem cutFrom_some_closing_succ (hc : c.content = closingBrace) :
    cutFrom (some ⟨p, depth + 1, within⟩) (c.symbol :: nodes) =
      cutFrom (some ⟨p, depth, c.symbol :: within⟩) nodes := by
  rw [cutFrom, isSymbol_symbol, isSymbol_symbol, if_neg (by simpa using ne_openingBrace hc),
    if_pos (decide_eq_true hc)]

theorem cutFrom_some_plain (ho : t.content ≠ openingBrace) (hc : t.content ≠ closingBrace) :
    cutFrom (some block) (t.symbol :: nodes) = cutFrom (some (block.push t.symbol)) nodes := by
  rw [cutFrom, isSymbol_symbol, isSymbol_symbol, if_neg (by simpa using ho),
    if_neg (by simpa using hc)]

/-- The number of blocks that are open while a level is cut. -/
def openDepth : Option OpenBlock → Nat
  | none => 0
  | some block => block.inner + 1

/-- A level is cut without a brace to blame exactly if its braces match those of the open blocks. -/
theorem fault_cutFrom_eq_none_iff :
    (cutFrom state (tokens.map Token.symbol)).fault = none ↔
      openAfter (openDepth state) tokens = some 0 := by
  induction tokens generalizing state with
  | nil => cases state <;> simp [cutFrom, Cut.empty, Cut.stopped, openAfter, openDepth]
  | cons t ts ih =>
    rw [List.map_cons]
    by_cases ho : t.content = openingBrace
    · rw [openAfter_cons_opening ho]
      cases state with
      | none => rw [cutFrom_none_opening ho, ih]; rfl
      | some block => rw [cutFrom_some_opening ho, ih]; rfl
    · by_cases hc : t.content = closingBrace
      · cases state with
        | none =>
          rw [cutFrom_none_closing hc, openDepth, openAfter_zero_closing hc]
          exact iff_of_false (fun h => by cases h) (fun h => by cases h)
        | some block =>
          obtain ⟨p, inner, content⟩ := block
          rw [openDepth, openAfter_cons_closing hc]
          cases inner with
          | zero => rw [cutFrom_some_closing_zero hc]; exact ih
          | succ inner => rw [cutFrom_some_closing_succ hc]; exact ih
      · rw [openAfter_cons_plain ho hc]
        cases state with
        | none => rw [cutFrom_none_plain ho hc]; exact ih
        | some block => rw [cutFrom_some_plain ho hc, ih]; rfl

/-- Tokens that write items end up in the block that is open. -/
theorem Spells.cutFrom_some (h : Spells tokens items) (block : OpenBlock) (nodes : List Node) :
    cutFrom (some block) (tokens.map Token.symbol ++ nodes) =
      cutFrom (some ⟨block.openedAt, block.inner,
        (tokens.map Token.symbol).reverse ++ block.content⟩) nodes := by
  induction h generalizing block nodes with
  | nil => rfl
  | leaf ho hc _ ih =>
    rw [List.map_cons, List.cons_append, cutFrom_some_plain ho hc, ih]
    simp [OpenBlock.push]
  | block ho hc _ _ ihinner ihrest =>
    simp only [List.map_cons, List.map_append, List.cons_append, List.append_assoc]
    rw [cutFrom_some_opening ho, ihinner, cutFrom_some_closing_succ hc]
    simp [ihrest]

/-- A block between braces is cut off as a part. -/
theorem Spells.cutFrom_block (ho : o.content = openingBrace) (hc : c.content = closingBrace)
    (h : Spells inner content) (nodes : List Node) :
    cutFrom none (o.symbol :: (inner.map Token.symbol ++ c.symbol :: nodes)) =
      (cutFrom none nodes).add (.block (inner.map Token.symbol)) := by
  rw [cutFrom_none_opening ho, h.cutFrom_some, cutFrom_some_closing_zero hc]
  simp

end

end Polyrhythm
