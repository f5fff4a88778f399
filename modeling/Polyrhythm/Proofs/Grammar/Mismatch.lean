import Mathlib.Data.List.Induction
import Mathlib.Order.Bounds.Basic
import Polyrhythm.Proofs.Grammar.Reading

/-!
# Braces that do not match

Tokens whose braces do not match have a brace to blame, and it stands outside all blocks: as many
blocks have been closed before it as were opened (`outerPlaces`). If a closing brace stands there,
the first one is to blame (`isLeast_outerPlaces`); otherwise some block is never closed, and the
last opening brace that stands there is the one that opens the outermost of them
(`isGreatest_outerPlaces`). The blocks closed before that brace are read first. If no marker in them
is refused they are read to the end, and the brace is what is reported (`build_of_unopened`,
`build_of_unclosed`).
-/

namespace Polyrhythm

open Traversal

/-- The places where the given brace stands outside all blocks: as many blocks were opened before it
as were closed. -/
def outerPlaces (brace : String) (tokens : List Token) : Set Nat :=
  let contents := tokens.map Token.content
  {i | contents[i]? = some brace ∧
    (contents.take i).count openingBrace = (contents.take i).count closingBrace}

variable {t o c : Token} {ts us tokens before after : List Token} {depth d : Nat}

/-! ## Counting braces -/

/-- The number of open blocks is the number of braces that opened one without those that closed
one. -/
theorem count_of_openAfter (h : openAfter depth ts = some d) :
    depth + (ts.map Token.content).count openingBrace =
      d + (ts.map Token.content).count closingBrace := by
  induction ts generalizing depth with
  | nil => cases h; rfl
  | cons t ts ih =>
    rw [List.map_cons]
    obtain ⟨ho, hts⟩ | ⟨outer, hc, rfl, hts⟩ | ⟨ho, hc, hts⟩ := openAfter_cons_eq_some h
    · have := ih hts
      rw [ho, List.count_cons_self, List.count_cons_of_ne closingBrace_ne_openingBrace.symm]
      omega
    · have := ih hts
      rw [hc, List.count_cons_self, List.count_cons_of_ne closingBrace_ne_openingBrace]
      omega
    · rw [List.count_cons_of_ne ho, List.count_cons_of_ne hc]
      exact ih hts

/-- Matching braces are as many of one kind as of the other. -/
theorem BracesMatch.count_eq (h : BracesMatch ts) :
    (ts.map Token.content).count openingBrace = (ts.map Token.content).count closingBrace := by
  simpa using count_of_openAfter h

/-! ## Where the brace to blame stands -/

/-- A brace after tokens whose braces match stands outside all blocks. -/
theorem length_mem_outerPlaces (h : BracesMatch before) :
    before.length ∈ outerPlaces t.content (before ++ t :: after) := by
  refine ⟨by simp, ?_⟩
  rw [← List.map_take, List.take_left]
  exact h.count_eq

/-- No closing brace stands outside all blocks if none is to blame. -/
theorem outerPlaces_closingBrace_eq_empty (h : openAfter 0 ts = some d) :
    outerPlaces closingBrace ts = ∅ := by
  refine Set.eq_empty_of_forall_notMem fun i hi => ?_
  obtain ⟨hbrace, hcount⟩ := hi
  rw [List.getElem?_map] at hbrace
  obtain ⟨c, hget, hc⟩ := Option.map_eq_some_iff.1 hbrace
  obtain ⟨e, htake, hdrop⟩ := exists_openAfter_take h i
  have he := count_of_openAfter htake
  rw [List.map_take, hcount] at he
  have hzero : e = 0 := by omega
  obtain ⟨hlt, hget⟩ := List.getElem?_eq_some_iff.1 hget
  rw [hzero, List.drop_eq_getElem_cons hlt, hget, openAfter_zero_closing hc] at hdrop
  cases hdrop

/-- If a closing brace closes no block, some closing brace comes after tokens whose braces match. -/
theorem exists_unopened (h : openAfter 0 ts = none) :
    ∃ before c after, ts = before ++ c :: after ∧ BracesMatch before ∧
      c.content = closingBrace := by
  induction ts using List.reverseRecOn with
  | nil => cases h
  | append_singleton ts t ih =>
    rw [openAfter_append] at h
    cases hts : openAfter 0 ts with
    | none =>
      obtain ⟨before, c, after, rfl, hbefore, hc⟩ := ih hts
      exact ⟨before, c, after ++ [t], by simp, hbefore, hc⟩
    | some d =>
      rw [hts, Option.bind_some] at h
      by_cases ho : t.content = openingBrace
      · rw [openAfter_cons_opening ho] at h
        cases h
      · by_cases hc : t.content = closingBrace
        · cases d with
          | zero => exact ⟨ts, t, [], rfl, hts, hc⟩
          | succ d => rw [openAfter_cons_closing hc] at h; cases h
        · rw [openAfter_cons_plain ho hc] at h
          cases h

/-- If blocks stay open, the outermost of them is opened after tokens whose braces match. -/
theorem exists_unclosed (h : openAfter 0 ts = some (d + 1)) :
    ∃ before o after, ts = before ++ o :: after ∧ BracesMatch before ∧
      o.content = openingBrace ∧ openAfter 0 after = some d := by
  induction ts using List.reverseRecOn generalizing d with
  | nil => cases h
  | append_singleton ts t ih =>
    rw [openAfter_append] at h
    obtain ⟨e, hts, ht⟩ := Option.bind_eq_some_iff.1 h
    -- the block stays open while the last token is read
    have still {e : Nat} (hts : openAfter 0 ts = some (e + 1)) (ht : openAfter e [t] = some d) :
        ∃ before o after, ts ++ [t] = before ++ o :: after ∧ BracesMatch before ∧
          o.content = openingBrace ∧ openAfter 0 after = some d := by
      obtain ⟨before, o, after, rfl, hbefore, ho, hafter⟩ := ih hts
      refine ⟨before, o, after ++ [t], by simp, hbefore, ho, ?_⟩
      rw [openAfter_append, hafter]
      exact ht
    obtain ⟨ho, hd⟩ | ⟨outer, hc, rfl, hd⟩ | ⟨ho, hc, hd⟩ := openAfter_cons_eq_some ht
    · cases hd
      cases d with
      | zero => exact ⟨ts, t, [], rfl, hts, ho, rfl⟩
      | succ d => exact still hts (openAfter_cons_opening ho)
    · cases hd
      exact still hts (openAfter_cons_closing hc)
    · cases hd
      exact still hts (openAfter_cons_plain ho hc)

/-- A closing brace after tokens whose braces match is the first one outside all blocks. -/
theorem isLeast_outerPlaces (h : BracesMatch before) (hc : c.content = closingBrace)
    (after : List Token) :
    IsLeast (outerPlaces closingBrace (before ++ c :: after)) before.length := by
  refine ⟨hc ▸ length_mem_outerPlaces h, fun j hj => ?_⟩
  by_contra hlt
  have hlt : j < before.length := Nat.lt_of_not_le hlt
  have hbefore : j ∈ outerPlaces closingBrace before := by
    obtain ⟨hbrace, hcount⟩ := hj
    rw [List.getElem?_map, List.getElem?_append_left hlt] at hbrace
    rw [← List.map_take, List.take_append_of_le_length (Nat.le_of_lt hlt)] at hcount
    exact ⟨by rw [List.getElem?_map]; exact hbrace, by rw [← List.map_take]; exact hcount⟩
  rw [outerPlaces_closingBrace_eq_empty h] at hbefore
  exact hbefore

/-- The brace that opens the outermost block that is never closed is the last one outside all
blocks. -/
theorem isGreatest_outerPlaces (h : BracesMatch before) (ho : o.content = openingBrace)
    (hafter : openAfter 0 after = some d) :
    IsGreatest (outerPlaces openingBrace (before ++ o :: after)) before.length := by
  refine ⟨ho ▸ length_mem_outerPlaces h, fun j hj => ?_⟩
  by_contra hlt
  obtain ⟨k, rfl⟩ := Nat.exists_eq_add_of_lt (Nat.lt_of_not_le hlt)
  -- after the brace no more blocks are closed than opened, so one more is open
  obtain ⟨e, htake, -⟩ := exists_openAfter_take hafter k
  have hrest := count_of_openAfter htake
  have hcount := hj.2
  rw [← List.map_take, Nat.add_assoc, List.take_length_add_append, List.take_succ_cons,
    List.map_append, List.map_cons, ho, List.count_append, List.count_append,
    List.count_cons_self, List.count_cons_of_ne closingBrace_ne_openingBrace.symm,
    h.count_eq] at hcount
  omega

/-! ## What is reported -/

/-- A block that is never closed is blamed on its opening brace. -/
theorem cutFrom_of_unclosed {p : Option Position} {within : List Node}
    (h : openAfter depth ts = some d) :
    cutFrom (some ⟨p, depth, within⟩) (ts.map Token.symbol) = .stopped (.unclosedBlock p) := by
  induction ts generalizing depth within with
  | nil => rfl
  | cons t ts ih =>
    rw [List.map_cons]
    obtain ⟨ho, hts⟩ | ⟨outer, hc, rfl, hts⟩ | ⟨ho, hc, hts⟩ := openAfter_cons_eq_some h
    · rw [cutFrom_some_opening ho]
      exact ih hts
    · rw [cutFrom_some_closing_succ hc]
      exact ih hts
    · rw [cutFrom_some_plain ho hc]
      exact ih hts

/-- A level whose blocks cannot be read, or whose braces do not match, is refused for that. -/
theorem readLevel_of_groupBraces {nodes : List Node} {fault : Fault} (isExplicit : Bool)
    (h : groupBraces (readLevel true) nodes = .error fault) :
    readLevel isExplicit nodes = .error fault := by
  rw [readLevel_eq, passes, h]
  rfl

/-- What tokens that write items become on their level comes before what follows them there. -/
theorem Spells.groupBraces_append {items : List Item} (h : Spells ts items)
    (read : List Node → Except Fault Node) (nodes : List Node) :
    Polyrhythm.groupBraces read (ts.map Token.symbol ++ nodes) =
      (Polyrhythm.groupBraces read (ts.map Token.symbol) >>= fun front =>
        (Polyrhythm.groupBraces read nodes).map (front ++ ·)) := by
  induction h with
  | nil =>
    change _ = (Polyrhythm.groupBraces read nodes).map _
    rw [List.map_nil, List.nil_append]
    cases Polyrhythm.groupBraces read nodes <;> rfl
  | @leaf t ts items ho hc _ ih =>
    rw [List.map_cons, List.cons_append, groupBraces_cons ho hc, groupBraces_cons ho hc, ih]
    cases Polyrhythm.groupBraces read (ts.map Token.symbol) with
    | error fault => rfl
    | ok front => cases Polyrhythm.groupBraces read nodes <;> rfl
  | @block o c inner rest content items ho hc hinner _ _ ihrest =>
    rw [map_symbol_block, List.cons_append, List.append_assoc, List.cons_append,
      hinner.groupBraces_block ho hc, hinner.groupBraces_block ho hc, ihrest]
    cases read (inner.map Token.symbol) with
    | error fault => rfl
    | ok n =>
      cases Polyrhythm.groupBraces read (rest.map Token.symbol) with
      | error fault => rfl
      | ok front => cases Polyrhythm.groupBraces read nodes <;> rfl

/-- A brace that does not match is reported if the blocks before it can be read. -/
theorem build_of_mismatch {fault : Fault} (h : BracesMatch before)
    (hrefused : ∀ t ∈ before, t.isRefused = false)
    (hcut : cutBlocks (us.map Token.symbol) = .stopped fault) :
    build (before ++ us) = .error fault := by
  obtain ⟨items, hitems⟩ := exists_spells_of_bracesMatch h
  refine readLevel_of_groupBraces false ?_
  have hrest : groupBraces (readLevel true) (us.map Token.symbol) = .error fault := by
    rw [groupBraces, hcut]
    rfl
  rw [List.map_append, hitems.groupBraces_append, (hitems.groupBraces hrefused).1, hrest]
  rfl

/-- If a closing brace closes no block, the first of those outside all blocks is reported. -/
theorem build_of_unopened (hrefused : ∀ t ∈ tokens, t.isRefused = false)
    (h : openAfter 0 tokens = none) :
    ∃ i c, IsLeast (outerPlaces closingBrace tokens) i ∧ tokens[i]? = some c ∧
      build tokens = .error (.unopenedBlock (some c.position)) := by
  obtain ⟨before, c, after, rfl, hbefore, hc⟩ := exists_unopened h
  have hbeforeRefused : ∀ t ∈ before, t.isRefused = false := fun t ht => hrefused t (by simp [ht])
  exact ⟨before.length, c, isLeast_outerPlaces hbefore hc after, by simp,
    build_of_mismatch hbefore hbeforeRefused (cutFrom_none_closing hc)⟩

/-- If blocks stay open, the last opening brace outside all blocks is reported. -/
theorem build_of_unclosed (hrefused : ∀ t ∈ tokens, t.isRefused = false)
    (h : openAfter 0 tokens = some (d + 1)) :
    ∃ i o, IsGreatest (outerPlaces openingBrace tokens) i ∧ tokens[i]? = some o ∧
      build tokens = .error (.unclosedBlock (some o.position)) := by
  obtain ⟨before, o, after, rfl, hbefore, ho, hafter⟩ := exists_unclosed h
  have hbeforeRefused : ∀ t ∈ before, t.isRefused = false := fun t ht => hrefused t (by simp [ht])
  have hcut : cutBlocks ((o :: after).map Token.symbol) =
      .stopped (.unclosedBlock (some o.position)) := by
    rw [cutBlocks, List.map_cons, cutFrom_none_opening ho]
    exact cutFrom_of_unclosed hafter
  exact ⟨before.length, o, isGreatest_outerPlaces hbefore ho hafter, by simp,
    build_of_mismatch hbefore hbeforeRefused hcut⟩

end Polyrhythm
