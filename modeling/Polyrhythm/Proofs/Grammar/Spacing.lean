import Polyrhythm.Proofs.Grammar.Moving

/-!
# Texts with other blanks

Between two tokens of a text any blanks will do. Every token but the last leaves no parenthesis
open, so a blank ends it, and the next one starts on its own, whatever was between the two before
(`Writing.Writes.respaced`). So a text has the same tokens in every layout, and the same tree, up to
positions (`tokenize_spaced`).
-/

namespace Polyrhythm

/-- One or more blanks, as they may stand between two words. -/
def IsGap (gap : String) : Prop := gap ≠ "" ∧ gap.toList.all Text.isBlank = true

instance (gap : String) : Decidable (IsGap gap) :=
  inferInstanceAs (Decidable (gap ≠ "" ∧ gap.toList.all Text.isBlank = true))

/-- Words in a row with gaps between them, one gap fewer than there are words. -/
def spaced (words gaps : List String) : String :=
  String.join (List.zipWith (· ++ ·) words (gaps ++ [""]))

namespace Writing

variable {ls : List Lexeme} {gaps : List String}

/-- Lexemes with other blanks: the gaps between them, and none after the last. -/
def respaced (ls : List Lexeme) (gaps : List String) : List Lexeme :=
  List.zipWith (fun l gap => ⟨l.content, gap.toList⟩) ls (gaps ++ [""])

theorem respaced_cons_cons (l : Lexeme) (ls : List Lexeme) (gap : String) (gaps : List String) :
    respaced (l :: ls) (gap :: gaps) = ⟨l.content, gap.toList⟩ :: respaced ls gaps := rfl

/-- The characters of lexemes with other blanks. -/
theorem lexemesText_respaced (ls : List Lexeme) (gaps : List String) :
    lexemesText (respaced ls gaps) =
      (spaced (ls.map fun l => String.ofList l.content) gaps).toList := by
  simp [lexemesText, respaced, spaced, List.flatMap, List.map_zipWith, Lexeme.text,
    List.zipWith_map_left]

/-- The lexemes keep their contents. -/
theorem map_content_respaced (h : gaps.length = ls.length - 1) :
    (respaced ls gaps).map Lexeme.content = ls.map Lexeme.content := by
  have henough : ls.length ≤ (gaps ++ [""]).length := by
    rw [List.length_append, List.length_singleton, h]
    omega
  calc (respaced ls gaps).map Lexeme.content
      = ((ls.zip (gaps ++ [""])).map Prod.fst).map Lexeme.content := by
        simp [respaced, List.zip, List.map_zipWith]
    _ = ls.map Lexeme.content := by rw [List.map_fst_zip henough]

/-- Gaps may replace the blanks between lexemes: all of them but the last leave no parenthesis
open. -/
theorem chain_respaced (hls : ∀ l ∈ ls, l.Valid) (hchain : ls.IsChain Lexeme.MayPrecede)
    (hgaps : ∀ gap ∈ gaps, IsGap gap) (hlength : gaps.length = ls.length - 1) :
    (∀ l ∈ respaced ls gaps, l.Valid) ∧ (respaced ls gaps).IsChain Lexeme.MayPrecede := by
  induction ls generalizing gaps with
  | nil => exact ⟨nofun, .nil⟩
  | cons l ls ih =>
    obtain ⟨hl, hls⟩ := List.forall_mem_cons.1 hls
    cases ls with
    | nil =>
      obtain rfl := List.length_eq_zero_iff.1 hlength
      exact ⟨List.forall_mem_singleton.2 ⟨hl.content, nofun, fun _ => rfl⟩, .singleton _⟩
    | cons next ls =>
      cases gaps with
      | nil => cases hlength
      | cons gap gaps =>
        obtain ⟨⟨hne, hblank⟩, hgaps⟩ := List.forall_mem_cons.1 hgaps
        obtain ⟨⟨hclosed, -⟩, hchain⟩ := List.isChain_cons_cons.1 hchain
        obtain ⟨hvalid, hrest⟩ := ih hls hchain hgaps (Nat.succ.inj hlength)
        have hfirst : Lexeme.Valid ⟨l.content, gap.toList⟩ :=
          ⟨hl.content, List.all_eq_true.1 hblank, fun hopen => absurd hclosed hopen⟩
        have happart : gap.toList ≠ [] := fun hnil => hne (String.toList_eq_nil_iff.1 hnil)
        rw [respaced_cons_cons]
        refine ⟨List.forall_mem_cons.2 ⟨hfirst, hvalid⟩, ?_⟩
        exact List.isChain_cons.2 ⟨fun _ _ => ⟨hclosed, fun _ _ => happart⟩, hrest⟩

/-- The contents of the tokens of a writing are those of its lexemes. -/
theorem map_content_tokens (w : Writing) :
    w.tokens.map Token.content = w.lexemes.map fun l => String.ofList l.content := by
  have h := congrArg (List.map String.ofList) (map_content_tokensAfter w.margin w.lexemes)
  simpa [tokens, Function.comp_def] using h

/-- A text that is written as lexemes is written with other gaps between them. -/
theorem Writes.respaced {w : Writing} {text : List Char} (h : w.Writes text)
    (hgaps : ∀ gap ∈ gaps, IsGap gap) (hlength : gaps.length = w.lexemes.length - 1) :
    Writes ⟨[], Writing.respaced w.lexemes gaps⟩
      (spaced (w.tokens.map Token.content) gaps).toList := by
  obtain ⟨hvalid, hchain⟩ := chain_respaced h.lexemes h.chain hgaps hlength
  refine ⟨?_, nofun, hvalid, hchain⟩
  rw [Writing.text, List.nil_append, lexemesText_respaced, map_content_tokens]

end Writing

/-- The contents of the tokens of a text with gaps between them are a text with tokens of the same
contents, which are built into the same tree, or refused for the same reason, up to positions. -/
theorem tokenize_spaced {text : String} {tokens : List Token} (h : tokenize text = .ok tokens)
    {gaps : List String} (hgaps : ∀ gap ∈ gaps, IsGap gap)
    (hlength : gaps.length = tokens.length - 1) :
    ∃ laid, tokenize (spaced (tokens.map Token.content) gaps) = .ok laid ∧
      laid.map Token.content = tokens.map Token.content ∧
      unplaced (build laid) = unplaced (build tokens) := by
  obtain ⟨w, hw, rfl⟩ := exists_writes_of_tokenize h
  have hcount : w.tokens.length = w.lexemes.length := by
    simpa using congrArg List.length w.map_content_tokens
  rw [hcount] at hlength
  have hcontents : (Writing.tokens ⟨[], Writing.respaced w.lexemes gaps⟩).map Token.content =
      w.tokens.map Token.content := by
    have hkept := congrArg (List.map String.ofList) (Writing.map_content_respaced hlength)
    rw [Writing.map_content_tokens, Writing.map_content_tokens]
    simpa [Function.comp_def] using hkept
  exact ⟨_, (hw.respaced hgaps hlength).tokenize, hcontents, unplaced_build hcontents⟩

/-- A pitch with blanks in it and a parenthesis that stays open at the end, in another layout. -/
theorem tokenize_spaced_unclosed :
    tokenize "a,b( _) c(." = .ok [⟨"a", 0, 0⟩, ⟨",", 0, 1⟩, ⟨"b( _)", 0, 2⟩, ⟨"c(.", 0, 8⟩] ∧
      spaced ["a", ",", "b( _)", "c(."] ["\n", " \t", "\n\n"] = "a\n, \tb( _)\n\nc(." ∧
      ∃ laid, tokenize (spaced ["a", ",", "b( _)", "c(."] ["\n", " \t", "\n\n"]) = .ok laid ∧
        laid.map Token.content = ["a", ",", "b( _)", "c(."] ∧ unplaced (build laid) =
          unplaced (build [⟨"a", 0, 0⟩, ⟨",", 0, 1⟩, ⟨"b( _)", 0, 2⟩, ⟨"c(.", 0, 8⟩]) := by
  have htokens : tokenize "a,b( _) c(." =
      .ok [⟨"a", 0, 0⟩, ⟨",", 0, 1⟩, ⟨"b( _)", 0, 2⟩, ⟨"c(.", 0, 8⟩] := by decide +kernel
  have hgaps : ∀ gap ∈ ["\n", " \t", "\n\n"], IsGap gap := by decide
  exact ⟨htokens, by decide, tokenize_spaced htokens hgaps rfl⟩

end Polyrhythm
