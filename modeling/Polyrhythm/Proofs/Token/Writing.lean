import Mathlib.Data.List.Chain
import Polyrhythm.Proofs.Token.Places

/-!
# Texts written as lexemes

A text is written as blanks and lexemes in turn (`Writing`): a lexeme is a special character or an
identifier, two identifiers have a blank between them, and nothing follows an identifier that leaves
a parenthesis open. The lexer reads such a text lexeme by lexeme (`Lexer.run_lexemes`), every text
begins with one that goes on either to its end or to a character the lexer refuses
(`exists_writes_prefix`), and what a text says as a list of lexemes fixes the blanks between them
(`Writing.eq_of_contents`). So tokenizing succeeds exactly on the texts that can be written this
way, and fails exactly at the character at which the longest such beginning is refused.
-/

namespace Polyrhythm

/-! ## Identifiers -/

/-- The parentheses open after a text: one more after each opening one, one fewer after each closing
one while there are any. -/
def openParens (text : List Char) : Nat :=
  text.foldl (fun depth c => if c = '(' then depth + 1 else if c = ')' then depth - 1 else depth) 0

/-- An identifier is a letter or a slash and then any characters, none of them a blank or special
where no parenthesis is open. -/
def IsIdentifier : List Char → Prop
  | [] => False
  | first :: rest =>
    (Text.isLetter first = true ∨ first = '/') ∧
      ∀ before c after, rest = before ++ c :: after → openParens before = 0 →
        Text.isBlank c = false ∧ isSpecial c = false

/-- A special character by itself. -/
def IsSpecialText (text : List Char) : Prop := ∃ c, isSpecial c = true ∧ text = [c]

/-- The characters that go on with a word in which some parentheses are open: none is a blank or
special where none is open. -/
def GoesOn (depth : Nat) (cs : List Char) : Prop :=
  ∀ before c after, cs = before ++ c :: after → before.foldl Lexer.depthAfter depth = 0 →
    Text.isBlank c = false ∧ isSpecial c = false

variable {c : Char} {cs word rest : List Char} {depth : Nat}

theorem goesOn_nil : GoesOn depth [] :=
  fun _ _ _ h => absurd h (by simp)

/-- A word goes on with its next character and then after it. -/
theorem goesOn_cons : GoesOn depth (c :: cs) ↔
    (depth = 0 → Text.isBlank c = false ∧ isSpecial c = false) ∧
      GoesOn (Lexer.depthAfter depth c) cs := by
  constructor
  · intro h
    refine ⟨h [] c cs rfl, fun before d after hcs => ?_⟩
    exact h (c :: before) d after (by rw [hcs, List.cons_append])
  · rintro ⟨hfirst, hrest⟩ before d after hcs
    cases before with
    | nil =>
      obtain ⟨rfl, -⟩ := List.cons.inj hcs
      exact hfirst
    | cons b before =>
      obtain ⟨rfl, htail⟩ := List.cons.inj hcs
      exact hrest before d after htail

/-- A character that starts a word is no blank: the letters and the blanks are apart. -/
theorem isBlank_of_startsWord (h : startsWord c = true) : Text.isBlank c = false := by
  rw [startsWord, Bool.or_eq_true, decide_eq_true_eq] at h
  rcases h with h | rfl
  · have hapart : ∀ letters ∈ Text.letterSpans, ∀ blanks ∈ Text.blankSpans,
        letters.2 < blanks.1 ∨ blanks.2 < letters.1 := by decide +kernel
    obtain ⟨letters, hletters, hlow, hhigh⟩ := Text.covers_iff.1 h
    refine Bool.eq_false_iff.2 fun hblank => ?_
    obtain ⟨blanks, hblanks, hlow', hhigh'⟩ := Text.covers_iff.1 hblank
    have := hapart letters hletters blanks hblanks
    omega
  · decide

/-- The special characters one by one. -/
theorem isSpecial_iff : isSpecial c = true ↔ c ∈ ['_', ',', '.', '{', '}', '-'] := by
  simp [isSpecial, or_assoc]

/-- No special character starts a word. -/
theorem isSpecial_of_startsWord (h : startsWord c = true) : isSpecial c = false := by
  have hnone : ['_', ',', '.', '{', '}', '-'].all (fun d => !startsWord d) = true := by
    decide +kernel
  refine Bool.eq_false_iff.2 fun hc => ?_
  have hc := List.all_eq_true.1 hnone c (isSpecial_iff.1 hc)
  simp [h] at hc

/-- No special character is a blank. -/
theorem isBlank_of_isSpecial (h : isSpecial c = true) : Text.isBlank c = false := by
  have hnone : ['_', ',', '.', '{', '}', '-'].all (fun d => !Text.isBlank d) = true := by decide
  simpa using List.all_eq_true.1 hnone c (isSpecial_iff.1 h)

theorem openParens_eq (text : List Char) : openParens text = text.foldl Lexer.depthAfter 0 := rfl

/-- An identifier is a character that starts a word, and what goes on with the word. -/
theorem isIdentifier_cons :
    IsIdentifier (c :: cs) ↔ startsWord c = true ∧ GoesOn 0 cs := by
  simp only [IsIdentifier, GoesOn, startsWord, openParens_eq, Bool.or_eq_true, decide_eq_true_eq]

/-- A parenthesis starts no word. -/
theorem depthAfter_of_startsWord (h : startsWord c = true) : Lexer.depthAfter depth c = depth := by
  have hopen : c ≠ '(' := by rintro rfl; revert h; decide +kernel
  have hclose : c ≠ ')' := by rintro rfl; revert h; decide +kernel
  rw [Lexer.depthAfter, if_neg hopen, if_neg hclose]

theorem openParens_cons_of_startsWord (h : startsWord c = true) :
    openParens (c :: cs) = cs.foldl Lexer.depthAfter 0 := by
  rw [openParens_eq, List.foldl_cons, depthAfter_of_startsWord h]

/-- Where the word that a text begins with has to end: at the end of the text, or, with no
parenthesis open, at a blank or a special character. -/
def EndsWord (depth : Nat) : List Char → Prop
  | [] => True
  | c :: _ => depth = 0 ∧ (Text.isBlank c = true ∨ isSpecial c = true)

/-- A word goes on as far as it can. -/
theorem exists_goesOn (depth : Nat) (cs : List Char) : ∃ word rest, cs = word ++ rest ∧
    GoesOn depth word ∧ EndsWord (word.foldl Lexer.depthAfter depth) rest := by
  induction cs generalizing depth with
  | nil => exact ⟨[], [], rfl, goesOn_nil, trivial⟩
  | cons c cs ih =>
    by_cases hends : EndsWord depth (c :: cs)
    · exact ⟨[], c :: cs, rfl, goesOn_nil, hends⟩
    · obtain ⟨word, rest, rfl, hword, hrest⟩ := ih (Lexer.depthAfter depth c)
      refine ⟨c :: word, rest, rfl, goesOn_cons.2 ⟨fun hdepth => ?_, hword⟩, hrest⟩
      simpa [EndsWord, hdepth] using hends

/-- A text that begins with the start of a word begins with an identifier that goes on as far as it
can. -/
theorem exists_isIdentifier (h : startsWord c = true) (cs : List Char) : ∃ word rest,
    c :: cs = word ++ rest ∧ IsIdentifier word ∧ EndsWord (openParens word) rest := by
  obtain ⟨word, rest, rfl, hword, hrest⟩ := exists_goesOn 0 cs
  refine ⟨c :: word, rest, rfl, isIdentifier_cons.2 ⟨h, hword⟩, ?_⟩
  rwa [openParens_cons_of_startsWord h]

/-! ## Lexemes and writings -/

/-- A lexeme and the blanks after it. -/
structure Lexeme where
  content : List Char
  blanks : List Char

namespace Lexeme

/-- The characters of a lexeme and of the blanks after it. -/
def text (l : Lexeme) : List Char := l.content ++ l.blanks

/-- A lexeme is a special character or an identifier, with blanks after it; nothing follows one that
leaves a parenthesis open. -/
structure Valid (l : Lexeme) : Prop where
  content : IsSpecialText l.content ∨ IsIdentifier l.content
  blanks : ∀ c ∈ l.blanks, Text.isBlank c = true
  closed : openParens l.content ≠ 0 → l.blanks = []

/-- A lexeme may stand before another: it leaves no parenthesis open, and there are blanks between
two identifiers. -/
def MayPrecede (l next : Lexeme) : Prop :=
  openParens l.content = 0 ∧
    (IsIdentifier l.content → IsIdentifier next.content → l.blanks ≠ [])

end Lexeme

/-- The characters of some lexemes in a row. -/
def lexemesText (ls : List Lexeme) : List Char := ls.flatMap Lexeme.text

/-- The last lexeme is an identifier and no blank follows it. -/
def EndInIdentifier (ls : List Lexeme) : Prop :=
  ∃ l ∈ ls.getLast?, IsIdentifier l.content ∧ l.blanks = []

/-- The line and the column after a text: the line feeds in it, and the characters since the last of
them. -/
def placeAfter (text : List Char) : Position :=
  ⟨text.count '\n', (text.reverse.takeWhile (· != '\n')).length⟩

/-- The tokens of some lexemes that stand after a text. -/
def tokensAfter (before : List Char) : List Lexeme → List Token
  | [] => []
  | l :: ls => ⟨String.ofList l.content, placeAfter before⟩ :: tokensAfter (before ++ l.text) ls

/-- Blanks, and then lexemes with blanks after each. -/
structure Writing where
  margin : List Char
  lexemes : List Lexeme

namespace Writing

/-- The characters of a writing. -/
def text (w : Writing) : List Char := w.margin ++ lexemesText w.lexemes

/-- The tokens of a writing: its lexemes, each where its first character stands. -/
def tokens (w : Writing) : List Token := tokensAfter w.margin w.lexemes

/-- A writing says how a text falls into lexemes. -/
structure Writes (w : Writing) (text : List Char) : Prop where
  text_eq : w.text = text
  margin : ∀ c ∈ w.margin, Text.isBlank c = true
  lexemes : ∀ l ∈ w.lexemes, l.Valid
  chain : w.lexemes.IsChain Lexeme.MayPrecede

end Writing

/-- A text is refused at a character: what is before it can be written as lexemes without ending in
an identifier, and it is no blank, not special, and no start of an identifier. -/
def RefusedAt (text before : List Char) (c : Char) : Prop :=
  (∃ after, text = before ++ c :: after) ∧ IsRejected c ∧
    ∃ w : Writing, w.Writes before ∧ ¬ EndInIdentifier w.lexemes

@[simp]
theorem lexemesText_nil : lexemesText [] = [] := rfl

@[simp]
theorem lexemesText_cons (l : Lexeme) (ls : List Lexeme) :
    lexemesText (l :: ls) = l.text ++ lexemesText ls := rfl

theorem placeAfter_eq (text : List Char) : placeAfter text = Position.start.afterAll text :=
  (Position.afterAll_start text).symm

variable {l next : Lexeme} {ls : List Lexeme}

theorem endInIdentifier_singleton :
    EndInIdentifier [l] ↔ IsIdentifier l.content ∧ l.blanks = [] := by
  simp [EndInIdentifier]

theorem endInIdentifier_cons_cons :
    EndInIdentifier (l :: next :: ls) ↔ EndInIdentifier (next :: ls) := by
  simp [EndInIdentifier]

/-- A lexeme starts with a special character or the start of a word. -/
theorem Lexeme.Valid.head (h : l.Valid) :
    ∃ c cs, l.content = c :: cs ∧ (isSpecial c = true ∨ startsWord c = true) := by
  rcases h.content with ⟨c, hc, hcontent⟩ | hword
  · exact ⟨c, [], hcontent, .inl hc⟩
  · cases hcontent : l.content with
    | nil => rw [hcontent] at hword; exact hword.elim
    | cons c cs =>
      rw [hcontent] at hword
      exact ⟨c, cs, rfl, .inr (isIdentifier_cons.1 hword).1⟩

/-- No special character is an identifier. -/
theorem not_isIdentifier_of_isSpecialText (h : IsSpecialText word) : ¬ IsIdentifier word := by
  obtain ⟨c, hc, rfl⟩ := h
  intro hword
  rw [isSpecial_of_startsWord (isIdentifier_cons.1 hword).1] at hc
  cases hc

/-! ## Reading a writing -/

namespace Lexer

variable {s s' : Lexer} {tokens : List Token} {p : Position}

/-- The lexer at a place where no word is open. -/
def outside (p : Position) : Lexer := ⟨[], .start, 0, p⟩

/-- A step that succeeds completes some tokens, and the rest of the text completes the others. -/
theorem run_of_step (h : s.step c = .ok (tokens, s')) :
    s.run (c :: cs) = (tokens ++ ·) <$> s'.run cs := by
  rw [run, h]
  rfl

/-- A blank or special character is no parenthesis. -/
theorem depthAfter_of_separates (h : Text.isBlank c = true ∨ isSpecial c = true) :
    depthAfter depth c = depth := by
  have hopen : c ≠ '(' := by rintro rfl; revert h; decide
  have hclose : c ≠ ')' := by rintro rfl; revert h; decide
  rw [depthAfter, if_neg hopen, if_neg hclose]

/-- A blank outside parentheses completes the open word. -/
theorem step_blank (hdepth : s.depth = 0) (h : Text.isBlank c = true) :
    s.step c = .ok (s.pending, s.close 0 c) := by
  simp [step, hdepth, depthAfter_of_separates (.inl h), h]

/-- A special character outside parentheses completes the open word and is a token. -/
theorem step_special (hdepth : s.depth = 0) (h : isSpecial c = true) :
    s.step c = .ok (s.pending ++ [⟨c.toString, s.here⟩], s.close 0 c) := by
  simp [step, hdepth, depthAfter_of_separates (.inr h), isBlank_of_isSpecial h, h]

/-- The open word takes in a character that it goes on with. -/
theorem step_word (hword : s.word ≠ [] ∨ startsWord c = true)
    (h : s.depth = 0 → Text.isBlank c = false ∧ isSpecial c = false) :
    s.step c = .ok ([], s.extend (depthAfter s.depth c) c) := by
  have hfree : depthAfter s.depth c = 0 → Text.isBlank c = false ∧ isSpecial c = false := by
    intro hdepth
    by_cases hsep : Text.isBlank c = true ∨ isSpecial c = true
    · exact h (by rwa [depthAfter_of_separates hsep] at hdepth)
    · simpa using hsep
  have hopen : (!s.word.isEmpty || startsWord c) = true := by
    simpa using hword
  by_cases hdepth : depthAfter s.depth c = 0
  · simp [step, hdepth, hfree hdepth, hopen]
  · simp [step, hdepth, hopen]

/-- Outside words a character that is refused ends the reading. -/
theorem run_rejected (hword : s.word = []) (h : IsRejected c) :
    s.run (c :: cs) = .error (.invalidCharacter c s.here) := by
  obtain ⟨hblank, hspecial, hletter, hslash⟩ := h
  simp [run, step, startsWord, hword, hblank, hspecial, hletter, hslash, bind, Except.bind]

/-- A character is a blank, special, the start of a word, or refused. -/
theorem cases_of_char (c : Char) : Text.isBlank c = true ∨ isSpecial c = true ∨
    startsWord c = true ∨ IsRejected c := by
  by_cases hblank : Text.isBlank c = true
  · exact .inl hblank
  by_cases hspecial : isSpecial c = true
  · exact .inr (.inl hspecial)
  by_cases hstarts : startsWord c = true
  · exact .inr (.inr (.inl hstarts))
  · simp only [startsWord, Bool.or_eq_true, decide_eq_true_eq, not_or] at hstarts
    exact .inr (.inr (.inr ⟨by simpa using hblank, by simpa using hspecial,
      by simpa using hstarts.1, hstarts.2⟩))

/-- Where no word is open, the place at which the last one started means nothing. -/
theorem run_of_word_eq_nil (hword : s.word = []) (hdepth : s.depth = 0) :
    s.run cs = (outside s.here).run cs := by
  induction cs generalizing s with
  | nil => simp [run, pending, outside, hword]
  | cons c cs ih =>
    have hclose : (s.close 0 c).run cs = ((outside s.here).close 0 c).run cs :=
      (ih (s := s.close 0 c) rfl rfl).trans (ih (s := (outside s.here).close 0 c) rfl rfl).symm
    have hpending : s.pending = [] := by simp [pending, hword]
    rcases cases_of_char c with hblank | hspecial | hstarts | hrejected
    · rw [run_of_step (step_blank hdepth hblank), run_of_step (step_blank rfl hblank), hclose,
        hpending]
      rfl
    · rw [run_of_step (step_special hdepth hspecial), run_of_step (step_special rfl hspecial),
        hclose, hpending]
      rfl
    · have hapart := And.intro (isBlank_of_startsWord hstarts) (isSpecial_of_startsWord hstarts)
      have hextend : s.extend (depthAfter s.depth c) c =
          (outside s.here).extend (depthAfter (outside s.here).depth c) c := by
        simp [extend, outside, hword, hdepth]
      rw [run_of_step (step_word (.inr hstarts) fun _ => hapart),
        run_of_step (step_word (.inr hstarts) fun _ => hapart), hextend]
    · rw [run_rejected hword hrejected, run_rejected rfl hrejected]
      rfl

/-- Blanks outside words are skipped. -/
theorem run_blanks (h : ∀ c ∈ cs, Text.isBlank c = true) :
    (outside p).run (cs ++ rest) = (outside (p.afterAll cs)).run rest := by
  induction cs generalizing p with
  | nil => rfl
  | cons c cs ih =>
    rw [List.cons_append, run_of_step (step_blank rfl (h c List.mem_cons_self)),
      run_of_word_eq_nil (s := (outside p).close 0 c) rfl rfl]
    exact (id_map _).trans (ih fun d hd => h d (List.mem_cons_of_mem c hd))

/-- A special character outside words is a token where it stands. -/
theorem run_special (h : isSpecial c = true) :
    (outside p).run (c :: rest) =
      ([⟨c.toString, p⟩] ++ ·) <$> (outside (p.after c)).run rest := by
  rw [run_of_step (step_special rfl h), run_of_word_eq_nil (s := (outside p).close 0 c) rfl rfl]
  rfl

/-- An open word takes in all it goes on with. -/
theorem run_goesOn (hword : s.word ≠ []) (h : GoesOn s.depth cs) :
    s.run (cs ++ rest) = (Lexer.mk (cs.reverse ++ s.word) s.start (cs.foldl depthAfter s.depth)
      (s.here.afterAll cs)).run rest := by
  induction cs generalizing s with
  | nil => rfl
  | cons c cs ih =>
    obtain ⟨hc, hcs⟩ := goesOn_cons.1 h
    have hstart : (s.extend (depthAfter s.depth c) c).start = s.start := by
      simp [extend, hword]
    rw [List.cons_append, run_of_step (step_word (.inl hword) hc)]
    refine (id_map _).trans ?_
    rw [ih (s := s.extend (depthAfter s.depth c) c) (List.cons_ne_nil _ _) hcs, hstart,
      List.reverse_cons, List.append_assoc]
    rfl

/-- The lexer past an identifier, with the word still open. -/
def inside (p : Position) (word : List Char) : Lexer :=
  ⟨word.reverse, p, openParens word, p.afterAll word⟩

/-- Outside words an identifier is taken in whole. -/
theorem run_isIdentifier (h : IsIdentifier word) :
    (outside p).run (word ++ rest) = (inside p word).run rest := by
  cases word with
  | nil => exact h.elim
  | cons c cs =>
    obtain ⟨hstarts, hcs⟩ := isIdentifier_cons.1 h
    have hapart := And.intro (isBlank_of_startsWord hstarts) (isSpecial_of_startsWord hstarts)
    rw [List.cons_append, run_of_step (step_word (.inr hstarts) fun _ => hapart)]
    refine (id_map _).trans ?_
    rw [run_goesOn (List.cons_ne_nil _ _)]
    · rw [inside, openParens_cons_of_startsWord hstarts, List.reverse_cons]
      simp [extend, outside, depthAfter_of_startsWord hstarts]
    · simpa [extend, outside, depthAfter_of_startsWord hstarts] using hcs

/-- A word that has to end is a token where it starts. -/
theorem run_inside (hword : word ≠ []) (h : EndsWord (openParens word) rest) :
    (inside p word).run rest =
      ([⟨String.ofList word, p⟩] ++ ·) <$> (outside (p.afterAll word)).run rest := by
  have hpending : (inside p word).pending = [⟨String.ofList word, p⟩] := by
    simp [pending, inside, hword]
  cases rest with
  | nil =>
    rw [run, hpending]
    rfl
  | cons c rest =>
    obtain ⟨hdepth, hblank | hspecial⟩ := h
    · rw [run_of_step (step_blank hdepth hblank), run_of_step (step_blank rfl hblank), hpending,
        run_of_word_eq_nil (s := (inside p word).close 0 c) rfl rfl,
        run_of_word_eq_nil (s := (outside (p.afterAll word)).close 0 c) rfl rfl]
      exact congrArg _ (id_map _).symm
    · rw [run_of_step (step_special hdepth hspecial), run_of_step (step_special rfl hspecial),
        hpending, run_of_word_eq_nil (s := (inside p word).close 0 c) rfl rfl,
        run_of_word_eq_nil (s := (outside (p.afterAll word)).close 0 c) rfl rfl,
        ← comp_map]
      rfl

end Lexer

/-- A word ends before a beginning of what it ends before. -/
theorem EndsWord.of_append (h : EndsWord depth (cs ++ rest)) : EndsWord depth cs := by
  cases cs with
  | nil => trivial
  | cons c cs => exact h

/-- No word ends before a character that is refused. -/
theorem EndsWord.not_isRejected (h : EndsWord depth (c :: cs)) : ¬ IsRejected c := by
  rintro ⟨hblank, hspecial, -⟩
  simpa [hblank, hspecial] using h.2

/-- An identifier that is followed by blanks, by a special lexeme, or by the end ends there. -/
theorem endsWord_of_chain (hls : ∀ m ∈ l :: ls, m.Valid)
    (hchain : (l :: ls).IsChain Lexeme.MayPrecede) (hword : IsIdentifier l.content)
    (hend : rest = [] ∨ ¬ EndInIdentifier (l :: ls)) :
    EndsWord (openParens l.content) (l.blanks ++ (lexemesText ls ++ rest)) := by
  obtain ⟨-, hblanks, hclosed⟩ := hls l List.mem_cons_self
  cases hl : l.blanks with
  | cons b bs =>
    have hdepth : openParens l.content = 0 := by
      by_contra hopen
      rw [hclosed hopen] at hl
      cases hl
    exact ⟨hdepth, .inl (hblanks b (by rw [hl]; exact List.mem_cons_self))⟩
  | nil =>
    cases ls with
    | nil =>
      obtain rfl : rest = [] :=
        hend.resolve_right fun h => h (endInIdentifier_singleton.2 ⟨hword, hl⟩)
      trivial
    | cons next ls =>
      obtain ⟨hdepth, hapart⟩ := (List.isChain_cons_cons.1 hchain).1
      have hnext := (hls next (by simp)).content.resolve_right fun h => hapart hword h hl
      obtain ⟨c, hc, hcontent⟩ := hnext
      rw [lexemesText_cons, Lexeme.text, hcontent]
      exact ⟨hdepth, .inr hc⟩

theorem EndInIdentifier.cons (h : EndInIdentifier ls) (l : Lexeme) : EndInIdentifier (l :: ls) := by
  cases ls with
  | nil => simp [EndInIdentifier] at h
  | cons next ls => exact endInIdentifier_cons_cons.2 h

namespace Lexer

/-- A lexeme that ends where it has to is read as its token. -/
theorem run_lexeme (before : List Char) (h : l.Valid)
    (hends : IsIdentifier l.content → EndsWord (openParens l.content) (l.blanks ++ rest)) :
    (outside (placeAfter before)).run (l.text ++ rest) =
      ([⟨String.ofList l.content, placeAfter before⟩] ++ ·) <$>
        (outside (placeAfter (before ++ l.text))).run rest := by
  have hplace : placeAfter (before ++ l.text) =
      ((placeAfter before).afterAll l.content).afterAll l.blanks := by
    simp only [placeAfter_eq, Lexeme.text, Position.afterAll_append]
  rw [hplace, ← run_blanks h.blanks, Lexeme.text, List.append_assoc]
  rcases h.content with ⟨c, hc, hcontent⟩ | hword
  · rw [hcontent]
    exact run_special hc
  · rw [run_isIdentifier hword, run_inside _ (hends hword)]
    intro hnil
    rw [hnil] at hword
    exact hword

/-- Lexemes are read one after another, and then the rest of the text. -/
theorem run_lexemes (before : List Char) (hls : ∀ l ∈ ls, l.Valid)
    (hchain : ls.IsChain Lexeme.MayPrecede) (hend : rest = [] ∨ ¬ EndInIdentifier ls) :
    (outside (placeAfter before)).run (lexemesText ls ++ rest) =
      (tokensAfter before ls ++ ·) <$>
        (outside (placeAfter (before ++ lexemesText ls))).run rest := by
  induction ls generalizing before with
  | nil => simp [tokensAfter]
  | cons l ls ih =>
    have hfirst := run_lexeme before (hls l List.mem_cons_self)
      fun hword => endsWord_of_chain hls hchain hword hend
    have hrest := ih (before ++ l.text) (fun m hm => hls m (List.mem_cons_of_mem l hm))
      hchain.tail (hend.imp_right fun h hls => h (hls.cons l))
    rw [lexemesText_cons, List.append_assoc, hfirst, hrest, ← List.append_assoc, ← comp_map]
    rfl

end Lexer

namespace Writing

variable {v w : Writing} {text : List Char}

/-- A writing is read as its tokens, and then the rest of the text. -/
theorem Writes.run (h : w.Writes text) (hend : rest = [] ∨ ¬ EndInIdentifier w.lexemes) :
    Lexer.initial.run (text ++ rest) =
      (w.tokens ++ ·) <$> (Lexer.outside (placeAfter text)).run rest := by
  obtain ⟨rfl, hmargin, hls, hchain⟩ := h
  have hplace : Position.start.afterAll w.margin = placeAfter w.margin := (placeAfter_eq _).symm
  rw [Writing.text, List.append_assoc]
  refine (Lexer.run_blanks hmargin).trans ?_
  rw [hplace, Lexer.run_lexemes w.margin hls hchain hend, Writing.tokens]

/-- A text that is written as lexemes has their tokens. -/
theorem Writes.tokenize {text : String} (h : w.Writes text.toList) :
    tokenize text = .ok w.tokens := by
  have hrun : Lexer.initial.run (text.toList ++ []) = _ := h.run (.inl rfl)
  rw [List.append_nil] at hrun
  rw [Polyrhythm.tokenize, hrun, Lexer.run]
  exact congrArg Except.ok (List.append_nil _)

/-! ## Finding a writing -/

/-- A writing with one more character before it. -/
def indent (c : Char) (w : Writing) : Writing := ⟨c :: w.margin, w.lexemes⟩

/-- A writing with one more lexeme before it. -/
def lead (content : List Char) (w : Writing) : Writing := ⟨[], ⟨content, w.margin⟩ :: w.lexemes⟩

/-- One more blank before a writing. -/
theorem Writes.indent (h : w.Writes text) (hc : Text.isBlank c = true) :
    (w.indent c).Writes (c :: text) := by
  obtain ⟨rfl, hmargin, hls, hchain⟩ := h
  exact ⟨rfl, List.forall_mem_cons.2 ⟨hc, hmargin⟩, hls, hchain⟩

/-- One more lexeme before a writing; an identifier has to end there. -/
theorem Writes.lead (h : w.Writes text) (hcontent : IsSpecialText word ∨ IsIdentifier word)
    (hends : IsIdentifier word → EndsWord (openParens word) text) :
    (w.lead word).Writes (word ++ text) := by
  obtain ⟨rfl, hmargin, hls, hchain⟩ := h
  have hopen : openParens word ≠ 0 → w.text = [] := by
    intro hdepth
    rcases hcontent with ⟨c, hc, rfl⟩ | hword
    · refine absurd ?_ hdepth
      rw [openParens_eq, List.foldl_cons, Lexer.depthAfter_of_separates (.inr hc), List.foldl_nil]
    · have hword := hends hword
      cases htext : w.text with
      | nil => rfl
      | cons c cs =>
        rw [htext] at hword
        exact absurd hword.1 hdepth
  refine ⟨by simp [Writing.text, Writing.lead, Lexeme.text], nofun,
    List.forall_mem_cons.2 ⟨⟨hcontent, hmargin, fun hdepth => ?_⟩, hls⟩, ?_⟩
  · exact (List.append_eq_nil_iff.1 (hopen hdepth)).1
  · refine List.isChain_cons.2 ⟨fun next hnext => ?_, hchain⟩
    obtain ⟨ls, hlexemes⟩ := List.head?_eq_some_iff.1 hnext
    obtain ⟨c, cs, hc, hstarts⟩ := (hls next (by simp [hlexemes])).head
    have htext : w.text = w.margin ++ c :: (cs ++ (next.blanks ++ lexemesText ls)) := by
      simp [Writing.text, hlexemes, Lexeme.text, hc]
    constructor
    · by_contra hdepth
      rw [hopen hdepth] at htext
      simp at htext
    · intro hword hfollows hblanks
      have hends := hends hword
      rw [htext, show w.margin = [] from hblanks, List.nil_append] at hends
      rw [hc] at hfollows
      have hstarts := (isIdentifier_cons.1 hfollows).1
      have hapart := And.intro (isBlank_of_startsWord hstarts) (isSpecial_of_startsWord hstarts)
      simpa [hapart] using hends.2

/-- Where the longest writing that a text begins with ends: at the end of the text, or at a
character that is refused. -/
def IsStuck (w : Writing) (rest : List Char) : Prop :=
  rest = [] ∨ (∃ c after, rest = c :: after ∧ IsRejected c) ∧ ¬ EndInIdentifier w.lexemes

/-- One more lexeme before a writing does not change where it ends. -/
theorem IsStuck.lead (h : w.IsStuck rest) (hw : w.Writes text)
    (hends : IsIdentifier word → EndsWord (openParens word) (text ++ rest)) :
    (w.lead word).IsStuck rest := by
  refine h.imp_right ?_
  rintro ⟨⟨c, after, rfl, hrejected⟩, hend⟩
  refine ⟨⟨c, after, rfl, hrejected⟩, fun hlead => ?_⟩
  cases hlexemes : w.lexemes with
  | nil =>
    rw [Writing.lead, hlexemes] at hlead
    obtain ⟨hword, hmargin⟩ := endInIdentifier_singleton.1 hlead
    obtain rfl : text = [] := by
      rw [← hw.text_eq, Writing.text, hlexemes, show w.margin = [] from hmargin]
      rfl
    exact (hends hword).not_isRejected hrejected
  | cons l ls =>
    rw [Writing.lead, hlexemes] at hlead
    exact hend (hlexemes ▸ endInIdentifier_cons_cons.1 hlead)

/-- Each text begins with a writing that goes on to the end of the text or to a character that is
refused. -/
theorem exists_writes_prefix (text : List Char) :
    ∃ w before rest, text = before ++ rest ∧ Writes w before ∧ w.IsStuck rest := by
  induction hlength : text.length using Nat.strong_induction_on generalizing text with
  | h n ih =>
    subst hlength
    cases text with
    | nil =>
      exact ⟨⟨[], []⟩, [], [], rfl, ⟨rfl, nofun, nofun, .nil⟩, .inl rfl⟩
    | cons c cs =>
      rcases Lexer.cases_of_char c with hblank | hspecial | hstarts | hrejected
      · obtain ⟨w, before, rest, rfl, hw, hrest⟩ := ih _ (Nat.lt_succ_self _) cs rfl
        exact ⟨w.indent c, c :: before, rest, rfl, hw.indent hblank, hrest⟩
      · obtain ⟨w, before, rest, rfl, hw, hrest⟩ := ih _ (Nat.lt_succ_self _) cs rfl
        have hsingle : IsSpecialText [c] := ⟨c, hspecial, rfl⟩
        have hnot := not_isIdentifier_of_isSpecialText hsingle
        exact ⟨w.lead [c], [c] ++ before, rest, rfl,
          hw.lead (.inl hsingle) fun hword => (hnot hword).elim,
          hrest.lead hw fun hword => (hnot hword).elim⟩
      · obtain ⟨word, cs', hsplit, hword, hends⟩ := exists_isIdentifier hstarts cs
        have hshort : cs'.length < (c :: cs).length := by
          cases word with
          | nil => exact hword.elim
          | cons d word =>
            rw [hsplit, List.cons_append, List.length_cons, List.length_append]
            omega
        obtain ⟨w, before, rest, rfl, hw, hrest⟩ := ih _ hshort cs' rfl
        refine ⟨w.lead word, word ++ before, rest, by rw [hsplit, List.append_assoc],
          hw.lead (.inr hword) fun _ => hends.of_append, hrest.lead hw fun _ => hends⟩
      · exact ⟨⟨[], []⟩, [], c :: cs, rfl, ⟨rfl, nofun, nofun, .nil⟩,
          .inr ⟨⟨c, cs, rfl, hrejected⟩, by simp [EndInIdentifier]⟩⟩

/-! ## One writing a text -/

/-- What is written after the blanks does not begin with a blank. -/
theorem takeWhile_lexemesText (hls : ∀ l ∈ ls, l.Valid) :
    (lexemesText ls).takeWhile Text.isBlank = [] := by
  cases ls with
  | nil => rfl
  | cons l ls =>
    obtain ⟨c, cs, hcontent, hhead⟩ := (hls l List.mem_cons_self).head
    have hblank : Text.isBlank c = false := hhead.elim isBlank_of_isSpecial isBlank_of_startsWord
    simp [Lexeme.text, hcontent, hblank]

/-- The blanks before some lexemes are those that the text begins with. -/
theorem takeWhile_blanks_append (hcs : ∀ c ∈ cs, Text.isBlank c = true)
    (hls : ∀ l ∈ ls, l.Valid) : (cs ++ lexemesText ls).takeWhile Text.isBlank = cs := by
  rw [List.takeWhile_append_of_pos hcs, takeWhile_lexemesText hls, List.append_nil]

variable {ms : List Lexeme} {ds : List Char}

/-- A text falls in one way into blanks and what is written after them. -/
theorem blanks_eq_of_text (hcs : ∀ c ∈ cs, Text.isBlank c = true)
    (hds : ∀ c ∈ ds, Text.isBlank c = true) (hls : ∀ l ∈ ls, l.Valid) (hms : ∀ m ∈ ms, m.Valid)
    (htext : cs ++ lexemesText ls = ds ++ lexemesText ms) :
    cs = ds ∧ lexemesText ls = lexemesText ms := by
  have hblanks : cs = ds := by
    rw [← takeWhile_blanks_append hcs hls, htext, takeWhile_blanks_append hds hms]
  rw [hblanks] at htext
  exact ⟨hblanks, List.append_cancel_left htext⟩

/-- The text and the contents of its lexemes fix the blanks between them. -/
theorem lexemes_eq_of_contents (hls : ∀ l ∈ ls, l.Valid) (hms : ∀ m ∈ ms, m.Valid)
    (hcontents : ls.map Lexeme.content = ms.map Lexeme.content)
    (htext : lexemesText ls = lexemesText ms) : ls = ms := by
  induction ls generalizing ms with
  | nil => exact (List.map_eq_nil_iff.1 hcontents.symm).symm
  | cons l ls ih =>
    cases ms with
    | nil => cases hcontents
    | cons m ms =>
      obtain ⟨content, blanks⟩ := l
      obtain ⟨content', blanks'⟩ := m
      obtain ⟨hl, hrest⟩ := List.forall_mem_cons.1 hls
      obtain ⟨hm, hrest'⟩ := List.forall_mem_cons.1 hms
      obtain ⟨hcontent, htails⟩ := List.cons.inj hcontents
      obtain rfl : content = content' := hcontent
      simp only [lexemesText_cons, Lexeme.text, List.append_assoc] at htext
      obtain ⟨hblanks, htail⟩ :=
        blanks_eq_of_text hl.blanks hm.blanks hrest hrest' (List.append_cancel_left htext)
      rw [ih hrest hrest' htails htail, show blanks = blanks' from hblanks]

/-- The contents of the tokens of some lexemes are theirs. -/
theorem map_content_tokensAfter (before : List Char) (ls : List Lexeme) :
    (tokensAfter before ls).map (fun t => t.content.toList) = ls.map Lexeme.content := by
  induction ls generalizing before with
  | nil => rfl
  | cons l ls ih => rw [tokensAfter, List.map_cons, String.toList_ofList, ih, List.map_cons]

/-- A text is written as lexemes in at most one way. -/
theorem Writes.eq {text : String} (hv : v.Writes text.toList) (hw : w.Writes text.toList) :
    v = w := by
  have htokens : v.tokens = w.tokens := Except.ok.inj (hv.tokenize.symm.trans hw.tokenize)
  have hcontents : v.lexemes.map Lexeme.content = w.lexemes.map Lexeme.content := by
    rw [← map_content_tokensAfter v.margin, ← map_content_tokensAfter w.margin]
    exact congrArg _ htokens
  have htext : v.text = w.text := hv.text_eq.trans hw.text_eq.symm
  obtain ⟨hmargin, htext⟩ := blanks_eq_of_text hv.margin hw.margin hv.lexemes hw.lexemes htext
  have hlexemes := lexemes_eq_of_contents hv.lexemes hw.lexemes hcontents htext
  obtain ⟨margin, lexemes⟩ := v
  exact congrArg₂ Writing.mk hmargin hlexemes

end Writing

/-! ## Which texts are refused, and where -/

variable {text before before' : List Char} {c' : Char}

/-- A text that is refused at a character is refused by the lexer for that character. -/
theorem RefusedAt.run (h : RefusedAt text before c) :
    Lexer.initial.run text = .error (.invalidCharacter c (placeAfter before)) := by
  obtain ⟨⟨after, rfl⟩, hc, w, hw, hend⟩ := h
  rw [hw.run (.inr hend), Lexer.run_rejected rfl hc]
  rfl

/-- What is before the character at which a text is refused is not refused itself. -/
theorem RefusedAt.not_refusedAt_before (h : RefusedAt text before c) :
    ¬ RefusedAt before before' c' := by
  intro hbefore
  obtain ⟨-, -, w, hw, -⟩ := h
  have hrun : Lexer.initial.run (before ++ []) = _ := hw.run (.inl rfl)
  rw [List.append_nil, hbefore.run, Lexer.run] at hrun
  cases hrun

/-- A text is refused at one character only. -/
theorem RefusedAt.unique (h : RefusedAt text before c) (h' : RefusedAt text before' c') :
    before = before' ∧ c = c' := by
  have hapart : ¬ RefusedAt before before' c' := h.not_refusedAt_before
  have hapart' : ¬ RefusedAt before' before c := h'.not_refusedAt_before
  obtain ⟨⟨after, rfl⟩, hc, hw⟩ := h
  obtain ⟨⟨after', htext⟩, hc', hw'⟩ := h'
  rcases List.append_eq_append_iff.1 htext with ⟨between, hsplit, hrest⟩ | ⟨between, hsplit, hrest⟩
  · cases between with
    | nil => exact ⟨by simpa using hsplit.symm, (List.cons.inj hrest).1⟩
    | cons d between =>
      obtain ⟨rfl, -⟩ := List.cons.inj hrest
      exact absurd ⟨⟨between, hsplit⟩, hc, hw⟩ hapart'
  · cases between with
    | nil => exact ⟨by simpa using hsplit, (List.cons.inj hrest).1.symm⟩
    | cons d between =>
      obtain ⟨rfl, -⟩ := List.cons.inj hrest
      exact absurd ⟨⟨between, hsplit⟩, hc', hw'⟩ hapart

/-- A text is written as lexemes, or it is refused at a character. -/
theorem writes_or_refusedAt (text : List Char) :
    (∃ w : Writing, w.Writes text) ∨ ∃ before c, RefusedAt text before c := by
  obtain ⟨w, before, rest, rfl, hw, rfl | ⟨⟨c, after, rfl, hc⟩, hend⟩⟩ :=
    Writing.exists_writes_prefix text
  · exact .inl ⟨w, by rwa [List.append_nil]⟩
  · exact .inr ⟨before, c, ⟨after, rfl⟩, hc, w, hw, hend⟩

/-- A text that has tokens is written as their lexemes. -/
theorem exists_writes_of_tokenize {text : String} {tokens : List Token}
    (h : tokenize text = .ok tokens) : ∃ w : Writing, w.Writes text.toList ∧ w.tokens = tokens := by
  rcases writes_or_refusedAt text.toList with ⟨w, hw⟩ | ⟨before, c, hrefused⟩
  · exact ⟨w, hw, Except.ok.inj (hw.tokenize.symm.trans h)⟩
  · rw [tokenize, hrefused.run] at h
    cases h

/-- The content of a token is a lexeme. -/
theorem exists_lexeme_of_tokenize {text : String} {tokens : List Token}
    (h : tokenize text = .ok tokens) {t : Token} (ht : t ∈ tokens) :
    ∃ l : Lexeme, l.Valid ∧ t.content.toList = l.content := by
  obtain ⟨w, hw, rfl⟩ := exists_writes_of_tokenize h
  have hcontent : t.content.toList ∈ w.tokens.map fun t => t.content.toList :=
    List.mem_map_of_mem ht
  rw [Writing.tokens, Writing.map_content_tokensAfter] at hcontent
  obtain ⟨l, hl, hcontent⟩ := List.mem_map.1 hcontent
  exact ⟨l, hw.lexemes l hl, hcontent.symm⟩

/-- Tokenizing is maximal munch and loses nothing. It succeeds exactly on the texts that are blanks
and lexemes in turn, which a text is in at most one way, and yields the lexemes, each at the line
and column of its first character. It fails exactly at a character, at most one in a text, that is
refused after what can be written this way without ending in an identifier. -/
theorem tokenize_eq_munch (text : String) :
    (∀ tokens, tokenize text = .ok tokens ↔
      ∃ w : Writing, w.Writes text.toList ∧ w.tokens = tokens) ∧
    (∀ v w : Writing, v.Writes text.toList → w.Writes text.toList → v = w) ∧
    (∀ fault, tokenize text = .error fault ↔
      ∃ before c, RefusedAt text.toList before c ∧
        fault = .invalidCharacter c (placeAfter before)) ∧
    (∀ before c before' c', RefusedAt text.toList before c → RefusedAt text.toList before' c' →
      before = before' ∧ c = c') := by
  refine ⟨fun tokens => ⟨fun h => ?_, ?_⟩, fun v w => Writing.Writes.eq,
    fun fault => ⟨fun h => ?_, ?_⟩, fun _ _ _ _ => RefusedAt.unique⟩
  · rcases writes_or_refusedAt text.toList with ⟨w, hw⟩ | ⟨before, c, hrefused⟩
    · exact ⟨w, hw, Except.ok.inj (hw.tokenize.symm.trans h)⟩
    · rw [tokenize, hrefused.run] at h
      cases h
  · rintro ⟨w, hw, rfl⟩
    exact hw.tokenize
  · rcases writes_or_refusedAt text.toList with ⟨w, hw⟩ | ⟨before, c, hrefused⟩
    · rw [hw.tokenize] at h
      cases h
    · exact ⟨before, c, hrefused, Except.error.inj (h.symm.trans hrefused.run)⟩
  · rintro ⟨before, c, hrefused, rfl⟩
    exact hrefused.run

/-- `a(_\n)-b` is written in one way, with the line feed in the first identifier; `a 1` is refused
at its last character and at no other. -/
theorem tokenize_eq_munch_texts :
    (tokenize "a(_\n)-b" = .ok [⟨"a(_\n)", ⟨0, 0⟩⟩, ⟨"-", ⟨1, 1⟩⟩, ⟨"b", ⟨1, 2⟩⟩] ∧
      ∃! w : Writing, w.Writes "a(_\n)-b".toList) ∧
    tokenize "a 1" = .error (.invalidCharacter '1' ⟨0, 2⟩) ∧
      ∀ before c, RefusedAt "a 1".toList before c → before = ['a', ' '] ∧ c = '1' := by
  have hword : IsIdentifier ['a', '(', '_', '\n', ')'] := by
    refine isIdentifier_cons.2 ⟨by decide +kernel, ?_⟩
    simp [goesOn_cons, goesOn_nil, Lexer.depthAfter]
    decide
  have hshort : ∀ c ∈ ['a', 'b'], IsIdentifier [c] := by
    have hstarts : ['a', 'b'].all startsWord = true := by decide +kernel
    exact fun c hc => isIdentifier_cons.2 ⟨List.all_eq_true.1 hstarts c hc, goesOn_nil⟩
  have hw : Writing.Writes ⟨[], [⟨['a', '(', '_', '\n', ')'], []⟩, ⟨['-'], []⟩, ⟨['b'], []⟩]⟩
      "a(_\n)-b".toList := by
    refine ⟨by decide, List.forall_mem_nil _, ?_, ?_⟩
    · simp only [List.forall_mem_cons]
      exact ⟨⟨.inr hword, List.forall_mem_nil _, fun _ => rfl⟩,
        ⟨.inl ⟨'-', rfl, rfl⟩, List.forall_mem_nil _, fun _ => rfl⟩,
        ⟨.inr (hshort 'b' (by simp)), List.forall_mem_nil _, fun _ => rfl⟩, List.forall_mem_nil _⟩
    · have hdash := not_isIdentifier_of_isSpecialText ⟨'-', rfl, rfl⟩
      exact .cons_cons ⟨rfl, fun _ h => absurd h hdash⟩
        (.cons_cons ⟨rfl, fun h => absurd h hdash⟩ (.singleton _))
  have hrefused : RefusedAt "a 1".toList ['a', ' '] '1' := by
    refine ⟨⟨[], by decide⟩, ⟨by decide, by decide, by decide +kernel, by decide⟩,
      ⟨[], [⟨['a'], [' ']⟩]⟩, ⟨rfl, List.forall_mem_nil _, ?_, .singleton _⟩, ?_⟩
    · simp only [List.forall_mem_cons]
      exact ⟨⟨.inr (hshort 'a' (by simp)), List.forall_mem_singleton.2 (by decide),
        fun h => absurd rfl h⟩, List.forall_mem_nil _⟩
    · simp [endInIdentifier_singleton]
  obtain ⟨hok, hunique, -, -⟩ := tokenize_eq_munch "a(_\n)-b"
  obtain ⟨-, -, herror, hone⟩ := tokenize_eq_munch "a 1"
  exact ⟨⟨(hok _).2 ⟨_, hw, by decide⟩, _, hw, fun v hv => hunique v _ hv hw⟩,
    (herror _).2 ⟨_, _, hrefused, rfl⟩, fun before c h => hone before c _ _ h hrefused⟩

end Polyrhythm
