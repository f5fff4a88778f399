import Polyrhythm.Proofs.Token.Writing

/-!
# Texts line by line

A blank outside parentheses ends whatever is open, so the text after it is read from a fresh start
(`Lexer.run_append_blank`). Where the lexer starts only shows in the positions it gives out: moving
the start moves the tokens and the fault (`Lexer.run_moved`). So a text on a line of its own below
another has the tokens and the fault it has alone, further down (`tokenize_append_line`).
-/

namespace Polyrhythm

open Traversal

variable {f : Position → Position} {c : Char} {cs rest : List Char}

/-! ## Other positions -/

/-- A token with its position moved. -/
def Token.moved (f : Position → Position) (t : Token) : Token := { t with position := f t.position }

/-- A fault with its position moved, if it has one. -/
def Fault.moved (f : Position → Position) : Fault → Fault
  | .invalidCharacter c position => .invalidCharacter c (f position)
  | .unopenedBlock position => .unopenedBlock (position.map f)
  | .unclosedBlock position => .unclosedBlock (position.map f)
  | .invalidMarker content position => .invalidMarker content (position.map f)
  | .nothingToHold position => .nothingToHold (position.map f)
  | .unknownSound name position => .unknownSound name (position.map f)
  | .lookupRefused reason position => .lookupRefused reason (position.map f)
  | fault => fault

/-- The position that a character of a text has once the text stands on a line of its own below
another: its line is lower by the line feeds of the text above and the one between the two. -/
def Position.below (above : String) (p : Position) : Position :=
  ⟨p.line + (1 + above.toList.count '\n'), p.column⟩

/-- Below another text, too, each character stands after the one before it. -/
theorem Position.after_below (above : String) (p : Position) (c : Char) :
    (p.below above).after c = (p.after c).below above := by
  unfold after
  split
  · exact congrArg (Position.mk · 0) (Int.add_right_comm ..)
  · rfl

/-- The first character after a text and a line feed is the first of its line. -/
theorem Position.after_afterAll_start (above : String) :
    (start.afterAll above.toList).after '\n' = start.below above := by
  have hline : (above.toList.count '\n' : Int) + 1 = 0 + (1 + above.toList.count '\n') := by omega
  rw [afterAll_start]
  exact congrArg (Position.mk · 0) hline

namespace Lexer

variable {s s' : Lexer} {tokens : List Token}

/-- A lexer with its positions moved. -/
def moved (f : Position → Position) (s : Lexer) : Lexer :=
  ⟨s.word, f s.start, s.depth, f s.here⟩

@[simp]
theorem word_moved (f : Position → Position) (s : Lexer) : (s.moved f).word = s.word := rfl

@[simp]
theorem depth_moved (f : Position → Position) (s : Lexer) : (s.moved f).depth = s.depth := rfl

@[simp]
theorem here_moved (f : Position → Position) (s : Lexer) : (s.moved f).here = f s.here := rfl

/-! ## Where the lexer starts -/

/-- The open word is a token at the moved start. -/
theorem pending_moved (f : Position → Position) (s : Lexer) :
    (s.moved f).pending = s.pending.map (Token.moved f) := by
  rw [pending, pending, word_moved]
  split <;> rfl

/-- A step with moved positions yields moved tokens or a moved fault. -/
theorem step_moved (hf : ∀ p c, (f p).after c = f (p.after c)) (s : Lexer) (c : Char) :
    (s.moved f).step c =
      bimap (Fault.moved f) (Prod.map (List.map (Token.moved f)) (moved f)) (s.step c) := by
  have hclose (depth : Nat) : (s.moved f).close depth c = (s.close depth c).moved f :=
    congrArg (Lexer.mk [] (f s.start) depth) (hf s.here c)
  have hextend (depth : Nat) : (s.moved f).extend depth c = (s.extend depth c).moved f := by
    have hstart : (if s.word.isEmpty then f s.here else f s.start) =
        f (if s.word.isEmpty then s.here else s.start) := (apply_ite f ..).symm
    exact congrArg₂ (Lexer.mk (c :: s.word) · depth) hstart (hf s.here c)
  have hdepth : depthAfter (s.moved f).depth c = depthAfter s.depth c := rfl
  have hspecial : s.pending.map (Token.moved f) ++ [Token.mk c.toString (f s.here)] =
      (s.pending ++ [Token.mk c.toString s.here]).map (Token.moved f) := by
    rw [List.map_append]
    rfl
  rw [step, step, hdepth, pending_moved, here_moved, word_moved]
  simp only [hspecial, hclose, hextend]
  split_ifs <;> rfl

/-- Moving the positions of a lexer moves the tokens it reads and the fault it stops at. -/
theorem run_moved (hf : ∀ p c, (f p).after c = f (p.after c)) (s : Lexer) (cs : List Char) :
    (s.moved f).run cs = bimap (Fault.moved f) (List.map (Token.moved f)) (s.run cs) := by
  induction cs generalizing s with
  | nil => exact congrArg Except.ok (pending_moved f s)
  | cons c cs ih =>
    refine bind_eq_bimap (step_moved hf s c) fun (first, s') => bind_eq_bimap (ih s') fun more => ?_
    exact congrArg Except.ok List.map_append.symm

/-! ## After a blank -/

/-- A step goes on to the next character and counts its parentheses. -/
theorem of_step (h : s.step c = .ok (tokens, s')) :
    s'.depth = depthAfter s.depth c ∧ s'.here = s.here.after c := by
  simp only [step] at h
  split at h
  · cases h; exact ⟨rfl, rfl⟩
  · split at h
    · cases h; exact ⟨rfl, rfl⟩
    · split at h
      · cases h; exact ⟨rfl, rfl⟩
      · cases h

/-- What follows a blank at which no parenthesis is open is read from a fresh start. -/
theorem run_append_blank (hrun : s.run cs = .ok tokens)
    (hdepth : cs.foldl depthAfter s.depth = 0) (hc : Text.isBlank c = true) :
    s.run (cs ++ c :: rest) =
      (tokens ++ ·) <$> (outside ((s.here.afterAll cs).after c)).run rest := by
  induction cs generalizing s tokens with
  | nil =>
    cases hrun
    rw [List.nil_append, run_of_step (step_blank hdepth hc), run_of_word_eq_nil rfl rfl]
    rfl
  | cons d ds ih =>
    obtain ⟨⟨first, s'⟩, hstep, hrun⟩ := bind_eq_ok.1 hrun
    obtain ⟨more, hmore, hrun⟩ := bind_eq_ok.1 hrun
    cases hrun
    obtain ⟨hdepth', hhere⟩ := of_step hstep
    rw [List.foldl_cons, ← hdepth'] at hdepth
    rw [List.cons_append, run_of_step hstep, ih hmore hdepth, hhere, ← comp_map]
    refine congrArg (· <$> _) (funext fun others => ?_)
    exact (List.append_assoc ..).symm

end Lexer

/-! ## Lines -/

/-- A text on a line of its own, below another that leaves no parenthesis open, has the tokens it
has alone, or the fault, with the same sentence, further down. -/
theorem tokenize_append_line {above text : String} {tokens : List Token}
    (h : tokenize above = .ok tokens) (hclosed : openParens above.toList = 0) :
    (∀ more, tokenize text = .ok more →
      tokenize (above ++ "\n" ++ text) =
        .ok (tokens ++ more.map (Token.moved (Position.below above)))) ∧
    ∀ fault, tokenize text = .error fault → ∃ c p sentence, fault = .invalidCharacter c p ∧
      tokenize (above ++ "\n" ++ text) = .error (.invalidCharacter c (p.below above)) ∧
      ∀ q, (Fault.invalidCharacter c q).message = sentence ++ q.text := by
  have hchars : (above ++ "\n" ++ text).toList = above.toList ++ '\n' :: text.toList := by
    simp
  -- Before the first character no word is open, so it does not matter where one would start.
  have hfresh : (Lexer.outside (Position.start.below above)).run text.toList =
      (Lexer.initial.moved (Position.below above)).run text.toList :=
    (Lexer.run_of_word_eq_nil (s := Lexer.initial.moved (Position.below above)) rfl rfl).symm
  have hrun : tokenize (above ++ "\n" ++ text) = (tokens ++ ·) <$>
      bimap (Fault.moved (Position.below above)) (List.map (Token.moved (Position.below above)))
        (tokenize text) := by
    rw [tokenize, tokenize, ← Lexer.run_moved (Position.after_below above), ← hfresh,
      ← Position.after_afterAll_start, hchars]
    exact Lexer.run_append_blank h hclosed (by decide)
  refine ⟨fun more hmore => ?_, fun fault hfault => ?_⟩
  · rw [hrun, hmore]
    rfl
  · obtain ⟨c, p, rfl, -⟩ := rejected_of_tokenize hfault
    refine ⟨c, p, _, rfl, ?_, fun q => rfl⟩
    rw [hrun, hfault]
    rfl

/-- The line feed that an identifier takes in counts, and a stray closing parenthesis does not. -/
theorem tokenize_append_line_stray :
    tokenize "a(\n)b)" = .ok [⟨"a(\n)b)", 0, 0⟩] ∧ openParens "a(\n)b)".toList = 0 ∧
      tokenize ("a(\n)b)" ++ "\n" ++ "c _") =
        .ok [⟨"a(\n)b)", 0, 0⟩, ⟨"c", 2, 0⟩, ⟨"_", 2, 2⟩] ∧
      tokenize ("a(\n)b)" ++ "\n" ++ "c 1") = .error (.invalidCharacter '1' ⟨2, 2⟩) := by
  have habove : tokenize "a(\n)b)" = .ok [⟨"a(\n)b)", 0, 0⟩] := by decide +kernel
  have hclosed : openParens "a(\n)b)".toList = 0 := by decide
  have hbelow : tokenize "c _" = .ok [⟨"c", 0, 0⟩, ⟨"_", 0, 2⟩] := by decide +kernel
  have hrefused : tokenize "c 1" = .error (.invalidCharacter '1' ⟨0, 2⟩) := by decide +kernel
  obtain ⟨c, p, -, hfault, hfaulty, -⟩ := (tokenize_append_line habove hclosed).2 _ hrefused
  obtain ⟨rfl, rfl⟩ := Fault.invalidCharacter.inj hfault
  exact ⟨habove, hclosed, (tokenize_append_line habove hclosed).1 _ hbelow, hfaulty⟩

end Polyrhythm
