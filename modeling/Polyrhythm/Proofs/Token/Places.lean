import Mathlib.Data.List.Induction
import Polyrhythm.Token.Lexer
import Polyrhythm.Traversal

/-!
# Where tokens stand

The lexer keeps track of the place it has come to and of the place where the open word starts
(`Lexer.HasRead`, which every step keeps). So every token stands in the text at its position
(`stands_of_tokenize`), and the only fault of the lexer is a character of the text, at its position,
that is no blank, no token of its own and no start of a word (`rejected_of_tokenize`).
-/

namespace Polyrhythm

open Traversal

/-! ## Places in a text -/

/-- Some characters stand in a text, the first of them at a position. -/
def Stands (text word : List Char) (position : Position) : Prop :=
  ∃ before after, text = before ++ (word ++ after) ∧ position = Position.start.afterAll before

variable {text word more read rest : List Char} {p : Position} {c : Char}

/-- The position after a text in numbers: the line feeds in it, and the characters since the last of
them. -/
theorem Position.afterAll_start (text : List Char) :
    Position.start.afterAll text =
      ⟨text.count '\n', (text.reverse.takeWhile (· != '\n')).length⟩ := by
  induction text using List.reverseRecOn with
  | nil => rfl
  | append_singleton text c ih =>
    rw [afterAll_append, ih, List.count_append, List.reverse_append]
    by_cases hc : c = '\n'
    · simp [after, hc]
    · simp [after, hc]

/-- What stands in a text stands in any text that goes on from it. -/
theorem Stands.append (h : Stands text word p) (more : List Char) :
    Stands (text ++ more) word p := by
  obtain ⟨before, after, rfl, hp⟩ := h
  exact ⟨before, after ++ more, by simp only [List.append_assoc], hp⟩

/-- Where a word stands, its first character stands. -/
theorem Stands.head (h : Stands text (c :: word) p) : Stands text [c] p := by
  obtain ⟨before, after, rfl, hp⟩ := h
  exact ⟨before, word ++ after, rfl, hp⟩

namespace Lexer

variable {s s' : Lexer} {tokens : List Token} {fault : Fault}

/-- What a lexer knows of the characters it has read: it is at the place after them, the open word
ends them and starts at its position, and no parenthesis is open outside words. -/
structure HasRead (s : Lexer) (read : List Char) : Prop where
  here : s.here = Position.start.afterAll read
  word : ∃ before, read = before ++ s.word.reverse ∧
    (s.word ≠ [] → s.start = Position.start.afterAll before)
  depth : s.word = [] → s.depth = 0

theorem hasRead_initial : initial.HasRead [] :=
  ⟨rfl, ⟨[], rfl, fun h => absurd rfl h⟩, fun _ => rfl⟩

/-! ## One character -/

/-- The place after one more character. -/
theorem HasRead.here_after (h : s.HasRead read) (c : Char) :
    s.here.after c = Position.start.afterAll (read ++ [c]) := by
  rw [h.here, Position.afterAll_append]
  rfl

/-- The open word stands where it starts. -/
theorem HasRead.pending (h : s.HasRead read) :
    ∀ t ∈ s.pending, Stands read t.content.toList t.position := by
  intro t ht
  rw [Lexer.pending] at ht
  split at ht
  · cases ht
  · next hword =>
    rw [List.mem_singleton.1 ht]
    obtain ⟨before, hread, hstart⟩ := h.word
    refine ⟨before, [], ?_, hstart fun hnil => hword (by rw [hnil]; rfl)⟩
    rw [hread, String.toList_ofList, List.append_nil]

/-- A character outside words closes the open one. -/
theorem HasRead.close (h : s.HasRead read) (c : Char) : (s.close 0 c).HasRead (read ++ [c]) :=
  ⟨h.here_after c, ⟨read ++ [c], (List.append_nil _).symm, fun hne => absurd rfl hne⟩, fun _ => rfl⟩

/-- A character of a word extends the open one or starts a new one where it stands. -/
theorem HasRead.extend (h : s.HasRead read) (depth : Nat) (c : Char) :
    (s.extend depth c).HasRead (read ++ [c]) := by
  refine ⟨h.here_after c, ?_, nofun⟩
  obtain ⟨before, hread, hstart⟩ := h.word
  cases hword : s.word with
  | nil =>
    refine ⟨read, by simp [Lexer.extend, hword], fun _ => ?_⟩
    rw [Lexer.extend, hword, List.isEmpty_nil, if_pos rfl, h.here]
  | cons d ds =>
    refine ⟨before, ?_, fun _ => ?_⟩
    · rw [hread, Lexer.extend, List.reverse_cons, List.append_assoc]
    · rw [Lexer.extend, hword]
      exact hstart (by rw [hword]; nofun)

/-- A step keeps track of the places, and the tokens it completes stand where they say. -/
theorem HasRead.step (h : s.HasRead read) (hstep : s.step c = .ok (tokens, s')) :
    s'.HasRead (read ++ [c]) ∧
      ∀ t ∈ tokens, Stands (read ++ [c]) t.content.toList t.position := by
  have hpending : ∀ t ∈ s.pending, Stands (read ++ [c]) t.content.toList t.position :=
    fun t ht => (h.pending t ht).append [c]
  rw [Lexer.step] at hstep
  split at hstep
  · next hblank =>
    cases hstep
    rw [(of_decide_eq_true (Bool.and_eq_true_iff.1 hblank).1)]
    exact ⟨h.close c, hpending⟩
  · split at hstep
    · next hspecial =>
      cases hstep
      rw [(of_decide_eq_true (Bool.and_eq_true_iff.1 hspecial).1)]
      refine ⟨h.close c, fun t ht => ?_⟩
      rcases List.mem_append.1 ht with ht | ht
      · exact hpending t ht
      · rw [List.mem_singleton.1 ht]
        exact ⟨read, [], by simp, h.here⟩
    · split at hstep
      · cases hstep
        exact ⟨h.extend _ c, nofun⟩
      · cases hstep

end Lexer

/-- A character that the lexer refuses: no blank, no token of its own, and no start of a word. -/
def IsRejected (c : Char) : Prop :=
  Text.isBlank c = false ∧ isSpecial c = false ∧ Text.isLetter c = false ∧ c ≠ '/'

namespace Lexer

variable {s s' : Lexer} {tokens : List Token} {fault : Fault}

/-- A step fails only at a character that is refused, outside words. -/
theorem HasRead.rejected (h : s.HasRead read) (hstep : s.step c = .error fault) :
    fault = .invalidCharacter c s.here ∧ IsRejected c := by
  rw [Lexer.step] at hstep
  split at hstep
  · cases hstep
  · next hblank =>
    split at hstep
    · cases hstep
    · next hspecial =>
      split at hstep
      · cases hstep
      · next hword =>
        cases hstep
        refine ⟨rfl, ?_⟩
        obtain ⟨hempty, hstart⟩ := Bool.or_eq_false_iff.1 (Bool.eq_false_iff.2 hword)
        obtain ⟨hletter, hslash⟩ := Bool.or_eq_false_iff.1 hstart
        have hdepth := h.depth (by simpa using hempty)
        have hoffer : Text.isBlank c = false ∧ isSpecial c = false := by
          by_cases hparen : c = '('
          · rw [hparen]
            decide
          · have hzero : depthAfter s.depth c = 0 := by
              rw [depthAfter, hdepth, if_neg hparen]
              split <;> rfl
            simpa [hzero] using And.intro hblank hspecial
        exact ⟨hoffer.1, hoffer.2, hletter, of_decide_eq_false hslash⟩

/-! ## The rest of a text -/

/-- The tokens of the rest of a text stand in the text where they say. -/
theorem HasRead.run (h : s.HasRead read) (hrun : s.run rest = .ok tokens) :
    ∀ t ∈ tokens, Stands (read ++ rest) t.content.toList t.position := by
  induction rest generalizing s read tokens with
  | nil =>
    cases hrun
    rw [List.append_nil]
    exact h.pending
  | cons c rest ih =>
    obtain ⟨⟨first, s'⟩, hstep, hrun⟩ := bind_eq_ok.1 hrun
    obtain ⟨more, hmore, hrun⟩ := bind_eq_ok.1 hrun
    cases hrun
    obtain ⟨hread, hfirst⟩ := h.step hstep
    have hrest := ih hread hmore
    rw [List.append_assoc] at hrest
    intro t ht
    rcases List.mem_append.1 ht with ht | ht
    · have hstands := (hfirst t ht).append rest
      rwa [List.append_assoc] at hstands
    · exact hrest t ht

/-- The rest of a text is refused only for a character of it. -/
theorem HasRead.run_error (h : s.HasRead read) (hrun : s.run rest = .error fault) :
    ∃ c p, fault = .invalidCharacter c p ∧ Stands (read ++ rest) [c] p ∧ IsRejected c := by
  induction rest generalizing s read with
  | nil => cases hrun
  | cons c rest ih =>
    rcases bind_eq_error.1 hrun with hstep | ⟨⟨first, s'⟩, hstep, hrun⟩
    · obtain ⟨rfl, hrejected⟩ := h.rejected hstep
      exact ⟨c, s.here, rfl, ⟨read, rest, rfl, h.here⟩, hrejected⟩
    · rcases bind_eq_error.1 hrun with hmore | ⟨more, -, hrun⟩
      · have hrest := ih (h.step hstep).1 hmore
        rwa [List.append_assoc] at hrest
      · cases hrun

end Lexer

/-! ## Texts -/

/-- The tokens of a text stand in it where they say. -/
theorem stands_of_tokenize {text : String} {tokens : List Token}
    (h : tokenize text = .ok tokens) :
    ∀ t ∈ tokens, Stands text.toList t.content.toList t.position :=
  Lexer.hasRead_initial.run h

/-- A text is refused by the lexer only for a character of it. -/
theorem rejected_of_tokenize {text : String} {fault : Fault} (h : tokenize text = .error fault) :
    ∃ c p, fault = .invalidCharacter c p ∧ Stands text.toList [c] p ∧ IsRejected c :=
  Lexer.hasRead_initial.run_error h

end Polyrhythm
