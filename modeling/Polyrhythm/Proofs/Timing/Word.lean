import Polyrhythm.Proofs.Timing.Annotation
import Polyrhythm.Proofs.Timing.Literal
import Polyrhythm.Proofs.Token.Writing

/-!
# Texts of one word

A text that is a single identifier is one token, and that token is one symbol, unless it is a tempo
marker (`build_word`). So the timed tree of such a text is that symbol, of one unit (`parse_word`);
a letter with a literal in parentheses has its pitch (`parse_pitched`).
-/

namespace Polyrhythm

open Traversal

variable {content : List Char} {t : Token}

/-- An identifier by itself is one token. -/
theorem tokenize_word (h : IsIdentifier content) :
    tokenize (String.ofList content) = .ok [⟨String.ofList content, .start⟩] := by
  have hword : content ≠ [] := by
    rintro rfl
    exact h
  have hopen : (Lexer.outside .start).run (content ++ []) =
      (Lexer.inside .start content).run [] := Lexer.run_isIdentifier h
  have hclose : (Lexer.inside .start content).run [] = .ok [⟨String.ofList content, .start⟩] := by
    refine (Lexer.run_inside hword ?_).trans rfl
    trivial
  rw [tokenize, String.toList_ofList, ← hclose, ← hopen, List.append_nil]
  rfl

/-- A letter with a literal in parentheses is an identifier. -/
theorem isIdentifier_pitched {c : Char} {literal : List Char} (hc : startsWord c = true)
    (hliteral : ∀ d ∈ literal, d ≠ '(' ∧ d ≠ ')') :
    IsIdentifier (c :: '(' :: (literal ++ [')'])) := by
  have hinside : GoesOn 1 (literal ++ [')']) := by
    induction literal with
    | nil => exact goesOn_cons.2 ⟨nofun, goesOn_nil⟩
    | cons d literal ih =>
      obtain ⟨⟨hopen, hclose⟩, hliteral⟩ := List.forall_mem_cons.1 hliteral
      refine goesOn_cons.2 ⟨nofun, ?_⟩
      rw [Lexer.depthAfter, if_neg hopen, if_neg hclose]
      exact ih hliteral
  have hopen : Text.isBlank '(' = false ∧ isSpecial '(' = false := by decide +kernel
  exact isIdentifier_cons.2 ⟨hc, goesOn_cons.2 ⟨fun _ => hopen, hinside⟩⟩

/-- The symbol of an identifier is none of the special characters. -/
theorem isSymbol_of_isIdentifier (h : IsIdentifier t.content.toList) {c : Char}
    (hc : isSpecial c = true) : t.symbol.isSymbol (String.ofList [c]) = false := by
  refine decide_eq_false fun hcontent => ?_
  have hcontent : t.content = String.ofList [c] := hcontent
  rw [hcontent, String.toList_ofList] at h
  exact not_isIdentifier_of_isSpecialText ⟨c, hc, rfl⟩ h

/-- A token that is an identifier and no marker is built to its symbol. -/
theorem build_word (h : IsIdentifier t.content.toList)
    (hmarker : Marker.read? t.content.toList = none) : build [t] = .ok t.symbol := by
  have hopen : t.symbol.isSymbol openingBrace = false :=
    isSymbol_of_isIdentifier h (c := '\x7b') rfl
  have hclose : t.symbol.isSymbol closingBrace = false :=
    isSymbol_of_isIdentifier h (c := '\x7d') rfl
  have hcomma : t.symbol.isSymbol "," = false := isSymbol_of_isIdentifier h (c := ',') rfl
  have hperiod : t.symbol.isSymbol "." = false := isSymbol_of_isIdentifier h (c := '.') rfl
  have hhold : t.content ≠ "_" := of_decide_eq_false (isSymbol_of_isIdentifier h (c := '_') rfl)
  have hmarker : t.symbol.marker? = none := hmarker
  have hbraces (read : List Node → Except Fault Node) :
      groupBraces read [t.symbol] = .ok [t.symbol] := by
    rw [groupBraces, cutBlocks, cutFrom, if_neg (by rw [hopen]; exact Bool.false_ne_true),
      if_neg (by rw [hclose]; exact Bool.false_ne_true)]
    rfl
  have hmarkers : applyMarkers [t.symbol] = .ok [t.symbol] := by
    have hpaced : t.symbol.adjustTempo 1 = .ok t.symbol := by
      rw [Token.symbol, Node.adjustTempo, Node.scaleTempo, mul_one]
      rfl
    rw [applyMarkers, applyMarkersFrom, hmarker]
    exact bind_eq_ok.2 ⟨_, hpaced, rfl⟩
  have hholds : tagHolds [t.symbol] = [t.symbol] := congrArg (fun n => [n]) (if_neg hhold)
  have hsplit {separator : String} (hseparator : t.symbol.isSymbol separator = false)
      (join : List Node → Node) (read : List Node → Except Fault Node) :
      splitAt separator join read [t.symbol] = .ok [t.symbol] := by
    rw [splitAt, List.any_cons, hseparator]
    rfl
  have hpasses : passes readLevel [t.symbol] = .ok [t.symbol] := by
    refine bind_eq_ok.2 ⟨_, bind_eq_ok.2 ⟨_, bind_eq_ok.2 ⟨_, bind_eq_ok.2 ⟨_, hbraces _,
      hmarkers⟩, congrArg Except.ok hholds⟩, hsplit hcomma _ _⟩, hsplit hperiod _ _⟩
  rw [build, List.map_singleton, readLevel_eq, hpasses]
  rfl

/-- The timed tree of an identifier that is no marker is its symbol, of one unit. -/
theorem parse_word (h : IsIdentifier content) (hmarker : Marker.read? content = none) :
    parse (String.ofList content) = .ok (.symbol
      { (Symbol.mk (String.ofList content) (some .start) 1 none none).splitPitch with
        duration := some 1 }) := by
  let t : Token := ⟨String.ofList content, .start⟩
  have hcontent : t.content.toList = content := String.toList_ofList
  have hbuild : build [t] = .ok t.symbol := by
    refine build_word ?_ ?_
    · rwa [hcontent]
    · rwa [hcontent]
  refine bind_eq_ok.2 ⟨[t], tokenize_word h, bind_eq_ok.2 ⟨_, hbuild, ?_⟩⟩
  have hlength : (1 : Rat) * (1 / 1) = 1 := by norm_num
  refine (Node.annotate_eq_ok (written_of_build hbuild)).2 ⟨?_, rfl⟩
  rw [Node.timed_eq_gather (written_of_build hbuild), Token.symbol, Node.laid, hlength]
  rfl

/-- The timed tree of a letter with a literal in parentheses is a symbol with that pitch. -/
theorem parse_pitched {c : Char} {literal : List Char} {d : Number.Decimal}
    (hc : Text.isLetter c = true) (hd : Number.readPitch? literal = some d) :
    parse (String.ofList (c :: '(' :: (literal ++ [')']))) = .ok (.symbol
      ⟨String.ofList [c], some .start, 1, some (.real d.toReal), some 1⟩) := by
  have hne {other : Char} (hother : Text.isLetter other = false) : c ≠ other := by
    rintro rfl
    rw [hother] at hc
    cases hc
  have hplain : ∀ e ∈ literal, e ≠ '(' ∧ e ≠ ')' :=
    fun e he => ((Number.writtenAs_of_readPitch? hd).plain e he).2.2
  have hstarts : startsWord c = true := by rw [startsWord, hc]; rfl
  have hmarker : Marker.read? (c :: '(' :: (literal ++ [')'])) = none := by
    rw [Marker.read?.eq_def]
    split
    · next hslash => exact absurd (List.cons.inj hslash).1 (hne (by decide +kernel))
    · rfl
  have hsplit : splitPitch? (c :: '(' :: (literal ++ [')'])) = some ([c], d) := by
    refine splitPitch?_eq_some_iff.2 ⟨literal, [], rfl, List.cons_ne_nil _ _, ?_, hd, .inl rfl⟩
    intro e he
    rw [List.mem_singleton.1 he]
    exact ⟨hne (by decide +kernel), hne (by decide +kernel)⟩
  rw [parse_word (isIdentifier_pitched hstarts hplain) hmarker, Symbol.splitPitch,
    String.toList_ofList, hsplit]

end Polyrhythm
