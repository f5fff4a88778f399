import Mathlib.Data.List.TakeDrop
import Mathlib.Data.List.TakeWhile
import Polyrhythm.Timing.Pitch

/-!
# Pitch literals

What stands between the parentheses of a pitched symbol is a minus sign or none, digits, and a point
or none with further digits (`Number.IsPitchLiteral`); these are exactly the literals that are read
as a pitch (`Number.isPitchLiteral_iff`), and the pitch is the number that the general reader of
real numbers reads there (`Number.readReal?_of_readPitch?`). A content is taken apart exactly if it
is a name without parentheses and such a literal between parentheses (`splitPitch?_eq_some_iff`), up
to a line feed after it, which no token has.
-/

namespace Polyrhythm

namespace Number

open Text

/-! ## Runs of digits -/

/-- A run at the front of a list ends where its property ends. -/
theorem span_append {α : Type} {p : α → Bool} {xs ys : List α} (hxs : ∀ x ∈ xs, p x = true)
    (hys : ∀ y ∈ ys.head?, p y = false) : (xs ++ ys).span p = (xs, ys) := by
  rw [List.span_eq_takeWhile_dropWhile, List.takeWhile_append_of_pos hxs,
    List.dropWhile_append_of_pos hxs]
  cases ys with
  | nil => simp
  | cons y ys => simp [hys y rfl]

/-- What a list falls into at the end of its first run. -/
theorem span_spec {α : Type} (p : α → Bool) (xs : List α) :
    xs = (xs.span p).1 ++ (xs.span p).2 ∧ (∀ x ∈ (xs.span p).1, p x = true) ∧
      ∀ x ∈ (xs.span p).2.head?, p x = false := by
  rw [List.span_eq_takeWhile_dropWhile]
  refine ⟨List.takeWhile_append_dropWhile.symm, fun x hx => List.mem_takeWhile_imp hx, ?_⟩
  intro x hx
  have hne : xs.dropWhile p ≠ [] := by
    intro hnil
    rw [hnil] at hx
    cases hx
  have hhead := List.head_dropWhile_not p hne
  rw [List.head?_eq_some_head hne, Option.mem_some_iff] at hx
  rwa [← hx]

variable {literal : List Char} {d : Decimal} {c : Char}

/-! ## Literals of pitches -/

/-- The literal of a pitch: a minus sign or none, at least one digit, a point or none, and any
further digits. -/
def IsPitchLiteral (literal : List Char) : Prop :=
  ∃ sign whole point fraction, literal = sign ++ (whole ++ (point ++ fraction)) ∧
    (sign = [] ∨ sign = ['-']) ∧ (whole ≠ [] ∧ ∀ c ∈ whole, isDigit c = true) ∧
      (point = [] ∨ point = ['.']) ∧ ∀ c ∈ fraction, isDigit c = true

/-- A literal writes a decimal: its sign, the digits before the point, and, after a point if there
are any, those after it. -/
structure WrittenAs (d : Decimal) (literal : List Char) : Prop where
  exponent : d.exponent = 0
  nonempty : d.whole ≠ []
  whole : ∀ c ∈ d.whole, isDigit c = true
  fraction : ∀ c ∈ d.fraction, isDigit c = true
  literal : ∃ point, (point = [] ∧ d.fraction = [] ∨ point = ['.']) ∧
    literal = (if d.negative then ['-'] else []) ++ (d.whole ++ (point ++ d.fraction))

/-- Neither a mark of the literal nor a parenthesis, sign, underscore or blank is a digit. -/
theorem ne_of_isDigit (h : isDigit c = true) : c ∉ ['.', '-', '+', '_', '(', ')'] := by
  intro hc
  have hnone : ['.', '-', '+', '_', '(', ')'].all (fun d => !isDigit d) = true := by decide
  have hc := List.all_eq_true.1 hnone c hc
  simp [h] at hc

/-- What is after the digits before the point begins with no digit. -/
theorem not_isDigit_head {point fraction : List Char}
    (h : point = [] ∧ fraction = [] ∨ point = ['.']) :
    ∀ c ∈ (point ++ fraction).head?, isDigit c = false := by
  rcases h with ⟨rfl, rfl⟩ | rfl
  · nofun
  · simp only [List.singleton_append, List.head?_cons, Option.mem_some_iff, forall_eq']
    decide

variable {whole point fraction : List Char}

/-- A sign, digits, and a point with digits after it are read as the decimal of these parts. -/
theorem readPitch?_parts (negative : Bool) (hnonempty : whole ≠ [])
    (hwhole : ∀ c ∈ whole, isDigit c = true) (hfraction : ∀ c ∈ fraction, isDigit c = true)
    (hpoint : point = [] ∧ fraction = [] ∨ point = ['.']) :
    readPitch? ((if negative then ['-'] else []) ++ (whole ++ (point ++ fraction))) =
      some ⟨negative, whole, fraction, 0⟩ := by
  have hrun : digitRun (whole ++ (point ++ fraction)) = (whole, point ++ fraction) :=
    span_append hwhole (not_isDigit_head hpoint)
  have hall : fraction.all isDigit = true := List.all_eq_true.2 hfraction
  have hempty : whole.isEmpty = false := by simpa using hnonempty
  obtain ⟨c, cs, hcons⟩ := List.exists_cons_of_ne_nil hnonempty
  have hc : c ≠ '-' := by
    have hmarks := ne_of_isDigit (hwhole c (by simp [hcons]))
    rintro rfl
    simp at hmarks
  cases negative with
  | true =>
    rw [if_pos rfl, List.singleton_append, Number.readPitch?, hrun]
    rcases hpoint with ⟨rfl, rfl⟩ | rfl
    · simp [hempty]
    · simp [hempty, hall]
  | false =>
    subst hcons
    rw [List.cons_append] at hrun
    rw [if_neg Bool.false_ne_true, List.nil_append, List.cons_append, Number.readPitch?]
    · rw [hrun]
      rcases hpoint with ⟨rfl, rfl⟩ | rfl
      · simp
      · simp [hall]
    · simpa using hc

/-- The reader of pitches reads the literals that write a decimal. -/
theorem WrittenAs.readPitch? (h : WrittenAs d literal) : readPitch? literal = some d := by
  obtain ⟨negative, whole, fraction, exponent⟩ := d
  obtain ⟨rfl, hnonempty, hwhole, hfraction, point, hpoint, rfl⟩ := h
  exact readPitch?_parts negative hnonempty hwhole hfraction hpoint

/-- What is read after the sign of a pitch is digits, and a point with digits after it. -/
theorem exists_parts_of_digitRun {rest digits after : List Char} {negative : Bool}
    (hrun : digitRun rest = (digits, after))
    (h : (if digits.isEmpty then none
      else match after with
        | [] => some (Decimal.mk negative digits [] 0)
        | '.' :: fraction =>
          if fraction.all isDigit then some ⟨negative, digits, fraction, 0⟩ else none
        | _ => none) = some d) :
    ∃ point fraction, rest = digits ++ (point ++ fraction) ∧ digits ≠ [] ∧
      (∀ c ∈ digits, isDigit c = true) ∧ (∀ c ∈ fraction, isDigit c = true) ∧
        (point = [] ∧ fraction = [] ∨ point = ['.']) ∧ d = ⟨negative, digits, fraction, 0⟩ := by
  obtain ⟨hsplit, hdigits, -⟩ := span_spec isDigit rest
  rw [show rest.span isDigit = (digits, after) from hrun] at hsplit hdigits
  split at h
  · cases h
  · next hempty =>
    have hnonempty : digits ≠ [] := by simpa using hempty
    split at h
    · exact ⟨[], [], hsplit, hnonempty, hdigits, nofun, .inl ⟨rfl, rfl⟩, (Option.some.inj h).symm⟩
    · next fraction =>
      split at h
      · next hall =>
        exact ⟨['.'], fraction, hsplit, hnonempty, hdigits, List.all_eq_true.1 hall, .inr rfl,
          (Option.some.inj h).symm⟩
      · cases h
    · cases h

/-- What the reader of pitches reads is a literal that writes the decimal. -/
theorem writtenAs_of_readPitch? (h : readPitch? literal = some d) : WrittenAs d literal := by
  have written (negative : Bool) {rest : List Char}
      (hliteral : literal = (if negative then ['-'] else []) ++ rest)
      (h : (if (digitRun rest).1.isEmpty then none
        else match (digitRun rest).2 with
          | [] => some (Decimal.mk negative (digitRun rest).1 [] 0)
          | '.' :: fraction =>
            if fraction.all isDigit then some ⟨negative, (digitRun rest).1, fraction, 0⟩ else none
          | _ => none) = some d) : WrittenAs d literal := by
    obtain ⟨point, fraction, hrest, hnonempty, hdigits, hfraction, hpoint, rfl⟩ :=
      exists_parts_of_digitRun rfl h
    exact ⟨rfl, hnonempty, hdigits, hfraction, point, hpoint, by rw [hliteral, ← hrest]⟩
  by_cases hsign : ∃ rest, literal = '-' :: rest
  · obtain ⟨rest, rfl⟩ := hsign
    exact written true rfl h
  · rw [Number.readPitch?] at h
    · exact written false rfl h
    · exact fun rest hrest => hsign ⟨rest, hrest⟩

/-- A text is the literal of a pitch exactly if it is read as one. -/
theorem isPitchLiteral_iff : IsPitchLiteral literal ↔ ∃ d, readPitch? literal = some d := by
  constructor
  · rintro ⟨sign, whole, point, fraction, rfl, hsign, ⟨hnonempty, hwhole⟩, hpoint, hfraction⟩
    obtain ⟨negative, rfl⟩ : ∃ negative, sign = if negative = true then ['-'] else [] := by
      rcases hsign with rfl | rfl
      · exact ⟨false, rfl⟩
      · exact ⟨true, rfl⟩
    rcases hpoint with rfl | rfl
    · have hnonempty' : whole ++ fraction ≠ [] := List.append_ne_nil_of_left_ne_nil hnonempty _
      have hdigits : ∀ c ∈ whole ++ fraction, isDigit c = true := by
        intro c hc
        exact (List.mem_append.1 hc).elim (hwhole c) (hfraction c)
      have hread := readPitch?_parts negative hnonempty' hdigits (List.forall_mem_nil _)
        (.inl ⟨rfl, rfl⟩)
      exact ⟨_, by simpa using hread⟩
    · exact ⟨_, readPitch?_parts negative hnonempty hwhole hfraction (.inr rfl)⟩
  · rintro ⟨d, h⟩
    obtain ⟨-, hnonempty, hwhole, hfraction, point, hpoint, rfl⟩ := writtenAs_of_readPitch? h
    refine ⟨_, d.whole, point, d.fraction, rfl, ?_, ⟨hnonempty, hwhole⟩, ?_, hfraction⟩
    · cases d.negative <;> simp
    · exact hpoint.imp_left And.left

/-! ## The number of a literal -/

/-- A digit lies within ten of the zero of its script. -/
theorem exists_zero_of_isDigit (h : isDigit c = true) :
    ∃ first ∈ digitZeros, first ≤ c.toNat ∧ c.toNat < first + 10 := by
  obtain ⟨value, hvalue⟩ := Option.isSome_iff_exists.1 h
  obtain ⟨first, hfirst, -⟩ := Option.map_eq_some_iff.1 hvalue
  have hspan := List.find?_some hfirst
  simp only [Bool.and_eq_true, decide_eq_true_eq] at hspan
  exact ⟨first, List.mem_of_find?_eq_some hfirst, hspan⟩

/-- No digit is a blank. -/
theorem isBlank_of_isDigit (h : isDigit c = true) : isBlank c = false := by
  have hapart : ∀ first ∈ digitZeros, ∀ blanks ∈ blankSpans,
      first + 10 ≤ blanks.1 ∨ blanks.2 < first := by decide +kernel
  obtain ⟨first, hfirst, hspan⟩ := exists_zero_of_isDigit h
  refine Bool.eq_false_iff.2 fun hblank => ?_
  obtain ⟨blanks, hblanks, hlow, hhigh⟩ := covers_iff.1 hblank
  have := hapart first hfirst blanks hblanks
  omega

/-- A digit has no other case. -/
theorem toLower_of_isDigit (h : isDigit c = true) : c.toLower = c := by
  have hapart : ∀ first ∈ digitZeros, first + 10 ≤ 65 ∨ 90 < first := by decide
  obtain ⟨first, hfirst, hspan⟩ := exists_zero_of_isDigit h
  delta Char.toLower
  rw [dif_neg]
  rintro ⟨hlow, hhigh⟩
  have hlow : 65 ≤ c.toNat := hlow
  have hhigh : c.toNat ≤ 90 := hhigh
  have := hapart first hfirst
  omega

/-- The characters of a literal are no margin and no underscores. -/
theorem WrittenAs.plain (h : WrittenAs d literal) :
    ∀ c ∈ literal, isMargin c = false ∧ c ≠ '_' ∧ c ≠ '(' ∧ c ≠ ')' := by
  have hdigit {c : Char} (hc : isDigit c = true) :
      isMargin c = false ∧ c ≠ '_' ∧ c ≠ '(' ∧ c ≠ ')' := by
    have hmarks := ne_of_isDigit hc
    simp only [List.mem_cons, List.not_mem_nil, not_or] at hmarks
    exact ⟨by simp [isMargin, isBlank_of_isDigit hc], by tauto⟩
  obtain ⟨-, -, hwhole, hfraction, point, hpoint, rfl⟩ := h
  intro c hc
  simp only [List.mem_append] at hc
  rcases hc with hc | hc | hc | hc
  · obtain rfl : c = '-' := by
      split at hc
      · exact List.mem_singleton.1 hc
      · cases hc
    decide
  · exact hdigit (hwhole c hc)
  · rcases hpoint with ⟨rfl, -⟩ | rfl
    · cases hc
    · rw [List.mem_singleton.1 hc]
      decide
  · exact hdigit (hfraction c hc)

/-- Without margin there is none to trim. -/
theorem trimMargin_eq_self {cs : List Char} (h : ∀ c ∈ cs, isMargin c = false) :
    trimMargin cs = cs := by
  have hdrop {cs : List Char} (h : ∀ c ∈ cs, isMargin c = false) : cs.dropWhile isMargin = cs := by
    cases cs with
    | nil => rfl
    | cons c cs => rw [List.dropWhile_cons, h c List.mem_cons_self, if_neg Bool.false_ne_true]
  rw [trimMargin, hdrop h, hdrop fun c hc => h c (List.mem_reverse.1 hc), List.reverse_reverse]

/-- Without underscores all of them are between digits. -/
theorem underscoresBetweenDigits_of_ne {cs : List Char} (h : ∀ c ∈ cs, c ≠ '_')
    (afterDigit : Bool) : underscoresBetweenDigits afterDigit cs = true := by
  induction cs generalizing afterDigit with
  | nil => rfl
  | cons c cs ih =>
    obtain ⟨hc, hcs⟩ := List.forall_mem_cons.1 h
    rw [underscoresBetweenDigits]
    · exact ih hcs _
    · exact hc

/-- The general reader reads digits, and a point with digits after it, as their decimal. -/
theorem readUnsigned?_parts (hnonempty : whole ≠ []) (hwhole : ∀ c ∈ whole, isDigit c = true)
    (hfraction : ∀ c ∈ fraction, isDigit c = true)
    (hpoint : point = [] ∧ fraction = [] ∨ point = ['.']) :
    readUnsigned? (whole ++ (point ++ fraction)) =
      some (Decimal.mk false whole fraction 0).toReal := by
  have hrun : digitRun (whole ++ (point ++ fraction)) = (whole, point ++ fraction) :=
    span_append hwhole (not_isDigit_head hpoint)
  have hfractionRun : digitRun fraction = (fraction, []) := by
    have hrun : (fraction ++ []).span isDigit = (fraction, []) := span_append hfraction nofun
    rwa [List.append_nil] at hrun
  have hname (name : String) (hname : name.toList.head?.any isDigit = false) :
      String.ofList ((whole ++ (point ++ fraction)).map Char.toLower) ≠ name := by
    rintro rfl
    obtain ⟨c, cs, rfl⟩ := List.exists_cons_of_ne_nil hnonempty
    have hc := hwhole c List.mem_cons_self
    simp [toLower_of_isDigit hc, hc] at hname
  have hinf := hname "inf" (by decide)
  have hinfinity := hname "infinity" (by decide)
  have hnan := hname "nan" (by decide)
  have hempty : whole.isEmpty = false := by simpa using hnonempty
  rw [readUnsigned?]
  rcases hpoint with ⟨rfl, rfl⟩ | rfl
  · simp only [hinf, hinfinity, hnan, hrun, hempty]
    rfl
  · simp only [List.singleton_append] at hrun hinf hinfinity hnan ⊢
    simp only [hinf, hinfinity, hnan, hrun, hempty, hfractionRun]
    rfl

/-- A number that begins with a digit has no sign. -/
theorem readSign_of_isDigit (h : isDigit c = true) (cs : List Char) :
    readSign (c :: cs) = (false, c :: cs) := by
  have hmarks := ne_of_isDigit h
  rw [readSign]
  · rintro rest ⟨⟩
    simp at hmarks
  · rintro rest ⟨⟩
    simp at hmarks

/-- The pitch of a literal is the number that the general reader reads there. -/
theorem WrittenAs.readReal? (h : WrittenAs d literal) :
    Number.readReal? (String.ofList literal) = some d.toReal := by
  have hplain := h.plain
  have hfilter : literal.filter (· != '_') = literal :=
    List.filter_eq_self.2 fun c hc => by simpa using (hplain c hc).2.1
  rw [Number.readReal?, String.toList_ofList,
    trimMargin_eq_self fun c hc => (hplain c hc).1, hfilter,
    if_pos (underscoresBetweenDigits_of_ne (fun c hc => (hplain c hc).2.1) false)]
  obtain ⟨negative, whole, fraction, exponent⟩ := d
  obtain ⟨rfl, hnonempty, hwhole, hfraction, point, hpoint, rfl⟩ := h
  have hread := readUnsigned?_parts hnonempty hwhole hfraction hpoint
  cases negative with
  | true => exact congrArg (Option.map _) hread
  | false =>
    obtain ⟨c, cs, rfl⟩ := List.exists_cons_of_ne_nil hnonempty
    have hsign := readSign_of_isDigit (hwhole c List.mem_cons_self) (cs ++ (point ++ fraction))
    rw [if_neg Bool.false_ne_true, List.nil_append, List.cons_append, hsign]
    exact congrArg (Option.map _) hread

end Number

/-! ## Contents with a pitch -/

open Number

/-- A content is a name with the literal of a pitch between parentheses after it; the name is not
empty and has no parentheses itself. -/
structure IsPitched (content name literal : String) : Prop where
  content_eq : content = name ++ "(" ++ literal ++ ")"
  nonempty : name ≠ ""
  plain : ∀ c ∈ name.toList, c ≠ '(' ∧ c ≠ ')'
  literal : IsPitchLiteral literal.toList

variable {content name literal : List Char} {d : Decimal}

/-- A content is taken apart exactly if it is a name without parentheses and a literal between
parentheses, and at most a line feed after it. -/
theorem splitPitch?_eq_some_iff : splitPitch? content = some (name, d) ↔
    ∃ literal tail, content = name ++ '(' :: (literal ++ ')' :: tail) ∧ name ≠ [] ∧
      (∀ c ∈ name, c ≠ '(' ∧ c ≠ ')') ∧ readPitch? literal = some d ∧
        (tail = [] ∨ tail = ['\n']) := by
  have isPlain_iff (c : Char) : isPlain c = true ↔ c ≠ '(' ∧ c ≠ ')' := by simp [isPlain]
  constructor
  · intro h
    obtain ⟨hsplit, hname, -⟩ := span_spec isPlain content
    rw [splitPitch?] at h
    split at h
    next name' after hspan =>
    rw [hspan] at hsplit hname
    split at h
    · next first others rest =>
      obtain ⟨hsplit', -, -⟩ := span_spec (· != ')') rest
      split at h
      next literal after hliteral =>
      rw [hliteral] at hsplit'
      split at h
      · next htail =>
        obtain ⟨pitch, hpitch, hpair⟩ := Option.map_eq_some_iff.1 h
        obtain ⟨rfl, rfl⟩ := Prod.mk.inj hpair
        obtain ⟨tail, rfl, hend⟩ : ∃ tail, after = ')' :: tail ∧ (tail = [] ∨ tail = ['\n']) := by
          simp only [Bool.or_eq_true, decide_eq_true_eq] at htail
          rcases htail with rfl | rfl
          · exact ⟨[], rfl, .inl rfl⟩
          · exact ⟨['\n'], rfl, .inr rfl⟩
        have hplain : ∀ c ∈ first :: others, c ≠ '(' ∧ c ≠ ')' :=
          fun c hc => (isPlain_iff c).1 (hname c hc)
        refine ⟨literal, tail, ?_, List.cons_ne_nil _ _, hplain, hpitch, hend⟩
        rw [hsplit, hsplit']
      · cases h
    · cases h
  · rintro ⟨literal, tail, rfl, hnonempty, hplain, hread, htail⟩
    have hname : (name ++ '(' :: (literal ++ ')' :: tail)).span isPlain =
        (name, '(' :: (literal ++ ')' :: tail)) :=
      span_append (fun c hc => (isPlain_iff c).2 (hplain c hc)) (by simp [isPlain])
    have hliteral : (literal ++ ')' :: tail).span (· != ')') = (literal, ')' :: tail) := by
      refine span_append (fun c hc => ?_) (by simp)
      simpa using ((writtenAs_of_readPitch? hread).plain c hc).2.2.2
    obtain ⟨c, cs, rfl⟩ := List.exists_cons_of_ne_nil hnonempty
    rw [splitPitch?, hname]
    simp only [hliteral, hread]
    rcases htail with rfl | rfl <;> rfl

/-- What becomes of a content when its pitch is taken out: nothing, if there is none, and otherwise
the name, with the number of the literal as pitch. -/
theorem Symbol.splitPitch_cases {s : Symbol} (hpitch : s.pitch = none)
    (hend : ∀ name literal, (∀ c ∈ name ++ literal, c ≠ '(' ∧ c ≠ ')') →
      s.content.toList ≠ name ++ '(' :: (literal ++ [')', '\n'])) :
    (s.splitPitch.pitch = none ∧ s.splitPitch.content = s.content ∧
      ∀ name literal, ¬ IsPitched s.content name literal) ∨
    ∃ literal x, IsPitched s.content s.splitPitch.content literal ∧
      readReal? literal = some x ∧ s.splitPitch.pitch = some (.real x) := by
  rw [Symbol.splitPitch]
  split
  · next name d hsplit =>
    obtain ⟨literal, tail, hcontent, hnonempty, hplain, hread, rfl | rfl⟩ :=
      splitPitch?_eq_some_iff.1 hsplit
    · refine .inr ⟨String.ofList literal, d.toReal, ⟨?_, ?_, ?_, ?_⟩,
        (writtenAs_of_readPitch? hread).readReal?, rfl⟩
      · refine String.toList_injective ?_
        simp [hcontent]
      · simpa using hnonempty
      · simpa using hplain
      · simpa using isPitchLiteral_iff.2 ⟨d, hread⟩
    · refine absurd hcontent (hend name literal fun c hc => ?_)
      exact (List.mem_append.1 hc).elim (hplain c) fun hc =>
        ((writtenAs_of_readPitch? hread).plain c hc).2.2
  · next hsplit =>
    refine .inl ⟨hpitch, rfl, fun name literal h => ?_⟩
    obtain ⟨d, hread⟩ := isPitchLiteral_iff.1 h.literal
    have hsome : splitPitch? s.content.toList = some (name.toList, d) := by
      refine splitPitch?_eq_some_iff.2 ⟨literal.toList, [], ?_, ?_, h.plain, hread, .inl rfl⟩
      · simp [h.content_eq]
      · simpa using h.nonempty
    rw [hsplit] at hsome
    cases hsome

end Polyrhythm
