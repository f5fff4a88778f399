import Polyrhythm.Proofs.Command.Output
import Polyrhythm.Proofs.Midi.Keyboard
import Polyrhythm.Proofs.Timing.Refusal
import Polyrhythm.Proofs.Timing.Word

/-!
# What a failed command reports

A configuration that only numbers notes (`Setting.NumbersNotes`) leaves little that can go wrong:
the notation, a note that is off the keyboard, or a file. All of these are reported, so that the
command ends with a status whatever the text is (`ends_of_numbersNotes`), but for one: an infinite
pitch overflows when it is rounded, and that fault is passed on. A pitch is infinite if its literal
is beyond the largest real number there is, as one of 310 nines is.
-/

namespace Polyrhythm

open Traversal

/-! ## Configurations that number notes -/

/-- A configuration names notes and their numbers and sets nothing else, except for the notes that
are held where they are repeated; the unit of time is one. -/
structure Setting.NumbersNotes (configuration : Setting) (numbers : List (String × Int)) :
    Prop where
  symbols : configuration.entryOr "symbols" .empty =
    .ok (.mapping (numbers.map fun entry => (entry.1, .number (.whole entry.2))))
  continuous : ∃ names : List String,
    configuration.entryOr "continuous" (.list []) = .ok (.list (names.map .text))
  midi : configuration.entry? "midi" = .ok none
  unitTime : Plan.unitTime configuration = .ok (.number (.whole 1))

/-- A table has a rest and notes of one unit under their own names, all of which are listed. -/
def Table.NotesAmong (names : List String) (table : Table) : Prop :=
  ∀ name prototype, table.find? name = some prototype →
    prototype = .pause (.whole 1) ∨
      name ∈ names ∧ ∃ isContinuous, prototype = .note name (.whole 1) none isContinuous

namespace Table

variable {table : Table} {names : List String}

theorem notesAmong_initial (names : List String) : initial.NotesAmong names := by
  intro name prototype h
  rw [find?, initial, List.lookup_cons] at h
  split at h
  · exact .inl (Option.some.inj h).symm
  · cases h

/-- Notes that are listed can be added. -/
theorem NotesAmong.addNote {name : String} (h : table.NotesAmong names) (hname : name ∈ names)
    (isContinuous : Bool) : (table.addNote name isContinuous).NotesAmong names := by
  intro other prototype hfind
  by_cases hother : other = name
  · subst hother
    rw [Table.addNote, find?_add_self] at hfind
    cases hfind
    exact .inr ⟨hname, isContinuous, rfl⟩
  · rw [Table.addNote, find?_add_other _ _ hother] at hfind
    exact h other prototype hfind

theorem NotesAmong.foldl {added : List String} (h : table.NotesAmong names)
    (hadded : ∀ name ∈ added, name ∈ names) (isContinuous : Key → Bool) :
    ((added.map Key.name).foldl (fun table key => table.addKey key (isContinuous key))
      table).NotesAmong names := by
  induction added generalizing table with
  | nil => exact h
  | cons name added ih =>
    obtain ⟨hname, hadded⟩ := List.forall_mem_cons.1 hadded
    exact ih (h.addNote hname _) hadded

/-- Rests and notes of one unit are exact. -/
theorem NotesAmong.isExact (h : table.NotesAmong names) : table.IsExact := by
  intro name prototype hfind
  rcases h name prototype hfind with rfl | ⟨-, isContinuous, rfl⟩
  · exact .pause rfl
  · exact .note name none isContinuous rfl

end Table

/-- Texts are names. -/
theorem Setting.keys_text (names : List String) :
    Setting.keys (names.map .text) = .ok (names.map .name) := by
  have hmap : (names.map Setting.text).mapM Setting.key? = some (names.map .name) := by
    induction names with
    | nil => rfl
    | cons name names ih =>
      rw [List.map_cons, List.mapM_cons, ih]
      rfl
  rw [Setting.keys, hmap]
  rfl

/-- Numbers in a mapping are the note map of these numbers. -/
theorem NoteMap.ofSetting_numbers (numbers : List (String × Int)) :
    NoteMap.ofSetting (.mapping (numbers.map fun entry => (entry.1, .number (.whole entry.2)))) =
      .ofNumbers numbers := by
  funext name
  have hlookup : (numbers.map fun entry =>
        (entry.1, Setting.number (.whole entry.2))).lookup name =
      (numbers.lookup name).map fun n => .number (.whole n) := by
    induction numbers with
    | nil => rfl
    | cons entry numbers ih =>
      rw [List.map_cons, List.lookup_cons, List.lookup_cons, ih]
      cases name == entry.1 <;> rfl
  exact congrArg Except.ok hlookup

/-- A plan only numbers notes: these have numbers, sound for one unit, and are played in the
standard way. -/
structure Plan.NumbersNotes (plan : Plan) (numbers : List (String × Int)) : Prop where
  midi : plan.midi = .empty
  notes : plan.notes = .ofNumbers numbers
  table : plan.table.NotesAmong (numbers.map Prod.fst)
  measure : plan.measure = measureBy (.number (.whole 1))

variable {configuration : Setting} {numbers : List (String × Int)} {plan : Plan}

/-- The plan of a configuration that only numbers notes. -/
theorem Setting.NumbersNotes.exists_plan (h : configuration.NumbersNotes numbers) :
    ∃ plan, Plan.ofConfiguration configuration none = .ok plan ∧ plan.NumbersNotes numbers := by
  obtain ⟨names, hcontinuous⟩ := h.continuous
  have hmidi : configuration.entryOr "midi" .empty = .ok .empty := by
    rw [entryOr, h.midi]
    rfl
  have hmembers : Setting.members
      (.mapping (numbers.map fun entry => (entry.1, .number (.whole entry.2)))) =
        .ok ((numbers.map Prod.fst).map .text) := by
    rw [Setting.members, List.map_map, List.map_map]
    rfl
  have htable : ∃ table, Table.ofConfiguration configuration = .ok table ∧
      table.NotesAmong (numbers.map Prod.fst) := by
    refine ⟨_, bind_eq_ok.2 ⟨_, hcontinuous, bind_eq_ok.2 ⟨_, keys_text names, bind_eq_ok.2
      ⟨_, h.symbols, bind_eq_ok.2 ⟨_, bind_eq_ok.2 ⟨_, hmembers, keys_text _⟩, rfl⟩⟩⟩⟩, ?_⟩
    exact (Table.notesAmong_initial _).foldl (fun _ hname => hname) _
  obtain ⟨table, htable, hnotes⟩ := htable
  refine ⟨_, bind_eq_ok.2 ⟨_, hmidi, bind_eq_ok.2 ⟨_, h.symbols, bind_eq_ok.2 ⟨_, h.unitTime,
    bind_eq_ok.2 ⟨table, htable, rfl⟩⟩⟩⟩, rfl, ?_, hnotes, rfl⟩
  exact NoteMap.ofSetting_numbers numbers

namespace Plan.NumbersNotes

/-- Durations are taken as they are. -/
theorem measure_eq (h : plan.NumbersNotes numbers) (d : Rat) :
    plan.measure d = .ok (.ratio (d * 1)) := by
  rw [h.measure, ← Int.cast_one]
  rfl

/-- Notes are played in the standard way. -/
theorem playing (h : plan.NumbersNotes numbers) : plan.playing = .ok .standard := by
  rw [Plan.playing, Plan.part, Plan.part, Plan.part, h.midi]
  rfl

end Plan.NumbersNotes

/-! ## Events -/

/-- Faults of the notation are reported. -/
theorem Fault.isReported_of_isNotation {fault : Fault} (h : fault.isNotation = true) :
    fault.isReported = true := by
  rw [isReported, h]
  rfl

/-- What a text is refused for is reported: it points at a character, or is about the limit of
digits. -/
theorem Fault.isReported_of_refusal {text : String} {fault : Fault}
    (h : fault.PointsAt text.toList ∨ fault.ExceedsLimit text) : fault.isReported = true := by
  cases fault with
  | invalidCharacter | unopenedBlock | unclosedBlock | invalidMarker | nothingToHold
  | unreadableNumeral | unwritableNumber => rfl
  | _ => exact h.elim False.elim False.elim

/-- An unknown name is a fault of the notation. -/
theorem Node.isNotation_of_mem_unknown {table : Table} {tree : Node} {fault : Fault}
    (h : fault ∈ tree.unknown table) : fault.isNotation = true := by
  obtain ⟨n, -, hn⟩ := List.mem_filterMap.1 h
  cases n with
  | symbol s =>
    rw [unknownHere?] at hn
    split at hn <;> cases hn
    rfl
  | _ => cases hn

/-- The notes of a symbol have its name, which is listed, and its pitch. -/
theorem Table.NotesAmong.heading {table : Table} {names : List String}
    (h : table.NotesAmong names) {measure : Rat → Except Fault Quantity} {s : Symbol}
    {part : Sound} {k : Heading} (hpart : Node.realizeSymbol measure table.resolve s = .ok part)
    (hk : k ∈ part.headings) : k = s.heading ∧ s.content ∈ names := by
  obtain ⟨d, -, hpart⟩ := bind_eq_ok.1 hpart
  obtain ⟨duration, -, hpart⟩ := bind_eq_ok.1 hpart
  rw [Table.resolve] at hpart
  cases hfind : table.find? s.content with
  | none =>
    rw [hfind] at hpart
    cases hpart
  | some prototype =>
    rw [hfind] at hpart
    rcases h s.content prototype hfind with rfl | ⟨hname, isContinuous, rfl⟩
    · cases hpitch : s.pitch with
      | none | some =>
        rw [hpitch] at hpart
        cases hpart
        cases hk
    · refine ⟨?_, hname⟩
      rw [Symbol.heading]
      cases hpitch : s.pitch with
      | none | some =>
        rw [hpitch] at hpart
        cases hpart
        exact List.mem_singleton.1 hk

/-- A name that is listed has a number. -/
theorem exists_lookup_of_mem {name : String} (h : name ∈ numbers.map Prod.fst) :
    ∃ base, numbers.lookup name = some base := by
  cases hlookup : numbers.lookup name with
  | some base => exact ⟨base, rfl⟩
  | none =>
    obtain ⟨entry, hentry, rfl⟩ := List.mem_map.1 h
    have hne := List.lookup_eq_none_iff.1 hlookup entry hentry
    simp at hne

namespace Plan.NumbersNotes

/-- A text cannot be rendered for a fault that is reported, or it has exact events with numbered
names and with the pitches of its symbols. -/
theorem render (h : plan.NumbersNotes numbers) (text : String) :
    (∃ fault, renderWith plan.measure text plan.table = .error fault ∧
        fault.isReported = true) ∨
      ∃ tree events, parse text = .ok tree ∧
        renderWith plan.measure text plan.table = .ok events ∧
        ∀ e ∈ events, e.IsExact ∧ (∃ base, numbers.lookup e.name = some base) ∧
          ∃ s, Node.symbol s ∈ tree.walk ∧ s.pitch = e.pitch := by
  rcases (parse_points text).1 with ⟨tree, htree⟩ | ⟨fault, hfault, hpoints⟩
  · obtain ⟨tokens, root, -, -, hwritten, hannotate⟩ := Node.exists_of_parse htree
    have hstops := Node.stopsAt_realizeWith h.measure_eq h.table.isExact
      (Node.gathered_of_annotate hwritten hannotate)
    cases hunknown : tree.unknown plan.table with
    | cons fault rest =>
      rw [hunknown] at hstops
      refine .inl ⟨fault, bind_eq_error.2 (.inr ⟨tree, htree, bind_eq_error.2 (.inl hstops)⟩), ?_⟩
      have hmem : fault ∈ tree.unknown plan.table := hunknown ▸ List.mem_cons_self
      exact Fault.isReported_of_isNotation (Node.isNotation_of_mem_unknown hmem)
    | nil =>
      rw [hunknown] at hstops
      obtain ⟨sound, hsound, hexact⟩ := hstops
      have hzero : (Quantity.whole 0).rational? = some ((0 : Int) : Rat) := rfl
      obtain ⟨events, hevents, hplays⟩ := hexact.events hzero
      have hrender := renderWith_eq htree hsound hevents
      split at hrender
      · refine .inr ⟨tree, sortByTime events, htree, hrender, ?_⟩
        intro e he
        have he := (sortByTime_perm events).mem_iff.1 he
        have hheading : e.heading ∈ sound.headings := by
          rw [← Sound.map_heading_events hevents]
          exact List.mem_map_of_mem he
        obtain ⟨s, part, hs, hpart, hk⟩ := Node.exists_symbol_of_heading hsound hheading
        obtain ⟨hk, hname⟩ := h.table.heading hpart hk
        obtain ⟨beat, -, hbeat⟩ :=
          exists_mem_of_forall₂ (List.Forall₂.flip (R := fun e b => Event.Plays b e) hplays) he
        refine ⟨⟨⟨_, hbeat.time⟩, _, hbeat.duration⟩, ?_, s, hs, ?_⟩
        · rw [show e.name = s.content from congrArg Heading.name hk]
          exact exists_lookup_of_mem hname
        · exact (congrArg Heading.pitch hk).symm
      · exact .inl ⟨_, hrender, rfl⟩
  · refine .inl ⟨fault, bind_eq_error.2 (.inl hfault), ?_⟩
    exact Fault.isReported_of_refusal hpoints

end Plan.NumbersNotes

/-! ## Endings -/

/-- The first event of a text that is refused a note has an infinite pitch. -/
def Plan.Overflows (plan : Plan) (text : String) : Prop :=
  ∃ before e after, renderWith plan.measure text plan.table = .ok (before ++ e :: after) ∧
    (∀ b ∈ before, b.refusal? plan.notes = none) ∧ e.IsUnbounded

/-- The notation that is to be compiled can be read, and overflows. -/
def Plan.OverflowsOn (plan : Plan) (surroundings : Surroundings) (options : Options) : Prop :=
  ∃ text, surroundings.notationText options.notationPath = .ok text ∧ plan.Overflows text

/-- The command ends with status 0 or 1, and no fault is passed on. -/
def Ends (readSettings : Bytes → Except Fault Setting) (recorder : Recorder)
    (surroundings : Surroundings) (arguments : List String) : Prop :=
  ∃ outcome, run readSettings recorder surroundings arguments = .ok outcome ∧
    (outcome.status = 0 ∨ outcome.status = 1)

section
variable {recorder : Recorder} {surroundings : Surroundings} {options : Options}
  {text outputPath : String} {track : Track} {folder : Folder} {path : String}
  {log : List LogLine} {saved : Saved} {fault : Fault}

/-- The track of a text is made, unless the text overflows or a fault is reported. -/
theorem Plan.NumbersNotes.play (hrecorder : recorder.Lawful) (h : plan.NumbersNotes numbers)
    (text : String) :
    (plan.Overflows text → plan.play recorder text = .error .overflow) ∧
      (¬plan.Overflows text → ∀ fault, plan.play recorder text = .error fault →
        fault.isReported = true) := by
  rcases h.render text with ⟨fault, hfault, hreported⟩ | ⟨tree, events, -, hevents, hall⟩
  · constructor
    · rintro ⟨before, e, after, hevents, -⟩
      cases hfault.symm.trans hevents
    · intro _ fault' hfault'
      cases hfault'.symm.trans (bind_eq_error.2 (.inl hfault))
      exact hreported
  · have htrack : StopsAt _ _ (Track.ofEvents recorder .standard plan.notes events) :=
      h.notes ▸ Track.stopsAt_ofEvents hrecorder fun e he => (hall e he).1
    have hplay : plan.play recorder text =
        Track.ofEvents recorder .standard plan.notes events >>= fun track =>
          .ok (skippedLines (Track.unmapped plan.notes events), track) := by
      rw [Plan.play, hevents, h.playing]
      rfl
    rw [hplay]
    constructor
    · rintro ⟨before, e, after, hevents', hbefore, hunbounded⟩
      cases hevents.symm.trans hevents'
      obtain ⟨base, hbase⟩ := (hall e (List.mem_append_right _ List.mem_cons_self)).2.1
      have hrefusal : e.refusal? plan.notes = some .overflow :=
        h.notes ▸ (Event.refusal?_of_lookup hbase).1 hunbounded
      rw [List.filterMap_append, List.filterMap_eq_nil_iff.2 hbefore,
        List.nil_append, List.filterMap_cons, hrefusal] at htrack
      exact bind_eq_error.2 (.inl htrack)
    · intro hnone fault hfault
      rcases bind_eq_error.1 hfault with hfault | ⟨track, -, hfault⟩
      · cases hrefusals : events.filterMap (Event.refusal? plan.notes) with
        | nil =>
          rw [hrefusals] at htrack
          obtain ⟨track, htrack, -⟩ := htrack
          cases hfault.symm.trans htrack
        | cons first rest =>
          rw [hrefusals] at htrack
          cases hfault.symm.trans htrack
          obtain ⟨before, e, after, rfl, hbefore, hrefusal, -⟩ :=
            List.filterMap_eq_cons_iff.1 hrefusals
          obtain ⟨base, hbase⟩ := (hall e (List.mem_append_right _ List.mem_cons_self)).2.1
          have hbounded : ¬e.IsUnbounded :=
            fun hunbounded => hnone ⟨before, e, after, hevents, hbefore, hunbounded⟩
          exact (Event.refusal?_of_lookup hbase).2 hbounded fault (h.notes ▸ hrefusal)
      · cases hfault

/-- An overflow needs a symbol with an infinite pitch. -/
theorem Plan.NumbersNotes.exists_symbol (h : plan.NumbersNotes numbers)
    (hoverflows : plan.Overflows text) : ∃ tree s pitch, parse text = .ok tree ∧
      Node.symbol s ∈ tree.walk ∧ s.pitch = some pitch ∧ pitch.IsInfinite := by
  obtain ⟨before, e, after, hevents, -, pitch, hpitch, hinfinite⟩ := hoverflows
  rcases h.render text with ⟨fault, hfault, -⟩ | ⟨tree, events, htree, hevents', hall⟩
  · cases hfault.symm.trans hevents
  · cases hevents.symm.trans hevents'
    obtain ⟨s, hs, hsame⟩ := (hall e (List.mem_append_right _ List.mem_cons_self)).2.2
    exact ⟨tree, s, pitch, htree, hs, hsame.trans hpitch, hinfinite⟩

/-- What is wrong with a track that cannot be saved is reported. -/
theorem isReported_saveTrack (hrecorder : recorder.Lawful)
    (h : (saveTrack recorder folder path track).result = .error fault) :
    fault.isReported = true := by
  simp only [saveTrack] at h
  cases hwrite : folder.write path (track.write recorder Playing.standardTicks).1 with
  | error other =>
    rw [hwrite] at h
    cases h
    exact Folder.isReported_write hwrite
  | ok folder' =>
    rw [hwrite] at h
    cases hresult : (track.write recorder Playing.standardTicks).2 with
    | ok =>
      rw [hresult] at h
      cases h
    | error other =>
      rw [hresult] at h
      cases h
      rw [Track.eq_negativeDelta_of_write hrecorder hresult]
      rfl

/-- A notation that cannot be read is reported. -/
theorem isReported_notationText (h : surroundings.notationText path = .error fault) :
    fault.isReported = true := by
  have hread {bytes : Bytes} (h : readText bytes = .error fault) : fault.isReported = true := by
    rw [readText] at h
    split at h
    · cases h
    · cases h
      rfl
  rw [Surroundings.notationText] at h
  split at h
  · exact hread h
  · rcases bind_eq_error.1 h with h | ⟨bytes, -, h⟩
    · exact Folder.isReported_read h
    · exact hread h

/-- A step that ends with no fault but one that is reported is concluded. -/
theorem exists_of_conclude (h : ∀ fault, saved.result = .error fault → fault.isReported = true) :
    ∃ outcome, conclude log saved = .ok outcome ∧ (outcome.status = 0 ∨ outcome.status = 1) := by
  rw [conclude]
  cases hresult : saved.result with
  | ok => exact ⟨_, rfl, .inl rfl⟩
  | error fault =>
    dsimp only
    rw [if_pos (h fault hresult)]
    exact ⟨_, rfl, .inr rfl⟩

/-- Compiling fails at what is reported, or overflows with the text. -/
theorem Plan.NumbersNotes.compile (hrecorder : recorder.Lawful) (h : plan.NumbersNotes numbers)
    (houtputPath : options.outputPath = some outputPath) :
    (plan.OverflowsOn surroundings options →
        plan.compile recorder surroundings options = .error .overflow) ∧
      (¬plan.OverflowsOn surroundings options →
        (∃ saved, plan.compile recorder surroundings options = .ok saved ∧
            ∀ fault, saved.result = .error fault → fault.isReported = true) ∨
          ∃ fault, plan.compile recorder surroundings options = .error fault ∧
            fault.isReported = true) := by
  constructor
  · rintro ⟨text, htext, hoverflows⟩
    have hplay := (h.play hrecorder text).1 hoverflows
    exact bind_eq_error.2 (.inr ⟨text, htext, bind_eq_error.2 (.inl hplay)⟩)
  · intro hnone
    cases htext : surroundings.notationText options.notationPath with
    | error fault =>
      exact .inr ⟨fault, bind_eq_error.2 (.inl htext), isReported_notationText htext⟩
    | ok text =>
      cases hplay : plan.play recorder text with
      | error fault =>
        have hbounded : ¬plan.Overflows text := fun hoverflows => hnone ⟨text, htext, hoverflows⟩
        exact .inr ⟨fault, bind_eq_error.2 (.inr ⟨text, htext, bind_eq_error.2 (.inl hplay)⟩),
          (h.play hrecorder text).2 hbounded fault hplay⟩
      | ok played =>
        refine .inl ⟨_, bind_eq_ok.2 ⟨text, htext, bind_eq_ok.2 ⟨played, hplay, bind_eq_ok.2
          ⟨outputPath, neededPath_eq_ok.2 houtputPath, rfl⟩⟩⟩, ?_⟩
        exact fun fault hfault => isReported_saveTrack hrecorder hfault

/-- A command that compiles with a plan that only numbers notes ends, unless the notation
overflows. -/
theorem Plan.NumbersNotes.run (hrecorder : recorder.Lawful) (h : plan.NumbersNotes numbers)
    {readSettings : Bytes → Except Fault Setting} {arguments : List String} {configPath : String}
    (hoptions : Options.ofArguments arguments = .ok options)
    (hconfigPath : options.configPath = some configPath)
    (houtputPath : options.outputPath = some outputPath)
    (hconfiguration : surroundings.configuration readSettings configPath = .ok (configuration, log))
    (hplan : Plan.ofConfiguration configuration options.unitTime = .ok plan) :
    (plan.OverflowsOn surroundings options →
        run readSettings recorder surroundings arguments = .error (.failed .overflow)) ∧
      (¬plan.OverflowsOn surroundings options →
        Ends readSettings recorder surroundings arguments) := by
  have hrun : runWith readSettings recorder surroundings options = _ :=
    runWith_eq hconfigPath hconfiguration hplan
  obtain ⟨hoverflow, hreport⟩ := h.compile hrecorder houtputPath
  constructor
  · intro hoverflows
    have hwith : runWith readSettings recorder surroundings options = .error .overflow := by
      rw [hrun, hoverflow hoverflows]
      rfl
    simp only [Polyrhythm.run, hoptions, hwith]
  · intro hnone
    have hwith : ∃ outcome, runWith readSettings recorder surroundings options = .ok outcome ∧
        (outcome.status = 0 ∨ outcome.status = 1) := by
      rw [hrun]
      rcases hreport hnone with ⟨saved, hsaved, hreported⟩ | ⟨fault, hfault, hreported⟩
      · rw [hsaved]
        exact exists_of_conclude hreported
      · rw [hfault]
        refine exists_of_conclude fun other hother => ?_
        cases hother
        exact hreported
    obtain ⟨outcome, hwith, hstatus⟩ := hwith
    exact ⟨outcome, by simp only [Polyrhythm.run, hoptions, hwith], hstatus⟩

end

/-- Under a configuration that only numbers notes the command ends with status 0 or 1, whatever the
notation is and whether it can be read or not, unless the first event that is refused a note has an
infinite pitch: that overflow is passed on. In particular the command ends if no symbol of the text
has an infinite pitch. -/
theorem ends_of_numbersNotes {readSettings : Bytes → Except Fault Setting} {recorder : Recorder}
    {surroundings : Surroundings} {arguments : List String} {options : Options}
    {configPath outputPath : String} {configuration : Setting} {log : List LogLine}
    {numbers : List (String × Int)} (hrecorder : recorder.Lawful)
    (hoptions : Options.ofArguments arguments = .ok options)
    (hunitTime : options.unitTime = none) (hconfigPath : options.configPath = some configPath)
    (houtputPath : options.outputPath = some outputPath)
    (hconfiguration : surroundings.configuration readSettings configPath = .ok (configuration, log))
    (hnumbers : configuration.NumbersNotes numbers) :
    ∃ plan, Plan.ofConfiguration configuration options.unitTime = .ok plan ∧
      (plan.OverflowsOn surroundings options →
        run readSettings recorder surroundings arguments = .error (.failed .overflow)) ∧
      (¬plan.OverflowsOn surroundings options → Ends readSettings recorder surroundings arguments) ∧
      ((∀ text tree s pitch, surroundings.notationText options.notationPath = .ok text →
          parse text = .ok tree → Node.symbol s ∈ tree.walk → s.pitch = some pitch →
          ¬pitch.IsInfinite) → Ends readSettings recorder surroundings arguments) := by
  obtain ⟨plan, hplan, hplain⟩ := hnumbers.exists_plan
  rw [← hunitTime] at hplan
  obtain ⟨hoverflow, hends⟩ :=
    hplain.run hrecorder hoptions hconfigPath houtputPath hconfiguration hplan
  refine ⟨plan, hplan, hoverflow, hends, fun hfinite => hends ?_⟩
  rintro ⟨text, htext, hoverflows⟩
  obtain ⟨tree, s, pitch, htree, hs, hpitch, hinfinite⟩ := hplain.exists_symbol hoverflows
  exact hfinite text tree s pitch htext htree hs hpitch hinfinite

/-- A note that is too high is reported. -/
theorem ends_of_numbersNotes_high :
    Ends (fun _ => .ok (.mapping [("symbols", .mapping [("a", .number (.whole 60))])])) .standard
      ⟨⟨[(["config.yaml"], plainBytes "symbols:\n  a: 60\n".toList)], [], []⟩,
        plainBytes "a(200)".toList⟩ ["-"] := by
  let configuration : Setting := .mapping [("symbols", .mapping [("a", .number (.whole 60))])]
  let content := plainBytes "symbols:\n  a: 60\n".toList
  let surroundings : Surroundings :=
    ⟨⟨[(["config.yaml"], content)], [], []⟩, plainBytes "a(200)".toList⟩
  have hoptions : Options.ofArguments ["-"] =
      .ok ⟨"-", some "config.yaml", some "out.mid", none⟩ := rfl
  have hcontent : surroundings.folder.read "config.yaml" = .ok content := by decide +kernel
  have hconfiguration : surroundings.configuration (fun _ => .ok configuration) "config.yaml" =
      .ok (configuration, []) := configuration_of_read (by decide +kernel) hcontent rfl rfl
  have hnumbers : configuration.NumbersNotes [("a", 60)] := ⟨rfl, ⟨[], rfl⟩, rfl, rfl⟩
  obtain ⟨plan, -, -, -, hends⟩ :=
    ends_of_numbersNotes Recorder.lawful_standard hoptions rfl rfl rfl hconfiguration hnumbers
  refine hends fun text tree s pitch htext htree hs hpitch => ?_
  have hread : surroundings.notationText "-" =
      .ok (String.ofList ('a' :: '(' :: (['2', '0', '0'] ++ [')']))) := by decide +kernel
  cases hread.symm.trans htext
  have hletter : Text.isLetter 'a' = true := by decide +kernel
  have hliteral : Number.readPitch? ['2', '0', '0'] = some ⟨false, ['2', '0', '0'], [], 0⟩ := rfl
  have hparse := parse_pitched hletter hliteral
  cases hparse.symm.trans htree
  cases List.mem_singleton.1 hs
  cases hpitch
  decide +kernel

/-- A pitch of 310 nines is infinite, so that the fault of rounding it is passed on. -/
theorem ends_of_numbersNotes_fails :
    run (fun _ => .ok (.mapping [("symbols", .mapping [("a", .number (.whole 60))])])) .standard
      ⟨⟨[(["config.yaml"], plainBytes "symbols:\n  a: 60\n".toList)], [], []⟩,
        plainBytes ('a' :: '(' :: (List.replicate 310 '9' ++ [')']))⟩ ["-"] =
        .error (.failed .overflow) := by
  let configuration : Setting := .mapping [("symbols", .mapping [("a", .number (.whole 60))])]
  let content := plainBytes "symbols:\n  a: 60\n".toList
  let notes := 'a' :: '(' :: (List.replicate 310 '9' ++ [')'])
  let surroundings : Surroundings := ⟨⟨[(["config.yaml"], content)], [], []⟩, plainBytes notes⟩
  have hcontent : surroundings.folder.read "config.yaml" = .ok content := by decide +kernel
  have hconfiguration : surroundings.configuration (fun _ => .ok configuration) "config.yaml" =
      .ok (configuration, []) := configuration_of_read (by decide +kernel) hcontent rfl rfl
  have hnumbers : configuration.NumbersNotes [("a", 60)] := ⟨rfl, ⟨[], rfl⟩, rfl, rfl⟩
  obtain ⟨plan, hplan, hplain⟩ := hnumbers.exists_plan
  have hoptions : Options.ofArguments ["-"] =
      .ok ⟨"-", some "config.yaml", some "out.mid", none⟩ := rfl
  refine (hplain.run Recorder.lawful_standard hoptions rfl rfl hconfiguration hplan).1 ?_
  cases (show Plan.ofConfiguration configuration none = .ok ⟨.empty, _,
    Table.initial.addNote "a" false, measureBy (.number (.whole 1))⟩ from rfl).symm.trans hplan
  have htext : surroundings.notationText "-" = .ok (String.ofList notes) := by
    have hdecode : Text.decode (plainBytes notes) = .ok notes := by decide +kernel
    have hends : Text.endLines notes = notes := by decide +kernel
    rw [Surroundings.notationText, if_pos rfl, readText, hdecode]
    exact congrArg (fun cs => Except.ok (String.ofList cs)) hends
  have hliteral : Number.readPitch? (List.replicate 310 '9') =
      some ⟨false, List.replicate 310 '9', [], 0⟩ := by decide +kernel
  have hinfinite : Number.Decimal.toReal ⟨false, List.replicate 310 '9', [], 0⟩ =
      Number.Binary64.infinity := by decide +kernel
  let s : Symbol := ⟨String.ofList ['a'], some .start, 1, some (.real Number.Binary64.infinity),
    some 1⟩
  have hparse : parse (String.ofList notes) = .ok (.symbol s) := by
    refine (parse_pitched (by decide +kernel) hliteral).trans ?_
    rw [hinfinite]
  let e : Event := ⟨.whole 0, .ratio 1, "a", some (.real Number.Binary64.infinity)⟩
  have hevents : ((Node.symbol s).realizeWith (measureBy (.number (.whole 1)))
      (Table.initial.addNote "a" false).resolve >>= fun sound => sound.events (.whole 0) >>=
        fun events => sound.duration.written >>= fun _ => .ok events) = Except.ok [e] := by
    decide +kernel
  refine ⟨_, htext, [], e, [], renderWith_of_event ?_ rfl, nofun, _, rfl, by decide +kernel⟩
  rw [hparse]
  exact hevents

end Polyrhythm
