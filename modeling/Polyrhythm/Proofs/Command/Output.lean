import Polyrhythm.Command.Compile
import Polyrhythm.Proofs.Command.Rereading
import Polyrhythm.Proofs.Midi.Early

/-!
# What a failed command leaves

The command comes to saving only after all other steps have succeeded (`Preparation.Succeeds`), and
until then it leaves the folder alone. Saving fails at a path that cannot be written to, which also
leaves the folder alone, or at a negative distance, when the header is written already. So a command
that ends with status 1 has changed nothing, unless a note is struck before tick 0: then the output
is a header and nothing else (`folder_of_failed_run`). That happens with a negative unit of time.
-/

namespace Polyrhythm

open Traversal

/-! ## Steps -/

/-- What the command works out before it saves. -/
structure Preparation where
  options : Options
  configPath : String
  configuration : Setting
  configLog : List LogLine
  plan : Plan
  text : String
  events : List Event
  playing : Playing
  track : Track
  outputPath : String

section
variable {readSettings : Bytes → Except Fault Setting} {recorder : Recorder}
  {surroundings : Surroundings} {arguments : List String} {outcome : Outcome} {p : Preparation}
  {folder : Folder} {log : List LogLine} {ended : Saved} {track : Track} {path : String}

namespace Preparation

/-- Every step of the command up to saving succeeds. -/
structure Succeeds (readSettings : Bytes → Except Fault Setting) (recorder : Recorder)
    (surroundings : Surroundings) (arguments : List String) (p : Preparation) : Prop where
  options : Options.ofArguments arguments = .ok p.options
  configPath : p.options.configPath = some p.configPath
  configuration : surroundings.configuration readSettings p.configPath =
    .ok (p.configuration, p.configLog)
  plan : Plan.ofConfiguration p.configuration p.options.unitTime = .ok p.plan
  text : surroundings.notationText p.options.notationPath = .ok p.text
  events : renderWith p.plan.measure p.text p.plan.table = .ok p.events
  playing : p.plan.playing = .ok p.playing
  track : Track.ofEvents recorder p.playing p.plan.notes p.events = .ok p.track
  outputPath : p.options.outputPath = some p.outputPath

/-- Every step up to saving succeeds, but a note is struck before tick 0, and the header alone makes
a folder of the one that was found. -/
structure LeavesHeader (readSettings : Bytes → Except Fault Setting) (recorder : Recorder)
    (surroundings : Surroundings) (arguments : List String) (folder : Folder) (p : Preparation) :
    Prop where
  succeeds : p.Succeeds readSettings recorder surroundings arguments
  early : ∃ e ∈ p.events, e.StartsEarly p.plan.notes (.whole Playing.standardTicks)
  write : surroundings.folder.write p.outputPath (recorder.header Playing.standardTicks) =
    .ok folder

end Preparation

/-- The usual number of ticks is used in every way of playing that a plan gives. -/
theorem Plan.ticks_of_playing {plan : Plan} {playing : Playing} (h : plan.playing = .ok playing) :
    playing.ticks = some (.whole Playing.standardTicks) := by
  obtain ⟨beats, -, h⟩ := bind_eq_ok.1 h
  obtain ⟨channel, -, h⟩ := bind_eq_ok.1 h
  obtain ⟨velocity, -, h⟩ := bind_eq_ok.1 h
  cases h
  rfl

/-! ## Saving -/

/-- Concluding keeps the folder; the status is 1 if the step failed. -/
theorem folder_of_conclude (h : conclude log ended = .ok outcome) :
    outcome.folder = ended.folder ∧
      (outcome.status = 1 ↔ ∃ fault, ended.result = .error fault) := by
  rw [conclude] at h
  split at h
  · next hresult =>
    cases h
    exact ⟨rfl, iff_of_false nofun fun ⟨_, herror⟩ => by cases hresult.symm.trans herror⟩
  · next fault hresult =>
    split at h
    · cases h
      exact ⟨rfl, iff_of_true rfl ⟨fault, hresult⟩⟩
    · cases h

/-- A track that is written as a whole is saved, unless the path cannot be written to: then the
folder stays. -/
theorem saveTrack_of_write {content : Bytes}
    (h : track.write recorder Playing.standardTicks = (content, .ok ())) {fault : Fault}
    (hresult : (saveTrack recorder folder path track).result = .error fault) :
    (saveTrack recorder folder path track).folder = folder := by
  simp only [saveTrack, h] at hresult ⊢
  cases hwrite : folder.write path content with
  | error fault => rfl
  | ok folder =>
    rw [hwrite] at hresult
    cases hresult

/-- Of a track that is written in part, the part is saved, unless the path cannot be written to. -/
theorem folder_saveTrack_of_error {content : Bytes} {fault : Fault}
    (h : track.write recorder Playing.standardTicks = (content, .error fault)) :
    (saveTrack recorder folder path track).folder =
      ((folder.write path content).toOption).getD folder := by
  simp only [saveTrack, h]
  cases folder.write path content <;> rfl

/-! ## Running -/

/-- A path that is needed is found exactly if an option names it. -/
theorem neededPath_eq_ok {path : Option String} {s : String} :
    neededPath path = .ok s ↔ path = some s := by
  cases path with
  | none => exact iff_of_false nofun nofun
  | some value => exact ⟨fun h => congrArg some (Except.ok.inj h), fun h => by cases h; rfl⟩

/-- The configuration at a path is what is read from the file there, unless it is void. -/
theorem configuration_of_read {bytes : Bytes} {setting : Setting}
    (hpath : surroundings.folder.hasPath path = true)
    (hread : surroundings.folder.read path = .ok bytes)
    (hsetting : readSettings bytes = .ok setting) (hvoid : setting.isVoid = false) :
    surroundings.configuration readSettings path = .ok (setting, []) := by
  have hsame : setting.orElse .empty = setting := if_neg (by rw [hvoid]; nofun)
  rw [Surroundings.configuration, if_pos hpath]
  exact bind_eq_ok.2 ⟨bytes, hread, bind_eq_ok.2 ⟨setting, hsetting, by rw [hsame]; rfl⟩⟩

/-- The command compiles with the plan of its configuration. -/
theorem runWith_eq {options : Options} {configPath : String} {configuration : Setting}
    {plan : Plan} (hconfigPath : options.configPath = some configPath)
    (hconfiguration : surroundings.configuration readSettings configPath = .ok (configuration, log))
    (hplan : Plan.ofConfiguration configuration options.unitTime = .ok plan) :
    runWith readSettings recorder surroundings options =
      match plan.compile recorder surroundings options with
      | .ok saved => conclude log saved
      | .error fault => conclude log ⟨surroundings.folder, [], .error fault⟩ := by
  rw [runWith, neededPath_eq_ok.2 hconfigPath]
  change surroundings.configuration readSettings configPath >>= _ = _
  rw [hconfiguration]
  change Plan.ofConfiguration configuration options.unitTime >>= _ = _
  rw [hplan]
  rfl

/-- What compiling leaves if every step up to saving succeeds. -/
def Preparation.saved (recorder : Recorder) (p : Preparation) (folder : Folder) : Saved :=
  let saved := saveTrack recorder folder p.outputPath p.track
  { saved with log := skippedLines (Track.unmapped p.plan.notes p.events) ++ saved.log }

/-- There is one way in which every step succeeds. -/
theorem Preparation.Succeeds.unique {q : Preparation}
    (hp : p.Succeeds readSettings recorder surroundings arguments)
    (hq : q.Succeeds readSettings recorder surroundings arguments) : p = q := by
  obtain ⟨options, configPath, configuration, configLog, plan, text, events, playing, track,
    outputPath⟩ := p
  cases hp.options.symm.trans hq.options
  cases hp.configPath.symm.trans hq.configPath
  cases hp.configuration.symm.trans hq.configuration
  cases hp.plan.symm.trans hq.plan
  cases hp.text.symm.trans hq.text
  cases hp.events.symm.trans hq.events
  cases hp.playing.symm.trans hq.playing
  cases hp.track.symm.trans hq.track
  cases hp.outputPath.symm.trans hq.outputPath
  rfl

theorem Preparation.Succeeds.compile
    (hp : p.Succeeds readSettings recorder surroundings arguments) :
    p.plan.compile recorder surroundings p.options =
      .ok (p.saved recorder surroundings.folder) := by
  have hplay : p.plan.play recorder p.text =
      .ok (skippedLines (Track.unmapped p.plan.notes p.events), p.track) :=
    bind_eq_ok.2 ⟨_, hp.events, bind_eq_ok.2 ⟨_, hp.playing, bind_eq_ok.2 ⟨_, hp.track, rfl⟩⟩⟩
  exact bind_eq_ok.2 ⟨_, hp.text, bind_eq_ok.2 ⟨_, hplay, bind_eq_ok.2
    ⟨_, neededPath_eq_ok.2 hp.outputPath, rfl⟩⟩⟩

/-- If every step up to saving succeeds, the command ends as saving does. -/
theorem Preparation.Succeeds.run (hp : p.Succeeds readSettings recorder surroundings arguments)
    (h : conclude p.configLog (p.saved recorder surroundings.folder) = .ok outcome) :
    run readSettings recorder surroundings arguments = .ok outcome := by
  have hrun : runWith readSettings recorder surroundings p.options = .ok outcome := by
    rw [runWith_eq hp.configPath hp.configuration hp.plan, hp.compile]
    exact h
  rw [Polyrhythm.run, hp.options]
  dsimp only
  rw [hrun]

/-- A command that leaves a header and nothing more ends with status 1. -/
theorem Preparation.LeavesHeader.run (hrecorder : recorder.Lawful)
    (hp : p.LeavesHeader readSettings recorder surroundings arguments folder) :
    ∃ outcome, run readSettings recorder surroundings arguments = .ok outcome ∧ outcome.status = 1 ∧
      outcome.folder = folder := by
  have hwritten := (Track.write_of_ofEvents hrecorder hp.succeeds.track
    (Plan.ticks_of_playing hp.succeeds.playing) Playing.standardTicks).1 hp.early
  have hsaved : saveTrack recorder surroundings.folder p.outputPath p.track =
      ⟨folder, [savingLine p.outputPath p.track], .error .negativeDelta⟩ := by
    simp only [saveTrack, hwritten, hp.write]
  have hconclude : ∃ log, conclude p.configLog (p.saved recorder surroundings.folder) =
      .ok ⟨1, log, folder⟩ := by
    rw [Preparation.saved, hsaved]
    exact ⟨_, rfl⟩
  obtain ⟨log, hconclude⟩ := hconclude
  exact ⟨_, hp.succeeds.run hconclude, rfl, rfl⟩

/-- A command that ends has come to saving, and ends as saving does, or it has not, and leaves the
folder alone. -/
theorem cases_of_run (h : run readSettings recorder surroundings arguments = .ok outcome) :
    (∃ p : Preparation, p.Succeeds readSettings recorder surroundings arguments ∧
        conclude p.configLog (p.saved recorder surroundings.folder) = .ok outcome) ∨
      (∀ p : Preparation, ¬p.Succeeds readSettings recorder surroundings arguments) ∧
        outcome.folder = surroundings.folder := by
  rw [run] at h
  split at h
  · cases h
  next options hoptions =>
  split at h
  · cases h
  next outcome' hrun =>
  cases h
  obtain ⟨configPath, hconfigPath, hrun⟩ := bind_eq_ok.1 hrun
  obtain ⟨⟨configuration, configLog⟩, hconfiguration, hrun⟩ := bind_eq_ok.1 hrun
  obtain ⟨plan, hplan, hrun⟩ := bind_eq_ok.1 hrun
  cases hcompile : plan.compile recorder surroundings options with
  | ok saved =>
    rw [hcompile] at hrun
    obtain ⟨text, htext, hcompile⟩ := bind_eq_ok.1 hcompile
    obtain ⟨⟨lines, track⟩, hplay, hcompile⟩ := bind_eq_ok.1 hcompile
    obtain ⟨outputPath, houtputPath, hcompile⟩ := bind_eq_ok.1 hcompile
    obtain ⟨events, hevents, hplay⟩ := bind_eq_ok.1 hplay
    obtain ⟨playing, hplaying, hplay⟩ := bind_eq_ok.1 hplay
    obtain ⟨track', htrack, hplay⟩ := bind_eq_ok.1 hplay
    cases hplay
    cases hcompile
    exact .inl ⟨⟨options, configPath, configuration, configLog, plan, text, events, playing, track,
      outputPath⟩, ⟨hoptions, neededPath_eq_ok.1 hconfigPath, hconfiguration, hplan, htext, hevents,
      hplaying, htrack, neededPath_eq_ok.1 houtputPath⟩, hrun⟩
  | error fault =>
    rw [hcompile] at hrun
    refine .inr ⟨fun p hp => ?_, (folder_of_conclude hrun).1⟩
    cases hp.options.symm.trans hoptions
    cases hp.configPath.symm.trans (neededPath_eq_ok.1 hconfigPath)
    cases hp.configuration.symm.trans hconfiguration
    cases hp.plan.symm.trans hplan
    cases hp.compile.symm.trans hcompile

end

/-- A text whose sound has a single event is rendered to it. -/
theorem renderWith_of_event {measure : Rat → Except Fault Quantity} {text : String} {table : Table}
    {e : Event} (h : (parse text >>= fun tree => tree.realizeWith measure table.resolve >>=
      fun sound => sound.events (.whole 0) >>= fun events => sound.duration.written >>=
        fun _ => .ok events) = Except.ok [e]) (he : e.time.isComparable = true) :
    renderWith measure text table = .ok [e] := by
  obtain ⟨tree, htree, h⟩ := bind_eq_ok.1 h
  obtain ⟨sound, hsound, h⟩ := bind_eq_ok.1 h
  obtain ⟨events, hevents, h⟩ := bind_eq_ok.1 h
  obtain ⟨length, hlength, hone⟩ := bind_eq_ok.1 h
  cases hone
  have hcomparable : ∀ other ∈ [e], other.time.isComparable = true := by
    intro other hother
    rwa [List.mem_singleton.1 hother]
  have hwritable : sound.duration.isWritable = true := by
    rw [Quantity.written] at hlength
    split at hlength
    · assumption
    · cases hlength
  rw [renderWith_eq htree hsound hevents, if_pos hwritable,
    sortByTime_of_comparable hcomparable, List.mergeSort_singleton]

/-- A command that ends with status 1 leaves the folder as it was, unless it comes to saving a track
in which a note is struck before tick 0, at a path that can be written to. Then the file at the path
is a header and nothing more. -/
theorem folder_of_failed_run {readSettings : Bytes → Except Fault Setting} {recorder : Recorder}
    {surroundings : Surroundings} {arguments : List String} {outcome : Outcome}
    (hrecorder : recorder.Lawful)
    (h : run readSettings recorder surroundings arguments = .ok outcome)
    (hstatus : outcome.status = 1) :
    (outcome.folder = surroundings.folder ∧ ∀ (p : Preparation) folder,
        ¬p.LeavesHeader readSettings recorder surroundings arguments folder) ∨
      ∃ p : Preparation,
        p.LeavesHeader readSettings recorder surroundings arguments outcome.folder ∧
        outcome.folder.read p.outputPath = .ok (recorder.header Playing.standardTicks) := by
  rcases cases_of_run h with ⟨p, hp, hconclude⟩ | ⟨hnone, hfolder⟩
  · obtain ⟨hfolder, hfailed⟩ := folder_of_conclude hconclude
    have hwritten := Track.write_of_ofEvents hrecorder hp.track (Plan.ticks_of_playing hp.playing)
      Playing.standardTicks
    by_cases hearly : ∃ e ∈ p.events, e.StartsEarly p.plan.notes (.whole Playing.standardTicks)
    · have hsaved := hfolder.trans (folder_saveTrack_of_error (hwritten.1 hearly))
      cases hwrite : surroundings.folder.write p.outputPath
          (recorder.header Playing.standardTicks) with
      | ok folder =>
        rw [hwrite] at hsaved
        exact .inr ⟨p, ⟨hp, hearly, hsaved ▸ hwrite⟩, hsaved ▸ Folder.read_write hwrite⟩
      | error fault =>
        rw [hwrite] at hsaved
        refine .inl ⟨hsaved, fun q folder hq => ?_⟩
        cases hp.unique hq.succeeds
        cases hwrite.symm.trans hq.write
    · obtain ⟨content, hcontent⟩ := hwritten.2 hearly
      obtain ⟨fault, hfault⟩ := hfailed.1 hstatus
      refine .inl ⟨hfolder.trans (saveTrack_of_write hcontent hfault), fun q folder hq => ?_⟩
      cases hp.unique hq.succeeds
      exact hearly hq.early
  · exact .inl ⟨hfolder, fun p _ hp => hnone p hp.succeeds⟩

/-- The bytes of plain characters, one for each. -/
def plainBytes (cs : List Char) : Bytes := cs.map fun c => UInt8.ofNat c.toNat

/-- A brace that is not closed is reported before anything is written. -/
theorem folder_of_failed_run_unclosed :
    ∃ outcome, run (fun _ => .ok .empty) .standard
        ⟨⟨[(["out.mid"], [1, 2])], [], []⟩, plainBytes ['{']⟩ ["-"] = .ok outcome ∧
      outcome.status = 1 ∧ outcome.folder.read "out.mid" = .ok [1, 2] := by
  let surroundings : Surroundings := ⟨⟨[(["out.mid"], [1, 2])], [], []⟩, plainBytes ['{']⟩
  have hstatus : (run (fun _ => .ok .empty) .standard surroundings ["-"]).toOption.map
      Outcome.status = some 1 := by decide +kernel
  cases hrun : run (fun _ => .ok .empty) .standard surroundings ["-"] with
  | error stop =>
    rw [hrun] at hstatus
    cases hstatus
  | ok outcome =>
    rw [hrun] at hstatus
    have hstatus : outcome.status = 1 := Option.some.inj hstatus
    refine ⟨outcome, rfl, hstatus, ?_⟩
    rcases folder_of_failed_run Recorder.lawful_standard hrun hstatus with ⟨hfolder, -⟩ | ⟨p, hp, -⟩
    · rw [hfolder]
      decide +kernel
    · have hoptions : Options.mk "-" (some "config.yaml") (some "out.mid") none = p.options :=
        Except.ok.inj hp.succeeds.options
      have hread : surroundings.notationText "-" = .ok "\x7b" := by decide +kernel
      have htext := hp.succeeds.text
      rw [← hoptions] at htext
      have htext : "\x7b" = p.text := Except.ok.inj (hread.symm.trans htext)
      obtain ⟨tree, htree, -⟩ := bind_eq_ok.1 hp.succeeds.events
      have hparse : (parse "\x7b").isOk = false := by decide +kernel
      rw [htext, htree] at hparse
      cases hparse

/-- With a negative unit of time a note after a rest is struck before tick 0, so that a header is
left where no file was. -/
theorem folder_of_failed_run_fails :
    let folder : Folder := ⟨[(["config.yaml"],
      plainBytes "symbols:\n  a: 60\nnotation:\n  unit_time: -1\n".toList)], [], []⟩
    let configuration : Setting := .mapping [("symbols", .mapping [("a", .number (.whole 60))]),
      ("notation", .mapping [("unit_time", .number (.whole (-1)))])]
    ∃ outcome, run (fun _ => .ok configuration) .standard
        ⟨folder, plainBytes "- a".toList⟩ ["-"] = .ok outcome ∧ outcome.status = 1 ∧
      folder.read "out.mid" = .error (.noSuchFile "out.mid") ∧
      outcome.folder.read "out.mid" =
        .ok [77, 84, 104, 100, 0, 0, 0, 6, 0, 1, 0, 1, 1, 224] := by
  intro folder configuration
  let surroundings : Surroundings := ⟨folder, plainBytes "- a".toList⟩
  let table : Table := Table.initial.addNote "a" false
  let unit : Setting := .number (.whole (-1))
  let numbers : NoteMap := .ofSetting (.mapping [("a", .number (.whole 60))])
  let events : List Event := [⟨.ratio (-1), .ratio (-1), "a", none⟩]
  have hread : folder.read "config.yaml" = .ok (plainBytes
      "symbols:\n  a: 60\nnotation:\n  unit_time: -1\n".toList) := by decide +kernel
  have hconfiguration : surroundings.configuration (fun _ => .ok configuration) "config.yaml" =
      .ok (configuration, []) := configuration_of_read (by decide +kernel) hread rfl rfl
  have htext : surroundings.notationText "-" = .ok "- a" := by decide +kernel
  have hevents : renderWith (measureBy unit) "- a" table = .ok events :=
    renderWith_of_event (by decide +kernel) rfl
  have hmade : (Track.ofEvents .standard .standard numbers events).isOk = true := by decide +kernel
  have hstruck : events.head?.map (Track.span (.whole Playing.standardTicks)) =
      some (.ok (-480, -479)) := by decide +kernel
  have hwrite : folder.write "out.mid" (Recorder.standard.header Playing.standardTicks) =
      .ok (folder.put ["out.mid"] (Recorder.standard.header Playing.standardTicks)) := by
    have htarget : folder.target "out.mid" = .place ["out.mid"] false := by decide +kernel
    rw [Folder.write, if_neg (by decide +kernel), htarget]
    exact if_neg (by decide +kernel)
  cases htrack : Track.ofEvents .standard .standard numbers events with
  | error fault =>
    rw [htrack] at hmade
    cases hmade
  | ok track =>
    let p : Preparation := ⟨⟨"-", some "config.yaml", some "out.mid", none⟩, "config.yaml",
      configuration, [], ⟨.empty, numbers, table, measureBy unit⟩, "- a", events, .standard, track,
      "out.mid"⟩
    have hp : p.LeavesHeader (fun _ => .ok configuration) .standard surroundings ["-"]
        (folder.put ["out.mid"] (Recorder.standard.header Playing.standardTicks)) := by
      refine ⟨⟨rfl, rfl, hconfiguration, rfl, htext, hevents, rfl, htrack, rfl⟩, ?_, hwrite⟩
      exact ⟨_, List.mem_singleton_self _, .whole 60, -480, -479, rfl, Option.some.inj hstruck,
        by decide⟩
    obtain ⟨outcome, hrun, hstatus, hfolder⟩ := hp.run Recorder.lawful_standard
    refine ⟨outcome, hrun, hstatus, by decide +kernel, ?_⟩
    rw [hfolder]
    decide +kernel

end Polyrhythm
