import Polyrhythm.Command.Arguments
import Polyrhythm.Command.Folder
import Polyrhythm.Command.Log
import Polyrhythm.Setting.Sounds
import Polyrhythm.Sound.Realize

/-!
# The command

The command compiles a notation to a MIDI file. A configuration says which notes there are and how
they are played; without one there are none. What is wrong with the notation, with a value or with
a file is written to the log, and the command ends with status 1 (`Fault.isReported`); any other
fault is passed on.

The folder after the command is part of its outcome. A track that cannot be written leaves a file
with a header only.
-/

namespace Polyrhythm

/-! ## Saving -/

/-- What a step of the command leaves: the folder, the lines it logged, and whether it succeeded. -/
structure Saved where
  folder : Folder
  log : List LogLine
  result : Except Fault Unit

/-- Writes a track to a file. -/
def saveTrack (recorder : Recorder) (folder : Folder) (path : String) (track : Track) : Saved :=
  let (content, result) := track.write recorder Playing.standardTicks
  match folder.write path content, result with
  | .error fault, _ => ⟨folder, [savingLine path track], .error fault⟩
  | .ok folder, .error fault => ⟨folder, [savingLine path track], .error fault⟩
  | .ok folder, .ok _ => ⟨folder, [savingLine path track, savedLine path], .ok ()⟩

/-! ## Configuration -/

/-- What a configuration says: how notes are played, their numbers, their sounds, and how durations
become time. -/
structure Plan where
  midi : Setting
  notes : NoteMap
  table : Table
  measure : Rat → Except Fault Quantity

/-- Multiplies a duration by a unit of time that may be no number. -/
def measureBy (unit : Setting) (duration : Rat) : Except Fault Quantity :=
  match unit.quantity? with
  | some unit => (Quantity.ratio duration).mul unit
  | none => .error .wrongType

namespace Plan

/-- The unit of time that a configuration sets, one if it sets none. -/
def unitTime (configuration : Setting) : Except Fault Setting := do
  let settings ← configuration.entryOr "notation" .empty
  return (← settings.entry? "unit_time").getD (.number (.whole 1))

/-- The plan of a configuration. A unit of time from the arguments goes before the one that is
configured. -/
def ofConfiguration (configuration : Setting) (given : Option Setting) : Except Fault Plan := do
  let midi ← configuration.entryOr "midi" .empty
  let symbols ← configuration.entryOr "symbols" .empty
  let unit ← match given with
    | some unit => .ok unit
    | none => unitTime configuration
  let table ← Table.ofConfiguration configuration
  return ⟨midi, .ofSetting symbols, table, measureBy unit⟩

/-- A part of the way notes are played, from the configuration or else from the standard. -/
def part (plan : Plan) (key : String) (standard : Option Quantity) :
    Except Fault (Option Quantity) := do
  match ← plan.midi.entry? key with
  | some setting => return setting.quantity?
  | none => return standard

/-- The way notes are played. -/
def playing (plan : Plan) : Except Fault Playing := do
  let standard := Playing.standard
  return ⟨← plan.part "bpm" standard.beats, ← plan.part "channel" standard.channel,
    ← plan.part "velocity" standard.velocity, standard.ticks⟩

/-- The track of a text, and the lines about names that have no note. -/
def play (plan : Plan) (recorder : Recorder) (text : String) :
    Except Fault (List LogLine × Track) := do
  let events ← renderWith plan.measure text plan.table
  let playing ← plan.playing
  let track ← Track.ofEvents recorder playing plan.notes events
  return (skippedLines (Track.unmapped plan.notes events), track)

end Plan

/-! ## Running -/

/-- What the command finds: the files, and what comes in. -/
structure Surroundings where
  folder : Folder
  input : Bytes

/-- What the command leaves. -/
structure Outcome where
  status : Nat
  log : List LogLine
  folder : Folder

/-- The text that bytes encode, with its lines ended in one way. -/
def readText (bytes : Bytes) : Except Fault String :=
  match Text.decode bytes with
  | .ok cs => .ok (String.ofList (Text.endLines cs))
  | .error problem => .error (.undecodable problem)

/-- The notation: a file, or what comes in if the path is a dash. -/
def Surroundings.notationText (surroundings : Surroundings) (path : String) : Except Fault String :=
  if path = "-" then readText surroundings.input
  else surroundings.folder.read path >>= readText

/-- A path that an option names, unless its value was dropped. -/
def neededPath : Option String → Except Fault String
  | some path => .ok path
  | none => .error .wrongType

/-- The configuration and what is logged about it; a missing one is empty. -/
def Surroundings.configuration (surroundings : Surroundings)
    (readSettings : Bytes → Except Fault Setting) (path : String) :
    Except Fault (Setting × List LogLine) :=
  if surroundings.folder.hasPath path then do
    let bytes ← surroundings.folder.read path
    return ((← readSettings bytes).orElse .empty, [])
  else .ok (.empty, [missingLine path])

/-- Compiles the notation that the options name and saves it. -/
def Plan.compile (plan : Plan) (recorder : Recorder) (surroundings : Surroundings)
    (options : Options) : Except Fault Saved := do
  let text ← surroundings.notationText options.notationPath
  let (log, track) ← plan.play recorder text
  let saved := saveTrack recorder surroundings.folder (← neededPath options.outputPath) track
  return { saved with log := log ++ saved.log }

/-- The outcome of a step that succeeded, or failed in a way that is reported. -/
def conclude (log : List LogLine) (saved : Saved) : Except Fault Outcome :=
  match saved.result with
  | .ok _ => .ok ⟨0, log ++ saved.log, saved.folder⟩
  | .error fault =>
    if fault.isReported then
      .ok ⟨1, log ++ saved.log ++ [⟨.error, fault.message⟩], saved.folder⟩
    else .error fault

/-- Runs the command with options that are set; `readSettings` reads a configuration, and the
recorder makes the messages and the file. -/
def runWith (readSettings : Bytes → Except Fault Setting) (recorder : Recorder)
    (surroundings : Surroundings) (options : Options) : Except Fault Outcome := do
  let configPath ← neededPath options.configPath
  let (configuration, log) ← surroundings.configuration readSettings configPath
  let plan ← Plan.ofConfiguration configuration options.unitTime
  match plan.compile recorder surroundings options with
  | .ok saved => conclude log saved
  | .error fault => conclude log ⟨surroundings.folder, [], .error fault⟩

/-- Why the command has no outcome: it did not run, or a fault was passed on. -/
inductive Stop
  | halted (halt : Halt)
  | failed (fault : Fault)

/-- Runs the command with arguments; `readSettings` reads a configuration, and the recorder makes
the messages and the file. -/
def run (readSettings : Bytes → Except Fault Setting) (recorder : Recorder)
    (surroundings : Surroundings) (arguments : List String) : Except Stop Outcome :=
  match Options.ofArguments arguments with
  | .error halt => .error (.halted halt)
  | .ok options =>
    match runWith readSettings recorder surroundings options with
    | .error fault => .error (.failed fault)
    | .ok outcome => .ok outcome

end Polyrhythm
