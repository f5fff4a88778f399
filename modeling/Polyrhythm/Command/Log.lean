import Polyrhythm.Midi.Track

/-!
# The log

What the command tells about its work: the names that have no note, the file it writes, and the
configuration it did not find.
-/

namespace Polyrhythm

/-- How much a line of the log matters. -/
inductive LogLevel
  | info
  | warning
  | error
deriving DecidableEq, Repr

/-- The word for a level. -/
def LogLevel.word : LogLevel → String
  | .info => "INFO"
  | .warning => "WARNING"
  | .error => "ERROR"

/-- A line of the log. -/
structure LogLine where
  level : LogLevel
  text : String
deriving DecidableEq, Repr

/-- The lines about names that have no note. -/
def skippedLines (names : List String) : List LogLine :=
  names.map fun name => ⟨.warning, "No MIDI note mapped for '" ++ name ++ "', skipping"⟩

/-- The line before a track is written. The number of messages counts the tempo and the end. -/
def savingLine (path : String) (track : Track) : LogLine :=
  ⟨.info, "Saving MIDI file (" ++ Number.wholeText track.messages.length ++ " messages) to " ++
    path ++ "..."⟩

/-- The line after a track is written. -/
def savedLine (path : String) : LogLine := ⟨.info, "Saved " ++ path⟩

/-- The line about a configuration that is not there. -/
def missingLine (path : String) : LogLine :=
  ⟨.warning, "Config file " ++ path ++ " not found. Using defaults."⟩

end Polyrhythm
