import Polyrhythm.Command.Compile
import Polyrhythm.Midi.File
import Polyrhythm.Setting.Reader

/-!
# The program

Looks at the files that the arguments name, runs the command on what it finds, writes the output if
the command has changed it, and prints the log to standard error.
-/

namespace Polyrhythm.Program

/-- How the program is used. -/
def usage : String :=
  "usage: polyrhythm [-h] [--config CONFIG] [--output OUTPUT] [--unit-time UNIT_TIME] notation"

/-- All bytes of a stream. -/
partial def readAll (stream : IO.FS.Stream) (before : ByteArray) : IO ByteArray := do
  let more ← stream.read 65536
  if more.isEmpty then return before else readAll stream (before ++ more)

/-- Prints lines of the log. -/
def printLog (lines : List LogLine) : IO Unit :=
  lines.forM fun line => IO.eprintln (line.level.word ++ ": " ++ line.text)

/-! ## Surroundings -/

/-- What leads to a path and the path itself: its beginnings up to each of its slashes. -/
def beginnings (path : String) : List String :=
  let names := path.splitOn "/"
  (List.range names.length).map fun n => "/".intercalate (names.take (n + 1))

/-- The folder with what the system has at a path: a folder, or a file, which is only read if its
content matters. -/
def look (isRead : Bool) (folder : Folder) (path : String) : IO Folder := do
  let found ← (do (← IO.FS.realPath path).metadata).toBaseIO
  match folder.target path, found with
  | .place names _, .ok metadata =>
    if metadata.type == .dir then return { folder with folders := names :: folder.folders }
    let content ← if isRead then IO.FS.readBinFile path else pure ByteArray.empty
    return folder.put names content.toList
  | _, _ => return folder

/-- The names of the folders that lead to the one the program works in. -/
def home : IO Place := do
  return (← IO.FS.realPath ".").components.filter fun name => name != ""

/-- What the command finds at the paths that options name, and what comes in if it is to be read. -/
def surroundings (options : Options) : IO Surroundings := do
  let mut folder := Folder.empty (← home)
  for path in options.outputPath.toList.flatMap beginnings do
    folder ← look false folder path
  for path in (options.notationPath :: options.configPath.toList).flatMap beginnings do
    folder ← look true folder path
  let input ← if options.notationPath = "-" then readAll (← IO.getStdin) ByteArray.empty
    else pure ByteArray.empty
  return ⟨folder, input.toList⟩

/-! ## Running -/

/-- Writes the file at a path if a folder has another one there than it had before. -/
def save (before after : Folder) (path : String) : IO Unit := do
  if let .place names _ := after.target path then
    if let some content := after.find? names then
      if before.find? names != some content then IO.FS.writeBinFile path ⟨content.toArray⟩

/-- Runs the program and gives its exit status. -/
def run (arguments : List String) : IO UInt32 := do
  let found ← match Options.ofArguments arguments with
    | .ok options => surroundings options
    | .error _ => pure ⟨.empty [], []⟩
  match Polyrhythm.run Setting.read .standard found arguments with
  | .ok outcome =>
    if let .ok options := Options.ofArguments arguments then
      options.outputPath.forM (save found.folder outcome.folder)
    printLog outcome.log
    return UInt32.ofNat outcome.status
  | .error (.halted .help) =>
    IO.println usage
    return 0
  | .error (.halted .usage) =>
    IO.eprintln usage
    return 2
  | .error (.failed fault) => throw (IO.userError ("the command failed: " ++ fault.message))

end Polyrhythm.Program

/-- Runs the program. -/
def main (arguments : List String) : IO UInt32 := Polyrhythm.Program.run arguments
