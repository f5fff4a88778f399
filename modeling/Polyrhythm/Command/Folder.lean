import Polyrhythm.Fault

/-!
# A folder of files

What the command sees of the file system: files by their places, and the folder it works in, from
which a path is followed unless it begins at the root. Reading and writing fail as a file system
fails: at a missing file or folder, at a folder in the place of a file, at a file in the place of a
folder, and at a name that is too long.

A file that was put somewhere is found there (`find?_put_same`), and all others are as they were
(`find?_put_other`).
-/

namespace Polyrhythm

/-- The bytes of a file. -/
abbrev Bytes := List UInt8

/-- The place of a file or a folder: the names of the folders that lead to it from the root, and its
own. -/
abbrev Place := List String

/-- Files by their places, folders that may hold no file, and the folder in which the command
works. -/
structure Folder where
  files : List (Place × Bytes)
  folders : List Place
  home : Place

namespace Folder

/-- A folder without files, in which the command works. -/
def empty (home : Place) : Folder := ⟨[], [], home⟩

/-- The content of the file at a place. -/
def find? (folder : Folder) (place : Place) : Option Bytes := folder.files.lookup place

/-- The folder with a file at a place, instead of the one that was there. -/
def put (folder : Folder) (place : Place) (content : Bytes) : Folder :=
  { folder with
    files := (place, content) :: folder.files.filter fun file => file.1 != place }

/-- Whether a place is a folder: what leads to the folder of the command, to another folder or to a
file is one. -/
def isFolder (folder : Folder) (place : Place) : Bool :=
  (folder.home :: folder.folders).any place.isPrefixOf ||
    folder.files.any fun file => place.isPrefixOf file.1 && place != file.1

/-- The most bytes that a name can have. -/
def longestName : Nat := 255

/-- The most bytes that a path can have. -/
def longestPath : Nat := 4095

/-- What a path stands for. -/
inductive Target
  /-- A place inside an existing folder, with whether only a folder can be meant. -/
  | place (names : Place) (mustBeFolder : Bool)
  /-- A place that a missing folder should lead to. -/
  | nowhere
  /-- A place that a file should lead to. -/
  | throughFile
  /-- A place that no path can name. -/
  | tooLong
deriving DecidableEq, Repr

/-- Follows the names of a path from a folder on; the last one need not exist. Two dots lead to the
folder around, and from the root nowhere else. -/
def follow (folder : Folder) (here : Place) : List String → Target
  | [] => .place here true
  | "" :: rest | "." :: rest => follow folder here rest
  | ".." :: rest => follow folder here.dropLast rest
  | name :: rest =>
    let next := here ++ [name]
    if longestName < name.utf8ByteSize then .tooLong
    else if rest.isEmpty then .place next false
    else if folder.isFolder next then follow folder next rest
    else if rest.all fun name => name = "" then .place next true
    else if (folder.find? next).isSome then .throughFile
    else .nowhere

/-- What a path stands for. A path that begins with a slash is followed from the root. -/
def target (folder : Folder) (path : String) : Target :=
  if longestPath < path.utf8ByteSize then .tooLong
  else match (path.toList.splitOn '/').map String.ofList with
    | [""] => .nowhere
    | "" :: rest => folder.follow [] rest
    | names => folder.follow folder.home names

/-- Whether no file can have a path. -/
def isInvalid (path : String) : Bool := path.toList.any fun c => c.toNat = 0

/-- The content of the file at a path. -/
def read (folder : Folder) (path : String) : Except Fault Bytes :=
  if isInvalid path then .error .invalidPath
  else match folder.target path with
    | .nowhere => .error (.noSuchFile path)
    | .throughFile => .error (.notDirectory path)
    | .tooLong => .error (.nameTooLong path)
    | .place names mustBeFolder =>
      if folder.isFolder names then .error (.isDirectory path)
      else match folder.find? names with
        | none => .error (.noSuchFile path)
        | some content => if mustBeFolder then .error (.notDirectory path) else .ok content

/-- Whether there is a file or a folder at a path. -/
def hasPath (folder : Folder) (path : String) : Bool :=
  if isInvalid path then false
  else match folder.target path with
    | .nowhere | .throughFile | .tooLong => false
    | .place names mustBeFolder =>
      folder.isFolder names || ((folder.find? names).isSome && !mustBeFolder)

/-- The folder with the content of the file at a path replaced or, if there is none, with a new
file. -/
def write (folder : Folder) (path : String) (content : Bytes) : Except Fault Folder :=
  if isInvalid path then .error .invalidPath
  else match folder.target path with
    | .nowhere => .error (.noSuchFile path)
    | .throughFile => .error (.notDirectory path)
    | .tooLong => .error (.nameTooLong path)
    | .place names mustBeFolder =>
      if folder.isFolder names || mustBeFolder then .error (.isDirectory path)
      else .ok (folder.put names content)

/-! ## Reading what was written -/

/-- A file that was put somewhere is found there. -/
@[simp]
theorem find?_put_same (folder : Folder) (place : Place) (content : Bytes) :
    (folder.put place content).find? place = some content := by
  simp [find?, put]

/-- Putting a file somewhere leaves all other files as they are. -/
theorem find?_put_other (folder : Folder) {place other : Place} (content : Bytes)
    (h : other ≠ place) : (folder.put place content).find? other = folder.find? other := by
  obtain ⟨files, folders, home⟩ := folder
  have hne : (other == place) = false := by simpa using h
  simp only [find?, put, List.lookup_cons, hne]
  induction files with
  | nil => rfl
  | cons file files ih =>
    obtain ⟨name, old⟩ := file
    by_cases hname : name = place
    · subst hname
      simpa [List.lookup_cons, hne] using ih
    · simp [hname, List.lookup_cons, ih]

end Folder

end Polyrhythm
