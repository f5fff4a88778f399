import Polyrhythm.Position
import Polyrhythm.Text.Quoted
import Polyrhythm.Text.Utf8

/-!
# Faults

Everything that can go wrong, by cause. Faults of the notation carry the position of the character
to blame where one is known. `Fault.message` is the wording, and the only place where it is fixed;
`Fault.isNotation` and `Fault.isReported` sort faults by who has to deal with them.
-/

namespace Polyrhythm

/-- A reason why a step cannot be carried out. -/
inductive Fault
  /-- A character that can neither start nor continue a word. -/
  | invalidCharacter (c : Char) (position : Position)
  /-- A closing brace with no block to close. -/
  | unopenedBlock (position : Option Position)
  /-- An opening brace whose block is never closed. -/
  | unclosedBlock (position : Option Position)
  /-- A tempo marker that multiplies or divides by zero. -/
  | invalidMarker (content : String) (position : Option Position)
  /-- A hold with no element before it. -/
  | nothingToHold (position : Option Position)
  /-- A name that no sound is registered under. -/
  | unknownSound (name : String) (position : Option Position)
  /-- A lookup that was refused for a reason of its own. -/
  | lookupRefused (reason : String) (position : Option Position)
  /-- An entry that is simply not there. -/
  | absent
  /-- A sequence that should have been flattened into a group before it is fitted. -/
  | unflattenedSequence
  /-- A composite that is to be fitted before its duration is known. -/
  | unknownDuration (kind : String)
  /-- An element of a tree that is no notation. -/
  | unknownKind (kind : String)
  /-- An element that stands for no sound. -/
  | unplayable (kind : String)
  /-- A numeral with more digits than can be read. -/
  | unreadableNumeral (digits : Nat)
  /-- A number with more digits than can be written. -/
  | unwritableNumber
  /-- Rounding what is not a number. -/
  | undefinedRounding
  /-- A note beyond the keyboard. -/
  | noteOutOfRange (note : Quantity) (name : String)
  /-- A number of beats a minute that is not positive. -/
  | beatsNotPositive
  /-- A number of ticks a beat that is not positive. -/
  | ticksNotPositive
  /-- A channel that does not exist. -/
  | channelOutOfRange
  /-- A note or velocity that does not fit into seven bits. -/
  | dataOutOfRange
  /-- A tempo that does not fit into three bytes. -/
  | tempoOutOfRange
  /-- A message that would come before the one it follows. -/
  | negativeDelta
  /-- Bytes that encode no character. -/
  | undecodable (bytes : Text.Undecodable)
  /-- A configuration file that cannot be read. -/
  | unreadableSettings
  /-- A path that no file can have. -/
  | invalidPath
  /-- An operation that an object has no rule for. -/
  | notImplemented
  /-- An operand of a type that the operation is not defined on. -/
  | wrongType
  /-- A part that a thing of this kind does not have. -/
  | noSuchPart
  /-- An index past the end. -/
  | noSuchIndex
  /-- A number too large for what it is to become. -/
  | overflow
  /-- A division by zero. -/
  | divisionByZero
  /-- A file that does not exist, or a place where none can be made. -/
  | noSuchFile (path : String)
  /-- A directory where a file is needed. -/
  | isDirectory (path : String)
  /-- A file where a directory is needed. -/
  | notDirectory (path : String)
  /-- A path that is too long, or a name in it. -/
  | nameTooLong (path : String)
deriving DecidableEq

namespace Fault

/-- A sentence followed by the position it is about, if that is known. -/
def located (sentence : String) (position : Option Position) : String :=
  sentence ++ (position.map Position.text).getD ""

/-- What is wrong with some bytes. -/
def problemText : Text.Utf8Problem → String
  | .invalidStart => "invalid start byte"
  | .invalidContinuation => "invalid continuation byte"
  | .unexpectedEnd => "unexpected end of data"

/-- Which bytes encode no character: one by its value and offset, several by their offsets. -/
def undecodableText (bytes : Text.Undecodable) : String :=
  let place :=
    if bytes.count = 1 then
      "byte 0x" ++ String.ofList (Text.hex 2 bytes.byte.toNat) ++ " in position " ++
        Number.wholeText bytes.offset
    else
      "bytes in position " ++ Number.wholeText bytes.offset ++ "-" ++
        Number.wholeText (bytes.offset + bytes.count - 1 : Nat)
  "'utf-8' codec can't decode " ++ place ++ ": " ++ problemText bytes.problem

/-- What is wrong with a number of too many digits, which may be counted. -/
def digitsText (count : String) : String :=
  "Exceeds the limit (" ++ Number.wholeText Number.digitLimit ++
    " digits) for integer string conversion" ++ count ++
    "; use sys.set_int_max_str_digits() to increase the limit"

/-- The sentence that tells the user of a fault. A fault with no sentence of its own has the empty
one. -/
def message : Fault → String
  | invalidCharacter c position => located ("invalid character : " ++ c.toString) (some position)
  | unopenedBlock position => located "\x7d mismatch" position
  | unclosedBlock position => located "\x7b mismatch" position
  | invalidMarker content position => located ("invalid tempo marker : " ++ content) position
  | nothingToHold position => located "_ mismatch" position
  | unknownSound name position => located ("invalid sound identifier : " ++ name) position
  | lookupRefused reason position => located reason position
  | unflattenedSequence => "cannot fit an unflattened sequence"
  | unknownDuration kind => "cannot fit " ++ kind ++ " before its duration is known"
  | unknownKind kind => "unknown node type : " ++ kind
  | unplayable kind => "invalid node type : " ++ kind
  | unreadableNumeral digits => digitsText (": value has " ++ Number.wholeText digits ++ " digits")
  | unwritableNumber => digitsText ""
  | undefinedRounding => "cannot convert float NaN to integer"
  | noteOutOfRange note name => "MIDI note " ++ note.text ++ " for '" ++ name ++ "' is out of range"
  | beatsNotPositive => "BPM must be positive"
  | ticksNotPositive => "Ticks per beat must be positive"
  | channelOutOfRange => "channel must be in range 0..15"
  | dataOutOfRange => "data byte must be in range 0..127"
  | tempoOutOfRange => "attribute must be in range 0..16777215"
  | negativeDelta => "message time must be non-negative in MIDI file"
  | undecodable bytes => undecodableText bytes
  | invalidPath => "embedded null byte"
  | unreadableSettings => "the configuration cannot be read"
  | noSuchFile path => "[Errno 2] No such file or directory: " ++ Text.quoted path
  | isDirectory path => "[Errno 21] Is a directory: " ++ Text.quoted path
  | notDirectory path => "[Errno 20] Not a directory: " ++ Text.quoted path
  | nameTooLong path => "[Errno 36] File name too long: " ++ Text.quoted path
  | absent | notImplemented | wrongType | noSuchPart | noSuchIndex | overflow | divisionByZero => ""

/-- Whether a fault lies in the notation or in a name it uses. -/
def isNotation : Fault → Bool
  | invalidCharacter .. | unopenedBlock _ | unclosedBlock _ | invalidMarker .. | nothingToHold _
  | unknownSound .. | lookupRefused .. => true
  | _ => false

/-- Whether a fault lies in a value that is of the right type but not allowed. -/
def isValue : Fault → Bool
  | unreadableNumeral _ | unwritableNumber | undefinedRounding | noteOutOfRange ..
  | beatsNotPositive | ticksNotPositive | channelOutOfRange | dataOutOfRange | tempoOutOfRange
  | negativeDelta | undecodable _ | invalidPath => true
  | _ => false

/-- Whether a fault lies with the file system. -/
def isSystem : Fault → Bool
  | noSuchFile _ | isDirectory _ | notDirectory _ | nameTooLong _ => true
  | _ => false

/-- Whether the command reports a fault to the user and stops in an orderly way. -/
def isReported (fault : Fault) : Bool := fault.isNotation || fault.isValue || fault.isSystem

/-- The position a fault of the notation is blamed on. -/
def position? : Fault → Option Position
  | invalidCharacter _ position => some position
  | unopenedBlock position | unclosedBlock position | invalidMarker _ position
  | nothingToHold position | unknownSound _ position | lookupRefused _ position => position
  | _ => none

end Fault

end Polyrhythm
