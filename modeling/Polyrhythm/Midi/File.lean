import Polyrhythm.Midi.Track

/-!
# MIDI files

A file with one track: a header, then the length of the track and its messages, each as its
distance from the one before and its bytes. A distance takes seven bits a byte, the most significant
first, and all bytes but the last have the high bit set. The status byte of a message is left out
when the message before has the same one; messages about the file itself interrupt this.

A negative distance cannot be written. `Recorder.standard` makes messages and writes files in this
way.
-/

namespace Polyrhythm

/-- A number in a fixed count of bytes, the most significant first. -/
def bigEndian : Nat → Nat → List UInt8
  | 0, _ => []
  | count + 1, n => bigEndian count (n / 256) ++ [UInt8.ofNat (n % 256)]

/-- The bytes of a number in front of its last seven bits, each with its high bit set. -/
def leadingSevens (n : Nat) : List UInt8 :=
  if n = 0 then [] else leadingSevens (n / 128) ++ [UInt8.ofNat (n % 128 + 128)]
termination_by n
decreasing_by omega

/-- A number in as many bytes of seven bits as it needs. -/
def variableLength (n : Nat) : List UInt8 := leadingSevens (n / 128) ++ [UInt8.ofNat (n % 128)]

namespace Message

/-- The status byte of a message about a note; messages about the file have none. -/
def status? : Message → Option UInt8
  | noteOn channel .. => some (UInt8.ofNat (0x90 + channel))
  | noteOff channel .. => some (UInt8.ofNat (0x80 + channel))
  | tempo _ | trackEnd => none

/-- The bytes of a message after its status byte, or all of them if it has none. -/
def body : Message → List UInt8
  | noteOn _ note velocity | noteOff _ note velocity => [UInt8.ofNat note, UInt8.ofNat velocity]
  | tempo microseconds => [0xFF, 0x51, 0x03] ++ bigEndian 3 microseconds
  | trackEnd => [0xFF, 0x2F, 0x00]

/-- The bytes of a message, the status byte before it being known. -/
def encode (running : Option UInt8) (m : Message) : List UInt8 :=
  if m.status? = running then m.body else m.status?.toList ++ m.body

end Message

namespace Recorder

/-! ## Values of messages -/

/-- A part of a message: a whole number from 0 up to a limit. -/
def checked (limit : Nat) (fault : Fault) : Option Quantity → Except Fault Nat
  | some (.whole n) => if 0 ≤ n && n ≤ limit then .ok n.toNat else .error fault
  | _ => .error .wrongType

/-- The microseconds of a beat: a minute divided by the beats, counted in quarters. -/
def beatLength (beats : Quantity) : Except Fault Nat := do
  let quarter ← Quantity.div (.real 60000000.0) beats
  let beat ← (← quarter.mul (.whole 4)).div (.real 4.0)
  let microseconds ← beat.round
  if 0 ≤ microseconds && microseconds ≤ 0xFFFFFF then return microseconds.toNat
  else .error .tempoOutOfRange

/-! ## Chunks of a file -/

/-- The letters of a chunk and the length of its content. -/
def chunkHead (letters : List UInt8) (length : Nat) : List UInt8 := letters ++ bigEndian 4 length

/-- The header of a file with one track: the format for tracks played together, one track, and the
ticks a beat. -/
def fileHead (ticks : Nat) : List UInt8 :=
  chunkHead [0x4D, 0x54, 0x68, 0x64] 6 ++ bigEndian 2 1 ++ bigEndian 2 1 ++ bigEndian 2 ticks

/-- The bytes of messages with their distances. -/
def encodeFrom (running : Option UInt8) : List (Int × Message) → Except Fault (List UInt8)
  | [] => .ok []
  | (delta, m) :: rest =>
    if delta < 0 then .error .negativeDelta
    else do
      let more ← encodeFrom m.status? rest
      return variableLength delta.toNat ++ m.encode running ++ more

/-- The bytes of a track as a part of a file. -/
def encodeTrack (track : Track) : Except Fault (List UInt8) := do
  let content ← encodeFrom none track.messages
  return chunkHead [0x4D, 0x54, 0x72, 0x6B] content.length ++ content

/-- Records messages in files of the standard format. There are 16 channels, and 7 bits for notes
and velocities. -/
def standard : Recorder :=
  ⟨checked 15 .channelOutOfRange, checked 127 .dataOutOfRange, beatLength, fileHead, encodeTrack⟩

end Recorder

end Polyrhythm
