/-!
# Decoding bytes

A file of notation is text in UTF-8. `decode` turns bytes into characters or says where the first
bytes that belong to no character stand and why they belong to none. `endLines` then makes every
line end in a line feed, whichever of the three conventions the file uses.
-/

namespace Polyrhythm.Text

/-- Why some bytes are no character. -/
inductive Utf8Problem
  | invalidStart
  | invalidContinuation
  | unexpectedEnd
deriving DecidableEq, Repr

/-- Bytes that belong to no character: the offset of the first, how many there are, the value of
the first, and what is wrong. -/
structure Undecodable where
  offset : Nat
  count : Nat
  byte : UInt8
  problem : Utf8Problem
deriving DecidableEq, Repr

/-- Whether a byte can continue a character of several bytes. -/
def isContinuation (byte : UInt8) : Bool := 0x80 ≤ byte && byte ≤ 0xBF

/-- Whether a byte can be the second of a character that starts with `lead`. It must continue the
character, and some leads leave no room below (a shorter form exists) or above (the code point
would be a surrogate or too large). -/
def isSecond (lead byte : UInt8) : Bool :=
  isContinuation byte &&
    (lead != 0xE0 || 0xA0 ≤ byte) && (lead != 0xED || byte < 0xA0) &&
    (lead != 0xF0 || 0x90 ≤ byte) && (lead != 0xF4 || byte < 0x90)

/-- The number of bytes of a character, by the first of them. -/
def width? (lead : UInt8) : Option Nat :=
  if lead < 0x80 then some 1
  else if lead < 0xC2 then none
  else if lead < 0xE0 then some 2
  else if lead < 0xF0 then some 3
  else if lead < 0xF5 then some 4
  else none

/-- The bits of the code point that the first byte of a character of the given width holds. -/
def leadBits (lead : UInt8) : Nat → Nat
  | 1 => lead.toNat
  | 2 => lead.toNat % 32
  | 3 => lead.toNat % 16
  | _ => lead.toNat % 8

/-- Reads the character at the front of the bytes. Given back is the character with the number of
bytes after the first that it takes, or how many bytes at the front are wrong and why. -/
def decodeOne (lead : UInt8) (rest : List UInt8) : Except (Nat × Utf8Problem) (Char × Nat) :=
  match width? lead with
  | none => .error (1, .invalidStart)
  | some width =>
    let fits (index : Nat) (byte : UInt8) :=
      if index = 0 then isSecond lead byte else isContinuation byte
    let tail := rest.take (width - 1)
    match tail.zipIdx.find? fun (byte, index) => !fits index byte with
    | some (_, index) => .error (index + 1, .invalidContinuation)
    | none =>
      if tail.length < width - 1 then .error (tail.length + 1, .unexpectedEnd)
      else
        let code := tail.foldl (fun code byte => 64 * code + byte.toNat % 64) (leadBits lead width)
        .ok (Char.ofNat code, width - 1)

/-- Reads characters until the bytes end, the first byte standing at the given offset. -/
def decodeFrom (offset : Nat) : List UInt8 → Except Undecodable (List Char)
  | [] => .ok []
  | lead :: rest =>
    match decodeOne lead rest with
    | .error (count, problem) => .error ⟨offset, count, lead, problem⟩
    | .ok (c, taken) => do
      let cs ← decodeFrom (offset + 1 + taken) (rest.drop taken)
      return c :: cs
termination_by bytes => bytes.length
decreasing_by simp only [List.length_drop, List.length_cons]; omega

/-- The characters that the bytes encode. -/
def decode (bytes : List UInt8) : Except Undecodable (List Char) := decodeFrom 0 bytes

/-- The text with every line end turned into a line feed: a carriage return, with the line feed
after it if there is one, ends a line too. -/
def endLines : List Char → List Char
  | '\r' :: '\n' :: rest => '\n' :: endLines rest
  | '\r' :: rest => '\n' :: endLines rest
  | c :: rest => c :: endLines rest
  | [] => []

example : (decode [0x6B, 0xC3, 0xA9]).toOption = some ['k', 'é'] := by cbv

end Polyrhythm.Text
