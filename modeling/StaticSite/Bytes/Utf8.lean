import StaticSite.Text.Digit

/-!
# UTF-8

Text as bytes and back. Where bytes are no text, the reader says which rule they break and how many
of them belong to the fault; the lenient reader puts one replacement character in their place.
-/

namespace StaticSite

abbrev Bytes := List UInt8

namespace Utf8

/-- The bytes of a text. -/
def encode (s : String) : Bytes := s.toList.flatMap String.utf8EncodeChar

/-- The number of bytes of a text. -/
def size (s : String) : Nat := (encode s).length

inductive Reason where
  | startByte | continuationByte | endOfData
deriving DecidableEq, Repr

/-- What stands at the start of some bytes: a character, or a fault that takes up `length` bytes. -/
inductive Head where
  | char (c : Char) (length : Nat)
  | fault (reason : Reason) (length : Nat)
deriving DecidableEq, Repr

/-- The second bytes that may follow a first byte; the later ones are 0x80 to 0xBF. -/
def secondRange (first : Nat) : Nat × Nat :=
  if first = 0xE0 then (0xA0, 0xBF)
  else if first = 0xED then (0x80, 0x9F)
  else if first = 0xF0 then (0x90, 0xBF)
  else if first = 0xF4 then (0x80, 0x8F)
  else (0x80, 0xBF)

def isWithin (range : Nat × Nat) (b : UInt8) : Bool :=
  range.1 ≤ b.toNat && b.toNat ≤ range.2

def anyTail : Nat × Nat := (0x80, 0xBF)

/-- The character whose leading bits are `bits` and whose other bytes fit the ranges. -/
def takeTail (bits taken : Nat) : List (Nat × Nat) → Bytes → Head
  | [], _ => .char (Char.ofNat bits) taken
  | _ :: _, [] => .fault .endOfData taken
  | range :: ranges, b :: bytes =>
    if isWithin range b then takeTail (bits * 64 + (b.toNat - 0x80)) (taken + 1) ranges bytes
    else .fault .continuationByte taken

def head (first : UInt8) (rest : Bytes) : Head :=
  let n := first.toNat
  if n < 0x80 then .char (Char.ofNat n) 1
  else if n < 0xC2 then .fault .startByte 1
  else if n < 0xE0 then takeTail (n - 0xC0) 1 [anyTail] rest
  else if n < 0xF0 then takeTail (n - 0xE0) 1 [secondRange n, anyTail] rest
  else if n < 0xF5 then takeTail (n - 0xF0) 1 [secondRange n, anyTail, anyTail] rest
  else .fault .startByte 1

/-- Bytes that are no text: the rule they break, where, and how many of them. -/
structure Fault where
  reason : Reason
  position : Nat
  length : Nat
  byte : UInt8
deriving DecidableEq, Repr

/-- Reads text from `bytes`, of which the first `skip` belong to the character before. -/
def decodeFrom (position : Nat) : Nat → Bytes → Except Fault (List Char)
  | _, [] => .ok []
  | skip + 1, _ :: bytes => decodeFrom (position + 1) skip bytes
  | 0, b :: bytes =>
    match head b bytes with
    | .char c length => (decodeFrom (position + 1) (length - 1) bytes).map (c :: ·)
    | .fault reason length => .error ⟨reason, position, length, b⟩

/-- The text that bytes encode. -/
def decode (bytes : Bytes) : Except Fault String :=
  (decodeFrom 0 0 bytes).map String.ofList

def replacement : Char := '\ufffd'

/-- Reads text, putting a replacement character for each fault. -/
def decodeLossyFrom : Nat → Bytes → List Char
  | _, [] => []
  | skip + 1, _ :: bytes => decodeLossyFrom skip bytes
  | 0, b :: bytes =>
    match head b bytes with
    | .char c length => c :: decodeLossyFrom (length - 1) bytes
    | .fault _ length => replacement :: decodeLossyFrom (length - 1) bytes

def decodeLossy (bytes : Bytes) : List Char := decodeLossyFrom 0 bytes

def Reason.text : Reason → String
  | .startByte => "invalid start byte"
  | .continuationByte => "invalid continuation byte"
  | .endOfData => "unexpected end of data"

def Fault.message (fault : Fault) : String :=
  let place :=
    if fault.length = 1 then
      "byte 0x" ++ String.ofList (Text.padLeft '0' 2 (Text.hex fault.byte.toNat)) ++
        " in position " ++ toString fault.position
    else
      "bytes in position " ++ toString fault.position ++ "-" ++
        toString (fault.position + fault.length - 1)
  "'utf-8' codec can't decode " ++ place ++ ": " ++ fault.reason.text

/-- Line ends as one line feed each, whether written as CR LF, as CR or as LF. -/
def unifyLines : List Char → List Char
  | '\r' :: '\n' :: s => '\n' :: unifyLines s
  | '\r' :: s => '\n' :: unifyLines s
  | c :: s => c :: unifyLines s
  | [] => []

/-- The text of a file, with unified line ends. -/
def readText (bytes : Bytes) : Except Fault String :=
  (decode bytes).map fun s => String.ofList (unifyLines s.toList)

end Utf8

end StaticSite
