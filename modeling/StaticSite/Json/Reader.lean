import StaticSite.Json
import StaticSite.Number.Reading
import StaticSite.Text.Search

/-!
# Reading JSON

The reader works on the characters that remain; a position is the number of characters before
them. It accepts, beyond the standard, the names of the values that are not finite, and it says
where and why a text is no JSON document.
-/

namespace StaticSite.Json

inductive Cause where
  | byteOrderMark
  | value
  | propertyName
  | colon
  | comma
  | unterminatedString
  | controlCharacter
  | escape
  | unicodeEscape
  | extraData
  | tooManyDigits (count : Nat)
deriving DecidableEq, Repr

/-- What was wrong and how many characters remained where it was noticed. -/
structure Failure where
  cause : Cause
  remaining : Nat
deriving DecidableEq, Repr

def failAt (cause : Cause) (rest : List Char) {α : Type} : Except Failure α :=
  .error ⟨cause, rest.length⟩

def isSpace (c : Char) : Bool := c = ' ' || c = '\t' || c = '\n' || c = '\r'

def skipSpace (s : List Char) : List Char := s.dropWhile isSpace

/-- The value of four hexadecimal digits and the rest. -/
def takeHex4? : List Char → Option (Nat × List Char)
  | a :: b :: c :: d :: rest => do
    let a ← Text.hexValue? a
    let b ← Text.hexValue? b
    let c ← Text.hexValue? c
    let d ← Text.hexValue? d
    some (Text.digitsValue 16 [a, b, c, d], rest)
  | _ => none

def isHighSurrogate (n : Nat) : Bool := 0xD800 ≤ n && n < 0xDC00

def isLowSurrogate (n : Nat) : Bool := 0xDC00 ≤ n && n < 0xE000

/-- The character of an escape with a letter. -/
def escapedChar? (c : Char) : Option Char :=
  if c = '"' then some '"'
  else if c = '\\' then some '\\'
  else if c = '/' then some '/'
  else if c = 'b' then some '\x08'
  else if c = 'f' then some '\x0c'
  else if c = 'n' then some '\n'
  else if c = 'r' then some '\r'
  else if c = 't' then some '\t'
  else none

/-- What stands for a surrogate that is not half of a pair. -/
def replacement : Char := '\ufffd'

/--
The character of an escape with four digits, of which `rest` is what follows the `u`; a high and a
low surrogate in two escapes are one character. More text must follow the digits.
-/
def takeUnicodeEscape (escape rest : List Char) : Except Failure (Char × List Char) :=
  match takeHex4? rest with
  | none => failAt .unicodeEscape escape
  | some (_, []) => failAt .unicodeEscape escape
  | some (n, after) =>
    match isHighSurrogate n, after with
    | true, '\\' :: 'u' :: digits =>
      if digits.length < 5 then .ok (replacement, after)
      else
        match takeHex4? digits with
        | none => failAt .unicodeEscape (after.drop 1)
        | some (m, afterPair) =>
          if isLowSurrogate m then
            .ok (Char.ofNat (0x10000 + (n - 0xD800) * 0x400 + (m - 0xDC00)), afterPair)
          else .ok (replacement, after)
    | true, _ => .ok (replacement, after)
    | false, _ => .ok (if isLowSurrogate n then replacement else Char.ofNat n, after)

/-- The characters up to the closing quote; `start` is the text from the opening quote on. -/
def takeString (start : List Char) : Nat → List Char → Except Failure (List Char × List Char)
  | 0, _ => failAt .unterminatedString start
  | _ + 1, [] => failAt .unterminatedString start
  | fuel + 1, c :: s =>
    if c = '"' then .ok ([], s)
    else if c = '\\' then
      match s with
      | [] => failAt .unterminatedString start
      | e :: rest =>
        if e = 'u' then do
          let (char, rest) ← takeUnicodeEscape s rest
          let (chars, rest) ← takeString start fuel rest
          .ok (char :: chars, rest)
        else
          match escapedChar? e with
          | none => failAt .escape (c :: s)
          | some char => do
            let (chars, rest) ← takeString start fuel rest
            .ok (char :: chars, rest)
    else if c.toNat < 32 then failAt .controlCharacter (c :: s)
    else do
      let (chars, rest) ← takeString start fuel s
      .ok (c :: chars, rest)

def takeAsciiDigits (s : List Char) : List Char × List Char := s.span Text.isAsciiDigit

def digitChars (digits : List Char) : Nat := Text.digitsValue 10 (digits.map (·.toNat - 48))

/-- The digits before the point: one zero, or digits that do not start with one. -/
def takeWhole? : List Char → Option (List Char × List Char)
  | '0' :: s => some (['0'], s)
  | s =>
    match takeAsciiDigits s with
    | ([], _) => none
    | found => some found

/-- A point and at least one digit. -/
def takePoint : List Char → List Char × List Char
  | '.' :: s =>
    match takeAsciiDigits s with
    | ([], _) => ([], '.' :: s)
    | found => found
  | s => ([], s)

/-- An exponent mark, an optional sign and at least one digit. -/
def takePower? : List Char → Option (Int × List Char)
  | c :: s =>
    if c = 'e' || c = 'E' then
      let (negative, body) := Number.takeSign s
      match takeAsciiDigits body with
      | ([], _) => none
      | (digits, rest) => some (Number.signed negative (digitChars digits), rest)
    else none
  | [] => none

/-- A number; it is an integer when it has neither point nor exponent. -/
def takeNumber (s : List Char) : Except Failure (Json × List Char) :=
  let (negative, body) :=
    match s with
    | '-' :: body => (true, body)
    | body => (false, body)
  match takeWhole? body with
  | none => failAt .value s
  | some (whole, rest) =>
    let (fraction, rest) := takePoint rest
    match fraction, takePower? rest with
    | [], none =>
      if Number.digitLimit < whole.length then failAt (.tooManyDigits whole.length) s
      else .ok (.int (Number.signed negative (digitChars whole)), rest)
    | fraction, power =>
      let (power, rest) := power.getD (0, rest)
      .ok (.float (.ofDecimal negative (digitChars (whole ++ fraction)) (power - fraction.length)),
        rest)

/-- The names of the constants and their values. -/
def constants : List (String × Json) :=
  [("null", .null), ("true", .bool true), ("false", .bool false), ("NaN", .float .nan),
   ("Infinity", .float (.infinity false)), ("-Infinity", .float (.infinity true))]

def takeConstant? (s : List Char) : Option (Json × List Char) :=
  constants.findSome? fun (name, value) => (Text.dropMark? name.toList s).map (value, ·)

mutual

/-- One value. Each nested value starts at least one character later, which bounds the depth. -/
def takeValue : Nat → List Char → Except Failure (Json × List Char)
  | 0, s => failAt .value s
  | fuel + 1, s =>
    match s with
    | '"' :: rest => do
      let (chars, rest) ← takeString s (rest.length + 1) rest
      .ok (.str (String.ofList chars), rest)
    | '[' :: rest =>
      match skipSpace rest with
      | ']' :: rest => .ok (.arr [], rest)
      | rest => do
        let (items, rest) ← takeItems fuel rest
        .ok (.arr items, rest)
    | '\x7b' :: rest =>
      match skipSpace rest with
      | '\x7d' :: rest => .ok (.obj [], rest)
      | rest => do
        let (members, rest) ← takeMembers fuel [] rest
        .ok (.obj members, rest)
    | s =>
      match takeConstant? s with
      | some found => .ok found
      | none => takeNumber s

/-- The items of an array up to its closing bracket. -/
def takeItems : Nat → List Char → Except Failure (List Json × List Char)
  | 0, s => failAt .value s
  | fuel + 1, s => do
    let (item, rest) ← takeValue fuel s
    match skipSpace rest with
    | ']' :: rest => .ok ([item], rest)
    | ',' :: rest =>
      let (items, rest) ← takeItems fuel (skipSpace rest)
      .ok (item :: items, rest)
    | rest => failAt .comma rest

/-- The members of an object up to its closing brace, added to those read before. -/
def takeMembers :
    Nat → List (String × Json) → List Char → Except Failure (List (String × Json) × List Char)
  | 0, _, s => failAt .propertyName s
  | fuel + 1, before, s =>
    match s with
    | '"' :: rest => do
      let (name, rest) ← takeString s (rest.length + 1) rest
      match skipSpace rest with
      | ':' :: rest =>
        let (value, rest) ← takeValue fuel (skipSpace rest)
        let members := Ordered.put before (String.ofList name) value
        match skipSpace rest with
        | '\x7d' :: rest => .ok (members, rest)
        | ',' :: rest => takeMembers fuel members (skipSpace rest)
        | rest => failAt .comma rest
      | rest => failAt .colon rest
    | s => failAt .propertyName s

end

/-- The document that the whole text holds. -/
def readChars (s : List Char) : Except Failure Json :=
  match s with
  | '\ufeff' :: _ => .error ⟨.byteOrderMark, s.length⟩
  | _ => do
    let (value, rest) ← takeValue (2 * s.length + 1) (skipSpace s)
    match skipSpace rest with
    | [] => .ok value
    | rest => .error ⟨.extraData, rest.length⟩

def Cause.text : Cause → String
  | .byteOrderMark => "Unexpected UTF-8 BOM (decode using utf-8-sig)"
  | .value => "Expecting value"
  | .propertyName => "Expecting property name enclosed in double quotes"
  | .colon => "Expecting ':' delimiter"
  | .comma => "Expecting ',' delimiter"
  | .unterminatedString => "Unterminated string starting at"
  | .controlCharacter => "Invalid control character at"
  | .escape => "Invalid \\escape"
  | .unicodeEscape => "Invalid \\uXXXX escape"
  | .extraData => "Extra data"
  | .tooManyDigits _ => "Too many digits"

/-- Where a failure was noticed, counted from the start of the document. -/
structure Place where
  line : Nat
  column : Nat
  offset : Nat
deriving DecidableEq, Repr

/-- Lines and columns count from one; a line ends at a line feed. -/
def placeOf (document : List Char) (remaining : Nat) : Place :=
  let before := document.take (document.length - remaining)
  { line := before.count '\n' + 1
    column := (before.reverse.takeWhile (· != '\n')).length + 1
    offset := before.length }

/-- Why a text could not be read: no JSON at a place, or an integer with too many digits. -/
inductive Error where
  | malformed (cause : Cause) (place : Place)
  | digitLimit (count : Nat)
deriving DecidableEq, Repr

def Failure.error (document : List Char) (failure : Failure) : Error :=
  match failure.cause with
  | .tooManyDigits count => .digitLimit count
  | cause => .malformed cause (placeOf document failure.remaining)

def digitLimitMessage (count : Nat) : String :=
  "Exceeds the limit (" ++ toString Number.digitLimit ++
    " digits) for integer string conversion: value has " ++ toString count ++
    " digits; use sys.set_int_max_str_digits() to increase the limit"

def Error.message : Error → String
  | .malformed cause place =>
    cause.text ++ ": line " ++ toString place.line ++ " column " ++ toString place.column ++
      " (char " ++ toString place.offset ++ ")"
  | .digitLimit count => digitLimitMessage count

def read (document : String) : Except Error Json :=
  (readChars document.toList).mapError (Failure.error document.toList)

end StaticSite.Json
