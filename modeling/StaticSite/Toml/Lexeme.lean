import StaticSite.Calendar
import StaticSite.Number.Reading
import StaticSite.Text.Search

/-!
# Reading strings, numbers and dates of TOML

Each reader gives what it has read and the rest of the text. Strings on one line and on many lines
differ in the line ends that they may hold; literal strings have no escapes.
-/

namespace StaticSite.Toml

def isSpace (c : Char) : Bool := c = ' ' || c = '\t'

def skipSpace (s : List Char) : List Char := s.dropWhile isSpace

/-- Control characters other than the tab, which strings and comments may not hold. -/
def isControl (c : Char) : Bool := (c.toNat < 32 && c ≠ '\t') || c.toNat = 127

/-- The rest after a comment, if there is one; it must hold no control characters. -/
def skipComment? (s : List Char) : Option (List Char) :=
  match s with
  | '#' :: rest =>
    let (inside, rest) := rest.span (· ≠ '\n')
    if inside.any isControl then none else some rest
  | s => some s

/-- Blanks, line ends and comments between the items of an array. -/
def skipBetween? : Nat → List Char → Option (List Char)
  | 0, s => some s
  | fuel + 1, s =>
    match s.dropWhile fun c => isSpace c || c = '\n' with
    | '#' :: rest => do
      let rest ← skipComment? ('#' :: rest)
      skipBetween? fuel rest
    | rest => some rest

def singleQuote : Char := Char.ofNat 39

def isBareKeyChar (c : Char) : Bool := Text.isAsciiAlphanumeric c || c = '-' || c = '_'

/-- The characters that a backslash and a letter stand for. -/
def escapes : List (Char × Char) :=
  [('b', '\x08'), ('t', '\t'), ('n', '\n'), ('f', '\x0c'), ('r', '\r'), ('"', '"'), ('\\', '\\')]

/-- The character with a code point of `length` hexadecimal digits. -/
def codePoint? (length : Nat) (s : List Char) : Option (List Char × List Char) := do
  let digits ← (s.take length).mapM Text.hexValue?
  if digits.length ≠ length then none
  let code := Text.digitsValue 16 digits
  if 0x10FFFF < code ∨ (0xD800 ≤ code ∧ code < 0xE000) then none
  some ([Char.ofNat code], s.drop length)

/-- An escape after its backslash; on many lines, a line end and the blanks after it are none. -/
def escape? (multiline : Bool) (s : List Char) : Option (List Char × List Char) :=
  match s with
  | [] => none
  | c :: rest =>
    if multiline && c = '\n' then some ([], rest.dropWhile fun c => isSpace c || c = '\n')
    else if multiline && isSpace c then
      match skipSpace rest with
      | [] => some ([], [])
      | '\n' :: rest => some ([], rest.dropWhile fun c => isSpace c || c = '\n')
      | _ => none
    else if c = 'u' then codePoint? 4 rest
    else if c = 'U' then codePoint? 8 rest
    else (escapes.lookup c).map fun char => ([char], rest)

/-- The rest after three of a character. -/
def dropThree? (c : Char) (s : List Char) : Option (List Char) := Text.dropMark? [c, c, c] s

/-- The text of a basic string up to its closing quotes. -/
def basic? (multiline : Bool) : Nat → List Char → Option (List Char × List Char)
  | 0, _ => none
  | fuel + 1, s =>
    match s with
    | [] => none
    | c :: rest =>
      if c = '"' && !multiline then some ([], rest)
      else
        match if multiline then dropThree? '"' s else none with
        | some rest => some ([], rest)
        | none =>
          if c = '\\' then do
            let (found, rest) ← escape? multiline rest
            let (more, rest) ← basic? multiline fuel rest
            some (found ++ more, rest)
          else if isControl c && !(multiline && c = '\n') then none
          else do
            let (more, rest) ← basic? multiline fuel rest
            some (c :: more, rest)

/-- One or two more quotes before the closing ones belong to the string. -/
def extraQuotes (quote : Char) (found rest : List Char) : List Char × List Char :=
  let extra := (rest.take 2).takeWhile (· = quote)
  (found ++ extra, rest.drop extra.length)

def literal? (s : List Char) : Option (List Char × List Char) :=
  match s.span (· ≠ singleQuote) with
  | (inside, _ :: rest) => if inside.any isControl then none else some (inside, rest)
  | (_, []) => none

def literalLines? (s : List Char) : Option (List Char × List Char) := do
  let (inside, rest) ← Text.splitAtMark? [singleQuote, singleQuote, singleQuote] s
  if inside.any fun c => isControl c && c ≠ '\n' then none
  some (extraQuotes singleQuote inside rest)

/-- A line end right after the opening quotes does not count. -/
def dropFirstBreak (s : List Char) : List Char := if s.head? = some '\n' then s.drop 1 else s

/-- A string in quotes, on one line or on many. -/
def string? (s : List Char) : Option (List Char × List Char) :=
  match dropThree? '"' s, dropThree? singleQuote s, s with
  | some rest, _, _ => do
    let rest := dropFirstBreak rest
    let (found, rest) ← basic? true (rest.length + 1) rest
    some (extraQuotes '"' found rest)
  | none, some rest, _ => literalLines? (dropFirstBreak rest)
  | none, none, c :: rest =>
    if c = '"' then basic? false (rest.length + 1) rest
    else if c = singleQuote then literal? rest
    else none
  | none, none, [] => none

def keyPart? (s : List Char) : Option (String × List Char) :=
  match s with
  | [] => none
  | c :: rest =>
    if isBareKeyChar c then
      let (name, rest) := s.span isBareKeyChar
      some (String.ofList name, rest)
    else do
      let (name, rest) ←
        if c = '"' then basic? false (rest.length + 1) rest
        else if c = singleQuote then literal? rest
        else none
      some (String.ofList name, rest)

/-- The parts of a key between its points, and the rest after the blanks that follow. -/
def key? : Nat → List Char → Option (List String × List Char)
  | 0, _ => none
  | fuel + 1, s => do
    let (part, rest) ← keyPart? s
    match skipSpace rest with
    | '.' :: rest =>
      let (parts, rest) ← key? fuel (skipSpace rest)
      some (part :: parts, rest)
    | rest => some ([part], rest)

/-- Digits that satisfy `p`, with single underscores between them, and the rest. -/
def takeGrouped (p : Char → Bool) : List Char → List Char × List Char
  | [] => ([], [])
  | c :: s =>
    if p c then
      match s with
      | '_' :: d :: rest =>
        if p d then
          let (digits, rest) := takeGrouped p (d :: rest)
          (c :: digits, rest)
        else ([c], s)
      | s =>
        let (digits, rest) := takeGrouped p s
        (c :: digits, rest)
    else ([], c :: s)

def digitsOf (base : Nat) (c : Char) : Bool := ((Text.hexValue? c).filter (· < base)).isSome

def valueOf (base : Nat) (digits : List Char) : Nat :=
  Text.digitsValue base (digits.filterMap Text.hexValue?)

/-- A number as it is written: an integer to base ten or another one, or a double. -/
inductive Number where
  | decimal (negative : Bool) (digits : List Char)
  | integer (n : Nat)
  | float (x : Binary64)

/-- An integer in the digits of a base. -/
def withBase? (base : Nat) (s : List Char) : Option (Number × List Char) :=
  match takeGrouped (digitsOf base) s with
  | ([], _) => none
  | (digits, rest) => some (.integer (valueOf base digits), rest)

/-- An integer to base sixteen, eight or two. -/
def based? (s : List Char) : Option (Number × List Char) :=
  match s with
  | '0' :: 'x' :: rest => withBase? 16 rest
  | '0' :: 'o' :: rest => withBase? 8 rest
  | '0' :: 'b' :: rest => withBase? 2 rest
  | _ => none

/-- A point and digits after it. -/
def fraction (s : List Char) : List Char × List Char :=
  match s with
  | '.' :: rest =>
    match takeGrouped Text.isAsciiDigit rest with
    | ([], _) => ([], s)
    | found => found
  | s => ([], s)

/-- An exponent mark, perhaps a sign, and digits. -/
def power? (s : List Char) : Option (Int × List Char) :=
  match s with
  | e :: rest =>
    if e = 'e' ∨ e = 'E' then
      let (negative, body) := StaticSite.Number.takeSign rest
      match takeGrouped Text.isAsciiDigit body with
      | ([], _) => none
      | (digits, rest) => some (StaticSite.Number.signed negative (valueOf 10 digits), rest)
    else none
  | [] => none

/-- The digits of a whole part; one that starts with zero ends there. -/
def wholePart (s : List Char) : List Char × List Char :=
  match s with
  | '0' :: rest => (['0'], rest)
  | s => takeGrouped Text.isAsciiDigit s

/-- An integer or a double. -/
def number? (s : List Char) : Option (Number × List Char) :=
  match based? s with
  | some found => some found
  | none =>
    let (negative, body) := StaticSite.Number.takeSign s
    let (whole, rest) := wholePart body
    if whole.isEmpty then none
    else
      let (part, rest) := fraction rest
      match part, power? rest with
      | [], none => some (.decimal negative whole, rest)
      | part, power =>
        let (power, rest) := power.getD (0, rest)
        some (.float (.ofDecimal negative (valueOf 10 (whole ++ part)) (power - part.length)), rest)

/-- The doubles that go by a name. -/
def namedFloats : List (String × Binary64) :=
  [("inf", .infinity false), ("+inf", .infinity false), ("-inf", .infinity true), ("nan", .nan),
   ("+nan", .nan), ("-nan", .nan)]

def namedFloat? (s : List Char) : Option (Binary64 × List Char) :=
  namedFloats.findSome? fun (name, x) => (Text.dropMark? name.toList s).map (x, ·)

/-- Exactly `count` digits. -/
def digits? (count : Nat) (s : List Char) : Option (Nat × List Char) :=
  let found := s.take count
  if found.length = count && found.all Text.isAsciiDigit then
    some (valueOf 10 found, s.drop count)
  else none

def dropChar? (c : Char) (s : List Char) : Option (List Char) := Text.dropMark? [c] s

/-- Hours, minutes and seconds with colons, perhaps with decimals, of which six count. -/
def time? (s : List Char) : Option (TimeOfDay × List Char) := do
  let (hour, s) ← digits? 2 s
  let s ← dropChar? ':' s
  let (minute, s) ← digits? 2 s
  let s ← dropChar? ':' s
  let (second, s) ← digits? 2 s
  if 23 < hour ∨ 59 < minute ∨ 59 < second then none
  match s with
  | '.' :: rest =>
    let decimals := rest.takeWhile Text.isAsciiDigit
    if decimals.isEmpty then some (⟨hour, minute, second, 0⟩, s)
    else
      let microsecond := valueOf 10 ((decimals ++ List.replicate 6 '0').take 6)
      some (⟨hour, minute, second, microsecond⟩, rest.drop decimals.length)
  | s => some (⟨hour, minute, second, 0⟩, s)

/-- The distance of a clock from universal time in seconds. -/
def offset? (s : List Char) : Option (Int × List Char) :=
  match s with
  | 'Z' :: rest => some (0, rest)
  | 'z' :: rest => some (0, rest)
  | sign :: rest =>
    if sign = '+' ∨ sign = '-' then do
      let (hour, rest) ← digits? 2 rest
      let rest ← dropChar? ':' rest
      let (minute, rest) ← digits? 2 rest
      if 23 < hour ∨ 59 < minute then none
      let seconds : Int := hour * 3600 + minute * 60
      some (if sign = '-' then -seconds else seconds, rest)
    else none
  | [] => none

/-- The distance of a clock from universal time, if one is given. -/
def offset (s : List Char) : Option Int × List Char :=
  match offset? s with
  | some (seconds, rest) => (some seconds, rest)
  | none => (none, s)

/-- A date with a month and a day that some month has, and a time after it if there is one. -/
def date? (s : List Char) : Option ((Date × Option (TimeOfDay × Option Int)) × List Char) := do
  let (year, s) ← digits? 4 s
  let s ← dropChar? '-' s
  let (month, s) ← digits? 2 s
  let s ← dropChar? '-' s
  let (day, s) ← digits? 2 s
  if month < 1 ∨ 12 < month ∨ day < 1 ∨ 31 < day then none
  let date : Date := ⟨year, month, day⟩
  match s with
  | c :: rest =>
    if c = 'T' ∨ c = 't' ∨ c = ' ' then
      match time? rest with
      | some (time, rest) =>
        let (offset, rest) := offset rest
        some ((date, some (time, offset)), rest)
      | none => some ((date, none), s)
    else some ((date, none), s)
  | [] => some ((date, none), [])

end StaticSite.Toml
