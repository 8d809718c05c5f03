import StaticSite.Fault
import StaticSite.Number.Reading

/-!
# The meaning of scalars

A plain scalar is a truth value, a number, a date, a moment or nothing when it is written like one,
and text otherwise. Numbers may be grouped by underscores and may be written to base sixty.
-/

namespace StaticSite.Yaml

/-- The kinds that a scalar can have by its form. -/
inductive ScalarKind where
  | bool | float | int | merge | null | timestamp | value | str
deriving DecidableEq, Repr

namespace Scalar

def trueWords : List String := ["yes", "true", "on"]

def falseWords : List String := ["no", "false", "off"]

/-- A word in small letters, in capitals, or with one capital at its start. -/
def spellings (word : String) : List String := [word, word.capitalize, word.map Char.toUpper]

def isBoolWord (s : String) : Bool := (trueWords ++ falseWords).any fun w => s ∈ spellings w

def isNullWord (s : String) : Bool := s = "" || s = "~" || s ∈ spellings "null"

def isDigit (c : Char) : Bool := Text.isAsciiDigit c

def isGrouped (c : Char) : Bool := isDigit c || c = '_'

def dropSign (s : List Char) : List Char :=
  match s with
  | '-' :: rest => rest
  | '+' :: rest => rest
  | s => s

/-- Digits and underscores, a digit first, and the rest. -/
def takeGrouped? (s : List Char) : Option (List Char) :=
  match s with
  | c :: _ => if isDigit c then some (s.dropWhile isGrouped) else none
  | [] => none

/-- A piece of base sixty: one or two digits below sixty. -/
def isSixty (s : List Char) : Bool :=
  match s with
  | [a] => isDigit a
  | [a, b] => isDigit a && isDigit b && a.toNat < 54
  | _ => false

/-- Whether a text is a grouped number followed by pieces of base sixty, at least one. -/
def isSexagesimal (s : List Char) : Bool :=
  match Text.splitOnChar ':' s with
  | first :: second :: rest =>
    takeGrouped? first = some [] && (second :: rest).all isSixty
  | _ => false

def isInt (s : List Char) : Bool :=
  match dropSign s with
  | '0' :: 'b' :: digits => !digits.isEmpty && digits.all fun c => c = '0' || c = '1' || c = '_'
  | '0' :: 'x' :: digits =>
    !digits.isEmpty && digits.all fun c => (Text.hexValue? c).isSome || c = '_'
  | '0' :: digits => digits.all fun c => ('0' ≤ c && c ≤ '7') || c = '_'
  | body => takeGrouped? body = some [] || isSexagesimal body

/-- An exponent mark, a sign and digits; or nothing. -/
def isExponent (s : List Char) : Bool :=
  match s with
  | [] => true
  | e :: sign :: digits =>
    (e = 'e' || e = 'E') && (sign = '-' || sign = '+') && !digits.isEmpty && digits.all isDigit
  | _ => false

/-- Digits, a point and digits, perhaps with an exponent. -/
def isPointNumber (s : List Char) : Bool :=
  match takeGrouped? s with
  | some ('.' :: rest) => isExponent (rest.dropWhile isGrouped)
  | _ => false

def isSexagesimalFloat (s : List Char) : Bool :=
  match Text.splitAtMark? ['.'] s with
  | some (whole, fraction) => isSexagesimal whole && fraction.all isGrouped
  | none => false

def isInfinity (s : List Char) : Bool :=
  String.ofList (s.drop 1) ∈ spellings "inf" ∧ s.head? = some '.'

def isFloat (s : List Char) : Bool :=
  let body := dropSign s
  let fraction :=
    match s with
    | '.' :: rest =>
      match takeGrouped? rest with
      | some rest => isExponent rest
      | none => String.ofList rest ∈ ["nan", "NaN", "NAN"]
    | _ => false
  isPointNumber body || isSexagesimalFloat body || isInfinity body || fraction

/-- The parts of a date and, if it has one, of the time after it. -/
structure Stamp where
  date : Date
  time : Option (TimeOfDay × Option Int)

/-- From `least` to `most` digits and the rest. -/
def takeDigits? (least most : Nat) (s : List Char) : Option (Nat × List Char) :=
  let found := (s.takeWhile isDigit).take most
  if found.length < least then none
  else some (Text.digitsValue 10 (found.map fun c => c.toNat - 48), s.drop found.length)

def dropChar? (c : Char) (s : List Char) : Option (List Char) := Text.dropMark? [c] s

/-- Microseconds from the digits after the point, of which six count. -/
def fractionValue (digits : List Char) : Nat :=
  let six := (digits ++ List.replicate 6 '0').take 6
  Text.digitsValue 10 (six.map fun c => c.toNat - 48)

/-- The distance of a clock from universal time in seconds. -/
def takeOffset? (s : List Char) : Option (Option Int) :=
  match s.dropWhile fun c => c = ' ' || c = '\t' with
  | [] => if s.isEmpty then some none else none
  | ['Z'] => some (some 0)
  | sign :: rest =>
    if sign = '-' ∨ sign = '+' then do
      let (hours, rest) ← takeDigits? 1 2 rest
      let (minutes, rest) ←
        match rest with
        | ':' :: rest => takeDigits? 2 2 rest
        | rest => some (0, rest)
      let seconds : Int := hours * 3600 + minutes * 60
      if rest.isEmpty then some (some (if sign = '-' then -seconds else seconds)) else none
    else none

/-- A date, or a date and a time. A date alone has two digits for month and day. -/
def stamp? (s : List Char) : Option Stamp := do
  let (year, rest) ← takeDigits? 4 4 s
  let rest ← dropChar? '-' rest
  let (month, afterMonth) ← takeDigits? 1 2 rest
  let rest ← dropChar? '-' afterMonth
  let (day, rest) ← takeDigits? 1 2 rest
  let date : Date := ⟨year, month, day⟩
  if rest.isEmpty then some { date, time := none }
  else do
    let rest ←
      match rest with
      | 'T' :: rest => some rest
      | 't' :: rest => some rest
      | c :: _ =>
        if c = ' ' ∨ c = '\t' then some (rest.dropWhile fun c => c = ' ' || c = '\t') else none
      | [] => none
    let (hour, rest) ← takeDigits? 1 2 rest
    let rest ← dropChar? ':' rest
    let (minute, rest) ← takeDigits? 2 2 rest
    let rest ← dropChar? ':' rest
    let (second, rest) ← takeDigits? 2 2 rest
    let (fraction, rest) :=
      match rest with
      | '.' :: rest => rest.span isDigit
      | rest => ([], rest)
    let offset ← takeOffset? rest
    some { date, time := some (⟨hour, minute, second, fractionValue fraction⟩, offset) }

/-- Whether a plain scalar is a date or a moment. -/
def isStamp (s : List Char) : Bool :=
  match stamp? s with
  | some { time := none, .. } => s.length = 10
  | some _ => true
  | none => false

/-- The kind of a plain scalar. -/
def kind (s : String) : ScalarKind :=
  let chars := s.toList
  if isBoolWord s then .bool
  else if isFloat chars then .float
  else if isInt chars then .int
  else if s = "<<" then .merge
  else if isNullWord s then .null
  else if isStamp chars then .timestamp
  else if s = "=" then .value
  else .str

/-- What is wrong with the parts of a date. -/
def dateFault? (d : Date) : Option String :=
  if d.year < 1 ∨ 9999 < d.year then some ("year " ++ toString d.year ++ " is out of range")
  else if d.month < 1 ∨ 12 < d.month then some "month must be in 1..12"
  else if d.isValid then none
  else some "day is out of range for month"

def timeFault? (t : TimeOfDay) : Option String :=
  if 23 < t.hour then some "hour must be in 0..23"
  else if 59 < t.minute then some "minute must be in 0..59"
  else if 59 < t.second then some "second must be in 0..59"
  else none

/-- A distance of a day or more is none that a clock can have. -/
def offsetFault? (offset : Int) : Option String :=
  if offset.natAbs < 86400 then none
  else
    let days := offset.fdiv 86400
    let seconds := offset.fmod 86400
    let rest := if seconds = 0 then "" else ", seconds=" ++ toString seconds
    some ("offset must be a timedelta strictly between -timedelta(hours=24) and " ++
      "timedelta(hours=24), not datetime.timedelta(days=" ++ toString days ++ rest ++ ").")

/-- The text of a moment; it may end with one line feed. -/
def dropLastBreak (s : List Char) : List Char :=
  if s.getLast? = some '\n' then s.dropLast else s

def readStamp (s : String) : Except Fault Value :=
  match stamp? (dropLastBreak s.toList) with
  | none => .error (.missingOperation .null "groupdict")
  | some { date, time := none } =>
    match dateFault? date with
    | some message => .error (.yamlValue message)
    | none => .ok (.date date)
  | some { date, time := some (time, offset) } =>
    match ((offset.bind offsetFault?).or (dateFault? date)).or (timeFault? time) with
    | some message => .error (.yamlValue message)
    | none => .ok (.datetime ⟨date, time, offset⟩)

/-- What is said of a text that is no integer; a long text is cut. -/
def badInt (base : Nat) (s : List Char) : Fault :=
  .yamlValue ("invalid literal for int() with base " ++ toString base ++ ": " ++
    String.ofList ((Text.quoted s).take 200))

/-- The value of a digit to a base; decimal digits may be of any script. -/
def digit? (base : Nat) (c : Char) : Option Nat :=
  ((Text.digitValue? c).or (Text.hexValue? c)).filter (· < base)

/-- The rest after a zero and the letter of a base, if a text starts with them. -/
def dropBaseMark (letter : Char) (s : List Char) : List Char :=
  match s with
  | '0' :: c :: rest => if Text.lowerAscii c = letter then rest else s
  | s => s

/-- The integer that a text denotes to one of the bases that have a letter. -/
def readBase (base : Nat) (letter : Char) (s : List Char) : Except Fault Int :=
  let (negative, body) := Number.takeSign (Number.trim s)
  match (dropBaseMark letter body).mapM (digit? base) with
  | some (value :: values) =>
    .ok (Number.signed negative (Text.digitsValue base (value :: values)))
  | _ => .error (badInt base s)

/-- The integer that a text denotes to base ten. -/
def readDecimal (s : List Char) : Except Fault Int :=
  let (negative, body) := Number.takeSign (Number.trim s)
  let (digits, rest) := Number.takeDigits body
  if Number.digitLimit < digits.length then
    .error (.yamlValue (Json.digitLimitMessage digits.length))
  else if digits.isEmpty || !rest.isEmpty then .error (badInt 10 s)
  else .ok (Number.signed negative (Text.digitsValue 10 digits))

def ungroup (s : List Char) : List Char := s.filter (· ≠ '_')

/-- The value of numbers to base sixty, the greatest place first. -/
def sixtyValue (places : List Int) : Int :=
  places.foldl (fun value place => value * 60 + place) 0

def readInt (s : String) : Except Fault Value :=
  let text := ungroup s.toList
  let signed (n : Int) : Value := .int (if text.head? = some '-' then -n else n)
  match dropSign text with
  | [] => .error .noCharacter
  | ['0'] => .ok (.int 0)
  | '0' :: 'b' :: digits => (readBase 2 'b' digits).map signed
  | '0' :: 'x' :: digits => (readBase 16 'x' digits).map signed
  | '0' :: digits => (readBase 8 'o' ('0' :: digits)).map signed
  | body =>
    if ':' ∈ body then
      ((Text.splitOnChar ':' body).mapM readDecimal).map fun places => signed (sixtyValue places)
    else (readDecimal body).map signed

def readPart (s : List Char) : Except Fault Binary64 :=
  match Number.readFloat? (String.ofList s) with
  | some x => .ok x
  | none => .error (.notANumber (String.ofList s))

/-- The sum of places to base sixty, the least place first; the base of a place must be a double. -/
def sixtySum (sum : Binary64) (base : Nat) : List Binary64 → Except Fault Binary64
  | [] => .ok sum
  | place :: places =>
    match Binary64.ofInt base with
    | .infinity _ => .error .integerTooLarge
    | factor => sixtySum (sum.add (place.mul factor)) (base * 60) places

def negateIf (negative : Bool) (x : Binary64) : Binary64 :=
  if negative then (Binary64.ofInt (-1)).mul x else x

/-- The double that a text without a sign denotes. -/
def readMagnitude (body : List Char) : Except Fault Binary64 :=
  if String.ofList body = ".inf" then .ok (.infinity false)
  else if String.ofList body = ".nan" then .ok .nan
  else if ':' ∈ body then do
    let places ← (Text.splitOnChar ':' body).mapM readPart
    sixtySum (.zero false) 1 places.reverse
  else readPart body

def readFloat (s : String) : Except Fault Value :=
  let text := (Text.lowerString (String.ofList (ungroup s.toList))).toList
  if text.isEmpty then .error .noCharacter
  else
    (readMagnitude (dropSign text)).map fun x => .float (negateIf (text.head? = some '-') x)

def readBool (s : String) : Except Fault Value :=
  let word := Text.lowerString s
  if word ∈ trueWords then .ok (.bool true)
  else if word ∈ falseWords then .ok (.bool false)
  else .error (.missingKey word)

/-- The value of a scalar of a kind; a mark of mappings is no value. -/
def ofKind (s : String) : ScalarKind → Except Fault Value
  | .bool => readBool s
  | .float => readFloat s
  | .int => readInt s
  | .null => .ok .null
  | .timestamp => readStamp s
  | .str => .ok (.str s)
  | .merge => .error .malformedYaml
  | .value => .error .malformedYaml

def standardTag (name : String) : String := "tag:yaml.org,2002:" ++ name

def taggedKinds : List (String × ScalarKind) :=
  [("bool", .bool), ("float", .float), ("int", .int), ("merge", .merge), ("null", .null),
   ("timestamp", .timestamp), ("value", .value), ("str", .str)]

/-- The kind that a tag names. -/
def tagKind? (tag : String) : Option ScalarKind :=
  (taggedKinds.find? fun (name, _) => standardTag name = tag).map (·.2)

end Scalar

end StaticSite.Yaml
