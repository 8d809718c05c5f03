import StaticSite.Number.Binary64
import StaticSite.Text.Digit

/-!
# Reading numbers from text

A number may have blanks around it and a sign; its digits may be of any script and may be grouped
by single underscores. The separators U+001C to U+001F are no blanks here. An integer has at most
`digitLimit` digits.
-/

namespace StaticSite.Number

def digitLimit : Nat := 4300

def isBlank (c : Char) : Bool := Text.isBlank c && !(28 ≤ c.toNat && c.toNat ≤ 31)

def trim (s : List Char) : List Char := Text.trimBy isBlank s

/--
Digits with single underscores between them, from the start of the text: the digit values and the
rest. An underscore belongs to the number only when a digit stands on each side.
-/
def takeDigits : List Char → List Nat × List Char
  | [] => ([], [])
  | c :: s =>
    match Text.digitValue? c with
    | none => ([], c :: s)
    | some digit =>
      match s with
      | '_' :: d :: rest =>
        if (Text.digitValue? d).isSome then
          let (digits, rest) := takeDigits (d :: rest)
          (digit :: digits, rest)
        else ([digit], s)
      | s =>
        let (digits, rest) := takeDigits s
        (digit :: digits, rest)

/-- An optional sign: whether it is a minus, and the rest. -/
def takeSign : List Char → Bool × List Char
  | '-' :: s => (true, s)
  | '+' :: s => (false, s)
  | s => (false, s)

def signed (negative : Bool) (n : Nat) : Int := if negative then -(n : Int) else n

/-- The integer that the whole text denotes. -/
def readInt? (s : String) : Option Int :=
  let (negative, body) := takeSign (trim s.toList)
  let (digits, rest) := takeDigits body
  if digits.isEmpty || !rest.isEmpty || digitLimit < digits.length then none
  else some (signed negative (Text.digitsValue 10 digits))

/-- A fraction mark and the digits after it; a mark with no digit after it is taken too. -/
def takeFraction : List Char → Option (List Nat × List Char)
  | '.' :: s => some (takeDigits s)
  | _ => none

/-- An exponent mark, an optional sign and at least one digit. -/
def takeExponent : List Char → Int × List Char
  | c :: s =>
    if c = 'e' || c = 'E' then
      let (negative, body) := takeSign s
      match takeDigits body with
      | ([], _) => (0, c :: s)
      | (digits, rest) => (signed negative (Text.digitsValue 10 digits), rest)
    else (0, c :: s)
  | [] => (0, [])

/-- The double that the whole text denotes, also by the names of the values that are not finite. -/
def readFloat? (s : String) : Option Binary64 :=
  let (negative, body) := takeSign (trim s.toList)
  let name := String.ofList (body.map Text.lowerAscii)
  if name = "inf" || name = "infinity" then some (.infinity negative)
  else if name = "nan" then some .nan
  else
    let (whole, rest) := takeDigits body
    let (fraction, rest) := (takeFraction rest).getD ([], rest)
    if whole.isEmpty && fraction.isEmpty then none
    else
      let (exponent, rest) := takeExponent rest
      if rest.isEmpty then
        some (.ofDecimal negative (Text.digitsValue 10 (whole ++ fraction))
          (exponent - fraction.length))
      else none

end StaticSite.Number
