import StaticSite.Text.Digit
import StaticSite.Text.Search

/-!
# Dates and times

Calendar dates, times of day and moments with an optional distance from universal time, and their
written forms.
-/

namespace StaticSite

structure Date where
  year : Nat
  month : Nat
  day : Nat
deriving DecidableEq, Repr

structure TimeOfDay where
  hour : Nat
  minute : Nat
  second : Nat
  microsecond : Nat
deriving DecidableEq, Repr

/-- A moment; `offset` is the clock's distance from universal time in seconds, if it is known. -/
structure DateTime where
  date : Date
  time : TimeOfDay
  offset : Option Int
deriving DecidableEq, Repr

namespace Calendar

/-- Decimal digits, filled with zeros up to `width`. -/
def digits (width n : Nat) : String :=
  String.ofList (Text.padLeft '0' width (Nat.toDigits 10 n))

def isLeapYear (year : Nat) : Bool :=
  year % 4 == 0 && (year % 100 != 0 || year % 400 == 0)

def monthLength (year month : Nat) : Nat :=
  if month = 2 then if isLeapYear year then 29 else 28
  else if month = 4 ∨ month = 6 ∨ month = 9 ∨ month = 11 then 30
  else 31

/-- The days in the years before `year`, counted from the start of year 1. -/
def daysBeforeYear (year : Nat) : Nat :=
  let past := year - 1
  past * 365 + past / 4 - past / 100 + past / 400

def daysBeforeMonth (year : Nat) : Nat → Nat
  | 0 => 0
  | 1 => 0
  | month + 1 => daysBeforeMonth year month + monthLength year month

end Calendar

namespace Date

def isValid (d : Date) : Bool :=
  1 ≤ d.year && d.year ≤ 9999 && 1 ≤ d.month && d.month ≤ 12 && 1 ≤ d.day &&
    d.day ≤ Calendar.monthLength d.year d.month

/-- The number of the day, the first day of year 1 being day 1. -/
def ordinal (d : Date) : Nat :=
  Calendar.daysBeforeYear d.year + Calendar.daysBeforeMonth d.year d.month + d.day

/-- The day after, within the years that dates can have. -/
def next? (d : Date) : Option Date :=
  if d.day < Calendar.monthLength d.year d.month then some { d with day := d.day + 1 }
  else if d.month < 12 then some { d with month := d.month + 1, day := 1 }
  else if d.year < 9999 then some ⟨d.year + 1, 1, 1⟩
  else none

/-- The day before, within the years that dates can have. -/
def previous? (d : Date) : Option Date :=
  if 1 < d.day then some { d with day := d.day - 1 }
  else if 1 < d.month then
    some { d with month := d.month - 1, day := Calendar.monthLength d.year (d.month - 1) }
  else if 1 < d.year then some ⟨d.year - 1, 12, 31⟩
  else none

/-- Year, month and day with hyphens. -/
def text (d : Date) : String :=
  Calendar.digits 4 d.year ++ "-" ++ Calendar.digits 2 d.month ++ "-" ++ Calendar.digits 2 d.day

/-- Like `text`, but a year before 1000 has no leading zeros. -/
def textShortYear (d : Date) : String :=
  Calendar.digits 1 d.year ++ "-" ++ Calendar.digits 2 d.month ++ "-" ++ Calendar.digits 2 d.day

end Date

namespace TimeOfDay

def isValid (t : TimeOfDay) : Bool :=
  t.hour < 24 && t.minute < 60 && t.second < 60 && t.microsecond < 1000000

def seconds (t : TimeOfDay) : Nat := (t.hour * 60 + t.minute) * 60 + t.second

def ofSeconds (seconds microsecond : Nat) : TimeOfDay :=
  ⟨seconds / 3600, seconds / 60 % 60, seconds % 60, microsecond⟩

/-- Hours, minutes and seconds with colons, and six decimals when they are not all zero. -/
def text (t : TimeOfDay) : String :=
  let base := Calendar.digits 2 t.hour ++ ":" ++ Calendar.digits 2 t.minute ++ ":" ++
    Calendar.digits 2 t.second
  if t.microsecond = 0 then base else base ++ "." ++ Calendar.digits 6 t.microsecond

end TimeOfDay

namespace DateTime

/-- The offset as a signed distance in hours and minutes, with seconds when there are any. -/
def offsetText (offset : Int) : String :=
  let sign := if offset < 0 then "-" else "+"
  let size := offset.natAbs
  let base := sign ++ Calendar.digits 2 (size / 3600) ++ ":" ++ Calendar.digits 2 (size / 60 % 60)
  if size % 60 = 0 then base else base ++ ":" ++ Calendar.digits 2 (size % 60)

/-- Date, `separator`, time and offset. -/
def textWith (separator : String) (t : DateTime) : String :=
  t.date.text ++ separator ++ t.time.text ++ (t.offset.map offsetText).getD ""

def text (t : DateTime) : String := t.textWith "T"

/--
The same moment on the clock of universal time; a clock without an offset already shows it. There
is none when the day falls outside the years that dates can have.
-/
def toUniversal? (t : DateTime) : Option DateTime :=
  let shifted : Int := t.time.seconds - t.offset.getD 0
  let date :=
    if shifted < 0 then t.date.previous?
    else if 86400 ≤ shifted then t.date.next?
    else some t.date
  date.map fun date =>
    ⟨date, TimeOfDay.ofSeconds (shifted % 86400).toNat t.time.microsecond, some 0⟩

/-- Universal time with milliseconds, cut off and not rounded. -/
def stamp? (t : DateTime) : Option String :=
  t.toUniversal?.map fun u =>
    u.date.textShortYear ++ "T" ++ Calendar.digits 2 u.time.hour ++ ":" ++
      Calendar.digits 2 u.time.minute ++ ":" ++ Calendar.digits 2 u.time.second ++ "." ++
      Calendar.digits 3 (u.time.microsecond / 1000) ++ "Z"

end DateTime

/-!
## Moments counted from 1970

A clock counts the microseconds since the start of 1970 in universal time.
-/

/-- The date so many days after the first day of 1970; the last date there is has none after it. -/
def Date.ofEpochDay (days : Nat) : Date :=
  Nat.repeat (fun date : Date => date.next?.getD date) days ⟨1970, 1, 1⟩

def DateTime.ofEpoch (microseconds : Nat) : DateTime :=
  let seconds := microseconds / 1000000
  { date := Date.ofEpochDay (seconds / 86400)
    time := TimeOfDay.ofSeconds (seconds % 86400) (microseconds % 1000000)
    offset := some 0 }

/-!
## Reading dates and moments

Dates and moments in their written form: a date with hyphens, then a time with colons, decimals of
the second, and the distance from universal time.
-/

/-- The number that the digits of a text make. -/
def digitsNumber (s : List Char) : Nat := Text.digitsValue 10 (s.filterMap Text.digitValue?)

/-- The date at the start of a text. -/
def Date.ofText (s : List Char) : Date :=
  ⟨digitsNumber (s.take 4), digitsNumber ((s.drop 5).take 2), digitsNumber ((s.drop 8).take 2)⟩

namespace DateTime

/-- The distance from universal time in seconds: a letter for none, or hours, minutes, seconds. -/
def readOffset : List Char → Option Int
  | [] => none
  | 'Z' :: _ => some 0
  | sign :: rest =>
    let digits := rest.filter (· != ':')
    let size := digitsNumber (digits.take 2) * 3600 + digitsNumber ((digits.drop 2).take 2) * 60 +
      digitsNumber ((digits.drop 4).take 2)
    some (if sign = '-' then -(size : Int) else size)

/-- The decimals of a second as microseconds. -/
def readDecimals (s : List Char) : Nat := digitsNumber ((s ++ List.replicate 6 '0').take 6)

/-- The moment that a text denotes; what is left out of the time is zero. -/
def ofText (s : List Char) : DateTime :=
  let (clock, zone) := (s.drop 11).span fun c => c != '+' && c != '-' && c != 'Z'
  let (whole, decimals) := clock.span fun c => c != '.' && c != ','
  let parts := (Text.splitOnChar ':' whole).map digitsNumber
  { date := Date.ofText s
    time := ⟨parts.getD 0 0, parts.getD 1 0, parts.getD 2 0, readDecimals (decimals.drop 1)⟩
    offset := readOffset zone }

end DateTime

end StaticSite
