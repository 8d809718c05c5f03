import StaticSite.Number.Binary64
import StaticSite.Text.Digit

/-!
# Shortest decimal text of a double

The digits are the fewest that read back as the same double, and of those the nearest to it. The
real numbers that round to a double form an interval; a decimal grid has a point in the interval
iff one of the value's two neighbours on that grid lies in it, so grids of one digit, two digits
and so on are tried until a neighbour does.
-/

namespace StaticSite.Binary64

/-- Exact decimal digits and the power of ten of the last one. -/
structure Decimal where
  digits : Nat
  exponent : Int
deriving DecidableEq, Repr

/--
The interval of real numbers that round to the double, as numerators over one denominator: lower
end, value, upper end. The gap below a power of two is half the gap above it.
-/
structure Neighbourhood where
  low : Nat
  value : Nat
  high : Nat
  den : Nat
  closed : Bool

def neighbourhood (significand : Nat) (exponent : Int) : Neighbourhood :=
  let halved := significand = Nat.pow 2 52 && lowestExponent < exponent
  let (num, den) := magnitude 1 exponent
  -- in quarters of the gap above the value
  let low := if halved then 4 * significand - 1 else 4 * significand - 2
  { low := low * num, value := 4 * significand * num, high := (4 * significand + 2) * num,
    den := 4 * den, closed := significand % 2 == 0 }

/-- The decimal place of the first digit: the value lies in `[10 ^ (p - 1), 10 ^ p)`. -/
def leadingPlace (num den : Nat) : Int :=
  if den ≤ num then (Nat.toDigits 10 (num / den)).length
  else
    -- `den / num > 1` has as many digits as there are places to shift, up to one
    let shift := (Nat.toDigits 10 (den / num)).length
    if num * Nat.pow 10 (shift - 1) < den then 1 - (shift : Int) else 2 - (shift : Int)

namespace Neighbourhood

/-- Whether `digits * 10 ^ exponent` lies in the interval. -/
def holds (n : Neighbourhood) (digits : Nat) (exponent : Int) : Bool :=
  let (a, b) :=
    if 0 ≤ exponent then (digits * Nat.pow 10 exponent.toNat * n.den, 1)
    else (digits * n.den, Nat.pow 10 (-exponent).toNat)
  if n.closed then n.low * b ≤ a && a ≤ n.high * b else n.low * b < a && a < n.high * b

/-- The grid points next to the value with `10 ^ exponent` between points. -/
def gridFloor (n : Neighbourhood) (exponent : Int) : Nat :=
  if 0 ≤ exponent then n.value / (n.den * Nat.pow 10 exponent.toNat)
  else n.value * Nat.pow 10 (-exponent).toNat / n.den

/-- Compares the value's distances to a grid point and to the next one. -/
def compareGaps (n : Neighbourhood) (digits : Nat) (exponent : Int) : Ordering :=
  let (a, b) :=
    if 0 ≤ exponent then ((2 * digits + 1) * Nat.pow 10 exponent.toNat * n.den, 2 * n.value)
    else ((2 * digits + 1) * n.den, 2 * n.value * Nat.pow 10 (-exponent).toNat)
  compare b a

/-- The grid point in the interval that is nearest to the value, if the grid has one there. -/
def gridPoint? (n : Neighbourhood) (exponent : Int) : Option Decimal :=
  let below := n.gridFloor exponent
  match n.holds below exponent, n.holds (below + 1) exponent with
  | false, false => none
  | true, false => some ⟨below, exponent⟩
  | false, true => some ⟨below + 1, exponent⟩
  | true, true =>
    match n.compareGaps below exponent with
    | .lt => some ⟨below, exponent⟩
    | .gt => some ⟨below + 1, exponent⟩
    | .eq => some ⟨if below % 2 == 0 then below else below + 1, exponent⟩

/-- Tries ever finer grids, the first one with its spacing at `exponent`. -/
def search (n : Neighbourhood) : Nat → Int → Decimal
  | 0, exponent => ⟨n.gridFloor exponent, exponent⟩
  | fuel + 1, exponent =>
    match n.gridPoint? exponent with
    | some point => point
    | none => n.search fuel (exponent - 1)

end Neighbourhood

/-- Removes zeros at the end of the digits. -/
def Decimal.trim (d : Decimal) : Nat → Decimal
  | 0 => d
  | fuel + 1 =>
    if d.digits % 10 == 0 && d.digits != 0 then
      Decimal.trim ⟨d.digits / 10, d.exponent + 1⟩ fuel
    else d

/-- The shortest decimal that reads back as a non-zero finite double; 17 digits always do. -/
def shortest (significand : Nat) (exponent : Int) : Decimal :=
  let n := neighbourhood significand exponent
  Decimal.trim (n.search 17 (leadingPlace n.value n.den - 1)) 20

/-- Which decimal points are written in place and how wide an exponent is at least. -/
structure DecimalLayout where
  lowestPoint : Int
  highestPoint : Int
  exponentWidth : Nat

/-- Numbers from 0.0001 up to below 10^16 are written in place, others with an exponent. -/
def plainLayout : DecimalLayout := ⟨-3, 16, 2⟩

/-- The text of a decimal whose point stands `point` places after the start of the digits. -/
def DecimalLayout.write (layout : DecimalLayout) (digits : List Char) (point : Int) : List Char :=
  if layout.lowestPoint ≤ point && point ≤ layout.highestPoint then
    if point ≤ 0 then '0' :: '.' :: (List.replicate (-point).toNat '0' ++ digits)
    else
      let whole := digits.take point.toNat
      let whole := whole ++ List.replicate (point.toNat - whole.length) '0'
      let rest := digits.drop point.toNat
      whole ++ '.' :: (if rest.isEmpty then ['0'] else rest)
  else
    let exponent := point - 1
    let mantissa :=
      match digits with
      | [] => ['0']
      | [digit] => [digit]
      | digit :: rest => digit :: '.' :: rest
    let size := Text.padLeft '0' layout.exponentWidth (Nat.toDigits 10 exponent.natAbs)
    mantissa ++ 'e' :: (if exponent < 0 then '-' else '+') :: size

/-- The text of a double, with a point or an exponent so that it does not read as an integer. -/
def text (x : Binary64) : String :=
  match x with
  | .nan => "nan"
  | .infinity negative => if negative then "-inf" else "inf"
  | .finite negative significand exponent =>
    let body :=
      if significand = 0 then ['0', '.', '0']
      else
        let decimal := shortest significand exponent
        let digits := Nat.toDigits 10 decimal.digits
        plainLayout.write digits (digits.length + decimal.exponent)
    String.ofList (if negative then '-' :: body else body)

end StaticSite.Binary64
