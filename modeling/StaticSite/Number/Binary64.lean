/-!
# Binary floating-point numbers

A double is a sign, a significand below 2^53 and a power of two, or an infinity, or not a number.
Every operation computes the exact rational result and rounds it once, to the nearest double and
to the even significand on a tie, so no operation depends on the machine.
-/

namespace StaticSite

inductive Binary64 where
  | finite (negative : Bool) (significand : Nat) (exponent : Int)
  | infinity (negative : Bool)
  | nan
deriving DecidableEq, Repr

namespace Binary64

/-- The power of two that belongs to the lowest significand bit of the smallest doubles. -/
def lowestExponent : Int := -1074

/-- The power of two that belongs to the lowest significand bit of the largest doubles. -/
def highestExponent : Int := 971

def zero (negative : Bool) : Binary64 := .finite negative 0 lowestExponent

/-- The quotient rounded to the nearest integer, a half to the even neighbour. -/
def roundQuotient (num den : Nat) : Nat :=
  let quotient := num / den
  let twice := 2 * (num % den)
  if twice < den || (twice == den && quotient % 2 == 0) then quotient else quotient + 1

/-- Numerator and denominator of `num / den / 2 ^ exponent`. -/
def scaleRatio (num den : Nat) (exponent : Int) : Nat × Nat :=
  if 0 ≤ exponent then (num, den * Nat.pow 2 exponent.toNat)
  else (num * Nat.pow 2 (-exponent).toNat, den)

/-- The exponent that gives a positive ratio 53 significand bits, or the lowest one. -/
def ratioExponent (num den : Nat) : Int :=
  let guess : Int := (num.log2 : Int) - den.log2 - 53
  let scaled := scaleRatio num den guess
  max (if scaled.1 / scaled.2 < Nat.pow 2 53 then guess else guess + 1) lowestExponent

/-- The double nearest to `num / den`; past the largest double it is an infinity. -/
def ofRatio (negative : Bool) (num den : Nat) : Binary64 :=
  if num = 0 then zero negative
  else
    let exponent := ratioExponent num den
    let scaled := scaleRatio num den exponent
    let rounded := roundQuotient scaled.1 scaled.2
    let carried := rounded = Nat.pow 2 53
    let significand := if carried then Nat.pow 2 52 else rounded
    let exponent := if carried then exponent + 1 else exponent
    if highestExponent < exponent then .infinity negative
    else .finite negative significand exponent

def ofIntRatio (num : Int) (den : Nat) : Binary64 := ofRatio (num < 0) num.natAbs den

def ofInt (n : Int) : Binary64 := ofIntRatio n 1

/-- The magnitude of a finite double as a numerator and a positive denominator. -/
def magnitude (significand : Nat) (exponent : Int) : Nat × Nat :=
  if 0 ≤ exponent then (significand * Nat.pow 2 exponent.toNat, 1)
  else (significand, Nat.pow 2 (-exponent).toNat)

/-- The exact value of a finite double. -/
def ratio? : Binary64 → Option (Int × Nat)
  | .finite negative significand exponent =>
    let (num, den) := magnitude significand exponent
    some (if negative then -(num : Int) else num, den)
  | _ => none

def isNegative : Binary64 → Bool
  | .finite negative _ _ => negative
  | .infinity negative => negative
  | .nan => false

def isZero : Binary64 → Bool
  | .finite _ significand _ => significand == 0
  | _ => false

def isInteger (x : Binary64) : Bool :=
  match x.ratio? with
  | some (num, den) => num % den == 0
  | none => false

/-- The integer between the value and zero that is nearest to it. -/
def truncate? (x : Binary64) : Option Int :=
  x.ratio?.map fun (num, den) => num.tdiv den

def floor? (x : Binary64) : Option Int :=
  x.ratio?.map fun (num, den) => num.fdiv den

/-- The nearest integer, a half going to the even neighbour. -/
def round? (x : Binary64) : Option Int :=
  x.ratio?.map fun (num, den) =>
    let nearest : Int := roundQuotient num.natAbs den
    if num < 0 then -nearest else nearest

/-- Whether the value is greater than an integer. -/
def gtInt (x : Binary64) (n : Int) : Bool :=
  match x with
  | .infinity negative => !negative
  | .nan => false
  | .finite .. =>
    match x.ratio? with
    | some (num, den) => n * den < num
    | none => false

/-- Whether the value is the integer itself. -/
def eqInt (x : Binary64) (n : Int) : Bool :=
  match x.ratio? with
  | some (num, den) => n * den == num
  | none => false

/-- Equality of values: the two zeros are equal and what is not a number equals nothing. -/
def eqValue (x y : Binary64) : Bool :=
  match x, y with
  | .nan, _ => false
  | _, .nan => false
  | _, _ => x == y || (x.isZero && y.isZero)

/-- The product; a zero times an infinity is not a number. -/
def mul (x y : Binary64) : Binary64 :=
  let negative := x.isNegative != y.isNegative
  match x, y with
  | .nan, _ => .nan
  | _, .nan => .nan
  | .infinity _, y => if y.isZero then .nan else .infinity negative
  | x, .infinity _ => if x.isZero then .nan else .infinity negative
  | .finite _ m e, .finite _ n f =>
    let (a, b) := magnitude m e
    let (c, d) := magnitude n f
    ofRatio negative (a * c) (b * d)

/-- The sum; a zero sum is negative only when both terms are. -/
def add (x y : Binary64) : Binary64 :=
  match x, y with
  | .nan, _ => .nan
  | _, .nan => .nan
  | .infinity s, .infinity t => if s == t then .infinity s else .nan
  | .infinity s, _ => .infinity s
  | _, .infinity t => .infinity t
  | .finite s _ _, .finite t _ _ =>
    match x.ratio?, y.ratio? with
    | some (a, b), some (c, d) =>
      let sum := a * d + c * b
      if sum = 0 then zero (s && t) else ofIntRatio sum (b * d)
    | _, _ => .nan

/-- The quotient by a positive integer. -/
def divNat (x : Binary64) (den : Nat) : Binary64 :=
  match x with
  | .finite negative m e =>
    let (a, b) := magnitude m e
    ofRatio negative a (b * den)
  | _ => x

/-- The double nearest to `digits * 10 ^ exponent`; far exponents are settled by their size. -/
def ofDecimal (negative : Bool) (digits : Nat) (exponent : Int) : Binary64 :=
  let size := (Nat.toDigits 10 digits).length + exponent
  if digits = 0 then zero negative
  else if 400 < size then .infinity negative
  else if size < -400 then zero negative
  else if 0 ≤ exponent then ofRatio negative (digits * Nat.pow 10 exponent.toNat) 1
  else ofRatio negative digits (Nat.pow 10 (-exponent).toNat)

end Binary64

end StaticSite
