/-!
Double-precision numbers as exact integers: a magnitude is a whole number times a power of two, or
too large to be one. Rounding and the search for the shortest decimal use whole numbers only.
-/

namespace Scrapscript

/-- The size of a double-precision number, without its sign. -/
inductive Magnitude where
  /-- The number `mantissa * 2 ^ exponent`. -/
  | finite (mantissa : Nat) (exponent : Int)
  | infinite
deriving DecidableEq, Repr

structure Binary64 where
  negative : Bool
  magnitude : Magnitude
deriving DecidableEq, Repr

/-- The whole number nearest to a quotient, the even one of two equally near. -/
def roundedQuotient (numerator denominator : Nat) : Nat :=
  let quotient := numerator / denominator
  let twice := 2 * (numerator % denominator)
  if twice < denominator then quotient
  else if denominator < twice then quotient + 1
  else if quotient % 2 = 0 then quotient
  else quotient + 1

/-- A fraction multiplied by a power of a base, as numerator and denominator. -/
def scaled (base : Nat) (exponent : Int) (numerator denominator : Nat) : Nat × Nat :=
  if 0 ≤ exponent then (numerator * Nat.pow base exponent.toNat, denominator)
  else (numerator, denominator * Nat.pow base (-exponent).toNat)

inductive Tie where
  | toEven
  | upward
deriving DecidableEq, Repr

/-- Whether the lesser of two equally near decimals is taken, given its digits. -/
def Tie.takesLower (tie : Tie) (coefficient : Nat) : Bool :=
  match tie with
  | toEven => coefficient % 2 == 0
  | upward => false

namespace Magnitude

/-- The least mantissa with all of its bits, `2 ^ 52`. -/
def leastMantissa : Nat := 4503599627370496

def leastExponent : Int := -1074

def greatestExponent : Int := 971

/-- A rounded mantissa in its normal place. -/
def normal (mantissa : Nat) (exponent : Int) : Magnitude :=
  let (mantissa, exponent) :=
    if mantissa = 2 * leastMantissa then (leastMantissa, exponent + 1) else (mantissa, exponent)
  if greatestExponent < exponent then infinite else finite mantissa exponent

/-- The magnitude nearest to a fraction, the one with the even mantissa of two equally near. -/
def nearest (numerator denominator : Nat) : Magnitude :=
  if numerator = 0 then finite 0 leastExponent
  else
    let guess : Int := numerator.log2 - denominator.log2 - 53
    let (above, below) := scaled 2 (-guess) numerator denominator
    let wanted := if above < below * (2 * leastMantissa) then guess else guess + 1
    let exponent := max wanted leastExponent
    let (above, below) := scaled 2 (-exponent) numerator denominator
    normal (roundedQuotient above below) exponent

def ofDecimal (digits : Nat) (exponent : Int) : Magnitude :=
  let (numerator, denominator) := scaled 10 exponent digits 1
  nearest numerator denominator

def times (left right : Magnitude) : Magnitude :=
  match left, right with
  | finite m p, finite n q =>
      let (numerator, denominator) := scaled 2 (p + q) (m * n) 1
      nearest numerator denominator
  | _, _ => infinite

def dividedBy (left right : Magnitude) : Magnitude :=
  match left, right with
  | finite m p, finite n q =>
      let (numerator, denominator) := scaled 2 (p - q) m n
      nearest numerator denominator
  | _, _ => infinite

def isZero : Magnitude → Bool
  | finite mantissa _ => mantissa == 0
  | infinite => false

/-- Decimal digits as a whole number and the power of ten that they are multiplied by. -/
structure Digits where
  coefficient : Nat
  exponent : Int
deriving DecidableEq, Repr

/-- The decimals that round to a magnitude, as bounds in quarters of its last place. The bounds
themselves belong to it if the mantissa is even. Below a power of two the places are half as
wide. -/
structure Interval where
  lower : Nat
  value : Nat
  upper : Nat
  closed : Bool

def interval (mantissa : Nat) (exponent : Int) : Interval where
  lower := 4 * mantissa - if mantissa = leastMantissa && leastExponent < exponent then 1 else 2
  value := 4 * mantissa
  upper := 4 * mantissa + 2
  closed := mantissa % 2 == 0

/-- Whether a decimal, given by numerator and denominator in quarters of the last place, lies in an
interval. -/
def Interval.holds (interval : Interval) (numerator denominator : Nat) : Bool :=
  if interval.closed then
    decide (interval.lower * denominator ≤ numerator)
      && decide (numerator ≤ interval.upper * denominator)
  else
    decide (interval.lower * denominator < numerator)
      && decide (numerator < interval.upper * denominator)

/-- A decimal of the interval with its last digit at the given power of ten: the nearer neighbour of
the value. -/
def candidate? (tie : Tie) (interval : Interval) (exponent place : Int) : Option Digits :=
  let (quarter, perQuarter) := scaled 2 (exponent - 2) 1 1
  let (unit, perUnit) := scaled 10 place 1 1
  let grid := unit * perQuarter
  let value := interval.value * quarter * perUnit
  let below := value / grid
  let fits (coefficient : Nat) : Bool := interval.holds (coefficient * grid) (quarter * perUnit)
  let twice := 2 * (value % grid)
  let lowerIsNearer := decide (twice < grid) || (twice == grid && tie.takesLower below)
  if fits below && (!fits (below + 1) || lowerIsNearer) then some ⟨below, place⟩
  else if fits (below + 1) then some ⟨below + 1, place⟩
  else none

/-- The first decimal found with its last digit at `place` or, up to `count` times, one place to
the right. -/
def search (tie : Tie) (interval : Interval) (exponent : Int) : Nat → Int → Digits
  | 0, place => ⟨0, place⟩
  | count + 1, place =>
      match candidate? tie interval exponent place with
      | some digits => digits
      | none => search tie interval exponent count (place - 1)

/-- The fewest decimal digits that round to `mantissa * 2 ^ exponent`. Seventeen always do. -/
def shortest (tie : Tie) (mantissa : Nat) (exponent : Int) : Digits :=
  if mantissa = 0 then ⟨0, 0⟩
  else
    let place := (mantissa.log2 + exponent) * 30103 / 100000 + 2
    search tie (interval mantissa exponent) exponent 21 place

end Magnitude

end Scrapscript
