/-!
Decimal digits of double precision numbers, in exact arithmetic.

A finite double is a natural number times a power of two.  From that form this module reads whether
the number is integral, its exact integer magnitude, and the shortest decimal that reads back to the
same double.  Nothing here rounds in floating point.  How digits are laid out as text is left to
`LexicalScript.Decimal.Layout`.
-/

set_option autoImplicit false

namespace LexicalScript

/-- The magnitude of a finite double: `mantissa * 2 ^ exponent`. -/
structure Dyadic where
  mantissa : Nat
  exponent : Int
  deriving DecidableEq, Repr

inductive Reading where
  | finite (negative : Bool) (magnitude : Dyadic)
  | infinite (negative : Bool)
  | notANumber
  deriving DecidableEq, Repr

def Reading.ofFloat (number : Float) : Reading :=
  let bits := number.toBits.toNat
  let negative := Nat.pow 2 63 ≤ bits
  let scale : Nat := bits / Nat.pow 2 52 % Nat.pow 2 11
  let fraction := bits % Nat.pow 2 52
  if scale = 2047 then
    if fraction = 0 then .infinite negative else .notANumber
  else if scale = 0 then
    .finite negative ⟨fraction, -1074⟩
  else
    .finite negative ⟨fraction + Nat.pow 2 52, (scale : Int) - 1075⟩

namespace Dyadic

def floor (magnitude : Dyadic) : Nat :=
  match magnitude.exponent with
  | .ofNat shift => magnitude.mantissa * Nat.pow 2 shift
  | .negSucc shift => magnitude.mantissa / Nat.pow 2 (shift + 1)

def isIntegral (magnitude : Dyadic) : Bool :=
  match magnitude.exponent with
  | .ofNat _ => true
  | .negSucc shift => magnitude.mantissa % Nat.pow 2 (shift + 1) == 0

end Dyadic

/-- How many decimal digits a positive number has; zero has none. -/
def decimalLength (number : Nat) : Nat :=
  if number = 0 then 0 else (Nat.toDigits 10 number).length

/-- A decimal `d₁.d₂d₃… * 10 ^ exponent`, whose digits are those of the number `digits`. -/
structure Decimal where
  digits : Nat
  exponent : Int
  deriving DecidableEq, Repr

namespace Decimal

/-- Which neighbour is taken when a number lies halfway between two decimals. -/
inductive Tie where
  | up
  | toEven
  deriving DecidableEq, Repr

/-- The reals that round to one double, as fractions with a common denominator.  The ends belong to
the interval exactly when the double's mantissa is even. -/
structure Interval where
  low : Nat
  value : Nat
  high : Nat
  denominator : Nat
  closed : Bool
  deriving Repr

/-- The rounding interval of a magnitude.  Below a power of two the spacing halves, so the lower end
is nearer there, except at the smallest exponent. -/
def Interval.ofDyadic (magnitude : Dyadic) : Interval :=
  let mantissa := magnitude.mantissa
  let below := if mantissa = Nat.pow 2 52 ∧ magnitude.exponent ≠ -1074 then 1 else 2
  let closed := mantissa % 2 == 0
  match magnitude.exponent with
  | .ofNat shift =>
      let unit := Nat.pow 2 shift
      ⟨(4 * mantissa - below) * unit, 4 * mantissa * unit, (4 * mantissa + 2) * unit, 4, closed⟩
  | .negSucc shift =>
      ⟨4 * mantissa - below, 4 * mantissa, 4 * mantissa + 2, 4 * Nat.pow 2 (shift + 1), closed⟩

def Interval.contains (interval : Interval) (numerator denominator : Nat) : Bool :=
  let point := numerator * interval.denominator
  let low := interval.low * denominator
  let high := interval.high * denominator
  (low < point && point < high) || (interval.closed && (point == low || point == high))

def Interval.leading (interval : Interval) : Int :=
  let whole := interval.value / interval.denominator
  if whole = 0 then
    let ceiling := (interval.denominator + interval.value - 1) / interval.value
    Int.negOfNat (decimalLength (ceiling - 1))
  else
    (decimalLength whole : Int) - 1

/-- The decimal with `count` digits that reads back to the interval's double and lies nearest to its
value, if one of the value's two neighbours among those decimals reads back at all. -/
def Interval.roundTo? (interval : Interval) (tie : Tie) (count : Nat) : Option Nat :=
  -- Scale so that the neighbours are the integers around `numerator / denominator`.
  let places : Int := (count : Int) - 1 - interval.leading
  let (up, down) : Nat × Nat :=
    match places with
    | .ofNat shift => (Nat.pow 10 shift, 1)
    | .negSucc shift => (1, Nat.pow 10 (shift + 1))
  let numerator := interval.value * up
  let denominator := interval.denominator * down
  let lower := numerator / denominator
  let upper := lower + 1
  let lowerFits := interval.contains (lower * down) up
  let upperFits := interval.contains (upper * down) up
  if lowerFits && upperFits then
    let twice := 2 * (numerator % denominator)
    if twice < denominator then some lower
    else if denominator < twice then some upper
    else match tie with
      | .up => some upper
      | .toEven => if lower % 2 = 0 then some lower else some upper
  else if lowerFits then some lower
  else if upperFits then some upper
  else none

def dropZeros : Nat → Nat → Nat
  | 0, number => number
  | limit + 1, number => if number % 10 = 0 then dropZeros limit (number / 10) else number

def Interval.search (interval : Interval) (tie : Tie) : Nat → Nat → Decimal
  | 0, _ => ⟨interval.value / interval.denominator, interval.leading⟩
  | tries + 1, count =>
      match interval.roundTo? tie count with
      | none => interval.search tie tries (count + 1)
      | some digits =>
          let grown := decimalLength digits - count
          ⟨dropZeros (decimalLength digits) digits, interval.leading + grown⟩

/-- The decimal with the fewest digits that reads back to the given magnitude, and of those the one
nearest to it.  Seventeen digits always suffice. -/
def shortest (tie : Tie) (magnitude : Dyadic) : Decimal :=
  if magnitude.mantissa = 0 then ⟨0, 0⟩
  else (Interval.ofDyadic magnitude).search tie 17 1

end Decimal

/-- The double nearest to a numeral `whole` or `whole.fraction` given by its digits. -/
def Decimal.read (whole fraction : List Char) : Float :=
  let digits := (whole ++ fraction).foldl
    (fun value digit => 10 * value + (digit.toNat - '0'.toNat)) 0
  Float.ofScientific digits true fraction.length

end LexicalScript
