/-!
# Shortest decimals and rounded quotients

A finite nonzero float is `significand * 2 ^ exponent`.  The reals that round to it form an interval;
`Decimal.shortest` is the decimal in that interval with the fewest digits, and of those the nearest.
All arithmetic is on natural numbers.
-/

namespace BehaviourGraph

inductive Tie where
  | up
  | even
  deriving DecidableEq, Repr

/-- The whole number nearest to `num / den`. -/
def roundDiv (num den : Nat) (tie : Tie) : Nat :=
  let quotient := num / den
  let twice := 2 * (num % den)
  if twice < den then quotient
  else if den < twice then quotient + 1
  else match tie with
    | .up => quotient + 1
    | .even => quotient + quotient % 2

/-- A positive decimal `coefficient * 10 ^ exponent`. -/
structure Decimal where
  coefficient : Nat
  exponent : Int
  deriving DecidableEq, Repr

namespace Decimal

/-- The decimal digits of the coefficient, most significant first. -/
def digits (d : Decimal) : List Char :=
  Nat.toDigits 10 d.coefficient

/-- The power of ten in front of which the point stands: the value is `0.digits * 10 ^ point`. -/
def point (d : Decimal) : Int :=
  d.digits.length + d.exponent

/-- The same value with no trailing zero in the coefficient; each round removes one. -/
def trim : Nat → Decimal → Decimal
  | 0, d => d
  | rounds + 1, d =>
    if d.coefficient ≠ 0 ∧ d.coefficient % 10 = 0 then
      trim rounds ⟨d.coefficient / 10, d.exponent + 1⟩
    else d

/-- The reals that round to a float: `low * 2 ^ scale` to `high * 2 ^ scale` around
`centre * 2 ^ scale`, ends included or not. -/
structure Interval where
  low : Nat
  centre : Nat
  high : Nat
  scale : Int
  closed : Bool

/-- The rounding interval of `significand * 2 ^ exponent`.  Below a power of two the neighbours lie
half as far apart, except at the bottom of the format. -/
def Interval.ofFloat (format : Float.Model.Format) (significand : Nat) (exponent : Int) : Interval :=
  let narrowBelow :=
    significand = Nat.pow 2 format.mantissaBitsWithoutImplicit ∧ exponent ≠ format.minExponent
  { low := 4 * significand - (if narrowBelow then 1 else 2)
    centre := 4 * significand
    high := 4 * significand + 2
    scale := exponent - 2
    closed := significand % 2 = 0 }

/-- `coefficient * 10 ^ exponent`, multiplied by what makes it and `binarySide` whole. -/
def decimalSide (exponent scale : Int) (coefficient : Nat) : Nat :=
  coefficient * Nat.pow 10 exponent.toNat * Nat.pow 2 (-scale).toNat

/-- `coefficient * 2 ^ scale`, multiplied by what makes it and `decimalSide` whole. -/
def binarySide (exponent scale : Int) (coefficient : Nat) : Nat :=
  coefficient * Nat.pow 2 scale.toNat * Nat.pow 10 (-exponent).toNat

def Interval.holds (i : Interval) (d : Decimal) : Bool :=
  let value := decimalSide d.exponent i.scale d.coefficient
  let low := binarySide d.exponent i.scale i.low
  let high := binarySide d.exponent i.scale i.high
  if i.closed then low ≤ value && value ≤ high else low < value && value < high

/-- The least power of ten above the centre: `10 ^ (p - 1) ≤ centre < 10 ^ p`. -/
def Interval.magnitude (i : Interval) : Int :=
  let num := binarySide 0 i.scale i.centre
  let den := decimalSide 0 i.scale 1
  if den ≤ num then (Nat.toDigits 10 (num / den)).length
  else
    let places := (Nat.toDigits 10 (den / num)).length
    if den ≤ num * Nat.pow 10 (places - 1) then 2 - places else 1 - places

/-- The decimal of `count` digits in the interval that is nearest to the centre, if any lies in it.
Only the two neighbours of the centre on that grid can be. -/
def Interval.nearest? (i : Interval) (tie : Tie) (count : Nat) : Option Decimal :=
  let exponent := i.magnitude - count
  let num := binarySide exponent i.scale i.centre
  let den := decimalSide exponent i.scale 1
  let below : Decimal := ⟨num / den, exponent⟩
  let above : Decimal := ⟨num / den + 1, exponent⟩
  match i.holds below, i.holds above with
  | true, true => some ⟨roundDiv num den tie, exponent⟩
  | true, false => some below
  | false, true => some above
  | false, false => none

/-- Seventeen digits tell any two doubles apart. -/
def enoughDigits : Nat := 17

/-- The shortest decimal that rounds to `significand * 2 ^ exponent`, nearest to it among those of
its length. -/
def shortest (format : Float.Model.Format) (tie : Tie) (significand : Nat) (exponent : Int) : Decimal :=
  let interval := Interval.ofFloat format significand exponent
  let found := (List.range enoughDigits).findSome? fun n => interval.nearest? tie (n + 1)
  trim enoughDigits (found.getD ⟨significand, 0⟩)

end Decimal

end BehaviourGraph
