import BehaviourGraph.Number.Conversion

/-!
# JSON numbers

A number keeps its digits until it is asked for a value.  In single precision it is the nearest float,
except that digits beyond the decisive ones always count as a little more than nothing.  In double
precision only whole numbers of 64 bits are rounded to nearest; any other number is a 64-bit significand,
read as far as its digits fit, times a power of ten that is applied in double precision.  A value beyond
the range of the format is refused.
-/

namespace BehaviourGraph.Json

/-- The parts of a written number.  A number without a fraction has no fraction digits. -/
structure Number where
  negative : Bool
  whole : List Nat
  fraction : List Nat
  exponent : Option (Bool × List Nat)

def digitsValue (digits : List Nat) : Nat :=
  digits.foldl (fun value digit => 10 * value + digit) 0

/-- Extend a significand by digits while it stays within 64 bits; the digits left over. -/
def accumulate (significand : Nat) : List Nat → Nat × List Nat
  | [] => (significand, [])
  | digit :: digits =>
    let next := 10 * significand + digit
    if next ≤ greatestCount then accumulate next digits else (significand, digit :: digits)

def powerOfTen (places : Nat) : Float := Float.ofScientific 1 false places

def greatestPower : Nat := 308

/-- Division by a power of ten, in pieces of the greatest one. -/
def scaleDown (x : Float) (places : Nat) : Float :=
  if places ≤ greatestPower then x / powerOfTen places
  else if x == 0.0 then x
  else scaleDown (x / powerOfTen greatestPower) (places - greatestPower)
termination_by places
decreasing_by simp_all [greatestPower]; omega

/-- Multiplication by a power of ten, if the product is finite. -/
def scaleUp (x : Float) (places : Nat) : Option Float :=
  if places ≤ greatestPower then
    let scaled := x * powerOfTen places
    if scaled.isInf then none else some scaled
  else if x == 0.0 then some x
  else none

/-- A significand times a power of ten. -/
def scale (significand : Nat) (exponent : Int) : Option Float :=
  let x := (UInt64.ofNat significand).toFloat
  match exponent with
  | .ofNat places => scaleUp x places
  | .negSucc places => some (scaleDown x (places + 1))

/-- How many significant digits decide the rounding to single precision.  No point halfway between two
floats has more. -/
def decisiveDigits : Nat := 113

namespace Number

def power (n : Number) : Int :=
  match n.exponent with
  | none => 0
  | some (false, digits) => digitsValue digits
  | some (true, digits) => -digitsValue digits

/-- The significand and the power of ten that it stands for. -/
def parts (n : Number) : Nat × Int :=
  let (significand, skipped) := accumulate 0 n.whole
  let (significand, dropped) := accumulate significand n.fraction
  (significand, skipped.length - (n.fraction.length - dropped.length : Nat) + n.power)

/-- The magnitude of a number written as a 64-bit whole number. -/
def magnitude? (n : Number) : Option Nat :=
  match n.fraction, n.exponent, accumulate 0 n.whole with
  | [], none, (value, []) => some value
  | _, _, _ => none

/-- The value of a 64-bit count.  A minus sign is refused, also before zero. -/
def count? (n : Number) : Option Nat :=
  if n.negative then none else n.magnitude?

/-- The value of a whole number of 64 bits; minus zero is not one. -/
def integer? (n : Number) : Option Int :=
  match n.magnitude? with
  | none => none
  | some value =>
    if !n.negative then some value
    else if 0 < value ∧ value ≤ Nat.pow 2 63 then some (-value)
    else none

/-- A number that is not a 64-bit whole number. -/
def scaled? (n : Number) : Option Float :=
  let (significand, exponent) := n.parts
  (scale significand exponent).map fun x => if n.negative then -x else x

def double? (n : Number) : Option Float :=
  match n.integer? with
  | some value => some (Float.ofInt value)
  | none => n.scaled?

/-- The digits of a fraction up to its last one that is not zero. -/
def fractionDigits (n : Number) : List Nat :=
  (n.fraction.reverse.dropWhile (· = 0)).reverse

/-- The digits from the first one that is not zero on. -/
def significantDigits (n : Number) : List Nat :=
  (n.whole ++ n.fractionDigits).dropWhile (· = 0)

/-- The whole number and the power of ten by which a number is compared.  From `decisiveDigits` on the
digits are not read: one digit `1` stands for all of them, zeros included. -/
def cut (n : Number) : Nat × Int :=
  let digits := n.significantDigits
  let scaling := n.power - n.fractionDigits.length
  let skipped := digits.length - decisiveDigits
  if skipped = 0 then (digitsValue digits, scaling)
  else (digitsValue (digits.take decisiveDigits ++ [1]), scaling + skipped - 1)

/-- The single-precision float nearest to a number, if it is finite. -/
def nearestSingle? (n : Number) : Option Float32 :=
  let (coefficient, scaling) := n.cut
  let x := Float32.ofModel (.pack (.ofScientific .binary32 coefficient scaling))
  if x.isFinite then some (if n.negative then -x else x) else none

/-- The magnitude of a whole number of 64 bits below the signed range. -/
def belowSigned? (n : Number) : Option Nat :=
  if n.negative then n.magnitude?.filter (Nat.pow 2 63 < ·) else none

/-- The value in single precision: rounded once, except that whole numbers below the signed range are
rounded to double precision first. -/
def single? (n : Number) : Option Float32 :=
  match n.belowSigned? with
  | some value => some (toSingle (.round .binary64 .negative value 0))
  | none => n.nearestSingle?

end Number

end BehaviourGraph.Json
