/-!
# The exponential to single precision

The exponential of a single-precision float, rounded to the nearest.  It is computed on natural numbers
that count units far below the last place of the result: the argument is divided by a power of two, its
series is summed, and the sum is squared as often as the argument was halved.
-/

namespace BehaviourGraph

open Float.Model (UnpackedFloat)

namespace Exponential

/-- How many binary places a value is computed to. -/
def places : Nat := 320

/-- One, in units of the last place. -/
def unit : Nat := Nat.pow 2 places

/-- How often an argument is halved, so that the series of what is left converges fast. -/
def halvings : Nat := 10

/-- How many terms of the series are summed. -/
def terms : Nat := 64

/-- Beyond this magnitude of the argument the result overflows, or is nearest to zero. -/
def range : Float32 := 104.0

/-- The sum `1 + x / 1 * (1 + x / 2 * (1 + x / 3 * ..))`. -/
def series (x : Nat) : Nat :=
  (List.range terms).foldr (fun n rest => unit + x * rest / (unit * (n + 1))) unit

/-- Repeated squaring. -/
def square : Nat → Nat → Nat
  | 0, x => x
  | count + 1, x => square count (x * x / unit)

/-- The exponential of `significand * 2 ^ exponent`. -/
def ofMagnitude (significand : Nat) (exponent : Int) : Nat :=
  square halvings (series (significand * Nat.pow 2 (places + exponent - halvings).toNat))

end Exponential

open Exponential

/-- The single-precision float nearest to the exponential of `x`. -/
def expSingle (x : Float32) : Float32 :=
  if x.isNaN then x
  else if range < x then .ofBits 0x7f800000
  else if x < -range then 0.0
  else
    match x.toModel.unpack with
    | .finite .positive significand exponent _ => rounded (ofMagnitude significand exponent)
    | .finite .negative significand exponent _ =>
      rounded (unit * unit / ofMagnitude significand exponent)
    | _ => 1.0
where
  rounded (value : Nat) : Float32 :=
    .ofModel (.pack (.round .binary32 .positive value (-places)))

/-- The platform that a graph runs on, as far as it decides the last place of a result. -/
class Platform where
  /-- The single-precision exponential. -/
  exp : Float32 → Float32

instance : Platform := ⟨expSingle⟩

end BehaviourGraph
