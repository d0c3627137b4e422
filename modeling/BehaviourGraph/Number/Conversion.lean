/-!
# Conversions between number formats

Changing the width of a binary float, and counting whole units in one.  Each conversion reads the exact
value off the unpacked float and rounds once, to nearest with ties to even.
-/

namespace BehaviourGraph

open Float.Model (UnpackedFloat)

/-- The single-precision float nearest to an unpacked float of any format. -/
def toSingle : UnpackedFloat → Float32
  | .finite sign significand exponent _ => .ofModel (.pack (.round .binary32 sign significand exponent))
  | special => .ofModel (.pack special)

/-- The single-precision float nearest to a double. -/
def narrow (x : Float) : Float32 := toSingle x.toModel.unpack

def widen (x : Float32) : Float :=
  match x.toModel.unpack with
  | .finite sign significand exponent _ => .ofModel (.pack (.round .binary64 sign significand exponent))
  | special => .ofModel (.pack special)

def greatestCount : Nat := Nat.pow 2 64 - 1

/-- The least whole number of units that covers `x`, at least zero and at most `greatestCount`;
zero for NaN. -/
def wholeUnits (x : Float) : UInt64 :=
  match x.toModel.unpack with
  | .finite .positive significand (.ofNat shift) _ =>
    .ofNat (min (significand * Nat.pow 2 shift) greatestCount)
  | .finite .positive significand (.negSucc shift) _ =>
    .ofNat (min ((significand + Nat.pow 2 (shift + 1) - 1) / Nat.pow 2 (shift + 1)) greatestCount)
  | .infinity .positive => .ofNat greatestCount
  | _ => 0

end BehaviourGraph
