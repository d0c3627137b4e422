import BehaviourGraph.Number.Decimal

/-!
# Written forms of floats

A `FloatStyle` records the decisions of a format; `write` lays out the shortest digits accordingly, and
`writeFixed` rounds to a set number of places.  Both work on the unpacked float, so single and double
precision share them.
-/

namespace BehaviourGraph

open Float.Model (UnpackedFloat)

/-- The decisions of a float format. -/
structure FloatStyle where
  /-- The positions of the point that are written without an exponent; `none` for all. -/
  positional : Option (Int × Int)
  /-- Whether a whole number is written with the fraction `.0`. -/
  fraction : Bool
  /-- Whether a positive exponent is written with a plus sign. -/
  plusSign : Bool
  /-- Which of two equally near shortest decimals is written. -/
  tie : Tie

namespace FloatStyle

/-- Plain text never has an exponent, and a whole number no fraction. -/
def plain : FloatStyle := ⟨none, false, false, .up⟩

/-- Diagnostic text keeps a fraction, and turns to an exponent below `0.0001` and from `1e16`. -/
def diagnostic : FloatStyle := ⟨some (-3, 16), true, false, .up⟩

/-- Stored single-precision floats keep a fraction, turn to an exponent below `1e-6` and from `1e13`,
and sign it either way. -/
def stored : FloatStyle := ⟨some (-5, 13), true, true, .even⟩

/-- Whether the point may stand at `point` without an exponent. -/
def isPositional (style : FloatStyle) (point : Int) : Bool :=
  match style.positional with
  | none => true
  | some (least, greatest) => least ≤ point && point ≤ greatest

/-- Digits around a point: `12.5`, `0.0125`, `1250`. -/
def layPositional (style : FloatStyle) (digits : List Char) (point : Int) : String :=
  if point ≤ 0 then
    "0." ++ .ofList (List.replicate (-point).toNat '0') ++ .ofList digits
  else
    let whole := digits.take point.toNat
    let rest := digits.drop point.toNat
    let zeros := List.replicate (point.toNat - digits.length) '0'
    .ofList (whole ++ zeros) ++
      (if rest.isEmpty then (if style.fraction then ".0" else "") else "." ++ .ofList rest)

/-- One digit, the others behind the point, and the exponent: `1.25e-7`. -/
def layScientific (style : FloatStyle) (digits : List Char) (point : Int) : String :=
  .ofList (digits.take 1) ++ (if digits.length ≤ 1 then "" else "." ++ .ofList (digits.drop 1)) ++
    (if style.plusSign && 1 < point then "e+" else "e") ++ toString (point - 1)

def layOut (style : FloatStyle) (d : Decimal) : String :=
  if style.isPositional d.point then style.layPositional d.digits d.point
  else style.layScientific d.digits d.point

end FloatStyle

def signText : UnpackedFloat.Sign → String
  | .negative => "-"
  | .positive => ""

/-- The text of an unpacked float of a format. -/
def FloatStyle.write (style : FloatStyle) (format : Float.Model.Format) : UnpackedFloat → String
  | .notANumber => "NaN"
  | .infinity sign => signText sign ++ "inf"
  | .zero sign => signText sign ++ (if style.fraction then "0.0" else "0")
  | .finite sign significand exponent _ =>
    signText sign ++ style.layOut (Decimal.shortest format style.tie significand exponent)

def FloatStyle.single (style : FloatStyle) (x : Float32) : String :=
  style.write .binary32 x.toModel.unpack

def FloatStyle.double (style : FloatStyle) (x : Float) : String :=
  style.write .binary64 x.toModel.unpack

/-- A count of `10 ^ -places` with the point put in. -/
def layFixed (places count : Nat) : String :=
  let digits := Nat.toDigits 10 count
  let padded := List.replicate (places + 1 - digits.length) '0' ++ digits
  .ofList (padded.take (padded.length - places)) ++ "." ++ .ofList (padded.drop (padded.length - places))

/-- A double rounded to `places` decimal places, a tie to the even neighbour; the sign of what rounds to
zero is kept. -/
def writeFixed (places : Nat) (x : Float) : String :=
  match x.toModel.unpack with
  | .notANumber => "NaN"
  | .infinity sign => signText sign ++ "inf"
  | .zero sign => signText sign ++ layFixed places 0
  | .finite sign significand exponent _ =>
    let num := significand * Nat.pow 2 exponent.toNat * Nat.pow 10 places
    signText sign ++ layFixed places (roundDiv num (Nat.pow 2 (-exponent).toNat) .even)

end BehaviourGraph
