import BehaviourGraph.Clock
import BehaviourGraph.Config
import BehaviourGraph.Curve
import BehaviourGraph.Identifier
import BehaviourGraph.Json.Reader
import BehaviourGraph.Chance.Window

/-!
# Stored forms

How configurations, curves, windows, identifiers and steps are written to and read from JSON.  A record
may also be read from an array in field order.  A configuration has a default for every field, every
other record needs all of them.  A curve is tagged with its name.
-/

namespace BehaviourGraph.Json

/-- A finite single-precision float; others have no JSON form. -/
def writeSingle (x : Float32) : String :=
  if x.isFinite then FloatStyle.stored.single x else "null"

/-- An object of fields that are already written. -/
def writeRecord (fields : List (String × String)) : String :=
  let body := fields.map fun (name, value) => "\"" ++ name ++ "\":" ++ value
  "\x7b" ++ ",".intercalate body ++ "\x7d"

/-- An array of elements that are already written. -/
def writeArray (elements : List String) : String :=
  "[" ++ ",".intercalate elements ++ "]"

def countBound : Nat := Nat.pow 2 64

def Value.word? (value : Value) : Option UInt64 :=
  (value.count? countBound).map UInt64.ofNat

end BehaviourGraph.Json

namespace BehaviourGraph

open Json (Value writeRecord writeArray writeSingle)

namespace Config

/-- A configuration whose absent fields are taken from another. -/
def ofJson? (absent : Config) (value : Value) : Option Config := do
  match ← value.record? ["seed", "max_tick_depth"] with
  | [seed, depth] =>
    let seed ← Value.orElse Value.word? absent.seed seed
    let depth ← Value.orElse (Value.count? Json.countBound) absent.maxTickDepth depth
    some ⟨seed, depth⟩
  | _ => none

def toJson (c : Config) : String :=
  writeRecord [("seed", toString c.seed), ("max_tick_depth", toString c.maxTickDepth)]

end Config

namespace Window

def ofJson? (value : Value) : Option Window := do
  match ← value.fullRecord? ["min", "max"] with
  | [min, max] => some ⟨← min.single?, ← max.single?⟩
  | _ => none

def toJson (w : Window) : String :=
  writeRecord [("min", writeSingle w.min), ("max", writeSingle w.max)]

end Window

namespace NodeId

def ofJson? (value : Value) : Option NodeId :=
  (value.count? identifierCount).map NodeId.mk

def toJson (id : NodeId) : String := toString id.index

end NodeId

namespace TransitionId

def ofJson? (value : Value) : Option TransitionId :=
  (value.count? identifierCount).map TransitionId.mk

def toJson (id : TransitionId) : String := toString id.index

end TransitionId

namespace Step

def ofJson? (value : Value) : Option Step :=
  value.word?.map Step.mk

def toJson (s : Step) : String := toString s.count

end Step

namespace Keyframe

/-- A key is a pair of its position and its value. -/
def ofJson? (value : Value) : Option Keyframe := do
  match ← value.array? with
  | [x, y] => some ⟨(← x.single?).toBits, ← y.single?⟩
  | _ => none

def toJson (k : Keyframe) : String := writeArray [writeSingle k.x, writeSingle k.y]

end Keyframe

namespace Curve

/-- The parameters of a curve, all single-precision floats. -/
def parameters? (names : List String) (value : Value) : Option (List Float32) := do
  (← value.fullRecord? names).mapM Value.single?

def ofTagged? (tag : String) (value : Value) : Option Curve := do
  match tag with
  | "Identity" =>
    match value with
    | .null => some identity
    | _ => none
  | "Linear" =>
    match ← parameters? ["slope", "intercept"] value with
    | [slope, intercept] => some (linear slope intercept)
    | _ => none
  | "Power" =>
    match ← parameters? ["exponent", "scale"] value with
    | [exponent, scale] => some (power exponent scale)
    | _ => none
  | "Logistic" =>
    match ← parameters? ["steepness", "midpoint"] value with
    | [steepness, midpoint] => some (logistic steepness midpoint)
    | _ => none
  | "Step" =>
    match ← parameters? ["threshold", "low", "high"] value with
    | [threshold, low, high] => some (step threshold low high)
    | _ => none
  | "Keyframes" => some (keyframes (← (← value.array?).mapM Keyframe.ofJson?))
  | _ => none

/-- A curve: its name alone where it has no parameters, or an object with the name as only field. -/
def ofJson? : Value → Option Curve
  | .string (some "Identity") => some identity
  | .object [(some tag, value)] => ofTagged? tag value
  | _ => none

/-- An object with a tag as its only field. -/
def writeTagged (tag : String) (value : String) : String := writeRecord [(tag, value)]

def toJson : Curve → String
  | identity => "\"Identity\""
  | linear slope intercept => writeTagged "Linear"
      (writeRecord [("slope", writeSingle slope), ("intercept", writeSingle intercept)])
  | power exponent scale => writeTagged "Power"
      (writeRecord [("exponent", writeSingle exponent), ("scale", writeSingle scale)])
  | logistic steepness midpoint => writeTagged "Logistic"
      (writeRecord [("steepness", writeSingle steepness), ("midpoint", writeSingle midpoint)])
  | step threshold low high => writeTagged "Step"
      (writeRecord [("threshold", writeSingle threshold), ("low", writeSingle low),
        ("high", writeSingle high)])
  | keyframes keys => writeTagged "Keyframes" (writeArray (keys.map Keyframe.toJson))

end Curve

end BehaviourGraph
