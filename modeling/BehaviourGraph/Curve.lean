import BehaviourGraph.Number.Conversion
import BehaviourGraph.Number.Exponential
import BehaviourGraph.PartitionPoint

/-!
# Response curves

A curve maps a raw score onto a scale on which scores of different origin compare.  Keyframe curves run
in straight lines through their keys.  The position of a key is kept as bits: keys are ordered by the
total order of floats, which tells the two zeros apart and the two signs of NaN.
-/

namespace BehaviourGraph

structure Keyframe where
  /-- The bits of the position. -/
  bits : UInt32
  /-- The value at the position. -/
  y : Float32

namespace Keyframe

def x (k : Keyframe) : Float32 := .ofBits k.bits

/-- The place of the position in the total order: negative NaN, the numbers from `-inf` to `inf` with
`-0` before `+0`, positive NaN. -/
def rank (k : Keyframe) : Nat :=
  let bits := k.bits.toNat
  if bits < Nat.pow 2 31 then bits + Nat.pow 2 31 else Nat.pow 2 32 - 1 - bits

/-- The keys by rank; equal ranks keep their order. -/
def sort (keys : List Keyframe) : List Keyframe :=
  keys.mergeSort fun a b => a.rank ≤ b.rank

/-- Whether no key is followed by one further left; a NaN position is never in order. -/
def inOrder : List Keyframe → Bool
  | a :: b :: rest => a.x ≤ b.x && inOrder (b :: rest)
  | _ => true

/-- Spans up to this width are steps: the right key decides. -/
def leastSpan : Float32 := .ofBits 0x34000000

/-- The value at `x` on the line from key `a` to key `b`. -/
def between (a b : Keyframe) (x : Float32) : Float32 :=
  let span := b.x - a.x
  if span ≤ leastSpan then b.y
  else a.y + (b.y - a.y) * (x - a.x) / span

/-- The value at `x`, for keys in order: constant outside the first and last key, a line between the two
keys around `x`; `none` if no two keys are around it. -/
def interpolate (keys : List Keyframe) (x : Float32) : Option Float32 :=
  match keys.head?, keys.getLast? with
  | some first, some last =>
    if x ≤ first.x then some first.y
    else if last.x ≤ x then some last.y
    else
      match partitionPoint (fun k => k.x ≤ x) keys with
      | 0 => none
      | left + 1 =>
        match keys[left]?, keys[left + 1]? with
        | some a, some b => some (between a b x)
        | _, _ => none
  | _, _ => some 0.0

/-- The keys as they are searched: sorted first if they are out of order. -/
def ordered (keys : List Keyframe) : List Keyframe :=
  if inOrder keys then keys else sort keys

end Keyframe

inductive Curve where
  | identity
  | linear (slope intercept : Float32)
  /-- A scaled power of the score, negative scores taken as zero. -/
  | power (exponent scale : Float32)
  /-- A sigmoid around a midpoint. -/
  | logistic (steepness midpoint : Float32)
  /-- `low` below the threshold, `high` from there on. -/
  | step (threshold low high : Float32)
  | keyframes (keys : List Keyframe)

/-- The single-precision power, computed in double precision. -/
def powSingle (x y : Float32) : Float32 :=
  narrow (Float.pow (widen x) (widen y))

/-- A score with negative values and NaN replaced by zero. -/
def clampToZero (x : Float32) : Float32 :=
  if 0.0 < x then x else 0.0

namespace Curve

instance : Inhabited Curve := ⟨identity⟩

def ofKeys (keys : List Keyframe) : Curve :=
  keyframes (Keyframe.sort keys)

/-- The curve's value at `x`.  It is `none` only for keyframes none of which bracket `x`. -/
def evaluate [Platform] (c : Curve) (x : Float32) : Option Float32 :=
  match c with
  | identity => some x
  | linear slope intercept => some (slope * x + intercept)
  | power exponent scale => some (scale * powSingle (clampToZero x) exponent)
  | logistic steepness midpoint => some (1.0 / (1.0 + Platform.exp (-steepness * (x - midpoint))))
  | step threshold low high => some (if threshold ≤ x then high else low)
  | keyframes keys =>
    if x.isNaN then some x else Keyframe.interpolate (Keyframe.ordered keys) x

end Curve

end BehaviourGraph
