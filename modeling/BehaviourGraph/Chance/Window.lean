import BehaviourGraph.Number.Text
import BehaviourGraph.Chance.Source

/-!
# Sampling windows

A closed interval from which a probability or a cooldown is drawn.  A window for percentages must lie
within the percentage scale, one for durations must be finite; `validate` is the test for both.
-/

namespace BehaviourGraph

structure Window where
  min : Float32
  max : Float32

inductive WindowUse where
  | probability
  | cooldown
  deriving DecidableEq, Repr

structure InvalidWindow where
  use : WindowUse
  window : Window

namespace WindowUse

def text : WindowUse → String
  | probability => "probability"
  | cooldown => "cooldown"

/-- The greatest bound that the use allows. -/
def limit : WindowUse → Float32
  | probability => percentMax
  | cooldown => .ofBits 0x7f7fffff

end WindowUse

def InvalidWindow.message (e : InvalidWindow) : String :=
  let min := FloatStyle.plain.single e.window.min
  let max := FloatStyle.plain.single e.window.max
  s!"invalid {e.use.text} window [{min}, {max}]"

namespace Window

/-- The probability window that never gates. -/
def always : Window := ⟨percentMax, percentMax⟩

/-- The cooldown window that never gates. -/
def noCooldown : Window := ⟨0.0, 0.0⟩

def exactly (value : Float32) : Window := ⟨value, value⟩

/-- Whether this is the probability window that never gates. -/
def isAlways (w : Window) : Bool :=
  w.min == percentMax && w.max == percentMax

/-- Whether this is the cooldown window that never gates. -/
def isZero (w : Window) : Bool :=
  w.min == 0.0 && w.max == 0.0

def sample {ρ : Type} [RandomSource ρ] (w : Window) (r : ρ) : Option (Float32 × ρ) :=
  RandomSource.range w.min w.max r

/-- Whether the window suits a use: finite, not negative, not empty, within the limit. -/
def suits (w : Window) (use : WindowUse) : Bool :=
  w.min.isFinite && w.max.isFinite && 0.0 ≤ w.min && w.min ≤ w.max && w.max ≤ use.limit

/-- The window itself is the cause if it does not suit its use. -/
def validate (w : Window) (use : WindowUse) : Except InvalidWindow Unit :=
  if w.suits use then .ok () else .error ⟨use, w⟩

def text (w : Window) : String :=
  let min := FloatStyle.diagnostic.single w.min
  let max := FloatStyle.diagnostic.single w.max
  s!"Window \x7b min: {min}, max: {max} \x7d"

end Window

end BehaviourGraph
