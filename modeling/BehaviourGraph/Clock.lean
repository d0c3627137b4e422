import BehaviourGraph.Number.Conversion
import BehaviourGraph.Number.Text

/-!
# Clocks

A graph only asks what time it is, in seconds.  `StepClock` counts the steps of a host that advances in
equal steps; `ManualClock` holds whatever it was set to.
-/

namespace BehaviourGraph

/-- A source of time that may look at the host's context `κ` and has a state `τ` of its own. -/
class Clock (κ τ : Type) where
  /-- The time in seconds, and the clock after the reading. -/
  read : κ → τ → Float × τ

structure Step where
  count : UInt64
  deriving DecidableEq, Inhabited, Repr

namespace Step

def offset (s : Step) (n : UInt64) : Step := ⟨s.count + n⟩

def text (s : Step) : String := s!"S{s.count}"

end Step

structure StepClock where
  stepSecs : Float
  current : Step

namespace StepClock

def start (stepSecs : Float) : StepClock := ⟨stepSecs, ⟨0⟩⟩

def now (c : StepClock) : Float := c.current.count.toFloat * c.stepSecs

def advance (c : StepClock) (n : UInt64) : StepClock :=
  { c with current := c.current.offset n }

/-- How many steps cover a duration; none if steps have no length. -/
def stepsFor (c : StepClock) (secs : Float) : UInt64 :=
  if c.stepSecs ≤ 0.0 then 0 else wholeUnits (secs / c.stepSecs)

/-- The step and the time, to the millisecond. -/
def text (c : StepClock) : String := s!"{c.current.text} ({writeFixed 3 c.now}s)"

instance {κ : Type} : Clock κ StepClock := ⟨fun _ c => (c.now, c)⟩

end StepClock

structure ManualClock where
  now : Float

namespace ManualClock

def advance (c : ManualClock) (secs : Float) : ManualClock := ⟨c.now + secs⟩

instance {κ : Type} : Clock κ ManualClock := ⟨fun _ c => (c.now, c)⟩

end ManualClock

end BehaviourGraph
