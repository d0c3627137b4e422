import BehaviourGraph.Graph.Callback

/-!
# The sentry and the corridor

The world that the patrol's callbacks act on: a sentry who walks up and down a corridor, fires and
reloads, and an intruder who comes closer step by step.
-/

namespace BehaviourGraph.Patrol

/-- The sentry walks from position zero to one less than this. -/
def corridorLength : Int32 := 20

/-- How far the sentry sees. -/
def sightRange : Float32 := 8.0

/-- How far away an intruder appears. -/
def spawnRange : Float32 := 12.0

/-- How far an intruder comes in a step. -/
def intruderSpeed : Float32 := 0.5

/-- How many hits an intruder takes. -/
def intruderHealth : UInt32 := 3

/-- How many rounds the magazine holds. -/
def magazine : UInt32 := 4

/-- In a clear corridor an intruder appears at every multiple of this step number. -/
def spawnEvery : Nat := 24

structure Intruder where
  distance : Float32
  health : UInt32

structure Sentry where
  position : Int32 := 0
  heading : Int32 := 1
  ammo : UInt32 := magazine
  intruder : Option Intruder := none
  shots : UInt32 := 0
  kills : UInt32 := 0
  glances : UInt32 := 0
  breaches : UInt32 := 0

/-- What a step brings. -/
inductive Arrival where
  | nothing
  /-- An intruder has appeared. -/
  | spotted
  /-- The intruder has reached the sentry. -/
  | breached
  deriving DecidableEq, Repr

namespace Sentry

/-- Whether an intruder is near enough to be seen. -/
def seesThreat (s : Sentry) : Bool :=
  match s.intruder with
  | some intruder => intruder.distance ≤ sightRange
  | none => false

/-- One pace on, after turning round at the end of the corridor. -/
def walk (s : Sentry) : Sentry :=
  let ahead := s.position + s.heading
  let heading := if 0 ≤ ahead && ahead < corridorLength then s.heading else -s.heading
  { s with heading, position := s.position + heading }

def glance (s : Sentry) : Sentry := { s with glances := s.glances + 1 }

/-- One shot.  It needs a round in the magazine and a target. -/
def fire (s : Sentry) : Except CallbackError Sentry :=
  if s.ammo = 0 then .error (.unexpected "trigger pulled on an empty magazine")
  else
    match s.intruder with
    | none => .error (.componentNotFound "target")
    | some intruder =>
      let health := if intruder.health = 0 then 0 else intruder.health - 1
      let hit := { s with ammo := s.ammo - 1, shots := s.shots + 1 }
      .ok (if health = 0 then { hit with intruder := none, kills := s.kills + 1 }
        else { hit with intruder := some { intruder with health } })

def roundsMissing (s : Sentry) : UInt32 := magazine - s.ammo

def loadRound (s : Sentry) : Sentry := { s with ammo := min (s.ammo + 1) magazine }

/-- The world's own move in a step: an intruder comes closer, or a new one appears. -/
def advance (step : Nat) (s : Sentry) : Arrival × Sentry :=
  match s.intruder with
  | some intruder =>
    let distance := intruder.distance - intruderSpeed
    if distance ≤ 0.0 then (.breached, { s with intruder := none, breaches := s.breaches + 1 })
    else (.nothing, { s with intruder := some { intruder with distance } })
  | none =>
    if step % spawnEvery = 0 then
      (.spotted, { s with intruder := some ⟨spawnRange, intruderHealth⟩ })
    else (.nothing, s)

end Sentry

end BehaviourGraph.Patrol
