import BehaviourGraph.Run.Walk.Basic

/-!
# Ticking transitions

A transition that is ticked rolls its gates and asks its guard; if both let it through it ticks its end.
The transitions of a port are ticked in order, until one that opens ends the group.
-/

namespace BehaviourGraph.Walk

variable {κ τ ρ : Type}

/-- Whether the gates of a transition let it through.  If so its cooldown starts again. -/
def rollGates [Clock κ τ] [RandomSource ρ] (id : TransitionId) (t : Transition κ) :
    Walk κ τ ρ Bool := do
  let now ← readClock
  let s ← get
  if !t.cooldownReady (s.state.firing id) now then return false
  if !(← passesChance) then return false
  if t.cooldown.isZero then
    record (.fired id now none)
  else
    let sample ← draw id t.cooldown.min t.cooldown.max
    change (State.setFiring id ⟨some now, sample⟩)
    record (.fired id now (some sample))
  return true
where
  /-- One draw sets the percentage, another must not exceed it. -/
  passesChance : Walk κ τ ρ Bool := do
    if t.probability.isAlways then return true
    let threshold ← draw id t.probability.min t.probability.max
    let drawn ← draw id 0.0 percentMax
    return drawn ≤ threshold

/-- Whether the guard of a transition lets it through. -/
def passesGuard (id : TransitionId) (t : Transition κ) : Walk κ τ ρ Bool := do
  match t.guard with
  | none => return true
  | some guard =>
    let result ← invoke (.guard id) guard
    change (State.setStatus (.transition id) .normal)
    verdict (.transition id) t.labelText t.reverse result

/-- Lead on through a transition if its gates and its guard let it; `visit` ticks its end.  The answer is
whether its siblings go on. -/
def follow [Clock κ τ] [RandomSource ρ] (visit : NodeId → Walk κ τ ρ Unit) (id : TransitionId)
    (t : Transition κ) : Walk κ τ ρ Bool := do
  if !(← rollGates id t) then return true
  change (State.mark (.transition id))
  if !(← passesGuard id t) then return true
  record (.opened id)
  visit t.finish
  return !t.terminatesGroup

/-- Tick a transition.  One that captures control gives it to its start first. -/
def tickTransition [Clock κ τ] [RandomSource ρ] (g : Graph κ) (visit : NodeId → Walk κ τ ρ Unit)
    (id : TransitionId) : Walk κ τ ρ Bool := do
  match g.transition? id with
  | none => return true
  | some t =>
    record (.ticked id)
    if t.capturesControl then modify (Session.switchTo g t.start)
    follow visit id t

/-- Tick transitions in order until one asks to stop. -/
def fanOut (tick : TransitionId → Walk κ τ ρ Bool) : List TransitionId → Walk κ τ ρ Unit
  | [] => pure ()
  | id :: ids => do if ← tick id then fanOut tick ids

end BehaviourGraph.Walk
