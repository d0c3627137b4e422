import BehaviourGraph.Run.Session

/-!
# Parts of a walk

A walk changes a session step by step.  A failing callback never stops it, it only lowers the status of
its element.  What breaks the walk off is an `Abort`; everything done until then stays.
-/

namespace BehaviourGraph

inductive Abort where
  | raised (message : String)
  /-- The random source could not serve a window. -/
  | noDraw
  /-- A curve has no value at a score. -/
  | noValue
  deriving DecidableEq, Repr

abbrev Walk (κ τ ρ : Type) := EStateM Abort (Session κ τ ρ)

namespace Walk

variable {κ τ ρ α : Type}

def change (f : State → State) : Walk κ τ ρ Unit := modify (Session.change f)

def record (e : Event κ) : Walk κ τ ρ Unit := modify (Session.record e)

def report (r : Report) : Walk κ τ ρ Unit := modify (Session.report r)

/-! ## The surroundings -/

def readClock [Clock κ τ] : Walk κ τ ρ Float :=
  modifyGet fun s =>
    let (now, clock) := Clock.read s.context s.clock
    (now, { s with clock })

/-- A random value for a gate of a transition. -/
def draw [RandomSource ρ] (t : TransitionId) (lo hi : Float32) : Walk κ τ ρ Float32 := fun s =>
  match RandomSource.range lo hi s.random with
  | some (value, random) => .ok value ({ s with random }.record (.drew t lo hi value))
  | none => .error .noDraw s

def runHook (call : Call) : Option (Hook κ) → Walk κ τ ρ Unit
  | none => pure ()
  | some hook => fun s =>
    match hook s.context with
    | .ok () context =>
      .ok () ({ s with context }.record (.called call s.context context .returned))
    | .error message context =>
      .error (.raised message)
        ({ s with context }.record (.called call s.context context (.raised message)))

/-- Run a callback; its failure is a value. -/
def invoke [OfValue α] (call : Call) (callback : Callback κ α) :
    Walk κ τ ρ (Except CallbackError α) := fun s =>
  match callback.invoke s.context with
  | .ok (.ok a) context =>
    .ok (.ok a) ({ s with context }.record (.called call s.context context .returned))
  | .ok (.error e) context =>
    .ok (.error e) ({ s with context }.record (.called call s.context context (.failed e)))
  | .error message context =>
    .error (.raised message)
      ({ s with context }.record (.called call s.context context (.raised message)))

/-! ## Failures -/

/-- A failure lowers the status of its element and is reported. -/
def fail (e : Element) (label : String) (error : CallbackError) : Walk κ τ ρ Unit := do
  change (State.demote e error.status)
  report (.failed e label error)

/-- The value of a result, if it is no failure. -/
def settle (e : Element) (label : String) : Except CallbackError α → Walk κ τ ρ (Option α)
  | .ok a => pure (some a)
  | .error error => do
    fail e label error
    pure none

/-- The verdict of a guard, negated if asked for; false if it failed. -/
def verdict (e : Element) (label : String) (reverse : Bool) (result : Except CallbackError Bool) :
    Walk κ τ ρ Bool := do
  match ← settle e label result with
  | some holds => pure (holds != reverse)
  | none => pure false

end Walk

end BehaviourGraph
