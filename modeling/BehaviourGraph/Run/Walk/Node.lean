import BehaviourGraph.Run.Walk.Transition

/-!
# Acting as a node

A node is entered, chooses a port, ticks the transitions of that port and is left.  Every node but the
entry refuses a second visit.
-/

namespace BehaviourGraph.Walk

variable {κ τ ρ : Type}

/-- Begin a node; the answer is whether it goes on.  A node with a callback that was visited already is
left alone, unless it is the active component: that is what stops the walk on cycles. -/
def enter (g : Graph κ) (id : NodeId) (n : Node κ) : Walk κ τ ρ Bool := do
  if n.kind = .entry then
    record (.entered id)
    runHook (.preTick id) n.preTick
    change (State.mark (.node id))
    return true
  let s ← get
  if s.state.control ≠ id && s.state.has .visited (.node id) then return false
  record (.entered id)
  change (State.mark (.node id))
  runHook (.preTick id) n.preTick
  if n.capturesControl then modify (Session.claim g id)
  change (State.setStatus (.node id) .normal)
  return true

/-- End a node.  An active component with a callback frees itself for the next tick. -/
def leave (g : Graph κ) (id : NodeId) (n : Node κ) : Walk κ τ ρ Unit := do
  let s ← get
  if n.kind ≠ .entry && s.state.control = id then change (State.relax g .visited (.node id))
  runHook (.postTick id) n.postTick
  record (.left id)

/-- The better of the best branch so far and another.  NaN never wins, and a tie keeps the earlier. -/
def better (best : Option (Nat × Float32)) (index : Nat) (score : Float32) : Option (Nat × Float32) :=
  if score.isNaN then best
  else
    match best with
    | none => some (index, score)
    | some (_, top) => if top < score then some (index, score) else best

def evaluate [Platform] (c : Curve) (score : Float32) : Walk κ τ ρ Float32 := fun s =>
  match c.evaluate score with
  | some value => .ok value s
  | none => .error .noValue s

/-- Score branches in order, from a given index on. -/
def scoreBranches [Platform] (id : NodeId) (label : String) :
    Nat → Option (Nat × Float32) → List (Branch κ) → Walk κ τ ρ (Option (Nat × Float32))
  | _, best, [] => pure best
  | index, best, branch :: branches => do
    match ← invoke (.scorer id index) branch.scorer with
    | .ok raw =>
      let score ← evaluate branch.curve raw
      scoreBranches id label (index + 1) (better best index score) branches
    | .error error =>
      fail (.node id) label error
      scoreBranches id label (index + 1) best branches

/-- Call what a node has to call.  The answer is the port that it goes on from, if any. -/
def choose [Platform] (id : NodeId) (n : Node κ) : Walk κ τ ρ (Option Port) :=
  match n.behaviour with
  | .entry => return some .out
  | .action callback => do
    let result ← invoke (.body id) callback
    let _ ← settle (.node id) n.label result
    return some .out
  | .condition guard reverse => do
    let result ← invoke (.body id) guard
    let holds ← verdict (.node id) n.label reverse result
    return some (if holds then .whenTrue else .whenFalse)
  | .loop guard reverse => do
    let result ← invoke (.body id) guard
    let holds ← verdict (.node id) n.label reverse result
    return some (if holds then .body else .finish)
  | .utility branches => do
    let best ← scoreBranches id n.label 0 none branches
    return best.map fun (index, _) => .branch index

/-- Act as a node; `tick` ticks a transition. -/
def runNode [Platform] (g : Graph κ) (id : NodeId) (n : Node κ)
    (tick : TransitionId → Walk κ τ ρ Bool) : Walk κ τ ρ Unit := do
  if ← enter g id n then
    let port ← choose id n
    modify (Session.commit g id n port)
    match port with
    | some port => fanOut tick (g.exits id port)
    | none => pure ()
    leave g id n

end BehaviourGraph.Walk
