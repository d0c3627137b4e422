import BehaviourGraph.Run.Walk.Node

/-!
# Ticks

A tick goes depth first from the active component: a node acts, then its transitions are ticked in
order, and each that opens ticks its end.  `visit` takes the number of node ticks that may still be
nested; at zero the node is refused.
-/

namespace BehaviourGraph.Walk

variable {κ τ ρ : Type}

/-- Tick a node with at most `budget` node ticks nested, its own included. -/
def visit [Clock κ τ] [RandomSource ρ] [Platform] (g : Graph κ) : Nat → NodeId → Walk κ τ ρ Unit
  | 0, id => report (.depthExceeded id g.config.maxTickDepth)
  | budget + 1, id => do
    change fun s => { s with depth := s.depth + 1 }
    match g.node? id with
    | some n => runNode g id n (tickTransition g (visit g budget))
    | none => pure ()
    change fun s => { s with depth := s.depth - 1 }

/-- One tick: due hand-offs, the walk from the active component, and the sweep of the visited flags.
The sweep before it clears what a walk that was broken off has left. -/
def tick [Clock κ τ] [RandomSource ρ] [Platform] (g : Graph κ) : Walk κ τ ρ Unit := do
  change State.sweep
  let now ← readClock
  modify (Session.handOver g now)
  let s ← get
  report (.tickStarted s.state.control)
  change fun s => { s with depth := 0 }
  visit g g.config.maxTickDepth s.state.control
  change State.sweep
  let s ← get
  report (.tickEnded s.state.control)

/-- Hand control back to the entry node and tell the host. -/
def reset (g : Graph κ) : Walk κ τ ρ Unit := do
  modify (Session.switchTo g entryNode)
  runHook .reset g.onReset
  report (.reset entryNode)

end BehaviourGraph.Walk
