import BehaviourGraph.Graph.Callback
import BehaviourGraph.Identifier
import BehaviourGraph.Run.LogLine
import BehaviourGraph.Graph.Node

/-!
# Journal

Everything that happens in a graph, in order.  Reports are what observers of the graph are told; the
other events are the calls of the host, the random draws and the steps of the walk.  An observer is any
function of the reports, and `Report.logLine` is the one that writes a log.
-/

namespace BehaviourGraph

inductive Report where
  | tickStarted (active : NodeId)
  /-- A tick has ended with this active component. -/
  | tickEnded (active : NodeId)
  | activeChanged (previous active : NodeId)
  | reset (entry : NodeId)
  | failed (element : Element) (label : String) (error : CallbackError)
  /-- A node was not ticked because as many ticks as allowed were nested. -/
  | depthExceeded (node : NodeId) (limit : Nat)
  deriving DecidableEq, Repr

/-- The log line of a report: absences and the depth limit are warnings, failures errors, changes of
control are for debugging and tick boundaries for tracing. -/
def Report.logLine : Report → LogLine
  | tickStarted active => ⟨.trace, "tick start", [("active", .shown active.text)]⟩
  | tickEnded active => ⟨.trace, "tick end", [("active", .shown active.text)]⟩
  | activeChanged previous active =>
    ⟨.debug, "active component changed",
      [("from", .shown previous.text), ("to", .shown active.text)]⟩
  | reset entry => ⟨.debug, "graph reset", [("entry", .shown entry.text)]⟩
  | failed element label error =>
    let fields : List (String × LogValue) :=
      [("component", .shown element.text), ("label", .string label), ("error", .shown error.message)]
    match error with
    | .componentNotFound _ => ⟨.warn, "callback dependency missing", fields⟩
    | .unexpected _ => ⟨.error, "callback failed", fields⟩
  | depthExceeded node limit =>
    ⟨.warn, "tick depth limit reached; descent stopped",
      [("node", .shown node.text), ("limit", .shown (toString limit))]⟩

inductive Call where
  | preTick (node : NodeId)
  | postTick (node : NodeId)
  /-- The callback of an action, or the guard of a condition or loop. -/
  | body (node : NodeId)
  | scorer (node : NodeId) (branch : Nat)
  | guard (transition : TransitionId)
  | reset
  deriving DecidableEq, Repr

inductive Outcome where
  | returned
  | failed (error : CallbackError)
  | raised (message : String)
  deriving DecidableEq, Repr

inductive Event (κ : Type) where
  | reported (report : Report)
  /-- The host was called; the context before and after. -/
  | called (call : Call) (before after : κ) (outcome : Outcome)
  /-- A random value was drawn for a gate of a transition. -/
  | drew (transition : TransitionId) (lo hi value : Float32)
  /-- A node passed the check for repeated visits and begins. -/
  | entered (node : NodeId)
  /-- A node has chosen the port to go on from, or none. -/
  | chose (node : NodeId) (port : Option Port)
  | left (node : NodeId)
  | ticked (transition : TransitionId)
  /-- A transition has opened its gates at a time, with the cooldown drawn if it has one. -/
  | fired (transition : TransitionId) (time : Float) (cooldown : Option Float32)
  | opened (transition : TransitionId)

end BehaviourGraph
