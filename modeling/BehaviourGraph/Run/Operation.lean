import BehaviourGraph.Graph.Builder
import BehaviourGraph.Run.Tick

/-!
# Operations on a running graph

What a host can ask of a session, and the answers.  A request that names an unknown element or an
unusable time is refused and changes nothing.
-/

namespace BehaviourGraph

inductive Operation where
  | tick
  | reset
  | setActive (node : NodeId)
  /-- Give control to a node once the clock reaches a time. -/
  | resumeAt (node : NodeId) (due : Float)
  | cancel (node : NodeId)
  /-- Take down a flag of an element and of what follows it. -/
  | relax (flag : Flag) (element : Element)

inductive Response where
  | done
  /-- How many hand-offs were dropped. -/
  | cancelled (count : Nat)
  | refused (cause : GraphError)
  | aborted (cause : Abort)

namespace Graph

variable {κ : Type}

/-- The error of naming an element that the graph does not have. -/
def unknown : Element → GraphError
  | .node id => .unknownNode id
  | .transition id => .unknownTransition id

def hasElement (g : Graph κ) : Element → Bool
  | .node id => g.hasNode id
  | .transition id => g.hasTransition id

end Graph

namespace Session

variable {κ τ ρ : Type}

/-- Run a part of a walk to its end or to where it breaks off. -/
def run (walk : Walk κ τ ρ Unit) (s : Session κ τ ρ) : Response × Session κ τ ρ :=
  match walk s with
  | .ok () s => (.done, s)
  | .error cause s => (.aborted cause, s)

/-- Do what is asked if the graph has the element, refuse it otherwise. -/
def provided (g : Graph κ) (e : Element) (s : Session κ τ ρ)
    (act : Session κ τ ρ → Response × Session κ τ ρ) : Response × Session κ τ ρ :=
  if g.hasElement e then act s else (.refused (Graph.unknown e), s)

def perform [Clock κ τ] [RandomSource ρ] [Platform] (g : Graph κ) (operation : Operation)
    (s : Session κ τ ρ) : Response × Session κ τ ρ :=
  match operation with
  | .tick => s.run (Walk.tick g)
  | .reset => s.run (Walk.reset g)
  | .setActive id => s.provided g (.node id) fun s => (.done, s.switchTo g id)
  | .resumeAt id due =>
    s.provided g (.node id) fun s =>
      if due.isFinite then
        (.done, s.change fun state => { state with queue := state.queue.push due id })
      else (.refused (.invalidResumeTime due), s)
  | .cancel id =>
    (.cancelled (s.state.queue.pending id),
      s.change fun state => { state with queue := state.queue.cancel id })
  | .relax flag e => s.provided g e fun s => (.done, s.change (State.relax g flag e))

end Session

end BehaviourGraph
