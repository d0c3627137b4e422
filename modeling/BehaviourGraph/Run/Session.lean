import BehaviourGraph.Clock
import BehaviourGraph.Graph.Wiring
import BehaviourGraph.Run.Journal
import BehaviourGraph.Run.Marking
import BehaviourGraph.Chance.Source
import BehaviourGraph.Run.ResumeQueue

/-!
# Sessions

The state of a graph that is being run, together with its host's context, clock and random source
and the journal so far.  Two flags are kept for each element: *active* lasts until it is relaxed,
*visited* until the end of the tick at the latest.  The trail lists what was flagged as visited
since the last sweep.
-/

namespace BehaviourGraph

/-- The two flags of an element. -/
inductive Flag where
  /-- Kept across ticks. -/
  | active
  /-- Kept within a tick; it stops a second visit. -/
  | visited
  deriving DecidableEq, Inhabited, Repr

structure State where
  /-- The active component: where the next tick begins. -/
  control : NodeId
  active : Marking
  visited : Marking
  /-- The elements flagged as visited, latest first. -/
  trail : List Element
  status : ElementMap Status
  firings : Array Firing
  queue : ResumeQueue
  /-- How many node ticks are in progress. -/
  depth : Nat

namespace State

variable {κ : Type}

def start (g : Graph κ) : State where
  control := entryNode
  active := .empty g.nodes.size g.transitions.size
  visited := .empty g.nodes.size g.transitions.size
  trail := []
  status := .constant g.nodes.size g.transitions.size .normal
  firings := .replicate g.transitions.size {}
  queue := {}
  depth := 0

def has (s : State) (flag : Flag) (e : Element) : Bool :=
  match flag with
  | .active => s.active.has e
  | .visited => s.visited.has e

/-- Take down a flag of an element and of what follows it. -/
def relax (g : Graph κ) (flag : Flag) (e : Element) (s : State) : State :=
  match flag with
  | .active => { s with active := s.active.relax g.next e }
  | .visited => { s with visited := s.visited.relax g.next e }

def mark (e : Element) (s : State) : State :=
  { s with active := s.active.raise e, visited := s.visited.raise e, trail := e :: s.trail }

/-- Take down both flags of each transition of a port and of what follows it. -/
def relaxPort (g : Graph κ) (id : NodeId) (port : Port) (s : State) : State :=
  (g.exits id port).foldl
    (fun s t => (s.relax g .visited (.transition t)).relax g .active (.transition t)) s

/-- Relax every port of a node except the chosen one. -/
def relaxOthers (g : Graph κ) (id : NodeId) (n : Node κ) (chosen : Option Port) (s : State) : State :=
  (n.behaviour.ports.filter fun port => some port ≠ chosen).foldl (fun s port => s.relaxPort g id port) s

/-- Take down every visited flag on the trail. -/
def sweep (s : State) : State :=
  { s with visited := s.trail.foldl Marking.clear s.visited, trail := [] }

def setStatus (e : Element) (status : Status) (s : State) : State :=
  { s with status := s.status.set e status }

/-- Keep the worse of the status so far and another. -/
def demote (e : Element) (status : Status) (s : State) : State :=
  s.setStatus e ((s.status.get e).worst status)

def firing (s : State) (t : TransitionId) : Firing :=
  (s.firings[t.index]?).getD default

def setFiring (t : TransitionId) (firing : Firing) (s : State) : State :=
  { s with firings := s.firings.setIfInBounds t.index firing }

end State

/-- A graph's state with all that surrounds it. -/
structure Session (κ τ ρ : Type) where
  state : State
  context : κ
  clock : τ
  random : ρ
  journal : Array (Event κ) := #[]

namespace Session

variable {κ τ ρ : Type}

def start (g : Graph κ) (context : κ) (clock : τ) (random : ρ) : Session κ τ ρ :=
  { state := .start g, context, clock, random }

def record (e : Event κ) (s : Session κ τ ρ) : Session κ τ ρ :=
  { s with journal := s.journal.push e }

def report (r : Report) (s : Session κ τ ρ) : Session κ τ ρ := s.record (.reported r)

def change (f : State → State) (s : Session κ τ ρ) : Session κ τ ρ :=
  { s with state := f s.state }

/-- Give control to a node.  What the previous active component had running is relaxed first. -/
def switchTo (g : Graph κ) (id : NodeId) (s : Session κ τ ρ) : Session κ τ ρ :=
  let previous := s.state.control
  if previous = id then s
  else
    (s.change fun state =>
      { (state.relax g .visited (.node previous)).relax g .active (.node previous) with
        control := id }).report (.activeChanged previous id)

/-- Give control to a node in the middle of its tick.  The switch may have relaxed the node itself,
so it is marked again. -/
def claim (g : Graph κ) (id : NodeId) (s : Session κ τ ρ) : Session κ τ ρ :=
  (s.switchTo g id).change (State.mark (.node id))

/-- Act on the choice of a node.  A loop takes control if it goes on and hands it to the entry if it
ends; the ports that were not chosen are relaxed. -/
def commit (g : Graph κ) (id : NodeId) (n : Node κ) (chosen : Option Port) (s : Session κ τ ρ) :
    Session κ τ ρ :=
  let s := s.record (.chose id chosen)
  let s :=
    if n.kind ≠ .loop then s
    else if chosen = some .body then s.claim g id
    else s.switchTo g entryNode
  s.change (State.relaxOthers g id n chosen)

/-- Take the due hand-offs from the queue and give control to each in turn. -/
def handOver (g : Graph κ) (now : Float) (s : Session κ τ ρ) : Session κ τ ρ :=
  let (due, queue) := s.state.queue.drainDue now
  due.foldl (fun s id => s.switchTo g id) (s.change fun state => { state with queue })

end Session

end BehaviourGraph
