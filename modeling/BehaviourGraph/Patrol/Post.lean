import BehaviourGraph.Graph.Builder
import BehaviourGraph.Patrol.Sentry

/-!
# The sentry's graph

A condition looks for a threat.  With none in sight the sentry walks and now and then glances around;
otherwise a utility weighs firing against reloading, and a loop reloads until the magazine is full.
-/

namespace BehaviourGraph.Patrol

inductive Post where
  | entry
  | threat
  | respond
  | fire
  | reloading
  | load
  | ready
  | walk
  | glance
  deriving DecidableEq, Inhabited, Repr

def glanceArc : Float32 := 120.0

/-- A callback that answers a question about the sentry. -/
def ask {α : Type} (question : Sentry → α) : Callback Sentry α :=
  .noArgs fun s => .ok (.ok (question s)) s

/-- A callback that changes the sentry. -/
def order (change : Sentry → Sentry) : Callback Sentry Unit :=
  .noArgs fun s => .ok (.ok ()) (change s)

/-- A callback that may fail; then the sentry stays as it is. -/
def attempt (change : Sentry → Except CallbackError Sentry) : Callback Sentry Unit :=
  .noArgs fun s =>
    match change s with
    | .ok s => .ok (.ok ()) s
    | .error e => .ok (.error e) s

namespace Post

/-- The posts that are added to the entry node, in order. -/
def added : List Post := [threat, respond, fire, reloading, load, ready, walk, glance]

def node : Post → NodeId
  | entry => entryNode
  | threat => ⟨1⟩
  | respond => ⟨2⟩
  | fire => ⟨3⟩
  | reloading => ⟨4⟩
  | load => ⟨5⟩
  | ready => ⟨6⟩
  | walk => ⟨7⟩
  | glance => ⟨8⟩

def label : Post → String
  | entry => "Entry"
  | threat => "threat in sight"
  | respond => "respond"
  | fire => "fire"
  | reloading => "reloading"
  | load => "load round"
  | ready => "ready"
  | walk => "walk"
  | glance => "glance"

/-- Firing gains with the first rounds; reloading gains with every round missing. -/
def choices : List (Branch Sentry) :=
  [⟨ask fun s => s.ammo.toFloat32, .logistic 2.0 0.5⟩,
    ⟨ask fun s => s.roundsMissing.toFloat32, .linear 0.25 0.0⟩]

def behaviour : Post → Behaviour Sentry
  | entry => .entry
  | threat => .condition (ask Sentry.seesThreat) false
  | respond => .utility choices
  | fire => .action (attempt Sentry.fire)
  | reloading => .loop (ask fun s => s.ammo < magazine) false
  | load => .action (order Sentry.loadRound)
  | ready => .action (order id)
  | walk => .action (order Sentry.walk)
  | glance => .action (.float (fun _ s => .ok (.ok ()) s.glance) glanceArc)

end Post

/-- A transition between two posts. -/
structure Route where
  start : Post
  port : Port
  finish : Post
  spec : TransitionSpec Sentry := {}

/-- The number of the transition to the trigger. -/
def triggerRoute : TransitionId := ⟨3⟩

/-- The transitions of the graph, in order. -/
def routes : List Route :=
  [⟨.entry, .out, .threat, {}⟩,
    ⟨.threat, .whenTrue, .respond, {}⟩,
    ⟨.threat, .whenFalse, .walk, {}⟩,
    ⟨.respond, .branch 0, .fire, { label := some "trigger", cooldown := ⟨0.5, 0.75⟩ }⟩,
    ⟨.respond, .branch 1, .reloading, {}⟩,
    ⟨.reloading, .body, .load, {}⟩,
    ⟨.reloading, .finish, .ready, {}⟩,
    ⟨.walk, .out, .glance, { label := some "look around", probability := ⟨20.0, 40.0⟩ }⟩]

def addPosts : List Post → Building Sentry Unit
  | [] => return ()
  | post :: posts => do
    let _ ← Builder.add post.label post.behaviour []
    addPosts posts

def addRoutes : List Route → Building Sentry Unit
  | [] => return ()
  | route :: routes => do
    let _ ← Builder.connect route.start.node route.port route.finish.node route.spec
    addRoutes routes

/-- The sentry's graph.  The reset hook leaves the corridor as it is. -/
def graph (config : Config) : Except GraphError (Graph Sentry) :=
  match (do addPosts Post.added; addRoutes routes : Building Sentry Unit)
      { config, onReset := some (EStateM.pure ()) } with
  | .ok () b => b.build
  | .error cause _ => .error cause

end BehaviourGraph.Patrol
