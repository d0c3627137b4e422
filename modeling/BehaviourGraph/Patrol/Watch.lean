import BehaviourGraph.Run.Operation
import BehaviourGraph.Patrol.Post
import BehaviourGraph.Patrol.Settings

/-!
# A patrol from start to end

In every step the world moves, the graph is ticked and the clock advances.  A breach resets the graph;
after a kill the sentry is sent to reload once the regroup pause is over.  The log is what the patrol
itself writes, and what the journal of the graph tells of its calls and reports.
-/

namespace BehaviourGraph.Patrol

/-- Who writes a line. -/
inductive Writer where
  | patrol
  | observer
  deriving DecidableEq, Repr

def Writer.target : Writer → String
  | patrol => "patrol"
  | observer => "eliot_graph::observer"

/-- A line with its writer. -/
structure Entry where
  writer : Writer
  line : LogLine
  deriving DecidableEq, Repr

def Entry.text (e : Entry) : String :=
  e.line.level.name ++ " " ++ e.writer.target ++ ": " ++ e.line.body Text.quote

/-- The line of one entry of the graph's journal, if it has one: reports, kills, glances, full magazines
and resets do. -/
def entryOf : Event Sentry → Option Entry
  | .reported report => some ⟨.observer, report.logLine⟩
  | .called (.body node) before after _ =>
    if node = Post.fire.node && before.kills ≠ after.kills then
      some ⟨.patrol, .info, "intruder down", [("kills", .shown (toString after.kills))]⟩
    else if node = Post.glance.node then
      some ⟨.patrol, .debug, "glance",
        [("position", .shown (toString after.position)),
          ("arc_degrees", .shown (FloatStyle.diagnostic.single glanceArc))]⟩
    else if node = Post.ready.node then
      some ⟨.patrol, .debug, "magazine full", [("ammo", .shown (toString after.ammo))]⟩
    else none
  | .called .reset _ _ _ => some ⟨.patrol, .warn, "sentry reset to entry", []⟩
  | _ => none

/-- Why a patrol ends early. -/
inductive Failure where
  | refused (cause : GraphError)
  | aborted (cause : Abort)

def Failure.message : Failure → String
  | refused cause => cause.message
  | aborted _ => "a tick was broken off"

/-- A patrol under way.  Between requests the journal of the session is empty. -/
structure Watch where
  session : Session Sentry StepClock Xoshiro
  /-- All that has happened in the graph. -/
  journal : Array (Event Sentry)
  log : Array Entry

namespace Watch

variable [Platform]

/-- A part of a patrol. -/
abbrev Duty := EStateM Failure Watch

def write (level : Level) (message : String) (fields : List (String × LogValue)) : Duty Unit :=
  modify fun w => { w with log := w.log.push ⟨.patrol, level, message, fields⟩ }

/-- Ask something of the graph, and log what it did. -/
def perform (g : Graph Sentry) (operation : Operation) : Duty Unit := fun ⟨session, journal, log⟩ =>
  let (response, session) := session.perform g operation
  let news := session.journal
  let w : Watch :=
    ⟨{ session with journal := #[] }, journal ++ news, log ++ news.filterMap entryOf⟩
  match response with
  | .done | .cancelled _ => .ok () w
  | .refused cause => .error (.refused cause) w
  | .aborted cause => .error (.aborted cause) w

/-- The world's own move. -/
def advance (g : Graph Sentry) (step : Nat) : Duty Unit := do
  let w ← get
  let (arrival, context) := w.session.context.advance step
  set { w with session := { w.session with context } }
  match arrival with
  | .nothing => pure ()
  | .spotted => write .info "intruder spotted at the far end" [("step", .shown (toString step))]
  | .breached =>
    write .warn "intruder reached the sentry" [("step", .shown (toString step))]
    perform g .reset

/-- The tick of a step, and the hand-off to reloading that a kill brings. -/
def tick (settings : Settings) (g : Graph Sentry) : Duty Unit := do
  let before := (← get).session.context.kills
  perform g .tick
  let session := (← get).session
  if before < session.context.kills then
    perform g (.resumeAt Post.reloading.node (session.clock.now + settings.regroupSecs))

/-- What is logged at the end of a step. -/
def conclude (g : Graph Sentry) : Duty Unit := do
  let s := (← get).session
  match g.node? s.state.control with
  | some n =>
    write .debug "tick" [("clock", .shown s.clock.text), ("active", .string n.label),
      ("ammo", .shown (toString s.context.ammo))]
  | none => pure ()

def step (settings : Settings) (g : Graph Sentry) (number : Nat) : Duty Unit := do
  advance g number
  tick settings g
  conclude g
  modify fun w => { w with session := { w.session with clock := w.session.clock.advance 1 } }

def steps (settings : Settings) (g : Graph Sentry) : (count number : Nat) → Duty Unit
  | 0, _ => pure ()
  | count + 1, number => do
    step settings g number
    steps settings g count (number + 1)

/-- What is logged at the end of a patrol. -/
def finish : Duty Unit := do
  let s := (← get).session
  if s.state.status.get (.node Post.fire.node) ≠ .normal then
    write .warn "last trigger pull failed" []
  let lastShot := match (s.state.firing triggerRoute).last with
    | some time => "Some(" ++ FloatStyle.diagnostic.double time ++ ")"
    | none => "None"
  let world := s.context
  write .info "patrol finished"
    [("shots", .shown (toString world.shots)), ("kills", .shown (toString world.kills)),
      ("glances", .shown (toString world.glances)), ("breaches", .shown (toString world.breaches)),
      ("position", .shown (toString world.position)), ("last_shot", .shown lastShot)]

def start (settings : Settings) (g : Graph Sentry) (log : Array Entry) : Watch :=
  ⟨.start g {} (.start settings.stepSecs) (.ofSeed settings.graph.seed), #[], log⟩

def all (settings : Settings) (g : Graph Sentry) : Duty Unit := do
  steps settings g settings.steps.toNat 0
  finish

end Watch

/-- The log of a whole patrol, and why it ended early if it did. -/
def patrol [Platform] (settings : Settings) : Array Entry × Option Failure :=
  let log := #[⟨.patrol, .info, "starting patrol", [("config", .shown settings.text)]⟩]
  match graph settings.graph with
  | .error cause => (log, some (.refused cause))
  | .ok g =>
    match Watch.all settings g (Watch.start settings g log) with
    | .ok () w => (w.log, none)
    | .error cause w => (w.log, some cause)

end BehaviourGraph.Patrol
