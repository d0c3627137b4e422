import BehaviourGraph.Json.Codec

/-!
# Settings of a patrol
-/

namespace BehaviourGraph.Patrol

/-- How long a patrol lasts and how its graph is set up. -/
structure Settings where
  graph : Config := { seed := 7 }
  steps : UInt64 := 200
  /-- The length of a step in seconds. -/
  stepSecs : Float := 0.25
  /-- The pause after a kill before the sentry reloads. -/
  regroupSecs : Float := 2.0

namespace Settings

/-- Every field may be absent.  A graph that is given starts from the general defaults. -/
def ofJson? (value : Json.Value) : Option Settings := do
  let absent : Settings := {}
  match ← value.record? ["graph", "steps", "step_secs", "regroup_secs"] with
  | [graph, steps, stepSecs, regroupSecs] =>
    let graph ← Json.Value.orElse (Config.ofJson? {}) absent.graph graph
    let steps ← Json.Value.orElse Json.Value.word? absent.steps steps
    let stepSecs ← Json.Value.orElse Json.Value.double? absent.stepSecs stepSecs
    let regroupSecs ← Json.Value.orElse Json.Value.double? absent.regroupSecs regroupSecs
    some { graph, steps, stepSecs, regroupSecs }
  | _ => none

def text (s : Settings) : String :=
  let stepSecs := FloatStyle.diagnostic.double s.stepSecs
  let regroupSecs := FloatStyle.diagnostic.double s.regroupSecs
  s!"DemoConfig \x7b graph: {s.graph.text}, steps: {s.steps}, step_secs: {stepSecs}, " ++
    s!"regroup_secs: {regroupSecs} \x7d"

end Settings

/-- Why no settings could be loaded from a file. -/
inductive LoadError where
  | reading (path : String)
  | parsing (path : String)
  deriving DecidableEq, Repr

def LoadError.message : LoadError → String
  | reading path => "reading config " ++ path
  | parsing path => "parsing config " ++ path

/-- The settings in a file's text. -/
def Settings.load (path text : String) : Except LoadError Settings :=
  match (Json.Value.ofText? text).bind Settings.ofJson? with
  | some settings => .ok settings
  | none => .error (.parsing path)

end BehaviourGraph.Patrol
