import BehaviourGraph.Patrol.Watch

/-!
# The patrol on the command line

The one argument is the path of a settings file; without it the defaults hold.  The log goes to standard
error, from the level that the environment variable `PATROL_LOG` names.
-/

namespace BehaviourGraph.Patrol

def loadSettings : List String → IO (Except LoadError Settings)
  | [] => return .ok {}
  | path :: _ => do
    match ← (IO.FS.readFile path).toBaseIO with
    | .ok text => return Settings.load path text
    | .error _ => return .error (.reading path)

/-- Show an error and give the exit code for it. -/
def exitWith (message : String) : IO UInt32 := do
  IO.eprintln s!"Error: {message}"
  return 1

def runPatrol (level : Level) (settings : Settings) : IO UInt32 := do
  let (log, failure) := patrol settings
  for entry in log do
    if level.passes entry.line.level then IO.eprintln entry.text
  match failure with
  | some cause => exitWith cause.message
  | none => return 0

def command (arguments : List String) : IO UInt32 := do
  let name ← IO.getEnv "PATROL_LOG"
  let level := (name.bind fun name => Level.ofName? name.toLower).getD .info
  match ← loadSettings arguments with
  | .ok settings => runPatrol level settings
  | .error e => exitWith e.message

end BehaviourGraph.Patrol

def main (arguments : List String) : IO UInt32 := BehaviourGraph.Patrol.command arguments
