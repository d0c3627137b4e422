/-!
# Configuration of a graph
-/

namespace BehaviourGraph

structure Config where
  /-- The seed of the random source that is taken if no other is given. -/
  seed : UInt64 := 0
  /-- How many node ticks may be nested in one tick. -/
  maxTickDepth : Nat := 256
  deriving DecidableEq, Inhabited, Repr

/-- A configuration that no graph can run under. -/
inductive ConfigError where
  | noDepth
  deriving DecidableEq, Repr

def ConfigError.message : ConfigError → String
  | noDepth => "configuration error: max_tick_depth must be at least 1"

namespace Config

/-- At least one node must fit. -/
def validate (c : Config) : Except ConfigError Unit :=
  if c.maxTickDepth = 0 then .error .noDepth else .ok ()

def text (c : Config) : String :=
  s!"GraphConfig \x7b seed: {c.seed}, max_tick_depth: {c.maxTickDepth} \x7d"

end Config

end BehaviourGraph
