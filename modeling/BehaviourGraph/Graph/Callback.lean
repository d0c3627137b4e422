import BehaviourGraph.Number.Text
import BehaviourGraph.Text.Quoted

/-!
# Callbacks

A graph reaches its host through callbacks: computations on the host's context `κ` that answer with a
value or an error.  A callback may carry a stored argument, or answer with a dynamically typed value
that is converted to the type its element needs.
-/

namespace BehaviourGraph

/-- A computation of the host on its context.  It may break off with a message; what it did to the
context until then stays. -/
abbrev Host (κ : Type) := EStateM String κ

inductive CallbackError where
  /-- Something the callback needs is absent right now. -/
  | componentNotFound (what : String)
  | unexpected (what : String)
  deriving DecidableEq, Inhabited, Repr

def CallbackError.message : CallbackError → String
  | componentNotFound what => "component not found: " ++ what
  | unexpected what => "unexpected callback failure: " ++ what

inductive Value where
  | unit
  | bool (value : Bool)
  | int (value : Int32)
  | float (value : Float32)
  | text (value : String)

namespace Value

instance : Inhabited Value := ⟨unit⟩

def describe : Value → String
  | unit => "Unit"
  | bool value => s!"Bool({value})"
  | int value => s!"Int({value.toInt})"
  | float value => "Float(" ++ FloatStyle.diagnostic.single value ++ ")"
  | text value => "Str(" ++ Text.quote value ++ ")"

end Value

/-- The types that a dynamically typed result can be converted to. -/
class OfValue (α : Type) where
  ofValue : Value → Except CallbackError α

/-- Where no result is needed any will do. -/
instance : OfValue Unit := ⟨fun _ => .ok ()⟩

instance : OfValue Bool where
  ofValue
    | .bool value => .ok value
    | other => .error (.unexpected ("expected bool, got " ++ other.describe))

/-- Whole numbers count as numbers. -/
instance : OfValue Float32 where
  ofValue
    | .float value => .ok value
    | .int value => .ok (Float32.ofInt value.toInt)
    | other => .error (.unexpected ("expected number, got " ++ other.describe))

inductive CallMode where
  | noArgs
  | bool
  | int
  | float
  | text
  | dynamic
  deriving DecidableEq, Repr

def CallMode.name : CallMode → String
  | noArgs => "NoArgs"
  | bool => "Bool"
  | int => "Int"
  | float => "Float"
  | text => "String"
  | dynamic => "Other"

/-- A callback with its stored argument. -/
inductive Callback (κ α : Type) where
  | noArgs (run : Host κ (Except CallbackError α))
  | bool (run : Bool → Host κ (Except CallbackError α)) (argument : Bool)
  | int (run : Int32 → Host κ (Except CallbackError α)) (argument : Int32)
  | float (run : Float32 → Host κ (Except CallbackError α)) (argument : Float32)
  | text (run : String → Host κ (Except CallbackError α)) (argument : String)
  | dynamic (run : Host κ (Except CallbackError Value))

namespace Callback

variable {κ α : Type}

def mode : Callback κ α → CallMode
  | noArgs _ => .noArgs
  | bool _ _ => .bool
  | int _ _ => .int
  | float _ _ => .float
  | text _ _ => .text
  | dynamic _ => .dynamic

/-- Call with the stored argument, and convert a dynamic result. -/
def invoke [OfValue α] : Callback κ α → Host κ (Except CallbackError α)
  | noArgs run => run
  | bool run argument => run argument
  | int run argument => run argument
  | float run argument => run argument
  | text run argument => run argument
  | dynamic run => do return (← run) >>= OfValue.ofValue

end Callback

end BehaviourGraph
