/-!
# Log lines

A line has a level, a message and named values.  A subscriber passes the lines that are at least as
severe as its own level.
-/

namespace BehaviourGraph

inductive Level where
  | error
  | warn
  | info
  | debug
  | trace
  deriving DecidableEq, Inhabited, Repr

namespace Level

/-- The most severe level comes first. -/
def rank : Level → Nat
  | error => 0
  | warn => 1
  | info => 2
  | debug => 3
  | trace => 4

def name : Level → String
  | error => "ERROR"
  | warn => "WARN"
  | info => "INFO"
  | debug => "DEBUG"
  | trace => "TRACE"

/-- The level with a name, in lower case. -/
def ofName? : String → Option Level
  | "error" => some error
  | "warn" => some warn
  | "info" => some info
  | "debug" => some debug
  | "trace" => some trace
  | _ => none

/-- Whether a subscriber of a level passes a line of another. -/
def passes (subscriber line : Level) : Bool := line.rank ≤ subscriber.rank

end Level

/-- A named value: text as it is, or a string that a subscriber may quote. -/
inductive LogValue where
  | shown (text : String)
  | string (text : String)
  deriving DecidableEq, Repr

structure LogLine where
  level : Level
  message : String
  fields : List (String × LogValue) := []
  deriving DecidableEq, Repr

namespace LogLine

/-- The message and the named values behind it, strings written by `quote`. -/
def body (quote : String → String) (line : LogLine) : String :=
  let field : String × LogValue → String
    | (name, .shown text) => name ++ "=" ++ text
    | (name, .string text) => name ++ "=" ++ quote text
  " ".intercalate (line.message :: line.fields.map field)

end LogLine

end BehaviourGraph
