import BehaviourGraph.Json.Number

/-!
# JSON values

The tree of a JSON text.  Objects keep all their fields in order, repeated names included, and numbers
keep their digits.  A string with an unpaired surrogate has no text; it may stand where it is skipped.
-/

namespace BehaviourGraph.Json

inductive Value where
  | null
  | bool (value : Bool)
  | number (value : Number)
  | string (text : Option String)
  | array (elements : List Value)
  | object (fields : List (Option String × Value))

namespace Value

def named (fields : List (Option String × Value)) (name : String) : List Value :=
  (fields.filter fun field => field.1 == some name).map (·.2)

/-- The known fields of a record, each absent or present, from an object or from an array in field
order.  A repeated field, a name without text and an array with more elements than fields are refused;
fields of other names are skipped. -/
def record? (names : List String) : Value → Option (List (Option Value))
  | object fields =>
    if fields.all fun field => field.1.isSome then
      names.mapM fun name =>
        match named fields name with
        | [] => some none
        | [value] => some (some value)
        | _ => none
    else none
  | array elements =>
    if elements.length ≤ names.length then
      some (elements.map some ++ List.replicate (names.length - elements.length) none)
    else none
  | _ => none

/-- The fields of a record that must all be there. -/
def fullRecord? (names : List String) (value : Value) : Option (List Value) := do
  (← value.record? names).mapM id

def number? : Value → Option Number
  | number n => some n
  | _ => none

def array? : Value → Option (List Value)
  | array elements => some elements
  | _ => none

/-- A count below a bound. -/
def count? (bound : Nat) (value : Value) : Option Nat := do
  let n ← (← value.number?).count?
  if n < bound then some n else none

def double? (value : Value) : Option Float := do (← value.number?).double?

def single? (value : Value) : Option Float32 := do (← value.number?).single?

/-- An optional field, read if present. -/
def orElse {α : Type} (read : Value → Option α) (absent : α) : Option Value → Option α
  | none => some absent
  | some value => read value

end Value

end BehaviourGraph.Json
