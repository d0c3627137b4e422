import BehaviourGraph.Curve
import BehaviourGraph.Identifier
import BehaviourGraph.Graph.Callback
import BehaviourGraph.Graph.Index

/-!
# Nodes

What a node does when it is ticked, and the ports its transitions leave from.  A node lists the
transitions that leave it, all of them and those of each port.  `Node.apply` sets one option of a node and
refuses those that its kind does not have.
-/

namespace BehaviourGraph

abbrev Hook (κ : Type) := Host κ Unit

/-- The health of an element: the worst outcome of its latest evaluation. -/
inductive Status where
  | normal
  | warning
  | error
  deriving DecidableEq, Inhabited, Repr

namespace Status

def severity : Status → Nat
  | normal => 0
  | warning => 1
  | error => 2

def worst (a b : Status) : Status :=
  if a.severity < b.severity then b else a

def name : Status → String
  | normal => "Normal"
  | warning => "Warning"
  | error => "Error"

end Status

def CallbackError.status : CallbackError → Status
  | componentNotFound _ => .warning
  | unexpected _ => .error

inductive NodeKind where
  | entry
  | action
  | condition
  | loop
  | utility
  deriving DecidableEq, Inhabited, Repr

def NodeKind.name : NodeKind → String
  | entry => "Entry"
  | action => "Action"
  | condition => "Condition"
  | loop => "Loop"
  | utility => "Utility"

/-- A group of a node's outgoing transitions. -/
inductive Port where
  /-- All transitions of an entry or action. -/
  | out
  /-- A condition that holds. -/
  | whenTrue
  /-- A condition that fails. -/
  | whenFalse
  /-- A loop that goes on. -/
  | body
  /-- A loop that ends. -/
  | finish
  /-- One branch of a utility. -/
  | branch (index : Nat)
  deriving DecidableEq, Inhabited, Repr

def Port.name : Port → String
  | out => "Out"
  | whenTrue => "If"
  | whenFalse => "Else"
  | body => "While"
  | finish => "End"
  | branch index => s!"Branch({index})"

/-- One option of a utility: how it is scored, and the curve of its score. -/
structure Branch (κ : Type) where
  scorer : Callback κ Float32
  curve : Curve

inductive Behaviour (κ : Type) where
  /-- Passes on to its transitions. -/
  | entry
  /-- Calls the host. -/
  | action (callback : Callback κ Unit)
  /-- Chooses between two ports. -/
  | condition (guard : Callback κ Bool) (reverse : Bool)
  /-- Holds control while its guard does. -/
  | loop (guard : Callback κ Bool) (reverse : Bool)
  /-- Chooses the branch with the best score. -/
  | utility (branches : List (Branch κ))

namespace Behaviour

variable {κ : Type}

def kind : Behaviour κ → NodeKind
  | entry => .entry
  | action _ => .action
  | condition _ _ => .condition
  | loop _ _ => .loop
  | utility _ => .utility

/-- How many branches there are to choose from. -/
def branchCount : Behaviour κ → Nat
  | utility branches => branches.length
  | _ => 0

def isReversed : Behaviour κ → Bool
  | condition _ reverse => reverse
  | loop _ reverse => reverse
  | _ => false

/-- How the node's one callback is called, if it has one. -/
def mode : Behaviour κ → Option CallMode
  | entry => none
  | action callback => some callback.mode
  | condition guard _ => some guard.mode
  | loop guard _ => some guard.mode
  | utility _ => none

/-- The ports that transitions can leave from. -/
def ports : Behaviour κ → List Port
  | entry => [.out]
  | action _ => [.out]
  | condition _ _ => [.whenTrue, .whenFalse]
  | loop _ _ => [.body, .finish]
  | utility branches => (List.range branches.length).map .branch

/-- Whether transitions can leave from a port. -/
def hasPort : Behaviour κ → Port → Bool
  | entry, .out => true
  | action _, .out => true
  | condition _ _, .whenTrue => true
  | condition _ _, .whenFalse => true
  | loop _ _, .body => true
  | loop _ _, .finish => true
  | utility branches, .branch index => index < branches.length
  | _, _ => false

theorem mem_ports (b : Behaviour κ) (port : Port) : port ∈ b.ports ↔ b.hasPort port = true := by
  cases b <;> cases port <;> simp [ports, hasPort]

end Behaviour

structure Node (κ : Type) where
  label : String
  behaviour : Behaviour κ
  /-- Whether the node takes control when it is ticked. -/
  capturesControl : Bool := false
  preTick : Option (Hook κ) := none
  postTick : Option (Hook κ) := none
  /-- The transitions of all ports, in the order in which they were connected. -/
  outgoing : List TransitionId := []
  /-- The transitions of each port, in the same order. -/
  exits : Index Port TransitionId := {}

inductive NodeOption (κ : Type) where
  | branch (branch : Branch κ)
  | captureControl (capture : Bool)
  | reverse (reverse : Bool)
  | preTick (hook : Hook κ)
  | postTick (hook : Hook κ)

inductive SpecialOption where
  | branch
  | reverse
  deriving DecidableEq, Inhabited, Repr

def SpecialOption.name : SpecialOption → String
  | branch => "branch"
  | reverse => "reverse"

namespace Node

variable {κ : Type}

/-- The node that every graph starts with. -/
def entry : Node κ := { label := "Entry", behaviour := .entry }

def kind (n : Node κ) : NodeKind := n.behaviour.kind

/-- Set one option.  Only a utility takes branches, only a node with a guard can be reversed. -/
def apply (n : Node κ) : NodeOption κ → Except SpecialOption (Node κ)
  | .branch branch =>
    match n.behaviour with
    | .utility branches => .ok { n with behaviour := .utility (branches ++ [branch]) }
    | _ => .error .branch
  | .captureControl capture => .ok { n with capturesControl := capture }
  | .reverse reverse =>
    match n.behaviour with
    | .condition guard _ => .ok { n with behaviour := .condition guard reverse }
    | .loop guard _ => .ok { n with behaviour := .loop guard reverse }
    | _ => .error .reverse
  | .preTick hook => .ok { n with preTick := some hook }
  | .postTick hook => .ok { n with postTick := some hook }

/-- Set options in order, up to the first that the node does not have. -/
def applyAll (n : Node κ) : List (NodeOption κ) → Except SpecialOption (Node κ)
  | [] => .ok n
  | option :: options => do (← n.apply option).applyAll options

end Node

end BehaviourGraph
