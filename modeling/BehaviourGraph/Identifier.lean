/-!
# Identifiers of nodes and transitions

Nodes and transitions are numbered from zero in the order in which they are added.  An identifier fits
32 bits; the greatest is reserved for "none".
-/

namespace BehaviourGraph

def identifierCount : Nat := Nat.pow 2 32

structure NodeId where
  index : Nat
  deriving DecidableEq, Inhabited, Repr, Ord

structure TransitionId where
  index : Nat
  deriving DecidableEq, Inhabited, Repr, Ord

namespace NodeId

/-- The identifier that names no node. -/
def invalid : NodeId := ⟨identifierCount - 1⟩

/-- The identifier with a given number, if it fits. -/
def ofNat? (n : Nat) : Option NodeId :=
  if n < identifierCount then some ⟨n⟩ else none

def text (id : NodeId) : String := s!"NodeId({id.index})"

end NodeId

namespace TransitionId

/-- The identifier that names no transition. -/
def invalid : TransitionId := ⟨identifierCount - 1⟩

/-- The identifier with a given number, if it fits. -/
def ofNat? (n : Nat) : Option TransitionId :=
  if n < identifierCount then some ⟨n⟩ else none

def text (id : TransitionId) : String := s!"TransitionId({id.index})"

end TransitionId

/-- The entry node is always the first. -/
def entryNode : NodeId := ⟨0⟩

inductive Element where
  | node (id : NodeId)
  | transition (id : TransitionId)
  deriving DecidableEq, Inhabited, Repr

def Element.text : Element → String
  | node id => s!"Node({id.text})"
  | transition id => s!"Transition({id.text})"

end BehaviourGraph
