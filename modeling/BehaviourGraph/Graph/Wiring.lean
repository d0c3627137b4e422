import BehaviourGraph.Config
import BehaviourGraph.Identifier
import BehaviourGraph.Graph.Node
import BehaviourGraph.Chance.Window

/-!
# Graphs

Nodes and the transitions between them.  A transition states its own start, port and end, and its start
lists it.  What leaves a node or a port is read off these lists; a graph is consistent if they hold just the
transitions that state to leave there.
-/

namespace BehaviourGraph

/-- What is said of a transition apart from its place.  By default it never gates. -/
structure TransitionSpec (κ : Type) where
  label : Option String := none
  /-- The percentage with which the transition opens. -/
  probability : Window := .always
  /-- The seconds between two openings. -/
  cooldown : Window := .noCooldown
  guard : Option (Callback κ Bool) := none
  reverse : Bool := false
  /-- Whether the transitions after this one are skipped once it opens. -/
  terminatesGroup : Bool := false
  /-- Whether the start takes control when the transition is ticked. -/
  capturesControl : Bool := false

structure Transition (κ : Type) extends TransitionSpec κ where
  start : NodeId
  port : Port
  finish : NodeId

/-- The label as it is reported; nothing for an unlabelled transition. -/
def Transition.labelText {κ : Type} (t : Transition κ) : String := t.label.getD ""

/-- The openings of one transition as far as its cooldown needs them. -/
structure Firing where
  /-- When it last opened its gates. -/
  last : Option Float := none
  /-- The cooldown drawn then. -/
  sample : Float32 := 0.0

instance : Inhabited Firing := ⟨{}⟩

/-- Whether the cooldown lets the transition through. -/
def TransitionSpec.cooldownReady {κ : Type} (t : TransitionSpec κ) (firing : Firing) (now : Float) :
    Bool :=
  t.cooldown.isZero ||
    match firing.last with
    | none => true
    | some last => widen firing.sample ≤ now - last

structure Graph (κ : Type) where
  nodes : Array (Node κ)
  transitions : Array (Transition κ)
  config : Config
  /-- What the host does when the graph is reset. -/
  onReset : Option (Hook κ)

/-- The identifiers of the transitions that satisfy a test, in increasing order. -/
def transitionsWhere {κ : Type} (transitions : Array (Transition κ)) (test : Transition κ → Bool) :
    List TransitionId :=
  ((List.range transitions.size).filter fun i => (transitions[i]?).any test).map TransitionId.mk

theorem mem_transitionsWhere {κ : Type} {transitions : Array (Transition κ)}
    {test : Transition κ → Bool} {id : TransitionId} :
    id ∈ transitionsWhere transitions test ↔ ∃ t, transitions[id.index]? = some t ∧ test t = true := by
  unfold transitionsWhere
  simp only [List.mem_map, List.mem_filter, List.mem_range, Option.any_eq_true]
  constructor
  · rintro ⟨i, ⟨_, htest⟩, rfl⟩
    exact htest
  · rintro ⟨t, ht, htest⟩
    exact ⟨id.index, ⟨(Array.getElem?_eq_some_iff.mp ht).1, t, ht, htest⟩, rfl⟩

theorem nodup_transitionsWhere {κ : Type} (transitions : Array (Transition κ))
    (test : Transition κ → Bool) : (transitionsWhere transitions test).Nodup :=
  List.Pairwise.map TransitionId.mk (fun _ _ hne heq => hne (TransitionId.mk.inj heq))
    (List.Pairwise.filter _ List.nodup_range)

/-- The identifiers of the nodes that satisfy a test, in increasing order. -/
def nodesWhere {κ : Type} (nodes : Array (Node κ)) (test : Node κ → Bool) : List NodeId :=
  ((List.range nodes.size).filter fun i => (nodes[i]?).any test).map NodeId.mk

/-- Each node with its label, in order. -/
def nodeEntries {κ : Type} (nodes : Array (Node κ)) : List (Option String × NodeId) :=
  placed NodeId.mk (fun n => some n.label) nodes

/-- Each transition with its label, if it has one, in order. -/
def transitionEntries {κ : Type} (transitions : Array (Transition κ)) :
    List (Option String × TransitionId) :=
  placed TransitionId.mk (fun t => t.label) transitions

namespace Graph

variable {κ : Type}

def node? (g : Graph κ) (id : NodeId) : Option (Node κ) := g.nodes[id.index]?

def transition? (g : Graph κ) (id : TransitionId) : Option (Transition κ) := g.transitions[id.index]?

def hasNode (g : Graph κ) (id : NodeId) : Bool := id.index < g.nodes.size

def hasTransition (g : Graph κ) (id : TransitionId) : Bool := id.index < g.transitions.size

theorem hasNode_eq_isSome (g : Graph κ) (id : NodeId) : g.hasNode id = (g.node? id).isSome := by
  rw [hasNode, node?, Bool.eq_iff_iff, decide_eq_true_eq, isSome_getElem?]

theorem hasTransition_eq_isSome (g : Graph κ) (id : TransitionId) :
    g.hasTransition id = (g.transition? id).isSome := by
  rw [hasTransition, transition?, Bool.eq_iff_iff, decide_eq_true_eq, isSome_getElem?]

theorem hasNode_iff {g : Graph κ} {id : NodeId} :
    g.hasNode id = true ↔ ∃ n, g.node? id = some n := by
  rw [hasNode_eq_isSome, Option.isSome_iff_exists]

theorem hasTransition_iff {g : Graph κ} {id : TransitionId} :
    g.hasTransition id = true ↔ ∃ t, g.transition? id = some t := by
  rw [hasTransition_eq_isSome, Option.isSome_iff_exists]

/-- The transitions that leave a node, as the node lists them. -/
def outgoing (g : Graph κ) (id : NodeId) : List TransitionId := (g.node? id).elim [] Node.outgoing

/-- The transitions that leave a port, as the node of the port lists them. -/
def exits (g : Graph κ) (id : NodeId) (port : Port) : List TransitionId :=
  (g.node? id).elim [] fun n => n.exits.find port

/-- The lists of the nodes hold the transitions that state to leave there, in the order of their numbers.
Building gives no other graphs. -/
structure Consistent (g : Graph κ) : Prop where
  outgoing : ∀ id, g.outgoing id = transitionsWhere g.transitions fun t => t.start = id
  exits : ∀ id port,
    g.exits id port = transitionsWhere g.transitions fun t => t.start = id && t.port = port

namespace Consistent

variable {g : Graph κ} (hg : g.Consistent)
include hg

theorem mem_outgoing {id : NodeId} {t : TransitionId} :
    t ∈ g.outgoing id ↔ ∃ tr, g.transition? t = some tr ∧ tr.start = id := by
  simp only [hg.outgoing, mem_transitionsWhere, transition?, decide_eq_true_eq]

theorem mem_exits {id : NodeId} {port : Port} {t : TransitionId} :
    t ∈ g.exits id port ↔ ∃ tr, g.transition? t = some tr ∧ tr.start = id ∧ tr.port = port := by
  simp only [hg.exits, mem_transitionsWhere, transition?, Bool.and_eq_true, decide_eq_true_eq]

theorem start_eq_of_mem_exits {id : NodeId} {port : Port} {t : TransitionId} {tr : Transition κ}
    (ht : t ∈ g.exits id port) (htr : g.transition? t = some tr) : tr.start = id := by
  obtain ⟨tr', htr', hstart, _⟩ := hg.mem_exits.mp ht
  obtain rfl := Option.some.inj (htr.symm.trans htr')
  exact hstart

end Consistent

/-- What comes right after an element: the transitions of a node, the end of a transition. -/
def next (g : Graph κ) : Element → List Element
  | .node id => (g.outgoing id).map .transition
  | .transition id => ((g.transition? id).map fun t => .node t.finish).toList

theorem Consistent.mem_next_node {g : Graph κ} (hg : g.Consistent) {id : NodeId} {f : Element} :
    f ∈ g.next (.node id) ↔ ∃ t tr, f = .transition t ∧ g.transition? t = some tr ∧ tr.start = id := by
  simp only [next, List.mem_map, hg.mem_outgoing]
  constructor
  · rintro ⟨t, ⟨tr, htr, hstart⟩, rfl⟩
    exact ⟨t, tr, rfl, htr, hstart⟩
  · rintro ⟨t, tr, rfl, htr, hstart⟩
    exact ⟨t, ⟨tr, htr, hstart⟩, rfl⟩

theorem mem_next_transition {g : Graph κ} {t : TransitionId} {f : Element} :
    f ∈ g.next (.transition t) ↔ ∃ tr, g.transition? t = some tr ∧ f = .node tr.finish := by
  simp only [next, Option.mem_toList, Option.map_eq_some_iff, @eq_comm _ f]

/-- The index of the nodes by their labels. -/
def nodeIndex (g : Graph κ) : Index String NodeId := .ofList (nodeEntries g.nodes)

/-- The index of the transitions by their labels. -/
def transitionIndex (g : Graph κ) : Index String TransitionId := .ofList (transitionEntries g.transitions)

def nodesLabelled (g : Graph κ) (label : String) : List NodeId := g.nodeIndex.find label

/-- The transitions with a label; an unlabelled one has none. -/
def transitionsLabelled (g : Graph κ) (label : String) : List TransitionId :=
  g.transitionIndex.find label

def nodeLabelled? (g : Graph κ) (label : String) : Option NodeId := (g.nodesLabelled label).head?

def transitionLabelled? (g : Graph κ) (label : String) : Option TransitionId :=
  (g.transitionsLabelled label).head?

end Graph

end BehaviourGraph
