import BehaviourGraph.Graph.Wiring

/-!
# Building graphs

A builder holds a graph that is not finished.  Every step checks what it is given before it writes; a step
that fails gives its cause and leaves behind what it has written until then.  `build` checks the whole and
gives a graph that can be run.
-/

namespace BehaviourGraph

/-- What is wrong with a step of building or with a request to a graph. -/
inductive GraphError where
  | unknownNode (id : NodeId)
  | unknownTransition (id : TransitionId)
  | portMismatch (node : NodeId) (kind : NodeKind) (port : Port)
  | emptyUtility (node : NodeId) (label : String)
  | optionMismatch (label : String) (kind : NodeKind) (option : SpecialOption)
  | invalidResumeTime (due : Float)
  | tooManyNodes
  | tooManyTransitions
  | config (cause : ConfigError)
  | window (cause : InvalidWindow)

def GraphError.message : GraphError → String
  | unknownNode id => s!"{id.text} does not exist in this graph"
  | unknownTransition id => s!"{id.text} does not exist in this graph"
  | portMismatch node kind port => s!"{kind.name} node {node.text} has no {port.name} port"
  | emptyUtility node label => s!"utility node {node.text} ('{label}') has no scoring branches"
  | optionMismatch label kind option =>
    s!"{kind.name} node '{label}' does not accept `{option.name}`"
  | invalidResumeTime due =>
    "resume time " ++ FloatStyle.plain.double due ++ " is not a finite clock reading"
  | tooManyNodes => "too many nodes for a 32-bit index"
  | tooManyTransitions => "too many transitions for a 32-bit index"
  | config cause => cause.message
  | window cause => cause.message

/-- A graph under construction; it has its entry node from the start. -/
structure Builder (κ : Type) where
  nodes : Array (Node κ) := #[.entry]
  transitions : Array (Transition κ) := #[]
  config : Config := {}
  onReset : Option (Hook κ) := none

/-- A part of building. -/
abbrev Building (κ : Type) := EStateM GraphError (Builder κ)

namespace Builder

variable {κ : Type}

/-! ## Writes -/

def modifyNode (id : NodeId) (f : Node κ → Node κ) (b : Builder κ) : Builder κ :=
  { b with nodes := b.nodes.modify id.index f }

/-- Put a transition at the end of the list of a port. -/
def pushExit (start : NodeId) (port : Port) (id : TransitionId) : Builder κ → Builder κ :=
  modifyNode start fun n => { n with exits := n.exits.enter port id }

/-- Put a transition at the end of the list of a node. -/
def pushOutgoing (start : NodeId) (id : TransitionId) : Builder κ → Builder κ :=
  modifyNode start fun n => { n with outgoing := n.outgoing ++ [id] }

def pushNode (n : Node κ) (b : Builder κ) : Builder κ := { b with nodes := b.nodes.push n }

def pushTransition (t : Transition κ) (b : Builder κ) : Builder κ :=
  { b with transitions := b.transitions.push t }

/-! ## Steps -/

/-- What there is, or an error. -/
def demand {α : Type} (cause : GraphError) : Option α → Building κ α
  | some a => return a
  | none => throw cause

/-- The node with an identifier, or the error that there is none. -/
def node (id : NodeId) : Building κ (Node κ) := do
  demand (.unknownNode id) (← get).nodes[id.index]?

def checkWindow (w : Window) (use : WindowUse) : Building κ Unit :=
  match w.validate use with
  | .ok () => return ()
  | .error cause => throw (.window cause)

def add (label : String) (behaviour : Behaviour κ) (options : List (NodeOption κ)) :
    Building κ NodeId := do
  match ({ label, behaviour } : Node κ).applyAll options with
  | .error option => throw (.optionMismatch label behaviour.kind option)
  | .ok n =>
    let id ← demand .tooManyNodes (NodeId.ofNat? (← get).nodes.size)
    modify (pushNode n)
    return id

/-- Add a branch to a utility; the answer is its port. -/
def addBranch (id : NodeId) (branch : Branch κ) : Building κ Port := do
  let n ← node id
  match n.behaviour with
  | .utility branches =>
    modify (modifyNode id fun n => { n with behaviour := .utility (branches ++ [branch]) })
    return .branch branches.length
  | other => throw (.portMismatch id other.kind (.branch 0))

/-- Set a hook of a node. -/
def setHook (id : NodeId) (f : Node κ → Node κ) : Building κ Unit := do
  let _ ← node id
  modify (modifyNode id f)

def preTick (id : NodeId) (hook : Hook κ) : Building κ Unit :=
  setHook id fun n => { n with preTick := some hook }

def postTick (id : NodeId) (hook : Hook κ) : Building κ Unit :=
  setHook id fun n => { n with postTick := some hook }

/-- Lead a transition from a port of one node to another node.  Its start lists it twice, with those of the
port and with all that leave the node. -/
def connect (start : NodeId) (port : Port) (finish : NodeId) (spec : TransitionSpec κ) :
    Building κ TransitionId := do
  let _ ← node finish
  let source ← node start
  checkWindow spec.probability .probability
  checkWindow spec.cooldown .cooldown
  let id ← demand .tooManyTransitions (TransitionId.ofNat? (← get).transitions.size)
  if source.behaviour.hasPort port then
    modify (pushExit start port id)
    modify (pushOutgoing start id)
    modify (pushTransition { spec with start, port, finish })
    return id
  else throw (.portMismatch start source.kind port)

/-- Lead an ungated transition from the one port of a node. -/
def link (start finish : NodeId) : Building κ TransitionId := connect start .out finish {}

end Builder

inductive BuildStep (κ : Type) where
  | add (label : String) (behaviour : Behaviour κ) (options : List (NodeOption κ))
  | addBranch (node : NodeId) (branch : Branch κ)
  | preTick (node : NodeId) (hook : Hook κ)
  | postTick (node : NodeId) (hook : Hook κ)
  | connect (start : NodeId) (port : Port) (finish : NodeId) (spec : TransitionSpec κ)
  | link (start finish : NodeId)

inductive Addition where
  | node (id : NodeId)
  | transition (id : TransitionId)
  | port (port : Port)
  | hook
  deriving DecidableEq, Repr

namespace Builder

variable {κ : Type}

def step : BuildStep κ → Building κ Addition
  | .add label behaviour options => .node <$> add label behaviour options
  | .addBranch node branch => .port <$> addBranch node branch
  | .preTick node hook => (fun _ => .hook) <$> preTick node hook
  | .postTick node hook => (fun _ => .hook) <$> postTick node hook
  | .connect start port finish spec => .transition <$> connect start port finish spec
  | .link start finish => .transition <$> link start finish

/-- Carry out a step, whether or not it fails. -/
def take (b : Builder κ) (s : BuildStep κ) : Except GraphError Addition × Builder κ :=
  match step s b with
  | .ok addition b => (.ok addition, b)
  | .error cause b => (.error cause, b)

/-- Carry out steps in order. -/
def takeAll (b : Builder κ) : List (BuildStep κ) → List (Except GraphError Addition) × Builder κ
  | [] => ([], b)
  | step :: steps =>
    let (answer, b) := b.take step
    let (answers, b) := b.takeAll steps
    (answer :: answers, b)

/-- Whether a node is a utility with nothing to choose from. -/
def isEmptyUtility (n : Node κ) : Bool :=
  n.kind = .utility && n.behaviour.branchCount = 0

/-- The graph as it stands. -/
def graph (b : Builder κ) : Graph κ := ⟨b.nodes, b.transitions, b.config, b.onReset⟩

def build (b : Builder κ) : Except GraphError (Graph κ) := do
  b.config.validate.mapError .config
  match nodesWhere b.nodes isEmptyUtility with
  | [] => .ok b.graph
  | id :: _ => .error (.emptyUtility id ((b.nodes[id.index]?).elim "" Node.label))

end Builder

end BehaviourGraph
