import BehaviourGraph.Proofs.Connections
import BehaviourGraph.Proofs.Tables

/-!
# Lookups by label

What a label finds can be told from the answers of a builder: it is what steps have added under this
label, in order, and the entry node if the label is its own.  Steps that fail add nothing, and no step
takes a label away.
-/

namespace BehaviourGraph

variable {κ τ ρ : Type}

/-! ## Answers of a builder -/

def Addition.node? : Addition → Option NodeId
  | .node id => some id
  | _ => none

def Addition.transition? : Addition → Option TransitionId
  | .transition id => some id
  | _ => none

def added? {α : Type} (pick : Addition → Option α) :
    BuildStep κ × Except GraphError Addition → Option (Option String × α)
  | (step, .ok addition) => step.label?.bind fun label => (pick addition).map fun id => (label, id)
  | _ => none

def added {α : Type} (pick : Addition → Option α) (steps : List (BuildStep κ))
    (answers : List (Except GraphError Addition)) : List (Option String × α) :=
  (steps.zip answers).filterMap (added? pick)

namespace Builder

variable {b b' : Builder κ} {step : BuildStep κ} {addition : Addition}

theorem nodeEntries_modify {nodes : Array (Node κ)} {i : Nat} {f : Node κ → Node κ}
    (hlabel : ∀ n, nodes[i]? = some n → (f n).label = n.label) :
    nodeEntries (nodes.modify i f) = nodeEntries nodes :=
  placed_modify fun n hn => congrArg some (hlabel n hn)

theorem nodeEntries_step (h : Carried b step addition b') :
    nodeEntries b'.nodes =
      nodeEntries b.nodes ++ (added? Addition.node? (step, .ok addition)).toList := by
  cases h with
  | added n _ hlabel =>
      rw [added?, hlabel]
      exact placed_push n
  | amended addition id f _ hlabel hamends =>
      rw [added?, hlabel]
      exact (nodeEntries_modify fun n hn => (hamends n hn).label).trans (List.append_nil _).symm
  | connected t _ hlabel =>
      rw [added?, hlabel, nodes_enrol]
      refine (nodeEntries_modify ?_).trans (List.append_nil _).symm
      exact fun _ _ => rfl

theorem transitionEntries_step (h : Carried b step addition b') :
    transitionEntries b'.transitions =
      transitionEntries b.transitions ++
        (added? Addition.transition? (step, .ok addition)).toList := by
  cases h with
  | added _ _ hlabel =>
      rw [added?, hlabel]
      exact (List.append_nil _).symm
  | amended _ _ _ _ hlabel =>
      rw [added?, hlabel]
      exact (List.append_nil _).symm
  | connected t _ hlabel =>
      rw [added?, hlabel]
      exact placed_push t

section Build

variable {g : Graph κ} {config : Config} {onReset : Option (Hook κ)} {steps : List (BuildStep κ)}

/-- The nodes of a graph that has been built are the entry node and those that the answers tell of. -/
theorem nodeEntries_build (h : (({ config, onReset } : Builder κ).takeAll steps).2.build = .ok g) :
    nodeEntries g.nodes = (some "Entry", entryNode) ::
      added Addition.node? steps (({ config, onReset } : Builder κ).takeAll steps).1 := by
  rw [(build_eq_ok h).2]
  exact told_takeAll (fun b => nodeEntries b.nodes) (fun _ _ => rfl) nodeEntries_step _ steps

theorem transitionEntries_build
    (h : (({ config, onReset } : Builder κ).takeAll steps).2.build = .ok g) :
    transitionEntries g.transitions =
      added Addition.transition? steps (({ config, onReset } : Builder κ).takeAll steps).1 := by
  rw [(build_eq_ok h).2]
  exact told_takeAll (fun b => transitionEntries b.transitions) (fun _ _ => rfl)
    transitionEntries_step _ steps

end Build

end Builder

/-! ## Lookups -/

/-- A lookup lists what has a property, in the order of the numbers, and gives the first. -/
structure Finds {α : Type} (number : α → Nat) (property : α → Prop) (first : Option α)
    (all : List α) : Prop where
  mem_iff : ∀ id, id ∈ all ↔ property id
  increasing : all.Pairwise fun id other => number id < number other
  first_eq : first = all.head?

theorem Finds.congr {α : Type} {number : α → Nat} {property other : α → Prop} {first : Option α}
    {all : List α} (h : Finds number property first all) (hsame : ∀ id, property id ↔ other id) :
    Finds number other first all where
  mem_iff id := (h.mem_iff id).trans (hsame id)
  increasing := h.increasing
  first_eq := h.first_eq

/-- An index finds what has a label in the array that it was made from. -/
theorem finds_placed {α β : Type} {id : Nat → α} {number : α → Nat} {label? : β → Option String}
    {xs : Array β} {label : String} (hid : ∀ a, id (number a) = a) (hnumber : ∀ i, number (id i) = i) :
    let all := (Index.ofList (placed id label? xs)).find label
    Finds number (fun a => xs[number a]?.bind label? = some label) all.head? all where
  mem_iff a := by
    rw [Index.find_ofList, mem_labelled, mem_placed hid hnumber]
    simp only [Option.map_eq_some_iff, Option.bind_eq_some_iff]
  increasing := by
    rw [Index.find_ofList]
    exact pairwise_labelled_placed hnumber label
  first_eq := rfl

namespace Graph

def label? (g : Graph κ) : Element → Option String
  | .node id => (g.node? id).bind fun n => some n.label
  | .transition id => (g.transition? id).bind fun t => t.label

theorem finds_nodes (g : Graph κ) (label : String) :
    Finds NodeId.index (fun id => g.label? (.node id) = some label) (g.nodeLabelled? label)
      (g.nodesLabelled label) :=
  finds_placed (fun _ => rfl) fun _ => rfl

theorem finds_transitions (g : Graph κ) (label : String) :
    Finds TransitionId.index (fun id => g.label? (.transition id) = some label)
      (g.transitionLabelled? label) (g.transitionsLabelled label) :=
  finds_placed (fun _ => rfl) fun _ => rfl

end Graph

structure State.Tracks (s : State) (e : Element) : Prop where
  active : s.active.holds e
  visited : s.visited.holds e
  status : s.status.holds e

theorem State.Fits.tracks {g : Graph κ} {s : State} (h : s.Fits g) {e : Element} {label : String}
    (he : g.label? e = some label) : s.Tracks e := by
  have hknown : g.hasElement e = true := by
    cases e with
    | node id =>
        obtain ⟨n, hn, _⟩ := Option.bind_eq_some_iff.mp he
        exact Graph.hasNode_iff.mpr ⟨n, hn⟩
    | transition id =>
        obtain ⟨t, ht, _⟩ := Option.bind_eq_some_iff.mp he
        exact Graph.hasTransition_iff.mpr ⟨t, ht⟩
  exact ⟨(h.active.holds_iff e).mpr hknown, (h.visited.holds_iff e).mpr hknown,
    (h.status.holds_iff e).mpr hknown⟩

/-- A label finds the nodes and the transitions that steps have added under it, in order.  A step that
fails adds nothing, the entry node is found under its own label, and an unlabelled transition under
none.  In every reachable state these are the elements with this label that it keeps track of. -/
theorem lookups_in_authoring_order [Clock κ τ] [RandomSource ρ] (config : Config)
    (onReset : Option (Hook κ)) (steps : List (BuildStep κ)) (g : Graph κ)
    (hbuild : (({ config, onReset } : Builder κ).takeAll steps).2.build = .ok g) (label : String) :
    let answers := (({ config, onReset } : Builder κ).takeAll steps).1
    g.nodesLabelled label =
        labelled label ((some "Entry", entryNode) :: added Addition.node? steps answers) ∧
      g.transitionsLabelled label = labelled label (added Addition.transition? steps answers) ∧
      Finds NodeId.index (fun id => g.label? (.node id) = some label) (g.nodeLabelled? label)
        (g.nodesLabelled label) ∧
      Finds TransitionId.index (fun id => g.label? (.transition id) = some label)
        (g.transitionLabelled? label) (g.transitionsLabelled label) ∧
      ∀ s : Session κ τ ρ, s.Reachable g →
        Finds NodeId.index (fun id => s.state.Tracks (.node id) ∧ g.label? (.node id) = some label)
          (g.nodeLabelled? label) (g.nodesLabelled label) ∧
        Finds TransitionId.index
          (fun id => s.state.Tracks (.transition id) ∧ g.label? (.transition id) = some label)
          (g.transitionLabelled? label) (g.transitionsLabelled label) := by
  intro answers
  refine ⟨?_, ?_, g.finds_nodes label, g.finds_transitions label, fun s hs =>
    ⟨(g.finds_nodes label).congr fun id => ?_, (g.finds_transitions label).congr fun id => ?_⟩⟩
  · rw [Graph.nodesLabelled, Graph.nodeIndex, Index.find_ofList, Builder.nodeEntries_build hbuild]
  · rw [Graph.transitionsLabelled, Graph.transitionIndex, Index.find_ofList,
      Builder.transitionEntries_build hbuild]
  · exact iff_and_self.mpr hs.fits.tracks
  · exact iff_and_self.mpr hs.fits.tracks

/-- An action that is labelled like the entry node, two that share a label, and transitions of which two
share a label, one has an empty label and one has none.  Three steps fail. -/
def namesakeSteps : List (BuildStep Unit) :=
  let act : Behaviour Unit := .action (.noArgs (pure (.ok ())))
  [.add "post" act [], .add "post" act [.reverse true], .add "Entry" act [],
    .connect ⟨0⟩ .out ⟨1⟩ { label := some "go" }, .connect ⟨1⟩ .body ⟨2⟩ { label := some "go" },
    .connect ⟨1⟩ .out ⟨9⟩ { label := some "go" }, .link ⟨1⟩ ⟨2⟩, .add "post" act [],
    .connect ⟨2⟩ .out ⟨3⟩ { label := some "" }, .connect ⟨2⟩ .out ⟨1⟩ { label := some "go" }]

def namesakeGraph : Graph Unit := .ofSteps namesakeSteps

def namesakeTicked : Session Unit ManualClock Xoshiro :=
  ((Session.start namesakeGraph () (ManualClock.mk 0.0) (Xoshiro.ofSeed 0)).perform namesakeGraph
    .tick).2

theorem namesakes_found :
    namesakeGraph.nodesLabelled "Entry" = [entryNode, ⟨2⟩] ∧
      namesakeGraph.nodesLabelled "post" = [⟨1⟩, ⟨3⟩] ∧
      namesakeGraph.transitionsLabelled "go" = [⟨0⟩, ⟨3⟩] ∧
      namesakeGraph.transitionsLabelled "" = [⟨2⟩] ∧
      namesakeGraph.nodeLabelled? "go" = none ∧ namesakeTicked.state.Tracks (.node ⟨3⟩) := by
  have hreach : namesakeTicked.Reachable namesakeGraph := .perform _ (.start _ _ _)
  have hlookups := lookups_in_authoring_order (τ := ManualClock) (ρ := Xoshiro) {} none namesakeSteps
    namesakeGraph rfl
  obtain ⟨hentry, _⟩ := hlookups "Entry"
  obtain ⟨hpost, _, _, _, htracked⟩ := hlookups "post"
  obtain ⟨hnone, hgo, hfinds, _⟩ := hlookups "go"
  obtain ⟨_, hempty, _⟩ := hlookups ""
  have hposts : namesakeGraph.nodesLabelled "post" = [⟨1⟩, ⟨3⟩] := hpost.trans rfl
  refine ⟨hentry.trans rfl, hposts, hgo.trans rfl, hempty.trans rfl, ?_, ?_⟩
  · rw [hfinds.first_eq, hnone]
    rfl
  · refine (((htracked namesakeTicked hreach).1.mem_iff ⟨3⟩).mp ?_).1
    rw [hposts]
    decide

end BehaviourGraph
