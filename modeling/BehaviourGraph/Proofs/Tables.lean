import BehaviourGraph.Proofs.Reachable

/-!
# Tables of a state

A state keeps a value for every element of its graph.  Its tables are made for the graph and nothing
resizes them, so in every reachable session they have a place for exactly the elements of the graph.
-/

namespace BehaviourGraph

variable {κ τ ρ α : Type}

/-- A map of default values has no other value anywhere. -/
theorem ElementMap.get_constant_default [Inhabited α] (nodes transitions : Nat) (e : Element) :
    (constant nodes transitions (default : α)).get e = default := by
  cases e with
  | node id => by_cases hid : id.index < nodes <;> simp [constant, get, hid]
  | transition t => by_cases ht : t.index < transitions <;> simp [constant, get, ht]

structure ElementMap.Fits (g : Graph κ) (m : ElementMap α) : Prop where
  nodes : m.nodes.size = g.nodes.size
  transitions : m.transitions.size = g.transitions.size

namespace ElementMap.Fits

variable {g : Graph κ} {m : ElementMap α}

theorem holds_iff (h : m.Fits g) (e : Element) : m.holds e ↔ g.hasElement e = true := by
  cases e with
  | node id => simp [holds, Graph.hasElement, Graph.hasNode, h.nodes]
  | transition t => simp [holds, Graph.hasElement, Graph.hasTransition, h.transitions]

theorem constant (g : Graph κ) (a : α) :
    (ElementMap.constant g.nodes.size g.transitions.size a).Fits g :=
  ⟨Array.size_replicate, Array.size_replicate⟩

theorem set (h : m.Fits g) (e : Element) (a : α) : (m.set e a).Fits g := by
  cases e with
  | node id => exact ⟨Array.size_setIfInBounds.trans h.nodes, h.transitions⟩
  | transition t => exact ⟨h.nodes, Array.size_setIfInBounds.trans h.transitions⟩

theorem below {m m' : Marking} (h : m'.Fits g) (hle : m.Below m') : m.Fits g :=
  ⟨hle.nodes.trans h.nodes, hle.transitions.trans h.transitions⟩

end ElementMap.Fits

/-- All tables of a state have a place for each element of a graph and for no other. -/
structure State.Fits (g : Graph κ) (s : State) : Prop where
  active : s.active.Fits g
  visited : s.visited.Fits g
  status : s.status.Fits g
  firings : s.firings.size = g.transitions.size

theorem State.fits_start (g : Graph κ) : (State.start g).Fits g where
  active := .constant g false
  visited := .constant g false
  status := .constant g Status.normal
  firings := Array.size_replicate

theorem State.Fits.relax {g : Graph κ} {s : State} (h : s.Fits g) (flag : Flag) (e : Element) :
    (s.relax g flag e).Fits g := by
  cases flag with
  | active =>
      exact ⟨h.active.below (Marking.relax_below g.next e _), h.visited, h.status, h.firings⟩
  | visited =>
      exact ⟨h.active, h.visited.below (Marking.relax_below g.next e _), h.status, h.firings⟩

theorem stable_fits (g : Graph κ) : Stable (τ := τ) (ρ := ρ) g fun s => s.state.Fits g where
  surroundings _ _ _ _ hs := hs
  record _ _ _ hs := hs
  setStatus _ e status hs := ⟨hs.active, hs.visited, hs.status.set e status, hs.firings⟩
  setFiring _ _ _ hs :=
    ⟨hs.active, hs.visited, hs.status, Array.size_setIfInBounds.trans hs.firings⟩
  setDepth _ _ hs := ⟨hs.active, hs.visited, hs.status, hs.firings⟩
  mark _ e hs := ⟨hs.active.set e true, hs.visited.set e true, hs.status, hs.firings⟩
  relax _ flag e hs := hs.relax flag e
  setControl _ _ hs := ⟨hs.active, hs.visited, hs.status, hs.firings⟩
  sweep s hs :=
    ⟨hs.active, hs.visited.below (Marking.foldl_below Marking.clear_below s.state.trail _), hs.status,
      hs.firings⟩
  setQueue _ _ hs := ⟨hs.active, hs.visited, hs.status, hs.firings⟩

theorem Session.Reachable.fits [Clock κ τ] [RandomSource ρ] {g : Graph κ} {s : Session κ τ ρ}
    (h : s.Reachable g) : s.state.Fits g :=
  (stable_fits g).reachable (fun _ _ _ => State.fits_start g) h

end BehaviourGraph
