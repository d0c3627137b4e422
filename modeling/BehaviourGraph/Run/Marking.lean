import BehaviourGraph.Identifier

/-!
# Markings

A value for every node and transition, and in particular a flag.  Relaxing an element takes its flag
down and goes on to what comes next, as long as it finds flags.  Every step down takes a flag, so the
number of elements bounds the descent.
-/

namespace BehaviourGraph

/-- A value for every element of a graph. -/
structure ElementMap (α : Type) where
  nodes : Array α
  transitions : Array α

namespace ElementMap

variable {α : Type}

def constant (nodes transitions : Nat) (a : α) : ElementMap α :=
  ⟨.replicate nodes a, .replicate transitions a⟩

/-- The value of an element; `default` outside the graph. -/
def get [Inhabited α] (m : ElementMap α) : Element → α
  | .node id => (m.nodes[id.index]?).getD default
  | .transition id => (m.transitions[id.index]?).getD default

/-- Whether the map has a place for an element. -/
def holds (m : ElementMap α) : Element → Prop
  | .node id => id.index < m.nodes.size
  | .transition id => id.index < m.transitions.size

/-- Give an element a value; outside the graph nothing changes. -/
def set (m : ElementMap α) (e : Element) (a : α) : ElementMap α :=
  match e with
  | .node id => { m with nodes := m.nodes.setIfInBounds id.index a }
  | .transition id => { m with transitions := m.transitions.setIfInBounds id.index a }

def size (m : ElementMap α) : Nat := m.nodes.size + m.transitions.size

theorem get_set_self [Inhabited α] (m : ElementMap α) (e : Element) (a : α) (h : m.holds e) :
    (m.set e a).get e = a := by
  cases e <;> simp_all [set, get, holds]

theorem get_set_of_ne [Inhabited α] (m : ElementMap α) {e f : Element} (a : α) (h : e ≠ f) :
    (m.set e a).get f = m.get f := by
  cases e with
  | node i =>
      cases f with
      | node j =>
          have hne : i.index ≠ j.index := fun hij => h (by cases i; cases j; simp_all)
          simp [set, get, hne]
      | transition j => rfl
  | transition i =>
      cases f with
      | node j => rfl
      | transition j =>
          have hne : i.index ≠ j.index := fun hij => h (by cases i; cases j; simp_all)
          simp [set, get, hne]

end ElementMap

/-- A set of elements, as a flag for each. -/
abbrev Marking := ElementMap Bool

namespace Marking

def empty (nodes transitions : Nat) : Marking := .constant nodes transitions false

def has (m : Marking) (e : Element) : Bool := m.get e

def raise (m : Marking) (e : Element) : Marking := m.set e true

def clear (m : Marking) (e : Element) : Marking := m.set e false

/-- Take down the flag of an element and what follows it, at most `depth` elements deep. -/
def cascade (next : Element → List Element) : Nat → Element → Marking → Marking
  | 0, _, m => m
  | depth + 1, e, m =>
    if m.has e then (next e).foldl (fun m f => cascade next depth f m) (m.clear e) else m

/-- Take down the flag of an element, and of what comes next as long as flags are up. -/
def relax (next : Element → List Element) (e : Element) (m : Marking) : Marking :=
  cascade next m.size e m

theorem has_clear_self (m : Marking) (e : Element) : (m.clear e).has e = false := by
  cases e with
  | node i =>
      by_cases h : i.index < m.nodes.size <;> simp [has, clear, ElementMap.set, ElementMap.get, h]
  | transition i =>
      by_cases h : i.index < m.transitions.size <;>
        simp [has, clear, ElementMap.set, ElementMap.get, h]

theorem has_clear_of_ne (m : Marking) {e f : Element} (h : e ≠ f) :
    (m.clear e).has f = m.has f :=
  m.get_set_of_ne false h

theorem relax_of_not_has (next : Element → List Element) {e : Element} {m : Marking}
    (h : m.has e = false) : m.relax next e = m := by
  unfold relax
  cases m.size <;> simp [cascade, h]

end Marking

end BehaviourGraph
