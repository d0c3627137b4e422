import BehaviourGraph.Identifier
import BehaviourGraph.PartitionPoint

/-!
# Timed hand-offs

A queue of nodes that take control once the clock reaches a time.  The earliest comes first; equal times
keep the order in which they were scheduled.
-/

namespace BehaviourGraph

structure HandOff where
  due : Float
  node : NodeId

/-- The pending hand-offs, earliest first. -/
structure ResumeQueue where
  entries : List HandOff := []

namespace ResumeQueue

instance : Inhabited ResumeQueue := ⟨{}⟩

def isEmpty (q : ResumeQueue) : Bool := q.entries.isEmpty

def length (q : ResumeQueue) : Nat := q.entries.length

/-- Where the entries due at or before a time end. -/
def dueCount (q : ResumeQueue) (now : Float) : Nat :=
  partitionPoint (fun e => e.due ≤ now) q.entries

/-- Schedule a node, behind the entries of the same time. -/
def push (q : ResumeQueue) (due : Float) (node : NodeId) : ResumeQueue :=
  let position := q.dueCount due
  ⟨q.entries.take position ++ ⟨due, node⟩ :: q.entries.drop position⟩

/-- The nodes due at or before a time, earliest first, and the queue without them. -/
def drainDue (q : ResumeQueue) (now : Float) : List NodeId × ResumeQueue :=
  let count := q.dueCount now
  ((q.entries.take count).map HandOff.node, ⟨q.entries.drop count⟩)

def nextDue (q : ResumeQueue) : Option Float := q.entries.head?.map HandOff.due

/-- The queue without the entries of a node. -/
def cancel (q : ResumeQueue) (node : NodeId) : ResumeQueue :=
  ⟨q.entries.filter fun e => e.node ≠ node⟩

def pending (q : ResumeQueue) (node : NodeId) : Nat :=
  q.entries.countP fun e => e.node = node

theorem length_cancel (q : ResumeQueue) (node : NodeId) :
    q.pending node + (q.cancel node).length = q.length := by
  have split := List.length_eq_countP_add_countP (fun e : HandOff => e.node = node) (l := q.entries)
  simp only [pending, cancel, length]
  rw [split, ← List.countP_eq_length_filter]
  simp

end ResumeQueue

end BehaviourGraph
