import BehaviourGraph.Proofs.FloatOrder
import BehaviourGraph.Proofs.Halving
import BehaviourGraph.Run.ResumeQueue

/-!
# The queue of hand-offs

The queue looks for positions by halving, which finds the right one only while the entries that are due
come first.  They do as long as the times are numbers and the queue is in their order.  Pushing then puts
an entry behind all that are due no later, and draining takes out all that is due.
-/

namespace BehaviourGraph

/-! ## Queues in order of time -/

structure ResumeQueue.Orderly (q : ResumeQueue) : Prop where
  numbers : ∀ e ∈ q.entries, e.due.isNaN = false
  sorted : q.entries.Pairwise fun a b => a.due ≤ b.due

namespace ResumeQueue.Orderly

variable {q : ResumeQueue} (h : q.Orderly)
include h

theorem leading (now : Float) : Leading (fun e => decide (e.due ≤ now)) q.entries := by
  refine h.sorted.imp fun {a b} hab hb => ?_
  rw [decide_eq_true_iff] at hb ⊢
  exact float_le_trans hab hb

theorem entries_push (due : Float) (node : NodeId) :
    (q.push due node).entries =
      q.entries.filter (fun e => e.due ≤ due) ++
        ⟨due, node⟩ :: q.entries.filter fun e => !decide (e.due ≤ due) := by
  simp only [push, dueCount, (h.leading due).take_partitionPoint, (h.leading due).drop_partitionPoint]

theorem drainDue_eq (now : Float) :
    q.drainDue now =
      ((q.entries.filter fun e => e.due ≤ now).map HandOff.node,
        ⟨q.entries.filter fun e => !decide (e.due ≤ now)⟩) := by
  simp only [drainDue, dueCount, (h.leading now).take_partitionPoint,
    (h.leading now).drop_partitionPoint]

theorem push {due : Float} (hdue : due.isNaN = false) (node : NodeId) : (q.push due node).Orderly where
  numbers := by
    rw [h.entries_push]
    exact forall_mem_insert hdue h.numbers
  sorted := by
    rw [h.entries_push]
    apply (h.leading due).pairwise_insert h.sorted
    · intro e _ hdue'
      exact decide_eq_true_iff.mp hdue'
    · intro e he hlate
      have hlater := (not_float_le (h.numbers e he) hdue).mp (decide_eq_false_iff_not.mp hlate)
      exact float_le_iff_lt_or_beq.mpr (.inl hlater)

theorem filter (keep : HandOff → Bool) : (ResumeQueue.mk (q.entries.filter keep)).Orderly where
  numbers e he := h.numbers e (List.mem_filter.mp he).1
  sorted := h.sorted.filter _

end ResumeQueue.Orderly

/-! ## Numbered queues -/

/-- The order of hand-offs with the positions of their requests: by time, then by position. -/
def Precedes (a b : Nat × HandOff) : Prop :=
  a.2.due < b.2.due ∨ (a.2.due == b.2.due) = true ∧ a.1 < b.1

theorem Precedes.due_le {a b : Nat × HandOff} (h : Precedes a b) : a.2.due ≤ b.2.due :=
  float_le_iff_lt_or_beq.mpr (h.imp_right And.left)

structure ResumeQueue.Numbered (q : ResumeQueue) (order : List (Nat × HandOff)) : Prop where
  entries : q.entries = order.map Prod.snd
  numbers : ∀ e ∈ order, e.2.due.isNaN = false
  sorted : order.Pairwise Precedes

namespace ResumeQueue.Numbered

variable {q : ResumeQueue} {order : List (Nat × HandOff)}

theorem empty : ({} : ResumeQueue).Numbered [] := ⟨rfl, nofun, .nil⟩

theorem orderly (h : q.Numbered order) : q.Orderly where
  numbers := by
    rw [h.entries]
    intro p hp
    obtain ⟨e, he, rfl⟩ := List.mem_map.mp hp
    exact h.numbers e he
  sorted := by
    rw [h.entries, List.pairwise_map]
    exact h.sorted.imp Precedes.due_le

theorem leading (h : q.Numbered order) (now : Float) :
    Leading (fun e => decide (e.2.due ≤ now)) order := by
  have hleading := h.orderly.leading now
  rwa [h.entries, Leading, List.pairwise_map] at hleading

/-- An entry with a later number goes behind all that are due no later. -/
theorem push (h : q.Numbered order) {number : Nat} {p : HandOff} (hp : p.due.isNaN = false)
    (hlater : ∀ e ∈ order, e.1 < number) :
    (q.push p.due p.node).Numbered
      (order.filter (fun e => e.2.due ≤ p.due) ++
        (number, p) :: order.filter fun e => !decide (e.2.due ≤ p.due)) where
  entries := by
    rw [h.orderly.entries_push, h.entries]
    simp only [List.filter_map, List.map_append, List.map_cons]
    rfl
  numbers := forall_mem_insert hp h.numbers
  sorted := by
    apply (h.leading p.due).pairwise_insert h.sorted
    · intro e he hdue
      rw [decide_eq_true_iff, float_le_iff_lt_or_beq] at hdue
      exact hdue.imp_right fun hsame => ⟨hsame, hlater e he⟩
    · intro e he hlate
      exact .inl ((not_float_le (h.numbers e he) hp).mp (decide_eq_false_iff_not.mp hlate))

/-- Entries that are taken out leave the order of the others as it is. -/
theorem filter (h : q.Numbered order) (keep : HandOff → Bool) :
    (ResumeQueue.mk (q.entries.filter keep)).Numbered (order.filter fun e => keep e.2) where
  entries := by
    rw [h.entries, List.filter_map]
    rfl
  numbers e he := h.numbers e (List.mem_filter.mp he).1
  sorted := h.sorted.filter _

theorem drainDue_eq (h : q.Numbered order) (now : Float) :
    q.drainDue now =
      ((order.filter fun e => e.2.due ≤ now).map fun e => e.2.node,
        ⟨(order.filter fun e => !decide (e.2.due ≤ now)).map Prod.snd⟩) := by
  rw [h.orderly.drainDue_eq, h.entries, List.filter_map, List.filter_map, List.map_map]
  rfl

theorem pending_eq (h : q.Numbered order) (node : NodeId) :
    q.pending node = order.countP fun e => e.2.node = node := by
  rw [pending, h.entries, List.countP_map]
  rfl

end ResumeQueue.Numbered

end BehaviourGraph
