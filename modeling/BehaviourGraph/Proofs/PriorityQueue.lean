import Mathlib.Algebra.GroupWithZero.Nat
import BehaviourGraph.Proofs.Queue

/-!
# The queue as a stable priority queue

A run of pushes, drains and cancellations is compared with an account of it: a record, without any order
of time, of which entries are pending and of which have been drained or cancelled.  The queue holds what
is pending by time and at equal times in the order of the pushes, and a drain hands out in this order
what is due.
-/

namespace BehaviourGraph

/-! ## Runs of a queue -/

inductive QueueStep where
  | push (due : Float) (node : NodeId)
  | drain (now : Float)
  | cancel (node : NodeId)

/-- What a step gives back: nothing, the nodes it has drained, or how many entries it has cancelled. -/
inductive QueueAnswer where
  | pushed
  | drained (nodes : List NodeId)
  | cancelled (count : Nat)
deriving DecidableEq

def QueueAnswer.nodes : QueueAnswer → List NodeId
  | .drained nodes => nodes
  | _ => []

def QueueAnswer.count : QueueAnswer → Nat
  | .cancelled count => count
  | _ => 0

def ResumeQueue.perform (q : ResumeQueue) : QueueStep → QueueAnswer × ResumeQueue
  | .push due node => (.pushed, q.push due node)
  | .drain now => (.drained (q.drainDue now).1, (q.drainDue now).2)
  | .cancel node => (.cancelled (q.pending node), q.cancel node)

def ResumeQueue.run (q : ResumeQueue) : List QueueStep → List QueueAnswer × ResumeQueue
  | [] => ([], q)
  | step :: steps =>
    let (answer, q) := q.perform step
    let (answers, q) := q.run steps
    (answer :: answers, q)

/-! ## The account of a run -/

/-- Where the entries of a run are, each with the position of its push. -/
structure Account where
  pending : List (Nat × HandOff) := []
  drained : List (Nat × HandOff) := []
  cancelled : List (Nat × HandOff) := []

namespace Account

def entries (a : Account) : List (Nat × HandOff) := a.pending ++ (a.drained ++ a.cancelled)

/-- A push opens an entry; a drain settles what is due and a cancellation what is for its node. -/
def perform (a : Account) (number : Nat) : QueueStep → Account
  | .push due node => { a with pending := (number, ⟨due, node⟩) :: a.pending }
  | .drain now =>
    { a with
      pending := a.pending.filter fun e => !decide (e.2.due ≤ now)
      drained := a.pending.filter (fun e => e.2.due ≤ now) ++ a.drained }
  | .cancel node =>
    { a with
      pending := a.pending.filter fun e => !decide (e.2.node = node)
      cancelled := a.pending.filter (fun e => e.2.node = node) ++ a.cancelled }

def run (a : Account) (number : Nat) : List QueueStep → Account
  | [] => a
  | step :: steps => (a.perform number step).run (number + 1) steps

end Account

def pushes (number : Nat) : List QueueStep → List (Nat × HandOff)
  | [] => []
  | .push due node :: steps => (number, ⟨due, node⟩) :: pushes (number + 1) steps
  | .drain _ :: steps | .cancel _ :: steps => pushes (number + 1) steps

theorem pushes_cons (number : Nat) (step : QueueStep) (steps : List QueueStep) :
    pushes number (step :: steps) = pushes number [step] ++ pushes (number + 1) steps := by
  cases step <;> rfl

theorem le_of_mem_pushes {number : Nat} {steps : List QueueStep} {e : Nat × HandOff}
    (he : e ∈ pushes number steps) : number ≤ e.1 := by
  induction steps generalizing number with
  | nil => cases he
  | cons step steps ih =>
      cases step with
      | push due node =>
          rcases List.mem_cons.mp he with rfl | he
          · exact Nat.le_refl number
          · exact Nat.le_of_succ_le (ih he)
      | drain now => exact Nat.le_of_succ_le (ih he)
      | cancel node => exact Nat.le_of_succ_le (ih he)

theorem nodup_pushes (number : Nat) (steps : List QueueStep) : (pushes number steps).Nodup := by
  induction steps generalizing number with
  | nil => exact .nil
  | cons step steps ih =>
      cases step with
      | push due node =>
          refine List.nodup_cons.mpr ⟨fun hmem => ?_, ih (number + 1)⟩
          have hlater : number + 1 ≤ number := le_of_mem_pushes hmem
          omega
      | drain now => exact ih (number + 1)
      | cancel node => exact ih (number + 1)

namespace Account

/-- Settling entries moves them from one part of an account to another. -/
theorem settle_perm (settles : Nat × HandOff → Bool) (pending front rest : List (Nat × HandOff)) :
    (pending.filter (fun e => !settles e) ++ (front ++ (pending.filter settles ++ rest))).Perm
      (pending ++ (front ++ rest)) :=
  calc pending.filter (fun e => !settles e) ++ (front ++ (pending.filter settles ++ rest))
    _ |>.Perm (pending.filter (fun e => !settles e) ++ (pending.filter settles ++ (front ++ rest))) :=
        (List.perm_append_comm_assoc front _ rest).append_left _
    _ |>.Perm (pending.filter settles ++ (pending.filter (fun e => !settles e) ++ (front ++ rest))) :=
        List.perm_append_comm_assoc _ _ _
    _ |>.Perm (pending ++ (front ++ rest)) := by
        rw [← List.append_assoc]
        exact (List.filter_append_perm settles pending).append_right _

/-- A step adds what it pushes to an account and loses nothing. -/
theorem entries_perform (a : Account) (number : Nat) (step : QueueStep) :
    (a.perform number step).entries.Perm (pushes number [step] ++ a.entries) := by
  cases step with
  | push due node => exact List.Perm.refl _
  | drain now =>
      have hsettled := settle_perm (fun e => e.2.due ≤ now) a.pending [] (a.drained ++ a.cancelled)
      simpa only [Account.perform, Account.entries, pushes, List.nil_append, List.append_assoc] using
        hsettled
  | cancel node => exact settle_perm (fun e => e.2.node = node) a.pending a.drained a.cancelled

theorem entries_run (a : Account) (number : Nat) (steps : List QueueStep) :
    (a.run number steps).entries.Perm (pushes number steps ++ a.entries) := by
  induction steps generalizing a number with
  | nil => exact List.Perm.refl _
  | cons step steps ih =>
      rw [pushes_cons, List.append_assoc]
      calc ((a.perform number step).run (number + 1) steps).entries
        _ |>.Perm (pushes (number + 1) steps ++ (a.perform number step).entries) := ih _ _
        _ |>.Perm (pushes (number + 1) steps ++ (pushes number [step] ++ a.entries)) :=
            (a.entries_perform number step).append_left _
        _ |>.Perm (pushes number [step] ++ (pushes (number + 1) steps ++ a.entries)) :=
            List.perm_append_comm_assoc _ _ _

end Account

/-! ## The queue against the account -/

structure ResumeQueue.Holds (q : ResumeQueue) (a : Account) (bound : Nat)
    (order : List (Nat × HandOff)) : Prop where
  numbered : q.Numbered order
  perm : order.Perm a.pending
  below : ∀ e ∈ order, e.1 < bound

namespace ResumeQueue

variable {q : ResumeQueue} {a : Account} {number : Nat} {order : List (Nat × HandOff)}

namespace Holds

theorem push (h : q.Holds a number order) {due : Float} (hdue : due.isNaN = false) (node : NodeId) :
    (q.push due node).Holds (a.perform number (.push due node)) (number + 1)
      (order.filter (fun e => e.2.due ≤ due) ++
        (number, ⟨due, node⟩) :: order.filter fun e => !decide (e.2.due ≤ due)) where
  numbered := h.numbered.push (p := ⟨due, node⟩) hdue h.below
  perm := by
    apply List.perm_middle.trans
    apply List.Perm.cons
    exact (List.filter_append_perm _ order).trans h.perm
  below := forall_mem_insert (Nat.lt_succ_self number) fun e he => Nat.lt_succ_of_lt (h.below e he)

/-- A queue and an account that lose the same entries agree on the others. -/
theorem settle (h : q.Holds a number order) (settles : HandOff → Bool) {q' : ResumeQueue}
    {a' : Account} (hq : q'.entries = q.entries.filter fun p => !settles p)
    (ha : a'.pending = a.pending.filter fun e => !settles e.2) :
    q'.Holds a' (number + 1) (order.filter fun e => !settles e.2) where
  numbered := by
    obtain rfl : q' = ⟨q.entries.filter fun p => !settles p⟩ := congrArg ResumeQueue.mk hq
    exact h.numbered.filter _
  perm := by
    rw [ha]
    exact h.perm.filter _
  below e he := Nat.lt_succ_of_lt (h.below e (List.mem_filter.mp he).1)

theorem perform (h : q.Holds a number order) {step : QueueStep}
    (hnumber : ∀ due node, step = .push due node → due.isNaN = false) :
    ∃ order', (q.perform step).2.Holds (a.perform number step) (number + 1) order' := by
  cases step with
  | push due node => exact ⟨_, h.push (hnumber due node rfl) node⟩
  | drain now =>
      refine ⟨_, h.settle (fun p => p.due ≤ now) ?_ rfl⟩
      rw [ResumeQueue.perform, h.numbered.orderly.drainDue_eq]
  | cancel node =>
      refine ⟨_, h.settle (fun p => p.node = node) ?_ rfl⟩
      simp [ResumeQueue.perform, cancel]

/-- What a step hands out and cancels is what it settles in the account. -/
theorem answer (h : q.Holds a number order) (step : QueueStep) :
    ((a.perform number step).drained.map fun e => e.2.node).Perm
        ((q.perform step).1.nodes ++ a.drained.map fun e => e.2.node) ∧
      (a.perform number step).cancelled.length = (q.perform step).1.count + a.cancelled.length := by
  cases step with
  | push due node => exact ⟨List.Perm.refl _, (Nat.zero_add _).symm⟩
  | drain now =>
      refine ⟨?_, (Nat.zero_add _).symm⟩
      simp only [Account.perform, ResumeQueue.perform, QueueAnswer.nodes, h.numbered.drainDue_eq,
        List.map_append]
      exact ((h.perm.filter _).map _).symm.append_right _
  | cancel node =>
      refine ⟨List.Perm.refl _, ?_⟩
      simp only [Account.perform, ResumeQueue.perform, QueueAnswer.count, h.numbered.pending_eq,
        List.length_append, ← List.countP_eq_length_filter, h.perm.countP_eq]

/-- A run and its account stay together, and the answers of the run are what the account settles. -/
theorem run (h : q.Holds a number order) {steps : List QueueStep}
    (hnumbers : ∀ due node, .push due node ∈ steps → due.isNaN = false) :
    (∃ order', (q.run steps).2.Holds (a.run number steps) (number + steps.length) order') ∧
      ((a.run number steps).drained.map fun e => e.2.node).Perm
        ((q.run steps).1.flatMap QueueAnswer.nodes ++ a.drained.map fun e => e.2.node) ∧
      (a.run number steps).cancelled.length =
        ((q.run steps).1.map QueueAnswer.count).sum + a.cancelled.length := by
  induction steps generalizing q a number order with
  | nil => exact ⟨⟨order, h⟩, List.Perm.refl _, (Nat.zero_add _).symm⟩
  | cons step steps ih =>
      have hfirst (due : Float) (node : NodeId) (hstep : step = .push due node) :
          due.isNaN = false := hnumbers due node (hstep ▸ List.mem_cons_self)
      obtain ⟨order', h'⟩ := h.perform hfirst
      obtain ⟨hnodes, hcount⟩ := h.answer step
      obtain ⟨hheld, hdrained, hcancelled⟩ :=
        ih h' fun due node hmem => hnumbers due node (List.mem_cons_of_mem step hmem)
      refine ⟨?_, ?_, ?_⟩
      · rw [List.length_cons, Nat.add_comm steps.length 1, ← Nat.add_assoc]
        exact hheld
      · refine hdrained.trans ?_
        rw [ResumeQueue.run, List.flatMap_cons, List.append_assoc]
        exact (hnodes.append_left _).trans (List.perm_append_comm_assoc _ _ _)
      · rw [Account.run, hcancelled, hcount, ResumeQueue.run, List.map_cons, List.sum_cons]
        omega

end Holds

/-- The first entry is due at the least pending time. -/
theorem Numbered.nextDue_spec (h : q.Numbered order) :
    (q.nextDue = none ↔ order = []) ∧
      ∀ due, q.nextDue = some due →
        (∃ e ∈ order, e.2.due = due) ∧ ∀ e ∈ order, due ≤ e.2.due := by
  rw [nextDue, h.entries]
  cases order with
  | nil => simp
  | cons first rest =>
      have hfirst : first.2.due ≤ first.2.due := float_le_refl (h.numbers first List.mem_cons_self)
      refine ⟨by simp, fun due hdue => ?_⟩
      obtain rfl : first.2.due = due := by simpa using hdue
      refine ⟨⟨first, List.mem_cons_self, rfl⟩, fun e he => ?_⟩
      rcases List.mem_cons.mp he with rfl | he
      · exact hfirst
      · exact ((List.pairwise_cons.mp h.sorted).1 e he).due_le

end ResumeQueue

/-! ## The contract -/

/-- After any run of a queue that begins empty, its entries are those pending, by time and at equal times
in the order of the pushes.  A drain hands out in this order just what is due and leaves the rest; a
cancellation takes out and counts the entries of its node; the next time is the least one pending.  Every
pushed entry is pending, drained or cancelled, in one place and once, and the drains and cancellations of
the run have handed out and counted just what was drained and cancelled. -/
theorem queue_refines_stable_order (steps : List QueueStep)
    (hnumbers : ∀ due node, .push due node ∈ steps → due.isNaN = false) :
    let answers := (ResumeQueue.run {} steps).1
    let q := (ResumeQueue.run {} steps).2
    let a := Account.run {} 0 steps
    (pushes 0 steps).Nodup ∧ (a.pending ++ (a.drained ++ a.cancelled)).Perm (pushes 0 steps) ∧
      (a.drained.map fun e => e.2.node).Perm (answers.flatMap QueueAnswer.nodes) ∧
      a.cancelled.length = (answers.map QueueAnswer.count).sum ∧
      ∃ order, order.Perm a.pending ∧ order.Pairwise Precedes ∧ q.entries = order.map Prod.snd ∧
        (∀ now, q.drainDue now =
          ((order.filter fun e => e.2.due ≤ now).map fun e => e.2.node,
            ⟨(order.filter fun e => !decide (e.2.due ≤ now)).map Prod.snd⟩)) ∧
        (∀ node, q.pending node + (q.cancel node).length = q.length ∧
          q.pending node = (order.countP fun e => e.2.node = node) ∧
          (q.cancel node).entries = (order.filter fun e => e.2.node ≠ node).map Prod.snd) ∧
        (q.nextDue = none ↔ order = []) ∧
        ∀ due, q.nextDue = some due → (∃ e ∈ order, e.2.due = due) ∧ ∀ e ∈ order, due ≤ e.2.due := by
  intro answers q a
  have hempty : ({} : ResumeQueue).Holds {} 0 [] :=
    ⟨.empty, List.Perm.refl _, fun e he => absurd he List.not_mem_nil⟩
  obtain ⟨⟨order, hheld⟩, hdrained, hcancelled⟩ := hempty.run hnumbers
  have hentries : a.entries.Perm (pushes 0 steps ++ Account.entries {}) := Account.entries_run {} 0 steps
  have hcancel (node : NodeId) :
      (q.cancel node).entries = (order.filter fun e => e.2.node ≠ node).map Prod.snd := by
    rw [ResumeQueue.cancel, hheld.numbered.entries, List.filter_map]
    rfl
  rw [List.map_nil, List.append_nil] at hdrained
  refine ⟨nodup_pushes 0 steps, ?_, hdrained, hcancelled, order, hheld.perm, hheld.numbered.sorted,
    hheld.numbered.entries, hheld.numbered.drainDue_eq,
    fun node => ⟨q.length_cancel node, hheld.numbered.pending_eq node, hcancel node⟩,
    hheld.numbered.nextDue_spec⟩
  simpa only [Account.entries, List.append_nil] using hentries

/-- Both zeros, an infinite time, a drain at a time that is no number and a node that is cancelled. -/
def mixedSteps : List QueueStep :=
  [.push 1.0 ⟨1⟩, .push 0.0 ⟨2⟩, .push (-0.0) ⟨3⟩, .push (1.0 / 0.0) ⟨4⟩, .drain (0.0 / 0.0),
    .drain (-0.0), .push 0.5 ⟨4⟩, .cancel ⟨4⟩]

theorem mixedSteps_answered :
    (ResumeQueue.run {} mixedSteps).1 =
        [.pushed, .pushed, .pushed, .pushed, .drained [], .drained [⟨2⟩, ⟨3⟩], .pushed, .cancelled 2] ∧
      ((Account.run {} 0 mixedSteps).drained.map fun e => e.2.node).Perm [⟨2⟩, ⟨3⟩] ∧
      (Account.run {} 0 mixedSteps).cancelled.length = 2 ∧
      ∃ order : List (Nat × HandOff),
        order.Perm (Account.run {} 0 mixedSteps).pending ∧ order.Pairwise Precedes ∧
          (ResumeQueue.run {} mixedSteps).2.entries = order.map Prod.snd := by
  have hnumbers (due : Float) (node : NodeId) (hpush : .push due node ∈ mixedSteps) :
      due.isNaN = false := by
    simp only [mixedSteps, List.mem_cons, List.not_mem_nil, or_false, QueueStep.push.injEq,
      reduceCtorEq, false_or] at hpush
    rcases hpush with ⟨rfl, rfl⟩ | ⟨rfl, rfl⟩ | ⟨rfl, rfl⟩ | ⟨rfl, rfl⟩ | ⟨rfl, rfl⟩ <;>
      decide +kernel
  obtain ⟨_, _, hdrained, hcancelled, order, hperm, hsorted, hentries, _⟩ :=
    queue_refines_stable_order mixedSteps hnumbers
  have hanswers : (ResumeQueue.run {} mixedSteps).1 =
      [.pushed, .pushed, .pushed, .pushed, .drained [], .drained [⟨2⟩, ⟨3⟩], .pushed,
        .cancelled 2] := by decide +kernel
  rw [hanswers] at hdrained hcancelled
  exact ⟨hanswers, hdrained, hcancelled, order, hperm, hsorted, hentries⟩

end BehaviourGraph
