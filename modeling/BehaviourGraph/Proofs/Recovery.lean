import BehaviourGraph.Proofs.Boundary

/-!
# Recovery after a broken walk

A walk that breaks off leaves visited flags, a trail and node ticks in progress.  All flags it leaves
are on the trail, so the sweep that the next tick begins with takes them down.  The due hand-offs come
before the number of node ticks in progress is set back, but do not look at it.  So the walk of that
tick begins as if nothing had been left, and nothing that the host can tell apart depends on it.
-/

namespace BehaviourGraph

variable {κ τ ρ : Type}

/-- The state without what a broken walk leaves behind. -/
def State.recovered (s : State) : State :=
  { s with
    visited := .empty s.visited.nodes.size s.visited.transitions.size
    trail := []
    depth := 0 }

def State.setDepth (depth : Nat) (s : State) : State := { s with depth }

namespace State

theorem visited_sweep {s : State} (hs : s.Recorded) :
    s.sweep.visited = .empty s.visited.nodes.size s.visited.transitions.size := by
  have hbelow : s.sweep.visited.Below s.visited := Marking.foldl_below Marking.clear_below s.trail _
  have hnodes : s.sweep.visited.nodes.size =
      (Marking.empty s.visited.nodes.size s.visited.transitions.size).nodes.size :=
    hbelow.nodes.trans Array.size_replicate.symm
  have htransitions : s.sweep.visited.transitions.size =
      (Marking.empty s.visited.nodes.size s.visited.transitions.size).transitions.size :=
    hbelow.transitions.trans Array.size_replicate.symm
  apply Marking.Below.antisymm
  · refine ⟨fun e he => ?_, hnodes, htransitions⟩
    have hdown : s.sweep.visited.has e = false := hs.unvisited_sweep e
    rw [hdown] at he
    cases he
  · refine ⟨fun e he => ?_, hnodes.symm, htransitions.symm⟩
    rw [Marking.has_empty] at he
    cases he

theorem sweep_recovered {s : State} (hs : s.Recorded) : s.recovered.sweep = s.sweep.setDepth 0 := by
  have hvisited := visited_sweep hs
  simp only [sweep, recovered, setDepth, List.foldl_nil] at hvisited ⊢
  rw [hvisited]

end State

/-! ## Where the walk begins -/

namespace Session

theorem switchTo_setDepth (g : Graph κ) (id : NodeId) (depth : Nat) (s : Session κ τ ρ) :
    (s.change (State.setDepth depth)).switchTo g id =
      (s.switchTo g id).change (State.setDepth depth) := by
  unfold switchTo
  dsimp only [change, State.setDepth]
  split <;> rfl

theorem handOver_setDepth (g : Graph κ) (now : Float) (depth : Nat) (s : Session κ τ ρ) :
    (s.change (State.setDepth depth)).handOver g now =
      (s.handOver g now).change (State.setDepth depth) := by
  have hfold (due : List NodeId) (s : Session κ τ ρ) :
      due.foldl (fun s id => s.switchTo g id) (s.change (State.setDepth depth)) =
        (due.foldl (fun s id => s.switchTo g id) s).change (State.setDepth depth) := by
    induction due generalizing s with
    | nil => rfl
    | cons id due ih => rw [List.foldl_cons, List.foldl_cons, switchTo_setDepth, ih]
  exact hfold (s.state.queue.drainDue now).1
    (s.change fun a => { a with queue := (s.state.queue.drainDue now).2 })

theorem walkStart_recovered [Clock κ τ] (g : Graph κ) {s : Session κ τ ρ} (hs : s.state.Recorded) :
    (s.change State.recovered).walkStart g = s.walkStart g := by
  have hswept (clock : τ) : { (s.change State.recovered).change State.sweep with clock } =
      { s.change State.sweep with clock }.change (State.setDepth 0) := by
    simp only [change, State.sweep_recovered hs]
  unfold walkStart
  dsimp only
  rw [hswept, handOver_setDepth]
  rfl

end Session

/-- What broken walks have left behind in a reachable session makes no difference to a tick: it has
the same response and ends in the same session as without it. -/
theorem perform_tick_recovered [Clock κ τ] [RandomSource ρ] (g : Graph κ) (s : Session κ τ ρ)
    (hs : s.Reachable g) :
    s.perform g .tick = (s.change State.recovered).perform g .tick := by
  have hwalk : Walk.tick g (s.change State.recovered) = Walk.tick g s := by
    rw [Walk.tick_eq, Walk.tick_eq, Session.walkStart_recovered g hs.recorded]
  simp only [Session.perform, Session.run, hwalk]

theorem faltered_recovers :
    falteredSession.state.has .visited (.node ⟨1⟩) = true ∧ falteredSession.state.depth = 2 ∧
      falteredSession.perform falteringGraph .tick =
        (falteredSession.change State.recovered).perform falteringGraph .tick ∧
      (falteredSession.perform falteringGraph .tick).1.isDone = true := by
  have hreach : falteredSession.Reachable falteringGraph :=
    .perform .tick (.start 0 (ManualClock.mk 0.0) (Xoshiro.ofSeed 0))
  exact ⟨by decide +kernel, by decide +kernel, perform_tick_recovered _ _ hreach, by decide +kernel⟩

end BehaviourGraph
